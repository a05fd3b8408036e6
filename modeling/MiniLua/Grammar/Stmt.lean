import MiniLua.Grammar.Expr
/-!
# Statements

    block = {stmt}
    stmt  = name "=" expr | name ("(" | "." | ":" | binop) ...
          | "function" name params block "end"
          | "local" name ["=" expr] | "local" "function" name params block "end"
          | "return" [expr {"," expr}]
          | "if" expr "then" block {"elseif" expr "then" block} ["else" block] "end"
          | "while" expr "do" block "end"
          | "repeat" block "until" expr
          | "for" name "=" expr "," expr ["," expr] "do" block "end"
          | "for" name ["," name] "in" expr "do" block "end"

The first token decides which statement it is, for a statement that starts with
a name the second one. A block ends at the end of the input or before a keyword
that closes it, which is left to whoever opened it.
-/

namespace MiniLua

/-- Whether a token is a keyword that closes a block. -/
def Token.closesBlock (t : Token) : Bool :=
  t.kind = .keyword && t.value ∈ ["end", "else", "elseif", "until"]

/-- The keywords that a statement starts with. -/
inductive StmtHead
  | function
  | localVar
  | ret
  | ifThen
  | forLoop
  | whileLoop
  | repeatLoop
deriving DecidableEq, Repr

/-- The head written so. -/
def StmtHead.ofText? : String → Option StmtHead
  | "function" => some function
  | "local" => some localVar
  | "return" => some ret
  | "if" => some ifThen
  | "for" => some forLoop
  | "while" => some whileLoop
  | "repeat" => some repeatLoop
  | _ => none

namespace Parser

variable (inner : Inner)

/-! ## Functions and variables -/

/-- A function with a name, up to its `end`. -/
def namedFunction : Parser (String × List String × List Stmt) := do
  let _ ← keyword "function"
  let name ← name
  let body ← functionBody inner
  pure (name, body)

/-- The definition of a function. -/
def definition : Parser Expr := do
  let f ← namedFunction inner
  pure (.definition f.1 f.2.1 f.2.2)

/-- A function definition that stands as a statement. -/
def functionStmt : Parser Stmt := Stmt.expr <$> definition inner

/-- The name behind the next token, or no text if there is none. -/
def secondName : List Token → String
  | _ :: t :: _ => if t.kind = .identifier then t.value else ""
  | _ => ""

/-- That name, with the tokens left where they are. -/
def peekName : Parser String := fun ts => .ok (secondName ts, ts)

/-- A local function, which is declared by the name that is seen before its definition is read. -/
def localFunction : Parser Stmt := do
  let name ← peekName
  let f ← definition inner
  pure (.localVar name (some f))

/-- A function has the name that stands behind its keyword. -/
theorem namedFunction_name {ts us : List Token} {f : String × List String × List Stmt}
    (h : namedFunction inner ts = .ok (f, us)) :
    ∃ t, ts[1]? = some t ∧ t.kind = .identifier ∧ t.value = f.1 ∧ secondName ts = t.value := by
  obtain ⟨_, _, hkey, h⟩ := bind_eq_ok.1 h
  obtain ⟨_, _, hname, h⟩ := bind_eq_ok.1 h
  obtain ⟨_, _, _, h⟩ := bind_eq_ok.1 h
  cases h
  obtain ⟨t, _, ht, hx⟩ := bind_eq_ok.1 hname
  cases hx
  obtain ⟨rfl, -⟩ := satisfy_eq_ok.1 hkey
  obtain ⟨rfl, hkind⟩ := satisfy_eq_ok.1 ht
  have hkind := of_decide_eq_true hkind
  exact ⟨t, rfl, hkind, rfl, if_pos hkind⟩

/-- So a local function is declared by its own name. -/
theorem localFunction_eq : localFunction inner = (do
    let f ← namedFunction inner
    pure (Stmt.localVar f.1 (some (.definition f.1 f.2.1 f.2.2)))) := by
  funext ts
  simp only [localFunction, peekName, definition, bind_run]
  cases h : namedFunction inner ts with
  | error e => rfl
  | ok r =>
    obtain ⟨t, -, -, hvalue, hname⟩ := namedFunction_name inner h
    rw [hname, hvalue]
    rfl

/-- A local variable, or a local function. -/
def localStmt : Parser Stmt := do
  let _ ← keyword "local"
  if ← check (·.isKeyword "function") then localFunction inner
  else
    let name ← name
    if ← check (·.isOperator "=") then
      let _ ← next
      let init ← inner.expr .lowest
      pure (.localVar name (some init))
    else pure (.localVar name none)

/-- The assignment of a value to a variable. -/
def assignment : Parser Stmt := do
  let target ← name
  let _ ← operator "="
  let value ← inner.expr .lowest
  pure (.assign target value)

/-! ## Control -/

/-- A `return`; its values start at once unless the block ends here. -/
def returnStmt : Parser Stmt := do
  let _ ← keyword "return"
  if ← check (!·.closesBlock) then
    let values ← separated (inner.expr .lowest)
    pure (.ret values)
  else pure (.ret [])

/-- A condition and the block it guards. -/
def guarded : Parser (Expr × List Stmt) := do
  let condition ← inner.expr .lowest
  let _ ← keyword "then"
  let body ← inner.block
  pure (condition, body)

/-- One `elseif` arm. -/
def branch : Parser Branch := do
  let _ ← next
  let arm ← guarded inner
  pure (.mk arm.1 arm.2)

/-- The statements after `else`, if there is one. -/
def otherwise : Parser (List Stmt) := do
  if ← check (·.isKeyword "else") then
    let _ ← next
    inner.block
  else pure []

def ifStmt : Parser Stmt := do
  let _ ← keyword "if"
  let arm ← guarded inner
  let elseifs ← many (·.isKeyword "elseif") (branch inner)
  let rest ← otherwise inner
  let _ ← keyword "end"
  pure (.ifThen arm.1 arm.2 elseifs rest)

/-- The block of a loop between `do` and `end`. -/
def loopBody : Parser (List Stmt) := do
  let _ ← keyword "do"
  let body ← inner.block
  let _ ← keyword "end"
  pure body

def whileStmt : Parser Stmt := do
  let _ ← keyword "while"
  let condition ← inner.expr .lowest
  let body ← loopBody inner
  pure (.whileLoop condition body)

def repeatStmt : Parser Stmt := do
  let _ ← keyword "repeat"
  let body ← inner.block
  let _ ← keyword "until"
  let condition ← inner.expr .lowest
  pure (.repeatLoop body condition)

/-- The step of a numeric loop, if there is one. -/
def step : Parser (Option Expr) := do
  if ← check (·.isSymbol ",") then
    let _ ← next
    let e ← inner.expr .lowest
    pure (some e)
  else pure none

/-- A loop over a range of numbers, after its variable. -/
def forRange (name : String) : Parser Stmt := do
  let _ ← next
  let start ← inner.expr .lowest
  let _ ← symbol ","
  let limit ← inner.expr .lowest
  let step ← step inner
  let body ← loopBody inner
  pure (.forRange name start limit step body)

/-- The second variable of a loop over an iterator, if there is one. -/
def valueName : Parser (Option String) := do
  if ← check (·.isSymbol ",") then
    let _ ← next
    let name ← name
    pure (some name)
  else if ← check (·.isKeyword "in") then pure none
  else fail (.expected .loopHeader)

/-- A loop over an iterator, after its first variable. -/
def forIn (key : String) : Parser Stmt := do
  let value ← valueName
  let _ ← keyword "in"
  let iterator ← inner.expr .lowest
  let body ← loopBody inner
  pure (.forIn key value iterator body)

def forStmt : Parser Stmt := do
  let _ ← keyword "for"
  let name ← name
  if ← check (·.isOperator "=") then forRange inner name
  else forIn inner name

/-! ## Any statement -/

/-- The statement of a head. -/
def headed : StmtHead → Parser Stmt
  | .function => functionStmt inner
  | .localVar => localStmt inner
  | .ret => returnStmt inner
  | .ifThen => ifStmt inner
  | .forLoop => forStmt inner
  | .whileLoop => whileStmt inner
  | .repeatLoop => repeatStmt inner

/-- Whether a token after a name makes it the start of an expression. -/
def continuesExpr (t : Token) : Bool :=
  t.isSymbol "(" || t.isSymbol "." || t.isSymbol ":" || (BinaryOp.ofToken? t).isSome

/-- A statement that starts with a name. -/
def nameStmt : Parser Stmt
  | t :: u :: rest =>
    if u.isOperator "=" then assignment inner (t :: u :: rest)
    else if continuesExpr u then (Stmt.expr <$> inner.expr .lowest) (t :: u :: rest)
    else (do
      let _ ← next
      unexpectedToken) (t :: u :: rest)
  | ts =>
    (do
      let _ ← next
      fail (.unexpected .assignmentOrCall)) ts

/-- A statement. -/
def stmt : Parser Stmt :=
  look .statement fun t =>
    match t.kind with
    | .keyword =>
      match StmtHead.ofText? t.value with
      | some head => headed inner head
      | none => unexpectedToken
    | .identifier => nameStmt inner
    | _ => unexpectedToken

/-- Statements up to the end of the input or to what closes a block. -/
def block : Parser (List Stmt) := many (!·.closesBlock) (stmt inner)

/-- Statements up to the end of the input. -/
def program : Parser (List Stmt) := many (fun _ => true) (stmt inner)

end Parser
end MiniLua
