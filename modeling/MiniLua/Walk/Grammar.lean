import MiniLua.Walk.Basic
/-!
# Walks over the grammar

Every production as a walk. `expr` and `block` open a level and close it at their end, which a part
of them that fails keeps them from reaching. What is nested in a production is given to it (`Nested`),
and `Nested.times` ties them together: no more expressions and blocks are entered within each other than
there are levels, and one that finds none left (`Nested.all`). Lists are held last item first until they
are complete.
-/

namespace MiniLua.Walk

open MiniLua.Parser (startsLone startsNamed secondName continuesExpr)

/-! ## Constants and names -/

/-- A constant or a name, with nothing after it looked at. -/
def primary : Walk Expr := do
  match ← peek? 0 with
  | none => fail (·.unexpectedEnd "an expression")
  | some t =>
    match Literal.ofToken? t with
    | some value =>
      let _ ← advance
      pure (.literal value)
    | none =>
      if t.kind = .identifier then
        let _ ← advance
        pure (.var t.value)
      else fail (·.unexpectedToken)

/-- Parameters up to the parenthesis. -/
def moreParameters : List String → Walk (List String) :=
  loop fun done => do
    let param ← name
    if ← check (·.isSymbol ",") then
      let _ ← advance
      pure (.yield (param :: done))
    else
      let _ ← symbol ")"
      pure (.done (param :: done).reverse)

/-- Names with commas between them, or none, in parentheses. -/
def parameters : Walk (List String) := do
  let _ ← symbol "("
  if ← check (·.isSymbol ")") then
    let _ ← advance
    pure []
  else moreParameters []

/-- The name behind the next token, or no text if there is none. -/
def peekName : Walk String := return secondName (← get).rest

/-- The second variable of a loop over an iterator, if there is one. -/
def valueName : Walk (Option String) := do
  if ← check (·.isSymbol ",") then
    let _ ← advance
    let value ← name
    pure (some value)
  else if ← check (·.isKeyword "in") then pure none
  else fail (·.expectedToken "'=', ',' or 'in'")

/-! ## Expressions -/

/-- The walks over what is nested in a production. -/
structure Nested where
  /-- An expression whose operators bind tighter than a bound. -/
  expr : Precedence → Walk Expr
  /-- The statements up to what closes a block. -/
  block : Walk (List Stmt)

section
variable (inner : Nested)

/-- An operator, taken for the next token, and its right side. -/
def binary (left : Expr) (op : BinaryOp) (bound : Precedence) : Walk Expr := do
  let _ ← advance
  let right ← inner.expr (if op = .pow then .unary else bound)
  pure (.binary left op right)

/-- Operators that bind tighter than a bound, with what is on their right. -/
def operators (bound : Precedence) : Expr → Walk Expr :=
  loop fun left => do
    match (← peek? 0).bind BinaryOp.ofToken? with
    | none => pure (.done left)
    | some op =>
      if op.precedence ≤ bound then pure (.done left)
      else
        let e ← binary inner left op op.precedence
        pure (.yield e)

/-- An expression in parentheses. -/
def grouping : Walk Expr := do
  let _ ← symbol "("
  let e ← inner.expr .lowest
  let _ ← symbol ")"
  pure e

/-- An argument: one that is a lone constant or name takes no level of nesting. -/
def argument : Walk Expr := do
  if startsLone (← get).rest then primary else inner.expr .lowest

/-- Arguments up to the parenthesis. -/
def moreArguments : List Expr → Walk (List Expr) :=
  loop fun done => do
    let arg ← argument inner
    if ← check (·.isSymbol ",") then
      let _ ← advance
      pure (.yield (arg :: done))
    else
      let _ ← symbol ")"
      pure (.done (arg :: done).reverse)

/-- The arguments of a call. -/
def arguments : Walk (List Expr) := do
  let _ ← symbol "("
  if ← check (·.isSymbol ")") then
    let _ ← advance
    pure []
  else moreArguments inner []

/-- A call of what was read so far. -/
def call (callee : Expr) : Walk Expr := do
  let args ← arguments inner
  pure (callee.applyTo args)

/-- A member of what was read so far, or the call of one. -/
def member (object : Expr) : Walk Expr := do
  let _ ← symbol "."
  let member ← name
  if ← check (·.isSymbol "(") then
    let args ← arguments inner
    pure (.methodCall object member args false)
  else pure (.member object member)

/-- The call of a method that is given its receiver. -/
def methodCall (receiver : Expr) : Walk Expr := do
  let _ ← symbol ":"
  let method ← name
  let args ← arguments inner
  pure (.methodCall receiver method (receiver :: args) true)

/-- All links after an expression, each around what was read before it. -/
def links : Expr → Walk Expr :=
  loop fun base => do
    if ← check (·.isSymbol "(") then
      let e ← call inner base
      pure (.yield e)
    else if ← check (·.isSymbol ".") then
      let e ← member inner base
      pure (.yield e)
    else if ← check (·.isSymbol ":") then
      let e ← methodCall inner base
      pure (.yield e)
    else pure (.done base)

/-! ## Tables and functions -/

/-- One field, added to those before it. -/
def field (done : List Expr × List Entry) : Walk (List Expr × List Entry) := do
  if startsNamed (← get).rest then
    let key ← advance
    let _ ← advance
    let value ← inner.expr .lowest
    pure (done.1, Entry.insert key.value value done.2)
  else
    let value ← inner.expr .lowest
    pure (value :: done.1, done.2)

/-- Fields with commas after them, of which the last one may have none. -/
def fields : List Expr × List Entry → Walk (List Expr × List Entry) :=
  loop fun done => do
    if ← check (·.isSymbol "\x7d") then pure (.done done)
    else
      let done ← field inner done
      if ← check (·.isSymbol ",") then
        let _ ← advance
        pure (.yield done)
      else pure (.done done)

/-- A table. -/
def table : Walk Expr := do
  let _ ← symbol "\x7b"
  let done ← fields inner ([], [])
  let _ ← symbol "\x7d"
  pure (.table done.1.reverse done.2)

/-- A function without a name. -/
def function : Walk Expr := do
  let _ ← keyword "function"
  let params ← parameters
  let body ← inner.block
  let _ ← keyword "end"
  pure (.function params body)

/-- What an operator works on. -/
def operand : Walk Expr := do
  match ← peek? 0 with
  | none => fail (·.unexpectedEnd "an expression")
  | some t =>
    match UnaryOp.ofToken? t with
    | some op =>
      let _ ← advance
      let e ← inner.expr .unary
      pure (.unary op e)
    | none =>
      match t.kind with
      | .number | .string | .boolean | .nil => primary
      | .identifier =>
        let _ ← advance
        links inner (.var t.value)
      | .symbol =>
        if t.value = "(" then
          let e ← grouping inner
          links inner e
        else if t.value = "\x7b" then table inner
        else fail (·.unexpectedToken)
      | .keyword => if t.value = "function" then function inner else fail (·.unexpectedToken)
      | .operator => fail (·.unexpectedToken)

/-- An expression whose operators bind tighter than a bound. -/
def expr (bound : Precedence) : Walk Expr := do
  enter
  let left ← operand inner
  let e ← operators inner bound left
  exit
  pure e

/-! ## Statements -/

/-- The assignment of a value to a variable. -/
def assignment : Walk Stmt := do
  let target ← name
  let _ ← operator "="
  let value ← inner.expr .lowest
  pure (.assign target value)

/-- The definition of a function. -/
def definition : Walk Expr := do
  let _ ← keyword "function"
  let name ← name
  let params ← parameters
  let body ← inner.block
  let _ ← keyword "end"
  pure (.definition name params body)

/-- A function definition that stands as a statement. -/
def functionStmt : Walk Stmt := do
  let f ← definition inner
  pure (.expr f)

/-- A local variable, or a local function, which is declared by the name that is seen before its
definition is read. -/
def localStmt : Walk Stmt := do
  let _ ← keyword "local"
  if ← check (·.isKeyword "function") then
    let name ← peekName
    let f ← definition inner
    pure (.localVar name (some f))
  else
    let name ← name
    if ← check (·.isOperator "=") then
      let _ ← advance
      let init ← inner.expr .lowest
      pure (.localVar name (some init))
    else pure (.localVar name none)

/-- Further values after commas. -/
def moreValues : List Expr → Walk (List Expr) :=
  loop fun done => do
    if ← check (·.isSymbol ",") then
      let _ ← advance
      let value ← inner.expr .lowest
      pure (.yield (value :: done))
    else pure (.done done)

/-- A `return`; its values start at once unless the block ends here. -/
def returnStmt : Walk Stmt := do
  let _ ← keyword "return"
  if ← check (!·.closesBlock) then
    let first ← inner.expr .lowest
    let values ← moreValues inner [first]
    pure (.ret values.reverse)
  else pure (.ret [])

/-- The `elseif` arms. -/
def branches : List Branch → Walk (List Branch) :=
  loop fun done => do
    if ← check (·.isKeyword "elseif") then
      let _ ← advance
      let condition ← inner.expr .lowest
      let _ ← keyword "then"
      let body ← inner.block
      pure (.yield (.mk condition body :: done))
    else pure (.done done)

/-- The statements after `else`, if there is one. -/
def otherwise : Walk (List Stmt) := do
  if ← check (·.isKeyword "else") then
    let _ ← advance
    inner.block
  else pure []

def ifStmt : Walk Stmt := do
  let _ ← keyword "if"
  let condition ← inner.expr .lowest
  let _ ← keyword "then"
  let body ← inner.block
  let elseifs ← branches inner []
  let rest ← otherwise inner
  let _ ← keyword "end"
  pure (.ifThen condition body elseifs.reverse rest)

/-- The body of a loop. -/
def loopBody : Walk (List Stmt) := do
  let _ ← keyword "do"
  let body ← inner.block
  let _ ← keyword "end"
  pure body

def whileStmt : Walk Stmt := do
  let _ ← keyword "while"
  let condition ← inner.expr .lowest
  let body ← loopBody inner
  pure (.whileLoop condition body)

def repeatStmt : Walk Stmt := do
  let _ ← keyword "repeat"
  let body ← inner.block
  let _ ← keyword "until"
  let condition ← inner.expr .lowest
  pure (.repeatLoop body condition)

/-- The step of a numeric loop, if there is one. -/
def step : Walk (Option Expr) := do
  if ← check (·.isSymbol ",") then
    let _ ← advance
    let e ← inner.expr .lowest
    pure (some e)
  else pure none

def forStmt : Walk Stmt := do
  let _ ← keyword "for"
  let first ← name
  if ← check (·.isOperator "=") then
    let _ ← advance
    let start ← inner.expr .lowest
    let _ ← symbol ","
    let limit ← inner.expr .lowest
    let step ← step inner
    let body ← loopBody inner
    pure (.forRange first start limit step body)
  else
    let value ← valueName
    let _ ← keyword "in"
    let iterator ← inner.expr .lowest
    let body ← loopBody inner
    pure (.forIn first value iterator body)

/-- The statement of a head. -/
def headed (head : StmtHead) : Walk Stmt :=
  match head with
  | .function => functionStmt inner
  | .localVar => localStmt inner
  | .ret => returnStmt inner
  | .ifThen => ifStmt inner
  | .forLoop => forStmt inner
  | .whileLoop => whileStmt inner
  | .repeatLoop => repeatStmt inner

/-- A statement that starts with a name. -/
def nameStmt : Walk Stmt := do
  match ← peek? 1 with
  | none =>
    let _ ← advance
    fail (·.unexpectedEnd "'=' or a call")
  | some u =>
    if u.isOperator "=" then assignment inner
    else if continuesExpr u then
      let e ← inner.expr .lowest
      pure (.expr e)
    else
      let _ ← advance
      fail (·.unexpectedToken)

/-- A statement. -/
def stmt : Walk Stmt := do
  match ← peek? 0 with
  | none => fail (·.unexpectedEnd "a statement")
  | some t =>
    match t.kind with
    | .keyword =>
      match StmtHead.ofText? t.value with
      | some head => headed inner head
      | none => fail (·.unexpectedToken)
    | .identifier => nameStmt inner
    | _ => fail (·.unexpectedToken)

/-! ## Blocks and programs -/

/-- Statements before what closes a block. -/
def statements : List Stmt → Walk (List Stmt) :=
  loop fun done => do
    match ← peek? 0 with
    | none => pure (.done done)
    | some t =>
      if t.closesBlock then pure (.done done)
      else
        let s ← stmt inner
        pure (.yield (s :: done))

/-- The statements up to the end of the input or to what closes a block. -/
def block : Walk (List Stmt) := do
  enter
  let stmts ← statements inner []
  exit
  pure stmts.reverse

/-- Statements as long as there are tokens. -/
def allStatements : List Stmt → Walk (List Stmt) :=
  loop fun done => do
    if (← get).hasTokens then
      let s ← stmt inner
      pure (.yield (s :: done))
    else pure (.done done)

/-- Statements up to the end of the input. -/
def program : Walk (List Stmt) := do
  let stmts ← allStatements inner []
  pure stmts.reverse

end

/-- What may be nested, no more than a number of times within each other. -/
def Nested.times : Nat → Nested
  | 0 => ⟨fun _ => endless, endless⟩
  | n + 1 => ⟨Walk.expr (times n), Walk.block (times n)⟩

/-- What may be nested: as deep as there are levels, and once more where none is left. -/
def Nested.all : Nested := .times (maxNesting + 1)

end MiniLua.Walk
