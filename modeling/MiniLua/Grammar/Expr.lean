import MiniLua.Grammar.Parser
import MiniLua.Tree.Entries
/-!
# Expressions

    expr     = operand {binop operand}
    operand  = {unop} (literal | table | anonymous function | base {link})
    base     = name | "(" expr ")"
    link     = "(" args ")" | "." name ["(" args ")"] | ":" name "(" args ")"
    table    = "{" [field {"," field} [","]] "}"
    field    = name "=" expr | expr

Operators group by binding strength: after an operand, `climb` takes every
operator that binds tighter than a bound, with all that belongs to its right.

Expressions and blocks nest, and each of them costs a level. A production takes
the parsers for what is nested in it (`Inner`) as given, so none of them calls
itself, and how many levels there are is said in one place only.
-/

namespace MiniLua

/-- The parsers for what is nested in a production. -/
structure Inner where
  /-- An expression whose operators bind tighter than a bound. -/
  expr : Precedence → Parser Expr
  /-- One argument of a call. -/
  argument : Parser Expr
  /-- The statements before what closes a block. -/
  block : Parser (List Stmt)

namespace Parser

/-! ## Constants and names -/

/-- A constant or a name, with nothing after it looked at. -/
def primary : Parser Expr :=
  look .expression fun t =>
    match Literal.ofToken? t with
    | some value => do
      let _ ← next
      pure (.literal value)
    | none =>
      if t.kind = .identifier then do
        let _ ← next
        pure (.var t.value)
      else unexpectedToken

/-- Whether the tokens start with a number, a string or a name that is a whole argument. -/
def startsLone : List Token → Bool
  | t :: u :: _ =>
    (t.kind = .number || t.kind = .string || t.kind = .identifier) &&
      (u.isSymbol "," || u.isSymbol ")")
  | _ => false

/-- An argument: one that is a lone constant or name takes no level of nesting. -/
def argument (expr : Parser Expr) : Parser Expr := fun ts =>
  if startsLone ts then primary ts else expr ts

section
variable (inner : Inner)

/-! ## Names and parentheses with their links -/

/-- An expression in parentheses. -/
def grouping : Parser Expr := do
  let _ ← symbol "("
  let e ← inner.expr .lowest
  let _ ← symbol ")"
  pure e

/-- The arguments of a call. -/
def arguments : Parser (List Expr) := parenthesized inner.argument

/-- A call of what was read so far. -/
def call (callee : Expr) : Parser Expr := do
  let args ← arguments inner
  pure (callee.applyTo args)

/-- A member of what was read so far, or the call of one. -/
def member (object : Expr) : Parser Expr := do
  let _ ← symbol "."
  let name ← name
  if ← check (·.isSymbol "(") then
    let args ← arguments inner
    pure (.methodCall object name args false)
  else pure (.member object name)

/-- The call of a method that is given its receiver. -/
def methodCall (receiver : Expr) : Parser Expr := do
  let _ ← symbol ":"
  let name ← name
  let args ← arguments inner
  pure (.methodCall receiver name (receiver :: args) true)

/-- The link that a token starts. -/
def link? (t : Token) : Option (Expr → Parser Expr) :=
  if t.isSymbol "(" then some (call inner)
  else if t.isSymbol "." then some (member inner)
  else if t.isSymbol ":" then some (methodCall inner)
  else none

/-- All links after an expression, each around what was read before it. -/
def links (base : Expr) : Parser Expr := repeating (link? inner) base

/-! ## Tables -/

/-- Whether the tokens start with a name and an equals sign. -/
def startsNamed : List Token → Bool
  | t :: u :: _ => t.kind = .identifier && u.isOperator "="
  | _ => false

/-- One field, added to those before it; the elements are held last one first. -/
def field (fields : List Expr × List Entry) : Parser (List Expr × List Entry) := fun ts =>
  if startsNamed ts then
    (do
      let key ← next
      let _ ← next
      let value ← inner.expr .lowest
      pure (fields.1, Entry.insert key.value value fields.2)) ts
  else
    (do
      let value ← inner.expr .lowest
      pure (value :: fields.1, fields.2)) ts

/-- A field, or none before what closes the table. -/
def fieldOrEnd (fields : List Expr × List Entry) : Parser (List Expr × List Entry) := do
  if ← check (·.isSymbol "\x7d") then pure fields
  else field inner fields

/-- A comma and what may follow it in a table. -/
def nextField? (t : Token) : Option (List Expr × List Entry → Parser (List Expr × List Entry)) :=
  if t.isSymbol "," then
    some fun fields => do
      let _ ← next
      fieldOrEnd inner fields
  else none

/-- A table. -/
def table : Parser Expr := do
  let _ ← symbol "\x7b"
  let fields ← fieldOrEnd inner ([], [])
  let fields ← repeating (nextField? inner) fields
  let _ ← symbol "\x7d"
  pure (.table fields.1.reverse fields.2)

/-! ## Functions -/

/-- Names with commas between them, or none, in parentheses. -/
def parameters : Parser (List String) := parenthesized name

/-- Parameters and a body up to its `end`. -/
def functionBody : Parser (List String × List Stmt) := do
  let params ← parameters
  let body ← inner.block
  let _ ← keyword "end"
  pure (params, body)

/-- A function without a name. -/
def function : Parser Expr := do
  let _ ← keyword "function"
  let body ← functionBody inner
  pure (.function body.1 body.2)

/-! ## Operators -/

/-- What an operator works on: what may stand before and after a binary one. -/
def operand : Parser Expr :=
  look .expression fun t =>
    match UnaryOp.ofToken? t with
    | some op => do
      let _ ← next
      let e ← inner.expr .unary
      pure (.unary op e)
    | none =>
      match t.kind with
      | .number | .string | .boolean | .nil => primary
      | .identifier => do
        let _ ← next
        links inner (.var t.value)
      | .symbol =>
        if t.value = "(" then do
          let e ← grouping inner
          links inner e
        else if t.value = "\x7b" then table inner
        else unexpectedToken
      | .keyword => if t.value = "function" then function inner else unexpectedToken
      | .operator => unexpectedToken

/-- The bound for what is on the right of an operator: `^` groups to the right,
all others to the left. -/
def rightBound (op : BinaryOp) (bound : Precedence) : Precedence :=
  if op = .pow then .unary else bound

/-- An operator, taken for the next token, and its right side. -/
def binary (left : Expr) (op : BinaryOp) (bound : Precedence) : Parser Expr := do
  let _ ← next
  let right ← inner.expr (rightBound op bound)
  pure (.binary left op right)

/-- The operator that a token stands for, if it binds tighter than a bound. -/
def tighter? (bound : Precedence) (t : Token) : Option (Expr → Parser Expr) :=
  match BinaryOp.ofToken? t with
  | some op => if op.precedence ≤ bound then none else some fun left => binary inner left op op.precedence
  | none => none

/-- An operand and all operators after it that bind tighter than a bound. -/
def climb (bound : Precedence) : Parser Expr := do
  let left ← operand inner
  repeating (tighter? inner bound) left

end

end Parser
end MiniLua
