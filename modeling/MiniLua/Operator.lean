import MiniLua.Token
/-!
# Operators

Fifteen binary operators on eight levels of binding strength, and three prefix
operators that all bind on the level `unary`. `^` is the one operator that
groups to the right and the one that binds tighter than a prefix operator.

An operator is known by its text, whatever the token's kind calls it, as long
as the token is an operator or a keyword (`ofToken?`).
-/

namespace MiniLua

/-- Binding strength, from what binds nothing to what binds tightest. -/
inductive Precedence
  | lowest
  | or
  | and
  | comparison
  | concat
  | additive
  | multiplicative
  | unary
  | power
deriving DecidableEq, Repr

namespace Precedence

/-- The place on the scale. -/
def level : Precedence → Nat
  | lowest => 0
  | or => 1
  | and => 2
  | comparison => 3
  | concat => 4
  | additive => 5
  | multiplicative => 6
  | unary => 7
  | power => 8

/-- The strength at a place of the scale. -/
def ofLevel? : Nat → Option Precedence
  | 0 => some lowest
  | 1 => some or
  | 2 => some and
  | 3 => some comparison
  | 4 => some concat
  | 5 => some additive
  | 6 => some multiplicative
  | 7 => some unary
  | 8 => some power
  | _ => none

@[simp] theorem ofLevel?_level (p : Precedence) : ofLevel? p.level = some p := by
  cases p <;> rfl

/-- Binds no tighter than. -/
instance : LE Precedence := ⟨fun p q => p.level ≤ q.level⟩

instance (p q : Precedence) : Decidable (p ≤ q) := inferInstanceAs (Decidable (p.level ≤ q.level))

theorem le_iff {p q : Precedence} : p ≤ q ↔ p.level ≤ q.level := Iff.rfl

end Precedence

/-- An operator between two operands. -/
inductive BinaryOp
  | add
  | sub
  | mul
  | div
  | mod
  | pow
  | concat
  | eq
  | ne
  | lt
  | le
  | gt
  | ge
  | and
  | or
deriving DecidableEq, Repr

namespace BinaryOp

/-- How the operator is written. -/
def text : BinaryOp → String
  | add => "+"
  | sub => "-"
  | mul => "*"
  | div => "/"
  | mod => "%"
  | pow => "^"
  | concat => ".."
  | eq => "=="
  | ne => "~="
  | lt => "<"
  | le => "<="
  | gt => ">"
  | ge => ">="
  | and => "and"
  | or => "or"

/-- The operator written so. -/
def ofText? : String → Option BinaryOp
  | "+" => some add
  | "-" => some sub
  | "*" => some mul
  | "/" => some div
  | "%" => some mod
  | "^" => some pow
  | ".." => some concat
  | "==" => some eq
  | "~=" => some ne
  | "<" => some lt
  | "<=" => some le
  | ">" => some gt
  | ">=" => some ge
  | "and" => some and
  | "or" => some or
  | _ => none

@[simp] theorem ofText?_text (op : BinaryOp) : ofText? op.text = some op := by
  cases op <;> rfl

/-- How tightly the operator binds. -/
def precedence : BinaryOp → Precedence
  | add | sub => .additive
  | mul | div | mod => .multiplicative
  | pow => .power
  | concat => .concat
  | eq | ne | lt | le | gt | ge => .comparison
  | and => .and
  | or => .or

/-- The binary operator a token stands for. -/
def ofToken? (t : Token) : Option BinaryOp :=
  match t.kind with
  | .operator | .keyword => ofText? t.value
  | _ => none

end BinaryOp

/-- An operator before its operand. -/
inductive UnaryOp
  | neg
  | not
  | length
deriving DecidableEq, Repr

namespace UnaryOp

/-- How the operator is written. -/
def text : UnaryOp → String
  | neg => "-"
  | not => "not"
  | length => "#"

/-- The operator written so. -/
def ofText? : String → Option UnaryOp
  | "-" => some neg
  | "not" => some not
  | "#" => some length
  | _ => none

@[simp] theorem ofText?_text (op : UnaryOp) : ofText? op.text = some op := by
  cases op <;> rfl

/-- The prefix operator a token stands for. -/
def ofToken? (t : Token) : Option UnaryOp :=
  match t.kind with
  | .operator | .keyword => ofText? t.value
  | _ => none

end UnaryOp

end MiniLua
