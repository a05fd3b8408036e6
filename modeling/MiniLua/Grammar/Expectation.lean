import MiniLua.ParseError
/-!
# Expectations

What a production wanted at the token where it failed, and the words for it.
-/

namespace MiniLua

/-- What was wanted. -/
inductive Expectation
  | kind (kind : Token.Kind)
  | exact (kind : Token.Kind) (text : String)
  | expression
  | statement
  /-- What may follow the name that a statement starts with. -/
  | assignmentOrCall
  /-- What may follow the first variable of a `for`. -/
  | loopHeader
  | token
  | statementOrExpression
deriving DecidableEq, Repr

/-- The words for what was wanted. -/
def Expectation.text : Expectation → String
  | kind k => k.text
  | exact k text => k.text ++ " '" ++ text ++ "'"
  | expression => "an expression"
  | statement => "a statement"
  | assignmentOrCall => "'=' or a call"
  | loopHeader => "'=', ',' or 'in'"
  | token => "a token"
  | statementOrExpression => "a statement or expression"

/-- Why a production failed. -/
inductive Fault
  /-- The token starts nothing of what was wanted. -/
  | unexpected (wanted : Expectation)
  /-- The token is not the one that was wanted. -/
  | expected (wanted : Expectation)
  /-- No level of nesting was left. -/
  | tooDeep
deriving DecidableEq, Repr

/-- The cause of an error at the first of the tokens left. At the end of the
input what was wanted is named, before it the token that stands there. -/
def Fault.cause (limit : Nat) (rest : List Token) : Fault → ParseError.Cause
  | unexpected wanted =>
    match rest with
    | [] => .unexpectedEnd wanted.text
    | t :: _ => .unexpectedToken t.text
  | expected wanted =>
    match rest with
    | [] => .unexpectedEnd wanted.text
    | t :: _ => .expectedToken wanted.text t.text
  | tooDeep => .nestingTooDeep limit

end MiniLua
