import MiniLua.Token
import MiniLua.Text.Blank
import MiniLua.Text.Quoted
/-!
# Syntax errors

A syntax error names what is wrong, the index of the token at which parsing
stopped, that token's place in the source, and the tokens around it. At the end
of the input the index is the number of tokens and the place is where the last
token ends.
-/

namespace MiniLua

/-- What is wrong with a sequence of tokens, in the words of the message. -/
inductive ParseError.Cause
  | unexpectedToken (token : String)
  | expectedToken (expected found : String)
  | unexpectedEnd (expected : String)
  | nestingTooDeep (limit : Nat)
deriving DecidableEq, Repr

/-- A sequence of tokens that goes wrong at one of them. -/
structure ParseError where
  cause : ParseError.Cause
  index : Nat
  position : Position
  context : String
deriving DecidableEq, Repr

namespace ParseError

def Cause.name : Cause → String
  | unexpectedToken _ => "UnexpectedToken"
  | expectedToken _ _ => "ExpectedToken"
  | unexpectedEnd _ => "UnexpectedEnd"
  | nestingTooDeep _ => "NestingTooDeep"

def Cause.message : Cause → String
  | unexpectedToken token => "unexpected token: " ++ Text.quoted token
  | expectedToken expected found => "expected " ++ expected ++ ", found " ++ Text.quoted found
  | unexpectedEnd expected => "unexpected end of input, expected " ++ expected
  | nestingTooDeep limit => "nesting deeper than " ++ toString limit ++ " levels"

/-- Advice to whoever wrote the source. -/
def Cause.tip? : Cause → Option String
  | unexpectedToken _ => none
  | expectedToken expected found => some ("Expected " ++ expected ++ ", found `" ++ found ++ "`")
  | unexpectedEnd expected =>
    some ("Input ended while expecting " ++ expected ++ ", is a block missing its `end`?")
  | nestingTooDeep limit =>
    some ("Expressions and blocks may nest at most " ++ toString limit ++ " levels deep")

def message (e : ParseError) : String :=
  e.cause.message ++ " at token " ++ toString e.index ++ " (" ++ e.position.text ++ ") -> " ++
    e.context

/-! ## Where an error is -/

/-- Where the token of an index starts, or the last token ends past all of them. -/
def positionAt (tokens : List Token) (file : String) (index : Nat) : Position :=
  match tokens[index]? with
  | some t => t.span.start
  | none =>
    match tokens.getLast? with
    | some t => t.span.finish
    | none => .ofNat file 0

/-- How many tokens the context shows on each side. -/
def contextRadius : Nat := 3

/-- The texts of the tokens around an index, with an arrow before the one it names. -/
def contextAt (tokens : List Token) (index : Nat) : String :=
  let before := ((tokens.take index).drop (index - contextRadius)).map Token.value
  let after :=
    match tokens.drop index with
    | [] => ["=>", "<end>"]
    | t :: ts => "=>" :: t.value :: (ts.take contextRadius).map Token.value
  String.ofList (Text.trimEnd (" ".intercalate (before ++ after)).toList)

/-- The error of a cause at an index. -/
def atIndex (tokens : List Token) (file : String) (index : Nat) (cause : Cause) : ParseError :=
  ⟨cause, index, positionAt tokens file index, contextAt tokens index⟩

end ParseError

end MiniLua
