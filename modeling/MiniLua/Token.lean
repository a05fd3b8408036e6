import MiniLua.Position
/-!
# Tokens

A token has a kind, a text and a span. Everything after scanning looks at kind
and text only; the span says where to point when something is wrong.
-/

namespace MiniLua

namespace Token

/-- What class of lexeme a token stands for. -/
inductive Kind
  | identifier
  | string
  | number
  | boolean
  | nil
  | keyword
  | operator
  | symbol
deriving DecidableEq, Repr

namespace Kind

/-- The name messages use. -/
def text : Kind → String
  | identifier => "IDENTIFIER"
  | string => "STRING"
  | number => "NUMBER"
  | boolean => "BOOLEAN"
  | nil => "NIL"
  | keyword => "KEYWORD"
  | operator => "OPERATOR"
  | symbol => "SYMBOL"

/-- The words that are no identifiers, by their kind. -/
def reserved? (word : String) : Option Kind :=
  if word ∈ ["local", "function", "end", "return", "if", "then", "elseif", "else", "until", "while",
      "for", "in", "do", "repeat", "and", "or", "not"] then some keyword
  else if word = "true" || word = "false" then some boolean
  else if word = "nil" then some nil
  else none

/-- The kind of a word: what it is reserved as, or an identifier. -/
def ofWord (word : String) : Kind :=
  (reserved? word).getD identifier

end Kind
end Token

/-- A lexeme of the source. The text of a string is what it stands for, every
other text is as written. -/
structure Token where
  kind : Token.Kind
  value : String
  span : Span
deriving DecidableEq, Repr

namespace Token

/-- Kind and text, as messages give them. -/
def text (t : Token) : String :=
  t.kind.text ++ " " ++ t.value

/-- Whether a token has a kind and a text. -/
def is (t : Token) (kind : Kind) (value : String) : Bool :=
  t.kind = kind && t.value = value

theorem is_iff {t : Token} {kind : Kind} {value : String} :
    t.is kind value ↔ t.kind = kind ∧ t.value = value := by
  simp [is]

def isKeyword (t : Token) (word : String) : Bool := t.is .keyword word

def isSymbol (t : Token) (text : String) : Bool := t.is .symbol text

def isOperator (t : Token) (text : String) : Bool := t.is .operator text

/-- The token `n` bytes further on. -/
def shift (t : Token) (n : Nat) : Token :=
  { t with span := t.span.shift n }

end Token

end MiniLua
