import MiniLua.Position
import MiniLua.Text.Quoted
/-!
# Lexical errors

Five ways for a source to have no tokens, each at one place.
-/

namespace MiniLua

/-- What is wrong with the text at a place. -/
inductive LexError.Cause
  | illegalCharacter (character : Char)
  | unterminatedString
  | unterminatedComment
  | malformedNumber (number : String)
  | unknownEscape (escape : Char)
deriving DecidableEq, Repr

/-- A text that has no lexeme at a place. -/
structure LexError where
  cause : LexError.Cause
  position : Position
deriving DecidableEq, Repr

namespace LexError

def Cause.name : Cause → String
  | illegalCharacter _ => "IllegalCharacter"
  | unterminatedString => "UnterminatedString"
  | unterminatedComment => "UnterminatedComment"
  | malformedNumber _ => "MalformedNumber"
  | unknownEscape _ => "UnknownEscape"

def Cause.message : Cause → String
  | illegalCharacter c => "illegal character " ++ Text.quotedChar c
  | unterminatedString => "unterminated string"
  | unterminatedComment => "unterminated comment"
  | malformedNumber n => "malformed number: " ++ Text.quoted n
  | unknownEscape c => "unknown escape sequence: \\" ++ c.toString

/-- Advice to whoever wrote the source. -/
def Cause.tip : Cause → String
  | illegalCharacter c => "Character `" ++ c.toString ++ "` is not valid here"
  | unterminatedString => "String literal is never closed, did you miss a `\"` or `]]`?"
  | unterminatedComment => "Block comment is never closed, did you miss a `]]`?"
  | malformedNumber n =>
    "Invalid number: `" ++ n ++ "`, expected digits with an optional fraction and exponent"
  | unknownEscape c =>
    "Unknown escape `\\" ++ c.toString ++ "`, supported escapes are \\n \\t \\\" \\\\"

def message (e : LexError) : String :=
  e.cause.message ++ " at " ++ e.position.text

end LexError

end MiniLua
