import MiniLua.LexError
import MiniLua.Token
import MiniLua.Text.Blank
import MiniLua.Text.Bytes
import MiniLua.Text.DecimalDigit
import MiniLua.Text.Letter
import MiniLua.Lexeme.Number
/-!
# Lexemes

What stands at the front of a text: blanks or a comment, which give no token, or
a word, a numeral, a string, an operator or a symbol, which give one. `first`
reads it, and its first character decides which rule applies, so a rule never
has to give way to a later one.
-/

namespace MiniLua

/-- The front of a text and what follows it. -/
structure Lexeme where
  written : List Char
  rest : List Char
  token : Option (Token.Kind × String)
deriving DecidableEq, Repr

namespace Lexeme

/-- A lexeme, or what is wrong and how many bytes from the front. -/
abbrev Reading := Except (LexError.Cause × Nat) Lexeme

/-! ## Blanks and words -/

/-- A run of blanks after a first one. -/
def blank (c : Char) (s : List Char) : Lexeme :=
  ⟨c :: s.takeWhile Text.isBlank, s.dropWhile Text.isBlank, none⟩

def isWordStart (c : Char) : Bool := Text.isLetter c || c = '_'

def isWordPart (c : Char) : Bool := Text.isLetter c || Text.isDecimalDigit c || c = '_'

/-- A word with a given first character. -/
def word (c : Char) (s : List Char) : Lexeme :=
  let text := c :: s.takeWhile isWordPart
  ⟨text, s.dropWhile isWordPart, some (.ofWord (String.ofList text), String.ofList text)⟩

/-! ## Numerals -/

/-- A numeral with a given first digit. -/
def number (c : Char) (s : List Char) : Reading :=
  let run := numberRun s
  if isNumeral (c :: run.1) then
    .ok ⟨c :: run.1, run.2, some (.number, String.ofList (c :: run.1))⟩
  else .error (.malformedNumber (String.ofList (c :: run.1)), 0)

/-! ## Comments and strings -/

/-- The text before the first `]]` and the text after it. -/
def untilBrackets (before : List Char) : List Char → Option (List Char × List Char)
  | [] => none
  | c :: s =>
    if c = ']' && s.head? = some ']' then some (before.reverse, s.tail)
    else untilBrackets (c :: before) s

/-- A comment from `--[[` to `]]`, given what follows the opening. -/
def longComment (s : List Char) : Reading :=
  match untilBrackets [] s with
  | some (body, rest) => .ok ⟨['-', '-', '[', '['] ++ body ++ [']', ']'], rest, none⟩
  | none => .error (.unterminatedComment, 0)

/-- A comment from `--` to the end of the line. -/
def lineComment (s : List Char) : Lexeme :=
  ⟨'-' :: '-' :: s.takeWhile (· ≠ '\n'), s.dropWhile (· ≠ '\n'), none⟩

/-- A string between `[[` and `]]`, given what follows the opening. -/
def longString (s : List Char) : Reading :=
  match untilBrackets [] s with
  | some (body, rest) =>
    .ok ⟨['[', '['] ++ body ++ [']', ']'], rest, some (.string, String.ofList body)⟩
  | none => .error (.unterminatedString, 0)

/-- What a character stands for after a backslash. -/
def unescape? : Char → Option Char
  | 'n' => some '\n'
  | 't' => some '\t'
  | '"' => some '"'
  | '\\' => some '\\'
  | _ => none

/-- The rest of a string between quotes, given what is read of it and what that
stands for, both last character first. -/
def stringFrom (written value : List Char) : List Char → Reading
  | [] => .error (.unterminatedString, 0)
  | c :: s =>
    if c = '"' then .ok ⟨(c :: written).reverse, s, some (.string, String.ofList value.reverse)⟩
    else if c = '\\' then
      match s with
      | [] => .error (.unterminatedString, 0)
      | d :: s =>
        match unescape? d with
        | some v => stringFrom (d :: c :: written) (v :: value) s
        | none => .error (.unknownEscape d, Text.width written)
    else stringFrom (c :: written) (c :: value) s

/-! ## Operators and symbols -/

/-- Operators of two characters. -/
def operatorPairs : List (Char × Char) := [('=', '='), ('<', '='), ('>', '='), ('~', '='), ('.', '.')]

/-- Operators of one character. -/
def operatorChars : List Char :=
  ['-', '+', '*', '/', '%', '^', '#', '&', '|', '~', '<', '>', '=', '?', '!']

def symbolChars : List Char := ['.', ':', '\x7b', '\x7d', '(', ')', ',']

/-- A character that stands for itself. -/
def single (c : Char) (s : List Char) : Reading :=
  if c ∈ operatorChars then .ok ⟨[c], s, some (.operator, String.ofList [c])⟩
  else if c ∈ symbolChars then .ok ⟨[c], s, some (.symbol, String.ofList [c])⟩
  else .error (.illegalCharacter c, 0)

/-- An operator or a symbol, two characters before one. -/
def punctuation (c : Char) : List Char → Reading
  | [] => single c []
  | d :: s =>
    if (c, d) ∈ operatorPairs then .ok ⟨[c, d], s, some (.operator, String.ofList [c, d])⟩
    else single c (d :: s)

/-! ## The first lexeme -/

/-- The lexeme that a text of this first character and this remainder starts with. -/
def first (c : Char) (s : List Char) : Reading :=
  if Text.isBlank c then .ok (blank c s)
  else if isWordStart c then .ok (word c s)
  else if c.isDigit then number c s
  else
    match c, s with
    | '-', '-' :: '[' :: '[' :: body => longComment body
    | '-', '-' :: body => .ok (lineComment body)
    | '"', body => stringFrom ['"'] [] body
    | '[', '[' :: body => longString body
    | c, s => punctuation c s

end Lexeme

end MiniLua
