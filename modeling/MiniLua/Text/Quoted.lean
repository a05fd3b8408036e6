import MiniLua.Text.Combining
import MiniLua.Text.Printable
/-!
# Quoted text

How a message shows text whose ends and characters must be seen exactly: between
quotes, with the quote and the backslash behind a backslash, with short names
for four controls, and with every other character that does not show by itself
written as its code point.
-/

namespace MiniLua.Text

/-- A character as its code point in lower-case hexadecimal, with no leading zero. -/
def codePoint (c : Char) : List Char :=
  '\\' :: 'u' :: '\x7b' :: (Nat.toDigits 16 c.toNat ++ ['\x7d'])

/-- One character between quotes of the given kind. -/
def escape (quote c : Char) : List Char :=
  if c = '\x00' then ['\\', '0']
  else if c = '\t' then ['\\', 't']
  else if c = '\r' then ['\\', 'r']
  else if c = '\n' then ['\\', 'n']
  else if c = '\\' || c = quote then ['\\', c]
  else if isCombining c || !isPrintable c then codePoint c
  else [c]

/-- A text between double quotes. -/
def quoted (s : String) : String :=
  String.ofList ('"' :: (s.toList.flatMap (escape '"') ++ ['"']))

/-- A character between single quotes. -/
def quotedChar (c : Char) : String :=
  String.ofList ('\'' :: (escape '\'' c ++ ['\'']))

end MiniLua.Text
