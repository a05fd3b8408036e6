import MiniLua.Error
import MiniLua.LinePlace
/-!
# Reports

A report shows an error at its place: what and where, and below that the source
line with a caret under the place.

    Error: name (tip)
    -> file
       |
    20 | local a = @
       | ----------^

The caret is set in characters, and the blanks that a line starts with are not
shown. An error past the end of the source has no line to show. The caret and what
is in front of it are one field, whose width is found as the report is made: for an
error too far into its line the field is wider than a format takes, and there is no
report.
-/

namespace MiniLua

/-- The blanks that are left away in front of a line. -/
def isIndent (c : Char) : Bool := c = ' ' || c = '\t'

/-- How many characters the first `n` bytes of a text are, after `count` others; nothing
if the bytes end within a character or there are fewer. -/
def charCount? (count : Nat) : Nat → List Char → Option Nat
  | 0, _ => some count
  | _ + 1, [] => none
  | n + 1, c :: s =>
    if n + 1 < c.utf8Size then none else charCount? (count + 1) (n + 1 - c.utf8Size) s

/-- The widest field that a format takes: a width is a number of 16 bits. -/
def maxWidth : Nat := 65535

/-- A text at the right end of a field of a width, after a filling; nothing if the field is
too wide. -/
def padLeft? (fill : Char) (width : Nat) (s : String) : Option String :=
  if width ≤ maxWidth then some (String.ofList (List.replicate (width - s.length) fill) ++ s) else none

namespace LinePlace

/-- The column in characters. -/
def charColumn (p : LinePlace) : Nat :=
  (charCount? 0 p.column p.text.toList).getD p.column

/-- How many blanks stand in front of the line. -/
def indent (p : LinePlace) : Nat :=
  (p.text.toList.takeWhile isIndent).length

/-- The line as a report shows it, without the blanks around it. -/
def shown (p : LinePlace) : String :=
  String.ofList (Text.trimEnd (p.text.toList.dropWhile isIndent))

/-- Width of what stands before the line. -/
def gutterWidth (p : LinePlace) : Nat := (toString p.number).length + 2

/-- The line between two gutters, with the caret below. -/
def lines? (p : LinePlace) : Option (List String) := do
  let gutter ← padLeft? ' ' p.gutterWidth "|"
  let caret ← padLeft? '-' (p.charColumn - p.indent + 1) "^"
  return [gutter, toString p.number ++ " | " ++ p.shown, gutter ++ " " ++ caret]

end LinePlace

namespace Error

/-- What is wrong, with a tip if there is one. -/
def title (e : Error) : String :=
  match e.tip? with
  | some tip => "Error: " ++ e.name ++ " (" ++ tip ++ ")"
  | none => "Error: " ++ e.name

/-- The lines below the name of the source, if there is a line to show. -/
def placeLines? (e : Error) (source : String) : Option (List String) :=
  match lineAt? source e.position.offset with
  | some place => place.lines?
  | none => some []

/-- The lines of the report of an error in a source. -/
def reportLines? (e : Error) (source : String) : Option (List String) := do
  let lines ← e.placeLines? source
  return e.title :: ("-> " ++ e.position.file) :: lines

/-- The report of an error in a source. -/
def report? (e : Error) (source : String) : Option String := do
  let lines ← e.reportLines? source
  return String.join (lines.map (· ++ "\n"))

end Error

end MiniLua
