import MiniLua.Text.Bytes
/-!
# Lines

A place in a source as a line and a column. Lines are counted from one and keep
their line break, columns are counted in bytes. `lineAt?` finds the line of an
offset; the end of a source is a place of its last line, which is empty after a
line break.
-/

namespace MiniLua

/-- A place as a line and a column. -/
structure LinePlace where
  /-- Counted from one. -/
  number : Nat
  /-- The line with its line break. -/
  text : String
  /-- Bytes of the line before the place. -/
  column : Nat
deriving DecidableEq, Repr

/-! ## The line of a place -/

/-- A line with its line break, if it has one, off the front of a text. -/
def firstLine (s : List Char) : List Char :=
  s.takeWhile (· ≠ '\n') ++ (s.dropWhile (· ≠ '\n')).take 1

/-- The line of the place `left` bytes into a text that goes on after a part of a line,
which has a number and is held last character first. -/
def lineFrom (number : Nat) (before : List Char) (left : Nat) : List Char → Option LinePlace
  | [] => if left = 0 then some ⟨number, String.ofList before.reverse, Text.width before⟩ else none
  | c :: s =>
    if left < c.utf8Size then
      some ⟨number, String.ofList (before.reverse ++ firstLine (c :: s)), Text.width before + left⟩
    else if c = '\n' then lineFrom (number + 1) [] (left - c.utf8Size) s
    else lineFrom number (c :: before) (left - c.utf8Size) s

/-- The line of an offset, unless it is past the end of the source. The end itself is a
place of the last line. -/
def lineAt? (source : String) (offset : UInt32) : Option LinePlace :=
  lineFrom 1 [] offset.toNat source.toList

end MiniLua
