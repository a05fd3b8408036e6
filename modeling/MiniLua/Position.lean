/-!
# Positions

A position is a byte offset into a source unit together with the unit's name.
Offsets are 32-bit words: one that does not fit is taken modulo 2 ^ 32, so that
moving by a distance commutes with forming the position (`ofNat_add`).
-/

namespace MiniLua

/-- A place in a source unit. -/
structure Position where
  offset : UInt32
  file : String
deriving DecidableEq, Repr

/-- The name of a source unit that was given none. -/
def defaultFile : String := "shell"

namespace Position

/-- The place `n` bytes into a unit. -/
def ofNat (file : String) (n : Nat) : Position :=
  ⟨UInt32.ofNat n, file⟩

/-- The place `n` bytes further on. -/
def shift (p : Position) (n : Nat) : Position :=
  ⟨p.offset + UInt32.ofNat n, p.file⟩

theorem ofNat_add (file : String) (m n : Nat) : ofNat file (m + n) = (ofNat file m).shift n := by
  simp [ofNat, shift, UInt32.ofNat_add]

/-- An offset that fits is what it was made from. -/
theorem toNat_offset {file : String} {n : Nat} (h : n < UInt32.size) : (ofNat file n).offset.toNat = n :=
  UInt32.toNat_ofNat_of_lt' h

/-- Name and offset, as messages give them. -/
def text (p : Position) : String :=
  p.file ++ ":" ++ toString p.offset.toNat

end Position

/-- From a first place to the place just after the last one. -/
structure Span where
  start : Position
  finish : Position
deriving DecidableEq, Repr

namespace Span

/-- The `len` bytes from `offset` on. -/
def ofNat (file : String) (offset len : Nat) : Span :=
  ⟨.ofNat file offset, .ofNat file (offset + len)⟩

/-- The span `n` bytes further on. -/
def shift (s : Span) (n : Nat) : Span :=
  ⟨s.start.shift n, s.finish.shift n⟩

theorem ofNat_add (file : String) (m n len : Nat) :
    ofNat file (m + n) len = (ofNat file m len).shift n := by
  simp [ofNat, shift, ← Position.ofNat_add, Nat.add_right_comm]

end Span

end MiniLua
