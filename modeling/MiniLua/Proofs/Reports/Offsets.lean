import Mathlib.Data.List.DropRight
import MiniLua.LinePlace
/-!
# The line of an offset in the bytes of a source

An offset counts bytes, and a line break is a byte no other character has in it (`lineBreak_notMem`). So the place
of an offset can be told from the bytes alone: how many line breaks are in front of it, how far the last of them
is, and what stands from there up to the next one (`LinePlace.IsAt`). `lineAt?_iff`: that place is the one
that is found, also inside a character, on a line break and at the end.
-/

namespace MiniLua

open Text

variable {line bytes : List UInt8} {n k offset : Nat} {c : Char} {before s : List Char} {p p' : LinePlace}

/-! ## Bytes -/

/-- The bytes of a text. -/
def utf8 (s : List Char) : List UInt8 :=
  s.flatMap String.utf8EncodeChar

/-- The byte of a line break. -/
def lineBreak : UInt8 := 10

@[simp] theorem utf8_nil : utf8 [] = [] := rfl

@[simp] theorem utf8_cons (c : Char) (s : List Char) : utf8 (c :: s) = String.utf8EncodeChar c ++ utf8 s := rfl

@[simp] theorem utf8_append (s t : List Char) : utf8 (s ++ t) = utf8 s ++ utf8 t := by simp [utf8]

@[simp] theorem length_utf8 (s : List Char) : (utf8 s).length = width s := by
  induction s with
  | nil => rfl
  | cons c s ih => rw [utf8_cons, List.length_append, String.length_utf8EncodeChar, ih, width_cons]

/-- The bytes of the characters of a string are those it is stored as. -/
theorem utf8_toList (s : String) : utf8 s.toList = s.toByteArray.data.toList := by
  rw [← String.ofList_toList (s := s), String.toByteArray_ofList, String.toList_ofList, List.utf8Encode, utf8]
  simp

@[simp] theorem utf8EncodeChar_lineBreak : String.utf8EncodeChar '\n' = [lineBreak] := rfl

/-- Only a line break has its byte: the other characters of one byte have another one, and the bytes of a longer
character are from 128 on. -/
theorem lineBreak_notMem (h : c ≠ '\n') : lineBreak ∉ String.utf8EncodeChar c := by
  have hc : c.val.toNat ≠ 10 := fun hc => h (Char.ext (UInt32.toNat_inj.1 hc))
  fun_cases String.utf8EncodeChar c <;>
    simp only [List.mem_cons, List.not_mem_nil, or_false, not_or, lineBreak, ← UInt8.toNat_inj, UInt8.toNat_ofNat'] <;>
    simp <;> omega

theorem lineBreak_notMem_utf8 (h : '\n' ∉ s) : lineBreak ∉ utf8 s := by
  intro hmem
  obtain ⟨c, hc, hbyte⟩ := List.mem_flatMap.1 hmem
  exact lineBreak_notMem (fun hbreak => h (hbreak ▸ hc)) hbyte

/-! ## The place of an offset -/

/-- The offset right behind the last line break, or the first one if there is none. -/
def lineStart (bytes : List UInt8) : Nat :=
  (bytes.rdropWhile (· ≠ lineBreak)).length

/-- The bytes up to the first line break and with it, or all of them if there is none. -/
def firstLineBytes (bytes : List UInt8) : List UInt8 :=
  bytes.take (bytes.idxOf lineBreak + 1)

/-- The place of an offset, where lines are counted from `first`. -/
structure LinePlace.IsAt (p : LinePlace) (first : Nat) (bytes : List UInt8) (offset : Nat) : Prop where
  inside : offset ≤ bytes.length
  number : p.number = first + (bytes.take offset).count lineBreak
  column : p.column = offset - lineStart (bytes.take offset)
  text : utf8 p.text.toList = firstLineBytes (bytes.drop (lineStart (bytes.take offset)))

theorem lineStart_of_notMem (h : lineBreak ∉ bytes) : lineStart bytes = 0 := by
  rw [lineStart, List.length_eq_zero_iff, List.rdropWhile_eq_nil_iff]
  exact fun b hb => decide_eq_true fun hbreak => h (hbreak ▸ hb)

theorem lineStart_break (line bytes : List UInt8) :
    lineStart (line ++ lineBreak :: bytes) = line.length + 1 + lineStart bytes := by
  rw [lineStart, lineStart, List.rdropWhile, List.rdropWhile, List.reverse_append, List.reverse_cons, List.append_assoc,
    List.dropWhile_append]
  split
  · next hempty =>
    rw [List.isEmpty_iff.1 hempty]
    simp [lineBreak]
  · simp
    omega

theorem firstLineBytes_append (h : lineBreak ∉ line) (bytes : List UInt8) :
    firstLineBytes (line ++ bytes) = line ++ firstLineBytes bytes := by
  rw [firstLineBytes, List.idxOf_append_of_notMem h, Nat.add_assoc, List.take_length_add_append, firstLineBytes]

/-- The first line of a text has the bytes up to its line break. -/
theorem firstLineBytes_utf8 (s : List Char) : firstLineBytes (utf8 s) = utf8 (firstLine s) := by
  induction s with
  | nil => rfl
  | cons c s ih =>
    by_cases hc : c = '\n'
    · subst hc
      simp [firstLineBytes, firstLine]
    · rw [utf8_cons, firstLineBytes_append (lineBreak_notMem hc), ih, firstLine, firstLine, List.takeWhile_cons_of_pos (by simpa),
        List.dropWhile_cons_of_pos (by simpa), List.cons_append, utf8_cons]

namespace LinePlace

/-- A place in the first line. -/
theorem isAt_line (hinside : offset ≤ bytes.length) (hline : lineBreak ∉ bytes.take offset) :
    p.IsAt n bytes offset ↔ p.number = n ∧ p.column = offset ∧ utf8 p.text.toList = firstLineBytes bytes := by
  have hcount := List.count_eq_zero.2 hline
  have hstart := lineStart_of_notMem hline
  constructor
  · rintro ⟨-, hnumber, hcolumn, htext⟩
    rw [hcount, Nat.add_zero] at hnumber
    rw [hstart, Nat.sub_zero] at hcolumn
    rw [hstart, List.drop_zero] at htext
    exact ⟨hnumber, hcolumn, htext⟩
  · rintro ⟨hnumber, hcolumn, htext⟩
    exact ⟨hinside, by rw [hcount, hnumber, Nat.add_zero], by rw [hstart, hcolumn, Nat.sub_zero],
      by rw [hstart, List.drop_zero, htext]⟩

/-- A place behind the first line is one of the bytes behind its line break, counted from the next line on. -/
theorem isAt_break (h : lineBreak ∉ line) (bytes : List UInt8) (k : Nat) :
    p.IsAt n (line ++ lineBreak :: bytes) (line.length + 1 + k) ↔ p.IsAt (n + 1) bytes k := by
  have hsplit : line ++ lineBreak :: bytes = (line ++ [lineBreak]) ++ bytes := by simp
  have hlength : (line ++ [lineBreak]).length = line.length + 1 := by simp
  have hfront : (line ++ lineBreak :: bytes).take (line.length + 1 + k) = line ++ lineBreak :: bytes.take k := by
    rw [hsplit, ← hlength, List.take_length_add_append]
    simp
  have hbehind : ∀ m, (line ++ lineBreak :: bytes).drop (line.length + 1 + m) = bytes.drop m := fun m => by
    rw [hsplit, ← hlength, List.drop_length_add_append]
  have hinside : line.length + 1 + k ≤ (line ++ lineBreak :: bytes).length ↔ k ≤ bytes.length := by simp; omega
  have hnumber : n + (line ++ lineBreak :: bytes.take k).count lineBreak = n + 1 + (bytes.take k).count lineBreak := by
    rw [List.count_append, List.count_eq_zero.2 h, List.count_cons_self]
    omega
  constructor
  · rintro ⟨h₁, h₂, h₃, h₄⟩
    rw [hfront] at h₂ h₃ h₄
    rw [lineStart_break] at h₃ h₄
    exact ⟨hinside.1 h₁, h₂.trans hnumber, h₃.trans (Nat.add_sub_add_left ..), h₄.trans (by rw [hbehind])⟩
  · rintro ⟨h₁, h₂, h₃, h₄⟩
    refine ⟨hinside.2 h₁, ?_, ?_, ?_⟩
    · rw [hfront, hnumber, h₂]
    · rw [hfront, lineStart_break, Nat.add_sub_add_left, h₃]
    · rw [hfront, lineStart_break, hbehind, h₄]

theorem IsAt.unique (h : p.IsAt n bytes offset) (h' : p'.IsAt n bytes offset) : p = p' := by
  obtain ⟨number, text, column⟩ := p
  obtain ⟨number', text', column'⟩ := p'
  obtain rfl : number = number' := h.number.trans h'.number.symm
  obtain rfl : column = column' := h.column.trans h'.column.symm
  obtain rfl : text = text' := by
    have htext := h.text.trans h'.text.symm
    rw [utf8_toList, utf8_toList] at htext
    exact String.toByteArray_inj.1 (ByteArray.ext (Array.toList_inj.1 htext))
  rfl

end LinePlace

/-! ## The place that is found -/

theorem lineFrom_eq_none_iff (n : Nat) (before : List Char) (k : Nat) (s : List Char) :
    lineFrom n before k s = none ↔ width s < k := by
  induction s generalizing n before k with
  | nil => simp [lineFrom, Nat.pos_iff_ne_zero]
  | cons c s ih =>
    have := c.utf8Size_pos
    rw [lineFrom, width_cons]
    split
    · simp
      omega
    · split <;> rw [ih] <;> omega

/-- A place in the line that a text starts with, of which a part has been read. -/
theorem isAt_firstLine (hbefore : '\n' ∉ before) (hinside : k ≤ width s) (hk : lineBreak ∉ (utf8 s).take k) :
    (⟨n, String.ofList (before.reverse ++ firstLine s), width before + k⟩ : LinePlace).IsAt n
      (utf8 (before.reverse ++ s)) (width before + k) := by
  have hline : lineBreak ∉ utf8 before.reverse := lineBreak_notMem_utf8 (by simpa using hbefore)
  have hlength : (utf8 before.reverse).length = width before := by simp
  have hfront : (utf8 (before.reverse ++ s)).take (width before + k) = utf8 before.reverse ++ (utf8 s).take k := by
    rw [utf8_append, ← hlength, List.take_length_add_append]
  have hfits : width before + k ≤ (utf8 (before.reverse ++ s)).length := by simpa
  have hnone : lineBreak ∉ (utf8 (before.reverse ++ s)).take (width before + k) := by
    rw [hfront, List.mem_append, not_or]
    exact ⟨hline, hk⟩
  refine (LinePlace.isAt_line hfits hnone).2 ⟨rfl, rfl, ?_⟩
  rw [String.toList_ofList, utf8_append, utf8_append, firstLineBytes_append hline, firstLineBytes_utf8]

/-- In front of an offset that is in the first character there is no line break. -/
theorem lineBreak_notMem_take (s : List Char) (hk : k < c.utf8Size) : lineBreak ∉ (utf8 (c :: s)).take k := by
  rw [utf8_cons, List.take_append_of_le_length (by rw [String.length_utf8EncodeChar]; omega)]
  by_cases hc : c = '\n'
  · subst hc
    obtain rfl : k = 0 := Nat.lt_one_iff.1 hk
    simp
  · exact fun h => lineBreak_notMem hc (List.mem_of_mem_take h)

/-- What is found in a text that goes on after a part of a line is at its place in the bytes of both. -/
theorem lineFrom_isAt (hbefore : '\n' ∉ before) (hp : lineFrom n before k s = some p) :
    p.IsAt n (utf8 (before.reverse ++ s)) (width before + k) := by
  induction s generalizing n before k with
  | nil =>
    rw [lineFrom] at hp
    split at hp
    · next hk =>
      cases hp
      subst hk
      have h := isAt_firstLine (s := []) (n := n) hbefore (Nat.zero_le _) (by simp)
      simpa [firstLine] using h
    · cases hp
  | cons c s ih =>
    rw [lineFrom] at hp
    split at hp
    · next hk =>
      cases hp
      exact isAt_firstLine hbefore (by rw [width_cons]; omega) (lineBreak_notMem_take s hk)
    · next hk =>
      have hleft : width before + k = width before + c.utf8Size + (k - c.utf8Size) := by omega
      split at hp
      · next hc =>
        subst hc
        have hline : lineBreak ∉ utf8 before.reverse := lineBreak_notMem_utf8 (by simpa using hbefore)
        have h := (LinePlace.isAt_break hline _ _).2 (ih (by simp) hp)
        rw [length_utf8, width_reverse, width_nil, Nat.zero_add] at h
        rw [hleft, utf8_append]
        exact h
      · next hc =>
        have hmore : '\n' ∉ c :: before := by simp [hbefore, Ne.symm hc]
        have h := ih hmore hp
        rw [List.reverse_cons, List.append_assoc, width_cons] at h
        rw [hleft, Nat.add_comm (width before)]
        exact h

/-- The line of an offset is the one around it, and there is one unless the offset is past the end. -/
theorem lineAt?_iff (source : String) (offset : UInt32) :
    (lineAt? source offset = none ↔ source.utf8ByteSize < offset.toNat) ∧
      ∀ p, lineAt? source offset = some p ↔ p.IsAt 1 source.toByteArray.data.toList offset.toNat := by
  have hnone : lineAt? source offset = none ↔ source.utf8ByteSize < offset.toNat := by
    rw [lineAt?, lineFrom_eq_none_iff, width_toList]
  have hfound : ∀ p, lineAt? source offset = some p → p.IsAt 1 source.toByteArray.data.toList offset.toNat := by
    intro p hp
    have h := lineFrom_isAt (by simp) hp
    rwa [List.reverse_nil, List.nil_append, width_nil, Nat.zero_add, utf8_toList] at h
  refine ⟨hnone, fun p => ⟨hfound p, fun h => ?_⟩⟩
  cases hp : lineAt? source offset with
  | none =>
    have hpast := hnone.1 hp
    have hinside : offset.toNat ≤ source.utf8ByteSize := h.inside
    omega
  | some q => rw [h.unique (hfound q hp)]

/-- An offset inside a character, on a line break and at the end of a source that ends in one. -/
example : [1, 2, 4].map (lineAt? "é\n\n") = [some ⟨1, "é\n", 1⟩, some ⟨1, "é\n", 2⟩, some ⟨3, "", 0⟩] := by decide

end MiniLua
