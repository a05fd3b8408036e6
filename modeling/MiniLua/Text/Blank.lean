import MiniLua.Text.Ranges
/-!
# White space

The characters with the Unicode property `White_Space`: tab to carriage
return, the space, the next-line control, and the separators. A zero-width space is
none of them. `isBlank_of_isWhitespace`: the blanks of ASCII are blanks.
-/

namespace MiniLua.Text

/-- White space beyond ASCII. -/
def blankRanges : List (Nat × Nat) := [
  (0x0085, 0x0085), (0x00A0, 0x00A0), (0x1680, 0x1680), (0x2000, 0x200A), (0x2028, 0x2029),
  (0x202F, 0x202F), (0x205F, 0x205F), (0x3000, 0x3000)]

/-- A white space character. -/
def isBlank (c : Char) : Bool :=
  if c.toNat < 0x80 then c = ' ' || (0x09 ≤ c.toNat && c.toNat ≤ 0x0D)
  else inRanges blankRanges c

theorem isBlank_of_isWhitespace {c : Char} (h : c.isWhitespace) : isBlank c := by
  simp only [Char.isWhitespace, Bool.or_eq_true, decide_eq_true_eq] at h
  rcases h with ((h | h) | h) | h <;> subst h <;> rfl

/-- The blanks of ASCII. -/
theorem isBlank_ascii {c : Char} (hlt : c.toNat < 0x80) :
    isBlank c = true ↔ c ∈ [' ', '\t', '\n', '\x0b', '\x0c', '\r'] := by
  have hcode : ∀ d : Char, c = d ↔ c.toNat = d.toNat := fun d => Char.toNat_inj.symm
  simp only [isBlank, hlt, if_true, Bool.or_eq_true, Bool.and_eq_true, decide_eq_true_eq, List.mem_cons, List.not_mem_nil,
    or_false, hcode]
  simp only [Char.reduceToNat]
  omega

/-- A text without its last blanks. -/
def trimEnd (s : List Char) : List Char :=
  (s.reverse.dropWhile isBlank).reverse

/-- Blanks are gone from the end, and nothing else. -/
theorem trimEnd_spec (s : List Char) : ∃ blanks, s = trimEnd s ++ blanks ∧ (∀ c ∈ blanks, isBlank c) ∧
    ∀ c, (trimEnd s).getLast? = some c → isBlank c = false := by
  refine ⟨(s.reverse.takeWhile isBlank).reverse, ?_, fun c hc => ?_, fun c hc => ?_⟩
  · rw [trimEnd, ← List.reverse_append, List.takeWhile_append_dropWhile, List.reverse_reverse]
  · exact List.all_eq_true.1 List.all_takeWhile c (List.mem_reverse.1 hc)
  · rw [trimEnd, List.getLast?_reverse] at hc
    have := List.head?_dropWhile_not isBlank s.reverse
    rw [hc] at this
    simpa using this

end MiniLua.Text
