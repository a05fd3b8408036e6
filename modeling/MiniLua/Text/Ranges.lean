/-!
# Ranges of characters

A class of characters is given by the ranges of code points it is made of,
both ends included.
-/

namespace MiniLua.Text

/-- Whether one of the ranges holds the character. -/
def inRanges (ranges : List (Nat × Nat)) (c : Char) : Bool :=
  ranges.any fun r => r.1 ≤ c.toNat && c.toNat ≤ r.2

theorem inRanges_iff {ranges : List (Nat × Nat)} {c : Char} :
    inRanges ranges c ↔ ∃ r ∈ ranges, r.1 ≤ c.toNat ∧ c.toNat ≤ r.2 := by
  simp [inRanges]

/-- Ranges that lie apart have no character in common. -/
theorem inRanges_disjoint {rs qs : List (Nat × Nat)} (h : ∀ r ∈ rs, ∀ q ∈ qs, r.2 < q.1 ∨ q.2 < r.1) {c : Char}
    (hr : inRanges rs c) : inRanges qs c = false := by
  rw [Bool.eq_false_iff]
  intro hq
  obtain ⟨r, hr, hrc⟩ := inRanges_iff.1 hr
  obtain ⟨q, hq, hqc⟩ := inRanges_iff.1 hq
  have := h r hr q hq
  omega

end MiniLua.Text
