import MiniLua.Lexeme.Basic
/-!
# A lexeme is the front of its text

`first_append`: a lexeme and what follows it are the text it was read from.
`first_ne_nil`: a lexeme is not empty. So reading one lexeme after another
comes to an end (`length_rest_lt`).
-/

namespace MiniLua.Lexeme

/-- A reading that gives a lexeme gives a front of the text, and not an empty one. -/
def Splits (r : Reading) (s : List Char) : Prop :=
  ∀ l, r = .ok l → l.written ++ l.rest = s ∧ l.written ≠ []

theorem splits_ok {l : Lexeme} {s : List Char} (h : l.written ++ l.rest = s) (hne : l.written ≠ []) :
    Splits (.ok l) s := by
  intro l' hl
  cases hl
  exact ⟨h, hne⟩

theorem splits_error {e : LexError.Cause × Nat} {s : List Char} : Splits (.error e) s :=
  fun _ h => nomatch h

/-! ## Rule by rule -/

theorem blank_splits (c : Char) (s : List Char) : Splits (.ok (blank c s)) (c :: s) :=
  splits_ok (by simp [blank, List.takeWhile_append_dropWhile]) (by simp [blank])

theorem word_splits (c : Char) (s : List Char) : Splits (.ok (word c s)) (c :: s) :=
  splits_ok (by simp [word, List.takeWhile_append_dropWhile]) (by simp [word])

theorem number_splits (c : Char) (s : List Char) : Splits (number c s) (c :: s) := by
  unfold number
  dsimp only
  split
  · exact splits_ok (by simp [numberRun_append]) (by simp)
  · exact splits_error

theorem untilBrackets_append {before s body rest : List Char}
    (h : untilBrackets before s = some (body, rest)) :
    body ++ ']' :: ']' :: rest = before.reverse ++ s := by
  induction s generalizing before with
  | nil => cases h
  | cons c s ih =>
    rw [untilBrackets] at h
    split at h
    · next hc =>
      cases h
      simp only [Bool.and_eq_true, decide_eq_true_eq] at hc
      obtain ⟨rfl, hs⟩ := hc
      obtain ⟨t, rfl⟩ := List.head?_eq_some_iff.1 hs
      simp
    · simpa using ih h

theorem longComment_splits (s : List Char) :
    Splits (longComment s) ('-' :: '-' :: '[' :: '[' :: s) := by
  unfold longComment
  split
  · next h => exact splits_ok (by simpa using untilBrackets_append h) (by simp)
  · exact splits_error

theorem lineComment_splits (s : List Char) : Splits (.ok (lineComment s)) ('-' :: '-' :: s) :=
  splits_ok (by simp [lineComment, List.takeWhile_append_dropWhile]) (by simp [lineComment])

theorem longString_splits (s : List Char) : Splits (longString s) ('[' :: '[' :: s) := by
  unfold longString
  split
  · next h => exact splits_ok (by simpa using untilBrackets_append h) (by simp)
  · exact splits_error

theorem stringFrom_splits (written value s : List Char) :
    Splits (stringFrom written value s) (written.reverse ++ s) := by
  fun_induction stringFrom written value s with
  | case1 => exact splits_error
  | case2 => exact splits_ok (by simp) (by simp)
  | case3 => exact splits_error
  | case4 => simp_all
  | case5 => exact splits_error
  | case6 => simp_all

theorem single_splits (c : Char) (s : List Char) : Splits (single c s) (c :: s) := by
  unfold single
  split
  · exact splits_ok rfl (by simp)
  · split
    · exact splits_ok rfl (by simp)
    · exact splits_error

theorem punctuation_splits (c : Char) (s : List Char) : Splits (punctuation c s) (c :: s) := by
  cases s with
  | nil => exact single_splits c []
  | cons d s =>
    rw [punctuation]
    split
    · exact splits_ok rfl (by simp)
    · exact single_splits c (d :: s)

/-! ## The first lexeme -/

theorem first_splits (c : Char) (s : List Char) : Splits (first c s) (c :: s) := by
  unfold first
  split
  · exact blank_splits c s
  split
  · exact word_splits c s
  split
  · exact number_splits c s
  split
  · exact longComment_splits _
  · exact lineComment_splits _
  · exact stringFrom_splits ['"'] [] _
  · exact longString_splits _
  · exact punctuation_splits _ _

theorem first_append {c : Char} {s : List Char} {l : Lexeme} (h : first c s = .ok l) :
    l.written ++ l.rest = c :: s :=
  (first_splits c s l h).1

theorem first_ne_nil {c : Char} {s : List Char} {l : Lexeme} (h : first c s = .ok l) :
    l.written ≠ [] :=
  (first_splits c s l h).2

theorem length_rest_lt {c : Char} {s : List Char} {l : Lexeme} (h : first c s = .ok l) :
    l.rest.length < (c :: s).length := by
  have hlen := congrArg List.length (first_append h)
  have := List.length_pos_iff.2 (first_ne_nil h)
  simp only [List.length_append] at hlen
  omega

end MiniLua.Lexeme
