import MiniLua.Proofs.Scanning.Strings
/-!
# Numbers as they are written

What is taken for a number is the longest front of a text that has the shape of one. Where a character has
stopped it, more text behind makes no difference (`LongestNumber.append`). A numeral in front of such a character is
read as the number token of just these bytes; what has the shape and is no numeral is an error as a whole
(`tokenize_numbers`).
-/

namespace MiniLua

open Lexeme Text

namespace Lexeme

variable {c : Char} {s number : List Char}

/-! ## Runs that a character stops -/

/-- A run that does not reach the end of a text is the same with more text behind. -/
theorem run_stopped {p : Char → Bool} (h : s.dropWhile p ≠ []) (more : List Char) :
    (s ++ more).takeWhile p = s.takeWhile p ∧ (s ++ more).dropWhile p = s.dropWhile p ++ more := by
  have hlen : (s.takeWhile p).length ≠ s.length := by
    intro hlen
    have hsplit := congrArg List.length (List.takeWhile_append_dropWhile (p := p) (l := s))
    have := List.length_pos_iff.2 h
    rw [List.length_append] at hsplit
    omega
  refine ⟨by rw [List.takeWhile_append, if_neg hlen], ?_⟩
  rw [List.dropWhile_append, if_neg (by simpa using h)]

theorem signRun_append_more (h : s ≠ []) (more : List Char) :
    signRun (s ++ more) = ((signRun s).1, (signRun s).2 ++ more) := by
  obtain ⟨c, s, rfl⟩ := List.exists_cons_of_ne_nil h
  rw [List.cons_append, signRun, signRun]
  split <;> rfl

theorem exponentRun_stopped (h : (exponentRun s).2 ≠ []) (more : List Char) :
    exponentRun (s ++ more) = ((exponentRun s).1, (exponentRun s).2 ++ more) := by
  cases s with
  | nil => exact absurd rfl h
  | cons c s =>
    rw [exponentRun] at h
    rw [List.cons_append, exponentRun, exponentRun]
    split
    · next hm =>
      rw [if_pos hm] at h
      -- Something is left behind the sign, so there was something in front of it.
      have hs : s ≠ [] := by
        rintro rfl
        exact h rfl
      obtain ⟨htake, hdrop⟩ := run_stopped h more
      simp only [signRun_append_more hs, htake, hdrop]
    · rfl

/-- What is taken for a number does not depend on the text behind a character that stops it. -/
theorem numberRun_stopped (h : (numberRun s).2 ≠ []) (more : List Char) :
    numberRun (s ++ more) = ((numberRun s).1, (numberRun s).2 ++ more) := by
  have hexp : (exponentRun (s.dropWhile isMantissaPart)).2 ≠ [] := h
  have hs : s.dropWhile isMantissaPart ≠ [] := by
    intro hs
    rw [hs] at hexp
    exact hexp rfl
  obtain ⟨htake, hdrop⟩ := run_stopped hs more
  simp only [numberRun, htake, hdrop, exponentRun_stopped hexp]

/-! ## The longest number -/

theorem NumberShape.exists_digit (h : NumberShape number) : ∃ c s, number = c :: s ∧ c.isDigit := by
  cases h with
  | mantissa hc => exact ⟨_, _, rfl, hc⟩
  | exponent hc => exact ⟨_, _, rfl, hc⟩

/-- The longest number of a text is what is taken for one. -/
theorem longestNumber_iff : LongestNumber number s ↔ ∃ c t, s = c :: t ∧ c.isDigit ∧ number = c :: (numberRun t).1 := by
  constructor
  · intro h
    obtain ⟨c, w, rfl, hc⟩ := h.shape.exists_digit
    obtain ⟨more, rfl⟩ := h.front
    exact ⟨c, w ++ more, rfl, hc, h.unique (numberRun_longest hc _)⟩
  · rintro ⟨c, t, rfl, hc, rfl⟩
    exact numberRun_longest hc t

/-- A number that does not reach the end of a text is the longest one with more text behind as well. -/
theorem LongestNumber.append (h : LongestNumber number s) (hlen : number.length < s.length) (more : List Char) :
    LongestNumber number (s ++ more) := by
  obtain ⟨c, t, rfl, hc, rfl⟩ := longestNumber_iff.1 h
  have hstop : (numberRun t).2 ≠ [] := by
    intro hnil
    have hsplit := congrArg List.length (numberRun_append t)
    rw [hnil, List.append_nil] at hsplit
    simp only [List.length_cons, hsplit] at hlen
    omega
  exact longestNumber_iff.2 ⟨c, t ++ more, rfl, hc, by rw [numberRun_stopped hstop]⟩

end Lexeme

/-! ## Number literals -/

/-- A numeral in front of a text that does not start with a part of one is read as the number token of just
these bytes, and that text as if it stood alone. Of a text that starts with a digit some front is the longest with the
shape of a number, and if that is no numeral, the whole of it is the error of the text. -/
theorem tokenize_numbers (file : String) :
    (∀ number rest : String, Numeral number.toList →
      (∀ d, rest.toList.head? = some d → d.isDigit = false ∧ d ∉ ['.', 'e', 'E']) →
      (number ++ rest).utf8ByteSize < UInt32.size →
      ReadsBehind ⟨.number, number, .ofNat file 0 number.utf8ByteSize⟩ number.utf8ByteSize
        (tokenize (number ++ rest) file) (tokenize rest file)) ∧
    (∀ (source : String) (c : Char), source.toList.head? = some c → c.isDigit →
      ∃ number : String, LongestNumber number.toList source.toList) ∧
    ∀ source number : String, LongestNumber number.toList source.toList → ¬ Numeral number.toList →
      tokenize source file = .error ⟨.malformedNumber number, .ofNat file 0⟩ := by
  refine ⟨fun number rest h hend hsize => ?_, fun source c hc hdigit => ?_, fun source number h hnot => ?_⟩
  · refine tokenize_spells (.number h) (fun d hd hgo => ?_) file hsize
    have hgo : isExponentPart d = true := hgo
    obtain ⟨hdigit, hd⟩ := hend d hd
    simp only [List.mem_cons, List.not_mem_nil, or_false, not_or] at hd
    simp [isExponentPart, isExponentMark, hdigit, hd] at hgo
  · obtain ⟨t, ht⟩ := List.head?_eq_some_iff.1 hc
    refine ⟨.ofList (c :: (numberRun t).1), ?_⟩
    rw [String.toList_ofList]
    exact longestNumber_iff.2 ⟨c, t, ht, hdigit, rfl⟩
  · have hfault := Faulty.malformedNumber h hnot
    obtain ⟨c, t, ht⟩ := List.exists_cons_of_ne_nil hfault.ne_nil
    rw [ht] at hfault
    rw [tokenize, ht, scan_of_error (first_eq_error_iff.2 hfault), String.ofList_toList]

/-- A sign ends a numeral behind the digits of its exponent, and belongs to what is taken for one before them. -/
theorem tokenize_numbers_sign :
    tokenize ("1.5e-3" ++ "-x") "f" =
        .ok [⟨.number, "1.5e-3", .ofNat "f" 0 6⟩, ⟨.operator, "-", .ofNat "f" 6 1⟩, ⟨.identifier, "x", .ofNat "f" 7 1⟩] ∧
      (∃ number : String, LongestNumber number.toList "1e-x".toList) ∧
      tokenize "1e-x" "f" = .error ⟨.malformedNumber "1e-", .ofNat "f" 0⟩ := by
  have hrest : tokenize "-x" "f" = .ok [⟨.operator, "-", .ofNat "f" 0 1⟩, ⟨.identifier, "x", .ofNat "f" 1 1⟩] := by
    have hdash : first '-' ['x'] = .ok ⟨['-'], ['x'], some (.operator, "-")⟩ := rfl
    have hx : first 'x' [] = .ok (word 'x' []) := rfl
    refine (scan_of_ok hdash).trans ?_
    refine (scan_of_ok hx).trans ?_
    exact scan_nil _ _ _
  have hend : ∀ d, "-x".toList.head? = some d → d.isDigit = false ∧ d ∉ ['.', 'e', 'E'] := by
    intro d hd
    obtain rfl : '-' = d := Option.some.inj hd
    decide
  have h := (tokenize_numbers "f").1 "1.5e-3" "-x" (isNumeral_iff.1 rfl) hend (by decide)
  rw [hrest] at h
  have hlongest : LongestNumber "1e-".toList "1e-x".toList := longestNumber_iff.2 ⟨'1', _, rfl, rfl, rfl⟩
  exact ⟨h.1, (tokenize_numbers "f").2.1 "1e-x" '1' rfl rfl,
    (tokenize_numbers "f").2.2 _ _ hlongest (mt isNumeral_iff.2 (by decide))⟩

end MiniLua
