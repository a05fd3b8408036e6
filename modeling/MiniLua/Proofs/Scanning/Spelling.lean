import MiniLua.Lexeme.Lemmas
/-!
# How tokens and gaps are spelled

What may stand in a source: for a token of each kind the texts that spell it and the value
that each of them has (`Spells`), and between tokens blanks and comments (`Filler`). A lexeme
that `first` reads is the one or the other (`first_wellSpelled`).
-/

namespace MiniLua.Lexeme

variable {c : Char} {s body rest value written : List Char} {l : Lexeme}

/-! ## Numerals -/

/-- One digit or more. -/
def Digits (s : List Char) : Prop := s ≠ [] ∧ ∀ c ∈ s, c.isDigit

/-- A dot and digits, or nothing. -/
inductive Fraction : List Char → Prop
  | absent : Fraction []
  | present {s : List Char} (h : Digits s) : Fraction ('.' :: s)

/-- A marker, a sign or none, and digits, or nothing. -/
inductive Exponent : List Char → Prop
  | absent : Exponent []
  | present {mark : Char} {sign s : List Char} (hm : mark ∈ ['e', 'E']) (hs : sign ∈ [[], ['+'], ['-']]) (h : Digits s) :
    Exponent (mark :: (sign ++ s))

/-- Digits with an optional fraction and an optional exponent. -/
def Numeral (s : List Char) : Prop :=
  ∃ whole fraction exponent, s = whole ++ (fraction ++ exponent) ∧ Digits whole ∧ Fraction fraction ∧ Exponent exponent

theorem isDigits_iff : isDigits s = true ↔ Digits s := by
  simp [isDigits, Digits]

/-- A run goes on as long as its characters do. -/
theorem run_append {p : Char → Bool} (h : ∀ c ∈ s, p c) (hrest : ∀ c, rest.head? = some c → p c = false) :
    (s ++ rest).takeWhile p = s ∧ (s ++ rest).dropWhile p = rest := by
  rw [List.takeWhile_append_of_pos h, List.dropWhile_append_of_pos h]
  cases rest with
  | nil => simp
  | cons c rest => simp [hrest c rfl]

/-- Before digits a sign is taken alone, and without one nothing. -/
theorem signRun_digits {sign : List Char} (hs : sign ∈ [[], ['+'], ['-']]) (h : Digits s) (rest : List Char) :
    signRun (sign ++ (s ++ rest)) = (sign, s ++ rest) := by
  obtain ⟨hne, hall⟩ := h
  cases s with
  | nil => exact absurd rfl hne
  | cons d s =>
    have hd := hall d List.mem_cons_self
    simp only [List.mem_cons, List.not_mem_nil, or_false] at hs
    rcases hs with rfl | rfl | rfl
    · -- Without a sign the first digit must not be taken for one.
      have hplus : d ≠ '+' := by rintro rfl; cases hd
      have hminus : d ≠ '-' := by rintro rfl; cases hd
      simp [signRun, hplus, hminus]
    · rfl
    · rfl

theorem isExponent_iff : isExponent s = true ↔ Exponent s := by
  constructor
  · intro h
    cases s with
    | nil => exact .absent
    | cons c s =>
      simp only [isExponent, isExponentMark, Bool.and_eq_true, Bool.or_eq_true, decide_eq_true_eq, isDigits_iff] at h
      rw [← signRun_append s]
      refine .present (by simpa using h.1) ?_ h.2
      cases s with
      | nil => simp [signRun]
      | cons d s => grind [signRun]
  · intro h
    cases h with
    | absent => rfl
    | @present mark sign s hm hs h =>
      have hsign := signRun_digits hs h []
      rw [List.append_nil] at hsign
      rw [isExponent, hsign]
      simpa [isExponentMark, isDigits_iff] using And.intro hm h

theorem Exponent.head_not_digit (h : Exponent s) : ∀ c, s.head? = some c → c.isDigit = false ∧ c ≠ '.' := by
  cases h with
  | absent => nofun
  | present hm =>
    rintro _ ⟨⟩
    simp only [List.mem_cons, List.not_mem_nil, or_false] at hm
    rcases hm with rfl | rfl <;> decide

theorem isFraction_iff : isFraction s = true ↔ ∃ fraction exponent, s = fraction ++ exponent ∧ Fraction fraction ∧ Exponent exponent := by
  constructor
  · intro h
    unfold isFraction at h
    split at h
    · next s =>
      simp only [Bool.and_eq_true, isDigits_iff, isExponent_iff] at h
      exact ⟨_, _, by rw [List.cons_append, List.takeWhile_append_dropWhile], .present h.1, h.2⟩
    · exact ⟨[], s, rfl, .absent, isExponent_iff.1 h⟩
  · rintro ⟨fraction, exponent, rfl, hf, he⟩
    cases hf with
    | absent =>
      have hdot : ∀ s, exponent ≠ '.' :: s := by
        rintro s rfl
        exact (he.head_not_digit '.' rfl).2 rfl
      rw [List.nil_append, isFraction]
      · exact isExponent_iff.2 he
      · exact hdot
    | present h =>
      obtain ⟨ht, hd⟩ := run_append h.2 fun c hc => (he.head_not_digit c hc).1
      rw [List.cons_append, isFraction, ht, hd, Bool.and_eq_true, isDigits_iff, isExponent_iff]
      exact ⟨h, he⟩

theorem isNumeral_iff : isNumeral s = true ↔ Numeral s := by
  rw [isNumeral, Bool.and_eq_true, isDigits_iff, isFraction_iff]
  constructor
  · rintro ⟨hw, fraction, exponent, hs, hf, he⟩
    exact ⟨_, fraction, exponent, by rw [← hs, List.takeWhile_append_dropWhile], hw, hf, he⟩
  · rintro ⟨whole, fraction, exponent, rfl, hw, hf, he⟩
    have hnext : ∀ c, (fraction ++ exponent).head? = some c → c.isDigit = false := by
      cases hf with
      | absent => exact fun c hc => (he.head_not_digit c hc).1
      | present =>
        rintro _ ⟨⟩
        rfl
    obtain ⟨ht, hd⟩ := run_append hw.2 hnext
    rw [ht, hd]
    exact ⟨hw, fraction, exponent, rfl, hf, he⟩

/-! ## Between brackets -/

/-- A text that `]]` can close: the brackets behind it are the first ones. -/
def Closed (body : List Char) : Prop := ¬ [']', ']'] <:+: body ++ [']']

theorem closed_nil : Closed [] := by
  rintro ⟨s, t, h⟩
  have := congrArg List.length h
  simp only [List.length_append, List.length_cons, List.length_nil] at this
  omega

theorem closed_cons : Closed (c :: body) ↔ ¬ (c = ']' ∧ (body ++ [']']).head? = some ']') ∧ Closed body := by
  rw [Closed, List.cons_append, List.infix_cons_iff, List.cons_prefix_cons, not_or, Closed]
  refine and_congr_left fun _ => not_congr (and_congr eq_comm ?_)
  cases body ++ [']'] with
  | nil => simp
  | cons d s => simp [eq_comm]

/-- The text before the first brackets is closed by them. -/
theorem untilBrackets_closed {before : List Char} (h : untilBrackets before s = some (body, rest)) :
    ∃ inner, body = before.reverse ++ inner ∧ s = inner ++ ']' :: ']' :: rest ∧ Closed inner := by
  induction s generalizing before with
  | nil => cases h
  | cons c s ih =>
    rw [untilBrackets] at h
    split at h
    · next hc =>
      cases h
      simp only [Bool.and_eq_true, decide_eq_true_eq] at hc
      obtain ⟨rfl, hs⟩ := hc
      obtain ⟨t, rfl⟩ := List.head?_eq_some_iff.1 hs
      exact ⟨[], by simp, rfl, closed_nil⟩
    · next hc =>
      -- No brackets stand here, so the first ones are those of the rest.
      obtain ⟨inner, rfl, rfl, hinner⟩ := ih h
      refine ⟨c :: inner, by simp, rfl, closed_cons.2 ⟨fun hc' => hc ?_, hinner⟩⟩
      cases inner <;> simp_all

/-! ## Between quotes -/

/-- A text between quotes and what it stands for. -/
inductive Decodes : List Char → List Char → Prop
  | nil : Decodes [] []
  | plain {c : Char} {body value : List Char} (hq : c ≠ '"') (hb : c ≠ '\\') (h : Decodes body value) :
    Decodes (c :: body) (c :: value)
  | escape {d v : Char} {body value : List Char} (hd : unescape? d = some v) (h : Decodes body value) :
    Decodes ('\\' :: d :: body) (v :: value)

theorem stringFrom_decodes (h : stringFrom written value s = .ok l) :
    ∃ body decoded rest, s = body ++ '"' :: rest ∧ Decodes body decoded ∧
      l = ⟨written.reverse ++ body ++ ['"'], rest, some (.string, String.ofList (value.reverse ++ decoded))⟩ := by
  fun_induction stringFrom written value s with
  | case1 => cases h
  | case2 written value s =>
    cases h
    exact ⟨[], [], s, rfl, .nil, by simp⟩
  | case3 => cases h
  | case4 written value d s v hd _ ih =>
    obtain ⟨body, decoded, rest, rfl, hdec, rfl⟩ := ih h
    exact ⟨'\\' :: d :: body, v :: decoded, rest, rfl, .escape hd hdec, by simp⟩
  | case5 => cases h
  | case6 written value c s hq hb ih =>
    obtain ⟨body, decoded, rest, rfl, hdec, rfl⟩ := ih h
    exact ⟨c :: body, c :: decoded, rest, rfl, .plain hq hb hdec, by simp⟩

/-! ## Tokens -/

/-- A letter or underscore, and then letters, digits and underscores. -/
def WordShape : List Char → Prop
  | [] => False
  | c :: s => isWordStart c ∧ ∀ d ∈ s, isWordPart d

/-- The texts that spell a token of a kind, with its value. That is the text itself for all but strings. -/
inductive Spells : Token.Kind → List Char → List Char → Prop
  | reserved {kind : Token.Kind} {w : List Char} (h : Token.Kind.reserved? (String.ofList w) = some kind) : Spells kind w w
  | identifier {w : List Char} (hw : WordShape w) (h : Token.Kind.reserved? (String.ofList w) = none) : Spells .identifier w w
  | number {w : List Char} (h : Numeral w) : Spells .number w w
  | operatorPair {c d : Char} (h : (c, d) ∈ operatorPairs) : Spells .operator [c, d] [c, d]
  | operator {c : Char} (h : c ∈ operatorChars) : Spells .operator [c] [c]
  | symbol {c : Char} (h : c ∈ symbolChars) : Spells .symbol [c] [c]
  | quoted {body value : List Char} (h : Decodes body value) : Spells .string ('"' :: (body ++ ['"'])) value
  | bracketed {body : List Char} (h : Closed body) : Spells .string ('[' :: '[' :: (body ++ [']', ']'])) body

theorem Spells.ne_nil {kind : Token.Kind} {w v : List Char} (h : Spells kind w v) : w ≠ [] := by
  rintro rfl
  cases h with
  | reserved h => cases h
  | identifier hw => exact hw
  | number h =>
    obtain ⟨whole, fraction, exponent, hs, ⟨hne, _⟩, _⟩ := h
    exact hne (List.append_eq_nil_iff.1 hs.symm).1

/-! ## Gaps -/

/-- A piece of what may stand between tokens, and the text behind it. A comment to the end of
its line does not open a long one. -/
inductive Filler : List Char → List Char → Prop
  | blanks {s rest : List Char} (hne : s ≠ []) (h : ∀ c ∈ s, Text.isBlank c) : Filler s rest
  | lineComment {body rest : List Char} (hbody : '\n' ∉ body) (hopen : ¬ ['[', '['] <+: body)
    (hend : ∀ c, rest.head? = some c → c = '\n') : Filler ('-' :: '-' :: body) rest
  | longComment {body rest : List Char} (h : Closed body) : Filler ('-' :: '-' :: '[' :: '[' :: (body ++ [']', ']'])) rest

/-- Blanks and comments up to a text. -/
inductive Gap : List Char → List Char → Prop
  | nil (rest : List Char) : Gap [] rest
  | cons {s gap rest : List Char} (h : Filler s (gap ++ rest)) (hg : Gap gap rest) : Gap (s ++ gap) rest

/-! ## The first lexeme -/

/-- A lexeme spells its token, or fills a gap. -/
def WellSpelled (l : Lexeme) : Prop :=
  match l.token with
  | some (kind, value) => Spells kind l.written value.toList
  | none => Filler l.written l.rest

theorem Filler.ne_nil (h : Filler s rest) : s ≠ [] := by
  cases h with
  | blanks hne => exact hne
  | _ => nofun

theorem WellSpelled.ne_nil (h : WellSpelled l) : l.written ≠ [] := by
  unfold WellSpelled at h
  split at h <;> exact h.ne_nil

/-- What a reading gives is well spelled. -/
def Spelled (r : Reading) : Prop := ∀ l, r = .ok l → WellSpelled l

theorem spelled_ok (h : WellSpelled l) : Spelled (.ok l) := by
  rintro _ ⟨⟩
  exact h

/-- A token with the value that its text spells. -/
theorem spelled_token {kind : Token.Kind} {w v : List Char} (h : Spells kind w v) (rest : List Char) :
    Spelled (.ok ⟨w, rest, some (kind, String.ofList v)⟩) := by
  apply spelled_ok
  simpa [WellSpelled] using h

theorem spelled_error {e : LexError.Cause × Nat} : Spelled (.error e) := nofun

theorem blank_spelled (hc : Text.isBlank c) (s : List Char) : Spelled (.ok (blank c s)) := by
  refine spelled_ok (.blanks (List.cons_ne_nil c _) fun d hd => ?_)
  rcases List.mem_cons.1 hd with rfl | hd
  · exact hc
  · exact List.all_eq_true.1 List.all_takeWhile d hd

theorem word_spelled (hc : isWordStart c) (s : List Char) : Spelled (.ok (word c s)) := by
  have hw : WordShape (c :: s.takeWhile isWordPart) := ⟨hc, fun d hd => List.all_eq_true.1 List.all_takeWhile d hd⟩
  apply spelled_token
  unfold Token.Kind.ofWord
  cases hr : Token.Kind.reserved? (String.ofList (c :: s.takeWhile isWordPart)) with
  | none => exact .identifier hw hr
  | some kind => exact .reserved hr

theorem number_spelled (c : Char) (s : List Char) : Spelled (number c s) := by
  unfold number
  dsimp only
  split
  · next h => exact spelled_token (.number (isNumeral_iff.1 h)) _
  · exact spelled_error

theorem longComment_spelled (s : List Char) : Spelled (longComment s) := by
  unfold longComment
  split
  · next h =>
    obtain ⟨inner, rfl, rfl, hinner⟩ := untilBrackets_closed h
    exact spelled_ok (.longComment hinner)
  · exact spelled_error

theorem lineComment_spelled (hopen : ¬ ['[', '['] <+: s) : Spelled (.ok (lineComment s)) := by
  refine spelled_ok (.lineComment (fun h => ?_) (fun h => hopen ?_) fun c hc => ?_)
  · simpa using List.all_eq_true.1 List.all_takeWhile _ h
  · exact h.trans (List.takeWhile_prefix _)
  · have := List.head?_dropWhile_not (· ≠ '\n') s
    rw [show (s.dropWhile (· ≠ '\n')).head? = some c from hc] at this
    simpa using this

theorem longString_spelled (s : List Char) : Spelled (longString s) := by
  unfold longString
  split
  · next h =>
    obtain ⟨inner, rfl, rfl, hinner⟩ := untilBrackets_closed h
    exact spelled_token (.bracketed hinner) _
  · exact spelled_error

theorem string_spelled (s : List Char) : Spelled (stringFrom ['"'] [] s) := by
  intro l hl
  obtain ⟨body, decoded, rest, rfl, hdec, rfl⟩ := stringFrom_decodes hl
  exact spelled_token (.quoted hdec) rest _ rfl

theorem single_spelled (c : Char) (s : List Char) : Spelled (single c s) := by
  unfold single
  split
  · next h => exact spelled_token (.operator h) s
  · split
    · next h => exact spelled_token (.symbol h) s
    · exact spelled_error

theorem punctuation_spelled (c : Char) (s : List Char) : Spelled (punctuation c s) := by
  cases s with
  | nil => exact single_spelled c []
  | cons d s =>
    rw [punctuation]
    split
    · next h => exact spelled_token (.operatorPair h) s
    · exact single_spelled c (d :: s)

theorem first_spelled (c : Char) (s : List Char) : Spelled (first c s) := by
  unfold first
  split
  · next hc => exact blank_spelled hc s
  split
  · next hc => exact word_spelled hc s
  split
  · exact number_spelled c s
  split
  · exact longComment_spelled _
  · next hopen _ _ _ =>
    refine lineComment_spelled ?_
    rintro ⟨body, rfl⟩
    exact hopen body rfl
  · exact string_spelled _
  · exact longString_spelled _
  · exact punctuation_spelled _ _

end MiniLua.Lexeme
