import MiniLua.Proofs.Scanning.Spelling
/-!
# Where a lexeme ends

`first` reads as much as it can: a lexeme ends where the next character does not go on with it
(`GoesOn`, `first_ended`). Conversely what is well spelled and not gone on with is what `first`
reads (`first_of_wellSpelled`), so of the text behind a lexeme no more than one character has a
part in where it ends. Only blanks are left out of this, which are read as far as they go: to take
them in two parts makes no difference to the tokens.
-/

namespace MiniLua.Lexeme

open Text

variable {c d : Char} {s w body rest value written : List Char} {kind : Token.Kind} {l : Lexeme}

/-! ## Classes of characters -/

/-- No blank is part of a word. -/
theorem isWordPart_of_isBlank (h : isBlank c) : isWordPart c = false := by
  by_cases hlt : c.toNat < 0x80
  · have hc := (isBlank_ascii hlt).1 h
    simp only [List.mem_cons, List.not_mem_nil, or_false] at hc
    rcases hc with rfl | rfl | rfl | rfl | rfl | rfl <;> rfl
  · rw [isBlank, if_neg hlt] at h
    have hletter : inRanges letterRanges c = false := inRanges_disjoint (by decide +kernel) h
    have hmore : inRanges supplementaryLetterRanges c = false := inRanges_disjoint (by decide +kernel) h
    have hdigit : inRanges decimalDigitRanges c = false := inRanges_disjoint (by decide +kernel) h
    have h_ : c ≠ '_' := by
      rintro rfl
      exact hlt (by decide)
    simp [isWordPart, isLetter, isDecimalDigit, hlt, hletter, hmore, hdigit, h_]

theorem isBlank_of_isWordPart (h : isWordPart c) : isBlank c = false := by
  rw [Bool.eq_false_iff]
  intro hb
  rw [isWordPart_of_isBlank hb] at h
  cases h

theorem isWordPart_of_isWordStart (h : isWordStart c) : isWordPart c := by
  simp only [isWordStart, isWordPart, Bool.or_eq_true] at h ⊢
  exact h.imp_left .inl

theorem isWordPart_of_isDigit (h : c.isDigit) : isWordPart c := by
  simp [isWordPart, isDecimalDigit_of_isDigit h]

theorem isWordStart_of_isDigit (h : c.isDigit) : isWordStart c = false := by
  have hv : c.toNat = c.val.toNat := rfl
  have hcode : 48 ≤ c.toNat ∧ c.toNat ≤ 57 := by
    simpa [Char.isDigit, UInt32.le_iff_toNat_le] using h
  have hlt : c.toNat < 0x80 := by omega
  have halpha : c.isAlpha = false := by
    show (decide ('A'.val ≤ c.val ∧ c.val ≤ 'Z'.val) || decide ('a'.val ≤ c.val) && decide (c.val ≤ 'z'.val)) = false
    simp [UInt32.le_iff_toNat_le]
    omega
  have hline : c ≠ '_' := by
    rintro rfl
    cases h
  simp [isWordStart, isLetter, hlt, halpha, hline]

theorem isBlank_of_isExponentPart (h : isExponentPart c) : isBlank c = false := by
  simp only [isExponentPart, isExponentMark, Bool.or_eq_true, decide_eq_true_eq] at h
  rcases h with (h | rfl) | (rfl | rfl)
  · exact isBlank_of_isWordPart (isWordPart_of_isDigit h)
  · rfl
  · rfl
  · rfl

/-! ## Which rule applies -/

theorem first_of_isBlank (hc : isBlank c) (s : List Char) : first c s = .ok (blank c s) := if_pos hc

theorem first_of_isWordStart (hc : isWordStart c) (s : List Char) : first c s = .ok (word c s) := by
  unfold first
  rw [if_neg (by simp [isBlank_of_isWordPart (isWordPart_of_isWordStart hc)]), if_pos hc]

theorem first_of_isDigit (hc : c.isDigit) (s : List Char) : first c s = number c s := by
  unfold first
  rw [if_neg (by simp [isBlank_of_isWordPart (isWordPart_of_isDigit hc)]), if_neg (by simp [isWordStart_of_isDigit hc]),
    if_pos hc]

theorem first_longComment (body : List Char) : first '-' ('-' :: '[' :: '[' :: body) = longComment body := rfl

theorem first_lineComment (h : ¬ ['[', '['] <+: body) : first '-' ('-' :: body) = .ok (lineComment body) := by
  unfold first
  rw [if_neg (by decide), if_neg (by decide), if_neg (by decide)]
  split
  · next heq =>
    obtain rfl := (List.cons.inj heq).2
    exact absurd ⟨_, rfl⟩ h
  · next heq =>
    obtain rfl := (List.cons.inj heq).2
    rfl
  · next hquote => cases hquote
  · next hopen => cases hopen
  · next hline _ => exact absurd rfl (hline body rfl)

theorem first_quote (body : List Char) : first '"' body = stringFrom ['"'] [] body := rfl

theorem first_brackets (body : List Char) : first '[' ('[' :: body) = longString body := rfl

/-- A character that starts none of the longer lexemes. -/
structure Plain (c : Char) : Prop where
  blank : isBlank c = false
  word : isWordStart c = false
  digit : c.isDigit = false
  quote : c ≠ '"'

theorem first_of_plain (hc : Plain c) (hdash : c = '-' → s.head? ≠ some '-') (hopen : c = '[' → s.head? ≠ some '[') :
    first c s = punctuation c s := by
  unfold first
  rw [if_neg (by simp [hc.blank]), if_neg (by simp [hc.word]), if_neg (by simp [hc.digit])]
  split
  · exact absurd rfl (hdash rfl)
  · exact absurd rfl (hdash rfl)
  · exact absurd rfl hc.quote
  · exact absurd rfl (hopen rfl)
  · rfl

/-! ## What goes on with a lexeme -/

/-- With a character behind it a text would not be a lexeme of this kind, or not end there. Of what
has no kind this is so of comments to the end of a line. -/
def GoesOn (kind : Option Token.Kind) (written : List Char) (d : Char) : Prop :=
  match kind with
  | none => ∃ body, written = '-' :: '-' :: body ∧ ¬ ['[', '['] <+: body ∧ d ≠ '\n'
  | some .string => False
  | some .number => isExponentPart d
  | some .operator | some .symbol => (written = ['-'] ∧ d = '-') ∨ ∃ c, written = [c] ∧ (c, d) ∈ operatorPairs
  | some _ => isWordPart d

theorem goesOn_ofWord {word : String} : GoesOn (some (.ofWord word)) w d ↔ isWordPart d = true := by
  unfold Token.Kind.ofWord Token.Kind.reserved?
  split
  · rfl
  split
  · rfl
  split <;> rfl

/-- A reading that gives a lexeme ends it where nothing goes on with it. -/
def Ended (r : Reading) : Prop :=
  ∀ l, r = .ok l → ∀ d, l.rest.head? = some d → ¬ GoesOn (l.token.map Prod.fst) l.written d

theorem ended_ok (h : ∀ d, l.rest.head? = some d → ¬ GoesOn (l.token.map Prod.fst) l.written d) : Ended (.ok l) := by
  rintro _ ⟨⟩
  exact h

theorem ended_error {e : LexError.Cause × Nat} : Ended (.error e) := nofun

/-- What is left behind a run does not start with a part of it. -/
theorem head_dropWhile {p : Char → Bool} (h : (s.dropWhile p).head? = some d) : p d = false := by
  have := List.head?_dropWhile_not p s
  rw [h] at this
  simpa using this

theorem blank_ended (hc : isBlank c) (s : List Char) : Ended (.ok (blank c s)) := by
  refine ended_ok fun d _ => ?_
  rintro ⟨body, hw, -⟩
  obtain ⟨rfl, -⟩ := List.cons.inj hw
  cases hc

theorem word_ended (c : Char) (s : List Char) : Ended (.ok (word c s)) := by
  refine ended_ok fun d hd hgo => ?_
  rw [word, Option.map_some, goesOn_ofWord] at hgo
  rw [head_dropWhile hd] at hgo
  cases hgo

theorem exponentRun_ended (hs : ∀ d, s.head? = some d → isMantissaPart d = false)
    (h : (exponentRun s).2.head? = some d) : isExponentPart d = false := by
  cases s with
  | nil => cases h
  | cons c s =>
    rw [exponentRun] at h
    split at h
    · exact head_dropWhile h
    · next hc =>
      obtain rfl : c = d := by simpa using h
      have := hs c rfl
      simp_all [isMantissaPart, isExponentPart]

theorem number_ended (c : Char) (s : List Char) : Ended (number c s) := by
  unfold number
  dsimp only
  split
  · refine ended_ok fun d hd hgo => ?_
    have := exponentRun_ended (fun d hd => head_dropWhile hd) hd
    have hgo : isExponentPart d = true := hgo
    rw [this] at hgo
    cases hgo
  · exact ended_error

theorem longComment_ended (s : List Char) : Ended (longComment s) := by
  unfold longComment
  split
  · refine ended_ok fun d _ => ?_
    rintro ⟨body, hw, hopen, -⟩
    obtain rfl := (List.cons.inj (List.cons.inj hw).2).2
    exact hopen ⟨_, rfl⟩
  · exact ended_error

theorem lineComment_ended (s : List Char) : Ended (.ok (lineComment s)) := by
  refine ended_ok fun d hd => ?_
  rintro ⟨-, -, -, hne⟩
  have : decide (d ≠ '\n') = false := head_dropWhile hd
  simp [hne] at this

theorem longString_ended (s : List Char) : Ended (longString s) := by
  unfold longString
  split
  · exact ended_ok fun d _ => id
  · exact ended_error

theorem string_ended (s : List Char) : Ended (stringFrom ['"'] [] s) := by
  intro l hl
  obtain ⟨body, decoded, rest, -, -, rfl⟩ := stringFrom_decodes hl
  exact fun d _ => id

theorem single_ended (hdash : c = '-' → s.head? ≠ some '-') (hpair : ∀ d, s.head? = some d → (c, d) ∉ operatorPairs) :
    Ended (single c s) := by
  have hnot : ∀ d, s.head? = some d → ¬ (([c] = ['-'] ∧ d = '-') ∨ ∃ b, [c] = [b] ∧ (b, d) ∈ operatorPairs) := by
    rintro d hd (⟨hc, rfl⟩ | ⟨b, hc, hb⟩)
    · exact hdash (List.cons.inj hc).1 hd
    · obtain rfl := (List.cons.inj hc).1
      exact hpair d hd hb
  unfold single
  split
  · exact ended_ok hnot
  · split
    · exact ended_ok hnot
    · exact ended_error

theorem punctuation_ended (hdash : c = '-' → s.head? ≠ some '-') : Ended (punctuation c s) := by
  cases s with
  | nil => exact single_ended hdash nofun
  | cons d s =>
    rw [punctuation]
    split
    · refine ended_ok fun e _ => ?_
      rintro (⟨hw, -⟩ | ⟨b, hw, -⟩) <;> cases hw
    · next hpair =>
      refine single_ended hdash ?_
      rintro _ ⟨⟩
      exact hpair

/-- Nothing goes on with the lexeme that is read. -/
theorem first_ended (c : Char) (s : List Char) : Ended (first c s) := by
  unfold first
  split
  · next hc => exact blank_ended hc s
  split
  · exact word_ended c s
  split
  · exact number_ended c s
  split
  · exact longComment_ended _
  · exact lineComment_ended _
  · exact string_ended _
  · exact longString_ended _
  · next hline _ =>
    refine punctuation_ended ?_
    rintro rfl hs
    obtain ⟨body, rfl⟩ := List.head?_eq_some_iff.1 hs
    exact hline body rfl rfl

/-! ## What is read as it is spelled -/

instance : DecidablePred WordShape
  | [] => isFalse id
  | c :: s => decidable_of_iff (isWordStart c && s.all isWordPart) (by simp [WordShape])

theorem wordShape_of_reserved (h : Token.Kind.reserved? (String.ofList w) = some kind) : WordShape w := by
  have htext : ∀ x : String, String.ofList w = x → WordShape x.toList → WordShape w := by
    rintro x rfl hx
    rwa [String.toList_ofList] at hx
  unfold Token.Kind.reserved? at h
  split at h
  · next hx =>
    have hall : ∀ x ∈ ["local", "function", "end", "return", "if", "then", "elseif", "else", "until", "while", "for", "in",
        "do", "repeat", "and", "or", "not"], WordShape x.toList := by decide
    exact htext _ rfl (hall _ hx)
  split at h
  · next hx =>
    simp only [Bool.or_eq_true, decide_eq_true_eq] at hx
    exact hx.elim (fun hx => htext _ hx (by decide)) fun hx => htext _ hx (by decide)
  split at h
  · next hx => exact htext _ hx (by decide)
  · cases h

theorem first_wordShape (h : WordShape w) (hend : ∀ d, rest.head? = some d → isWordPart d = false) :
    ∃ c s, w = c :: s ∧ first c (s ++ rest) = .ok ⟨w, rest, some (.ofWord (String.ofList w), String.ofList w)⟩ := by
  cases w with
  | nil => exact h.elim
  | cons c s =>
    obtain ⟨ht, hd⟩ := run_append h.2 hend
    exact ⟨c, s, rfl, by rw [first_of_isWordStart h.1, word, ht, hd]⟩

theorem isMantissaPart_of_not_isExponentPart (h : isExponentPart d = false) : isMantissaPart d = false := by
  simp_all [isExponentPart, isMantissaPart]

theorem exponentRun_append_of (h : Exponent s) (hend : ∀ d, rest.head? = some d → isExponentPart d = false) :
    exponentRun (s ++ rest) = (s, rest) := by
  cases h with
  | absent =>
    cases rest with
    | nil => rfl
    | cons d rest =>
      have hd := hend d rfl
      have hmark : isExponentMark d = false := by simp_all [isExponentPart]
      simp [exponentRun, hmark]
  | @present mark sign s hm hs h =>
    have hmark : isExponentMark mark = true := by simpa [isExponentMark] using hm
    have hall : ∀ d ∈ s, isExponentPart d := fun d hd => by simp [isExponentPart, h.2 d hd]
    obtain ⟨ht, hd⟩ := run_append hall hend
    rw [List.cons_append, List.append_assoc, exponentRun, if_pos hmark, signRun_digits hs h]
    simp only [ht, hd]

theorem Fraction.isMantissaPart (h : Fraction s) : ∀ d ∈ s, Lexeme.isMantissaPart d := by
  cases h with
  | absent => nofun
  | present h =>
    refine List.forall_mem_cons.2 ⟨rfl, fun d hd => ?_⟩
    simp [Lexeme.isMantissaPart, h.2 d hd]

/-- A numeral is taken whole if no part of an exponent comes behind it. -/
theorem numberRun_of_numeral (h : Numeral s) (hend : ∀ d, rest.head? = some d → isExponentPart d = false) :
    ∃ c t, s = c :: t ∧ c.isDigit ∧ numberRun (t ++ rest) = (t, rest) := by
  obtain ⟨whole, fraction, exponent, rfl, ⟨hne, hdigits⟩, hf, he⟩ := h
  obtain ⟨c, whole, rfl⟩ := List.exists_cons_of_ne_nil hne
  obtain ⟨hc, hwhole⟩ := List.forall_mem_cons.1 hdigits
  have hall : ∀ d ∈ whole ++ fraction, isMantissaPart d := by
    intro d hd
    rcases List.mem_append.1 hd with hd | hd
    · simp [isMantissaPart, hwhole d hd]
    · exact hf.isMantissaPart d hd
  have hnext : ∀ d, (exponent ++ rest).head? = some d → isMantissaPart d = false := by
    intro d hd
    cases exponent with
    | nil => exact isMantissaPart_of_not_isExponentPart (hend d hd)
    | cons e exponent =>
      have := he.head_not_digit d hd
      simp [isMantissaPart, this.1, this.2]
  obtain ⟨ht, hd⟩ := run_append hall hnext
  have hsplit : whole ++ (fraction ++ exponent) ++ rest = whole ++ fraction ++ (exponent ++ rest) := by simp
  refine ⟨c, whole ++ (fraction ++ exponent), rfl, hc, ?_⟩
  rw [numberRun, hsplit, ht, hd, exponentRun_append_of he hend, List.append_assoc]

theorem untilBrackets_append_of (h : Closed body) (before rest : List Char) :
    untilBrackets before (body ++ ']' :: ']' :: rest) = some (before.reverse ++ body, rest) := by
  induction body generalizing before with
  | nil => simp [untilBrackets]
  | cons c body ih =>
    obtain ⟨hc, hbody⟩ := closed_cons.1 h
    have hc : ¬ (c = ']' ∧ (body ++ ']' :: ']' :: rest).head? = some ']') := by
      cases body with
      | nil => simpa using hc
      | cons d body => simpa using hc
    rw [List.cons_append, untilBrackets, if_neg (by simpa using hc), ih hbody]
    simp

/-- What decodes is read, whatever is behind it. -/
theorem stringFrom_append (h : Decodes body value) (written before rest : List Char) :
    stringFrom written before (body ++ rest) = stringFrom (body.reverse ++ written) (value.reverse ++ before) rest := by
  induction h generalizing written before with
  | nil => rfl
  | plain hq hb _ ih =>
    rw [List.cons_append, stringFrom.eq_def]
    simp [hq, hb, ih]
  | escape hd _ ih =>
    rw [List.cons_append, List.cons_append, stringFrom.eq_def]
    simp [hd, ih]

theorem plain_of_mem (h : c ∈ operatorChars ++ symbolChars) : Plain c ∧ c ≠ '[' := by
  have hall : (operatorChars ++ symbolChars).all fun c =>
      !isBlank c && !isWordStart c && !c.isDigit && c ≠ '"' && c ≠ '[' := by decide
  have hc := List.all_eq_true.1 hall c h
  simp only [Bool.and_eq_true, Bool.not_eq_true', decide_eq_true_eq] at hc
  obtain ⟨⟨⟨⟨hb, hw⟩, hd⟩, hq⟩, ho⟩ := hc
  exact ⟨⟨hb, hw, hd, hq⟩, ho⟩

/-- No token starts with a blank. -/
theorem Spells.head_not_blank (h : Spells kind w value) (hd : w.head? = some d) : isBlank d = false := by
  have hword : WordShape w → isBlank d = false := by
    intro hw
    cases w with
    | nil => exact hw.elim
    | cons c w =>
      cases hd
      exact isBlank_of_isWordPart (isWordPart_of_isWordStart hw.1)
  cases h with
  | reserved h => exact hword (wordShape_of_reserved h)
  | identifier h => exact hword h
  | number h =>
    have hend : ∀ c, ([] : List Char).head? = some c → isExponentPart c = false := nofun
    obtain ⟨c, s, rfl, hc, -⟩ := numberRun_of_numeral h hend
    cases hd
    exact isBlank_of_isWordPart (isWordPart_of_isDigit hc)
  | operatorPair h =>
    have hall : ∀ p ∈ operatorPairs, isBlank p.1 = false := by decide
    cases hd
    exact hall _ h
  | operator h =>
    cases hd
    exact (plain_of_mem (List.mem_append_left _ h)).1.blank
  | symbol h =>
    cases hd
    exact (plain_of_mem (List.mem_append_right _ h)).1.blank
  | quoted | bracketed =>
    cases hd
    rfl

/-- Of what stands for itself one character is read if it is not part of a pair. -/
theorem punctuation_of_single (h : ∀ d, rest.head? = some d → (c, d) ∉ operatorPairs) :
    punctuation c rest = single c rest := by
  cases rest with
  | nil => rfl
  | cons d rest => rw [punctuation, if_neg (h d rfl)]

theorem first_of_pair (h : (c, d) ∈ operatorPairs) (rest : List Char) :
    first c (d :: rest) = .ok ⟨[c, d], rest, some (.operator, String.ofList [c, d])⟩ := by
  have hall : ∀ p ∈ operatorPairs, p.1 ∈ operatorChars ++ symbolChars ∧ p.1 ≠ '-' := by decide
  obtain ⟨hmem, hdash⟩ := hall _ h
  obtain ⟨hplain, hopen⟩ := plain_of_mem hmem
  rw [first_of_plain hplain (fun hc => absurd hc hdash) (fun hc => absurd hc hopen), punctuation, if_pos h]

/-- A text that spells a token is read as that token if nothing behind it goes on with it. -/
theorem first_of_spells (h : Spells kind w value) (hend : ∀ d, rest.head? = some d → ¬ GoesOn (some kind) w d) :
    ∃ c s, w = c :: s ∧ first c (s ++ rest) = .ok ⟨w, rest, some (kind, String.ofList value)⟩ := by
  have hsingle : ∀ {c : Char}, w = [c] → (kind = .operator ∨ kind = .symbol) → c ∈ operatorChars ++ symbolChars →
      first c rest = single c rest := by
    intro c hw hk hc
    have hnot : ∀ d, rest.head? = some d → ¬ (c = '-' ∧ d = '-') ∧ (c, d) ∉ operatorPairs := by
      intro d hd
      have hgo : ¬ ((w = ['-'] ∧ d = '-') ∨ ∃ c, w = [c] ∧ (c, d) ∈ operatorPairs) := by
        rcases hk with rfl | rfl <;> exact hend d hd
      exact ⟨fun ⟨hc, hd⟩ => hgo (.inl ⟨by rw [hw, hc], hd⟩), fun hp => hgo (.inr ⟨c, hw, hp⟩)⟩
    obtain ⟨hplain, hopen⟩ := plain_of_mem hc
    rw [first_of_plain hplain (fun hc hd => (hnot _ hd).1 ⟨hc, rfl⟩) (fun hc => absurd hc hopen),
      punctuation_of_single fun d hd => (hnot d hd).2]
  have hword : WordShape w → kind = .ofWord (String.ofList w) →
      ∃ c s, w = c :: s ∧ first c (s ++ rest) = .ok ⟨w, rest, some (kind, String.ofList w)⟩ := by
    rintro hw rfl
    refine first_wordShape hw fun d hd => ?_
    have := hend d hd
    rwa [goesOn_ofWord, Bool.not_eq_true] at this
  cases h with
  | reserved h => exact hword (wordShape_of_reserved h) (by rw [Token.Kind.ofWord, h]; rfl)
  | identifier hw h => exact hword hw (by rw [Token.Kind.ofWord, h]; rfl)
  | number h =>
    obtain ⟨c, s, rfl, hc, hrun⟩ := numberRun_of_numeral h fun d hd => by simpa [GoesOn] using hend d hd
    refine ⟨c, s, rfl, ?_⟩
    rw [first_of_isDigit hc, number, hrun]
    simp [isNumeral_iff.2 h]
  | @operatorPair c d h => exact ⟨c, [d], rfl, first_of_pair h rest⟩
  | @operator c h =>
    refine ⟨c, [], rfl, ?_⟩
    rw [List.nil_append, hsingle rfl (.inl rfl) (List.mem_append_left _ h), single, if_pos h]
  | @symbol c h =>
    have hall : symbolChars.all (· ∉ operatorChars) := by decide
    have hc : c ∉ operatorChars := of_decide_eq_true (List.all_eq_true.1 hall c h)
    refine ⟨c, [], rfl, ?_⟩
    rw [List.nil_append, hsingle rfl (.inr rfl) (List.mem_append_right _ h), single, if_neg hc, if_pos h]
  | @quoted body _ h =>
    refine ⟨'"', body ++ ['"'], rfl, ?_⟩
    rw [first_quote, List.append_assoc]
    simp [stringFrom_append h, stringFrom.eq_def _ _ ('"' :: rest)]
  | bracketed h =>
    refine ⟨'[', '[' :: (value ++ [']', ']']), rfl, ?_⟩
    have hbody := untilBrackets_append_of h [] rest
    rw [List.cons_append, List.append_assoc, first_brackets, longString]
    simp only [List.cons_append, List.nil_append, hbody]
    simp

/-- A comment is read as such. -/
theorem first_of_filler (h : Filler w rest) (hb : ¬ ∀ c ∈ w, isBlank c) :
    ∃ c s, w = c :: s ∧ first c (s ++ rest) = .ok ⟨w, rest, none⟩ := by
  cases h with
  | blanks _ h => exact absurd h hb
  | @lineComment body _ hbody hopen hend =>
    have hopen : ¬ ['[', '['] <+: body ++ rest := by
      rintro ⟨more, hmore⟩
      -- The line ends before a bracket could be its first one behind the comment.
      rcases body with _ | ⟨c, _ | ⟨d, body⟩⟩
      · subst hmore
        cases hend '[' rfl
      · obtain ⟨rfl, rfl⟩ := List.cons.inj hmore
        cases hend '[' rfl
      · simp only [List.cons_append, List.nil_append, List.cons.injEq] at hmore
        obtain ⟨rfl, rfl, -⟩ := hmore
        exact hopen ⟨body, rfl⟩
    have hline : ∀ c ∈ body, decide (c ≠ '\n') = true := by
      intro c hc
      simp only [decide_eq_true_eq]
      rintro rfl
      exact hbody hc
    obtain ⟨ht, hd⟩ := run_append hline fun c hc => by simp [hend c hc]
    refine ⟨'-', '-' :: body, rfl, ?_⟩
    rw [List.cons_append, first_lineComment hopen, lineComment, ht, hd]
  | @longComment body _ h =>
    refine ⟨'-', '-' :: '[' :: '[' :: (body ++ [']', ']']), rfl, ?_⟩
    have hbody := untilBrackets_append_of h [] rest
    rw [List.cons_append, List.cons_append, List.cons_append, List.append_assoc, first_longComment, longComment]
    simp only [List.cons_append, List.nil_append, hbody]
    simp

/-- What is well spelled and not gone on with is what is read, if it is not all blanks. -/
theorem first_of_wellSpelled (h : WellSpelled l) (hb : l.token = none → ¬ ∀ c ∈ l.written, isBlank c)
    (hend : ∀ d, l.rest.head? = some d → ¬ GoesOn (l.token.map Prod.fst) l.written d) :
    ∃ c s, l.written = c :: s ∧ first c (s ++ l.rest) = .ok l := by
  obtain ⟨w, rest, token⟩ := l
  cases token with
  | none => exact first_of_filler h (hb rfl)
  | some t =>
    obtain ⟨kind, value⟩ := t
    obtain ⟨c, s, hw, hread⟩ := first_of_spells h hend
    exact ⟨c, s, hw, by rw [hread, String.ofList_toList]⟩

end MiniLua.Lexeme
