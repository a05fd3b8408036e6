import MiniLua.Proofs.Scanning.Pieces
/-!
# Where a source has no tokens

The ways for a text to have no lexeme in front, each by itself (`Faulty`). `first` gives an error
just for these, and the error says which and how many bytes on (`first_eq_error_iff`), so of one
text it is one of them only. The error of a source is that of the place where its scan stops
(`tokenize_eq_error_iff`).
-/

namespace MiniLua

open Text

namespace Lexeme

variable {c d : Char} {s body rest value written before : List Char} {cause : LexError.Cause} {n : Nat}

/-! ## Overlong numerals -/

/-- What is taken for a numeral before it is judged: a digit, digits and dots, and then nothing or a
marker, a sign or none, and digits, dots and markers. -/
inductive NumberShape : List Char → Prop
  | mantissa {c : Char} {s : List Char} (hc : c.isDigit) (hs : ∀ d ∈ s, isMantissaPart d) : NumberShape (c :: s)
  | exponent {c mark : Char} {s sign t : List Char} (hc : c.isDigit) (hs : ∀ d ∈ s, isMantissaPart d) (hm : mark ∈ ['e', 'E'])
    (hsign : sign ∈ [[], ['+'], ['-']]) (ht : ∀ d ∈ t, isExponentPart d) : NumberShape (c :: (s ++ mark :: (sign ++ t)))

/-- The longest front of a text that has the shape of a number. -/
structure LongestNumber (number s : List Char) : Prop where
  shape : NumberShape number
  front : number <+: s
  longest : ∀ t, NumberShape t → t <+: s → t.length ≤ number.length

theorem LongestNumber.unique {number number' : List Char} (h : LongestNumber number s) (h' : LongestNumber number' s) :
    number = number' := by
  have hlen := Nat.le_antisymm (h'.longest _ h.shape h.front) (h.longest _ h'.shape h'.front)
  exact (List.prefix_of_prefix_length_le h.front h'.front (Nat.le_of_eq hlen)).eq_of_length hlen

theorem isExponentMark_iff : isExponentMark c = true ↔ c ∈ ['e', 'E'] := by
  simp [isExponentMark]

theorem signRun_sign (s : List Char) : (signRun s).1 ∈ [[], ['+'], ['-']] := by
  cases s with
  | nil => simp [signRun]
  | cons c s => grind [signRun]

theorem numberRun_shape (hc : c.isDigit) (s : List Char) : NumberShape (c :: (numberRun s).1) := by
  have hs : ∀ d ∈ s.takeWhile isMantissaPart, isMantissaPart d := fun d hd => List.all_eq_true.1 List.all_takeWhile d hd
  rw [numberRun]
  dsimp only
  cases s.dropWhile isMantissaPart with
  | nil => simpa [exponentRun] using NumberShape.mantissa hc hs
  | cons mark t =>
    rw [exponentRun]
    split
    · next hm =>
      exact .exponent hc hs (isExponentMark_iff.1 hm) (signRun_sign t) fun d hd => List.all_eq_true.1 List.all_takeWhile d hd
    · simpa using NumberShape.mantissa hc hs

theorem length_le_takeWhile {p : Char → Bool} (h : ∀ d ∈ s, p d) (rest : List Char) :
    s.length ≤ ((s ++ rest).takeWhile p).length := by
  rw [List.takeWhile_append_of_pos h, List.length_append]
  exact Nat.le_add_right ..

/-- A sign and what may follow it are no longer than what is taken for them. -/
theorem length_le_signRun {sign t : List Char} (hsign : sign ∈ [[], ['+'], ['-']]) (ht : ∀ d ∈ t, isExponentPart d)
    (rest : List Char) :
    (sign ++ t).length ≤
      ((signRun (sign ++ (t ++ rest))).1 ++ (signRun (sign ++ (t ++ rest))).2.takeWhile isExponentPart).length := by
  have hlen := length_le_takeWhile ht rest
  simp only [List.mem_cons, List.not_mem_nil, or_false] at hsign
  rcases hsign with rfl | rfl | rfl
  · cases t with
    | nil => exact Nat.zero_le _
    | cons d t =>
      -- A part of an exponent is not taken for a sign.
      have hd := ht d List.mem_cons_self
      have hplus : d ≠ '+' := by rintro rfl; cases hd
      have hminus : d ≠ '-' := by rintro rfl; cases hd
      simpa [signRun, hplus, hminus] using hlen
  · simpa [signRun] using hlen
  · simpa [signRun] using hlen

theorem numberRun_longest (hc : c.isDigit) (s : List Char) : LongestNumber (c :: (numberRun s).1) (c :: s) := by
  refine ⟨numberRun_shape hc s, ⟨(numberRun s).2, by rw [List.cons_append, numberRun_append]⟩, ?_⟩
  rintro _ ht ⟨more, hmore⟩
  cases ht with
  | @mantissa _ t _ ht =>
    obtain ⟨rfl, rfl⟩ : _ ∧ t ++ more = s := List.cons.inj hmore
    have := length_le_takeWhile ht more
    simp only [numberRun, List.length_cons, List.length_append]
    omega
  | @exponent _ mark t sign u _ ht hm hsign hu =>
    have hmark : isExponentMark mark = true := isExponentMark_iff.2 hm
    have hstop : isMantissaPart mark = false := by
      simp only [List.mem_cons, List.not_mem_nil, or_false] at hm
      rcases hm with rfl | rfl <;> rfl
    obtain ⟨rfl, rfl⟩ : _ ∧ t ++ mark :: (sign ++ u) ++ more = s := List.cons.inj hmore
    -- The digits and dots end at the marker in both.
    have hend : ∀ d, (mark :: (sign ++ (u ++ more))).head? = some d → isMantissaPart d = false := by
      rintro _ ⟨⟩
      exact hstop
    obtain ⟨htake, hdrop⟩ := run_append ht hend
    have := length_le_signRun hsign hu more
    have hsplit : t ++ mark :: (sign ++ u) ++ more = t ++ mark :: (sign ++ (u ++ more)) := by simp
    simp only [hsplit, numberRun, htake, hdrop, exponentRun, hmark, if_true, List.length_cons, List.length_append] at this ⊢
    omega

/-! ## Strings and comments that do not end -/

theorem untilBrackets_eq_none_iff : untilBrackets before s = none ↔ ¬ [']', ']'] <:+: s := by
  induction s generalizing before with
  | nil => simp [untilBrackets]
  | cons c s ih =>
    rw [untilBrackets, List.infix_cons_iff, List.cons_prefix_cons, not_or]
    split
    · next hc =>
      simp only [Bool.and_eq_true, decide_eq_true_eq] at hc
      obtain ⟨rfl, hs⟩ := hc
      obtain ⟨t, rfl⟩ := List.head?_eq_some_iff.1 hs
      simp
    · next hc =>
      have hfront : ¬ (']' = c ∧ [']'] <+: s) := by
        rintro ⟨rfl, t, rfl⟩
        exact hc rfl
      rw [ih]
      simp [hfront]

theorem unescape?_eq_none_iff : unescape? d = none ↔ d ∉ ['n', 't', '"', '\\'] := by
  unfold unescape?
  split <;> simp_all

/-- A string between quotes does not end, or stops at an escape that stands for nothing. -/
theorem stringFrom_eq_error (h : stringFrom written value s = .error (cause, n)) :
    ∃ body decoded, Decodes body decoded ∧
      ((∃ last ∈ [[], ['\\']], s = body ++ last ∧ cause = .unterminatedString ∧ n = 0) ∨
        ∃ d rest, s = body ++ '\\' :: d :: rest ∧ unescape? d = none ∧ cause = .unknownEscape d ∧
          n = width written + width body) := by
  fun_induction stringFrom written value s with
  | case1 =>
    cases h
    exact ⟨[], [], .nil, .inl ⟨[], by simp, rfl, rfl, rfl⟩⟩
  | case2 => cases h
  | case3 =>
    cases h
    exact ⟨[], [], .nil, .inl ⟨['\\'], by simp, rfl, rfl, rfl⟩⟩
  | case4 written value d s v hd _ ih =>
    obtain ⟨body, decoded, hbody, ⟨last, hlast, rfl, hcause⟩ | ⟨e, rest, rfl, he, hcause, hn⟩⟩ := ih h
    · exact ⟨'\\' :: d :: body, v :: decoded, .escape hd hbody, .inl ⟨last, hlast, rfl, hcause⟩⟩
    · refine ⟨'\\' :: d :: body, v :: decoded, .escape hd hbody, .inr ⟨e, rest, rfl, he, hcause, ?_⟩⟩
      simp only [width_cons] at hn ⊢
      omega
  | case5 written value d s hd =>
    cases h
    exact ⟨[], [], .nil, .inr ⟨d, s, rfl, hd, rfl, rfl⟩⟩
  | case6 written value c s hq hb ih =>
    obtain ⟨body, decoded, hbody, ⟨last, hlast, rfl, hcause⟩ | ⟨e, rest, rfl, he, hcause, hn⟩⟩ := ih h
    · exact ⟨c :: body, c :: decoded, .plain hq hb hbody, .inl ⟨last, hlast, rfl, hcause⟩⟩
    · refine ⟨c :: body, c :: decoded, .plain hq hb hbody, .inr ⟨e, rest, rfl, he, hcause, ?_⟩⟩
      simp only [width_cons] at hn ⊢
      omega

/-! ## Faults -/

/-- What is wrong with a text that has no lexeme in front, and how many bytes from its start. -/
inductive Faulty : List Char → LexError.Cause → Nat → Prop
  | illegalCharacter {c : Char} {s : List Char} (hblank : isBlank c = false) (hletter : isLetter c = false) (hline : c ≠ '_')
    (hdigit : c.isDigit = false) (hquote : c ≠ '"') (hown : c ∉ operatorChars ++ symbolChars)
    (hopen : ¬ ['[', '['] <+: c :: s) :
    Faulty (c :: s) (.illegalCharacter c) 0
  | malformedNumber {number s : List Char} (h : LongestNumber number s) (hnot : ¬ Numeral number) :
    Faulty s (.malformedNumber (String.ofList number)) 0
  | comment {body : List Char} (h : ¬ [']', ']'] <:+: body) : Faulty ('-' :: '-' :: '[' :: '[' :: body) .unterminatedComment 0
  | brackets {body : List Char} (h : ¬ [']', ']'] <:+: body) : Faulty ('[' :: '[' :: body) .unterminatedString 0
  | quote {body value last : List Char} (h : Decodes body value) (hlast : last ∈ [[], ['\\']]) :
    Faulty ('"' :: (body ++ last)) .unterminatedString 0
  | unknownEscape {body value rest : List Char} {d : Char} (h : Decodes body value) (hd : d ∉ ['n', 't', '"', '\\']) :
    Faulty ('"' :: (body ++ '\\' :: d :: rest)) (.unknownEscape d) (width ('"' :: body))

/-- A reading that gives an error says what is wrong with the text. -/
def Explained (r : Reading) (s : List Char) : Prop := ∀ cause n, r = .error (cause, n) → Faulty s cause n

theorem number_explained (hc : c.isDigit) (s : List Char) : Explained (number c s) (c :: s) := by
  intro cause n h
  unfold number at h
  dsimp only at h
  split at h
  · cases h
  · next hnot =>
    cases h
    exact .malformedNumber (numberRun_longest hc s) (mt isNumeral_iff.2 hnot)

theorem longComment_explained (s : List Char) : Explained (longComment s) ('-' :: '-' :: '[' :: '[' :: s) := by
  intro cause n h
  unfold longComment at h
  split at h
  · cases h
  · next hnone =>
    cases h
    exact .comment (untilBrackets_eq_none_iff.1 hnone)

theorem longString_explained (s : List Char) : Explained (longString s) ('[' :: '[' :: s) := by
  intro cause n h
  unfold longString at h
  split at h
  · cases h
  · next hnone =>
    cases h
    exact .brackets (untilBrackets_eq_none_iff.1 hnone)

theorem string_explained (s : List Char) : Explained (stringFrom ['"'] [] s) ('"' :: s) := by
  intro cause n h
  obtain ⟨body, decoded, hbody, ⟨last, hlast, rfl, rfl, rfl⟩ | ⟨d, rest, rfl, hd, rfl, rfl⟩⟩ := stringFrom_eq_error h
  · exact .quote hbody hlast
  · exact .unknownEscape hbody (unescape?_eq_none_iff.1 hd)

theorem punctuation_eq_error (h : punctuation c s = .error (cause, n)) :
    c ∉ operatorChars ++ symbolChars ∧ cause = .illegalCharacter c ∧ n = 0 := by
  have hsingle : ∀ s, single c s = .error (cause, n) → c ∉ operatorChars ++ symbolChars ∧ cause = .illegalCharacter c ∧ n = 0 := by
    intro s h
    unfold single at h
    split at h
    · cases h
    split at h
    · cases h
    · cases h
      simp_all
  cases s with
  | nil => exact hsingle [] h
  | cons d s =>
    rw [punctuation] at h
    split at h
    · cases h
    · exact hsingle (d :: s) h

theorem first_explained (c : Char) (s : List Char) : Explained (first c s) (c :: s) := by
  unfold first
  split
  · nofun
  split
  · nofun
  split
  · next hc => exact number_explained hc s
  split
  · exact longComment_explained _
  · nofun
  · exact string_explained _
  · exact longString_explained _
  · next hblank hword hdigit _ _ hquote _ _ hopen =>
    intro cause n h
    obtain ⟨hown, rfl, rfl⟩ := punctuation_eq_error h
    simp only [isWordStart, Bool.or_eq_true, decide_eq_true_eq, not_or, Bool.not_eq_true] at hblank hword hdigit
    refine .illegalCharacter hblank hword.1 hword.2 hdigit hquote hown ?_
    rintro ⟨body, hbody⟩
    obtain ⟨rfl, rfl⟩ := List.cons.inj hbody
    exact hopen body rfl rfl

theorem first_of_illegalCharacter (hblank : isBlank c = false) (hletter : isLetter c = false) (hline : c ≠ '_')
    (hdigit : c.isDigit = false) (hquote : c ≠ '"') (hown : c ∉ operatorChars ++ symbolChars)
    (hopen : ¬ ['[', '['] <+: c :: s) :
    first c s = .error (.illegalCharacter c, 0) := by
  have hplain : Plain c := ⟨hblank, by simp [isWordStart, hletter, hline], hdigit, hquote⟩
  have hdash : c = '-' → s.head? ≠ some '-' := by
    rintro rfl
    exact absurd (by decide) hown
  have hpair : ∀ d, s.head? = some d → (c, d) ∉ operatorPairs := by
    have hall : ∀ p ∈ operatorPairs, p.1 ∈ operatorChars ++ symbolChars := by decide
    exact fun d _ hp => hown (hall _ hp)
  rw [List.mem_append, not_or] at hown
  rw [first_of_plain hplain hdash ?_, punctuation_of_single hpair, single, if_neg hown.1, if_neg hown.2]
  rintro rfl hs
  obtain ⟨t, rfl⟩ := List.head?_eq_some_iff.1 hs
  exact hopen ⟨t, rfl⟩

/-- A text has no lexeme in front just if it is faulty, in the way that is reported. -/
theorem first_eq_error_iff : first c s = .error (cause, n) ↔ Faulty (c :: s) cause n := by
  refine ⟨first_explained c s cause n, fun h => ?_⟩
  generalize ht : c :: s = t at h
  cases h with
  | illegalCharacter hblank hletter hline hdigit hquote hown hopen =>
    obtain ⟨rfl, rfl⟩ := List.cons.inj ht
    exact first_of_illegalCharacter hblank hletter hline hdigit hquote hown hopen
  | malformedNumber h hnot =>
    subst ht
    have hc : c.isDigit := by
      obtain ⟨more, hmore⟩ := h.front
      cases h.shape with
      | mantissa hc => exact (List.cons.inj hmore).1 ▸ hc
      | exponent hc => exact (List.cons.inj hmore).1 ▸ hc
    obtain rfl := h.unique (numberRun_longest hc s)
    rw [first_of_isDigit hc, number]
    simp [isNumeral_iff, hnot]
  | comment h =>
    obtain ⟨rfl, rfl⟩ := List.cons.inj ht
    rw [first_longComment, longComment, untilBrackets_eq_none_iff.2 h]
  | brackets h =>
    obtain ⟨rfl, rfl⟩ := List.cons.inj ht
    rw [first_brackets, longString, untilBrackets_eq_none_iff.2 h]
  | quote h hlast =>
    obtain ⟨rfl, rfl⟩ := List.cons.inj ht
    rw [first_quote, stringFrom_append h]
    simp only [List.mem_cons, List.not_mem_nil, or_false] at hlast
    rcases hlast with rfl | rfl <;> rfl
  | @unknownEscape _ _ _ d h hd =>
    obtain ⟨rfl, rfl⟩ := List.cons.inj ht
    rw [first_quote, stringFrom_append h, stringFrom.eq_def]
    simp [unescape?_eq_none_iff.2 hd, Nat.add_comm]

theorem Faulty.ne_nil (h : Faulty s cause n) : s ≠ [] := by
  cases h with
  | malformedNumber h =>
    rintro rfl
    obtain rfl := List.prefix_nil.1 h.front
    cases h.shape
  | _ => nofun

theorem Faulty.le_width (h : Faulty s cause n) : n ≤ width s := by
  cases h with
  | unknownEscape =>
    simp only [width_cons, width_append]
    omega
  | _ => exact Nat.zero_le _

/-- There is one thing wrong with a text. -/
theorem Faulty.unique {cause' : LexError.Cause} {n' : Nat} (h : Faulty s cause n) (h' : Faulty s cause' n') :
    cause = cause' ∧ n = n' := by
  obtain ⟨c, s, rfl⟩ := List.exists_cons_of_ne_nil h.ne_nil
  have := (first_eq_error_iff.2 h).symm.trans (first_eq_error_iff.2 h')
  simpa using this

end Lexeme

/-! ## Sources -/

open Lexeme

/-- A source has an error just if its scan gets to a place, with tokens in front of it, where it is
faulty. That is the error, with the place of the fault, and it is the only one. -/
theorem tokenize_eq_error_iff {source : String} (hsize : source.utf8ByteSize < UInt32.size) (file : String) :
    (∀ e : LexError, tokenize source file = .error e ↔
      ∃ front rest n, Reaches source.toList front rest ∧ (∃ found, tokenize (String.ofList front) file = .ok found) ∧
        Faulty rest e.cause n ∧ e.position.file = file ∧ e.position.offset.toNat = width front + n) ∧
    ∀ s cause cause' n n', Faulty s cause n → Faulty s cause' n' → cause = cause' ∧ n = n' := by
  refine ⟨fun e => ⟨fun h => ?_, ?_⟩, fun _ _ _ _ _ => Faulty.unique⟩
  · obtain ⟨front, c, rest, cause, n, hreach, he, rfl⟩ := tokenize_eq_error.1 h
    have hfault := first_eq_error_iff.1 he
    obtain ⟨found, hfront, -⟩ := hreach.scan_eq file
    refine ⟨front, c :: rest, n, hreach, ⟨found, by rw [tokenize, String.toList_ofList, hfront]⟩, hfault, rfl, ?_⟩
    have hwidth : width front + width (c :: rest) = source.utf8ByteSize := by
      rw [← width_append, hreach.append, width_toList]
    have := hfault.le_width
    exact Position.toNat_offset (by omega)
  · rintro ⟨front, rest, n, hreach, -, hfault, rfl, hoffset⟩
    obtain ⟨c, rest, rfl⟩ := List.exists_cons_of_ne_nil hfault.ne_nil
    refine tokenize_eq_error.2 ⟨front, c, rest, e.cause, n, hreach, first_eq_error_iff.2 hfault, ?_⟩
    obtain ⟨cause, offset, file⟩ := e
    have hoffset : offset.toNat = width front + n := hoffset
    rw [Position.ofNat, ← hoffset, UInt32.ofNat_toNat]

/-- An escape that stands for nothing, behind a character of two bytes. -/
theorem tokenize_eq_error_iff_escape :
    tokenize "x \"é\\q\"" "f" = .error ⟨.unknownEscape 'q', .ofNat "f" 5⟩ := by
  have hx : first 'x' [' ', '"', 'é', '\\', 'q', '"'] = .ok (word 'x' [' ', '"', 'é', '\\', 'q', '"']) := rfl
  have hblank : first ' ' ['"', 'é', '\\', 'q', '"'] = .ok (blank ' ' ['"', 'é', '\\', 'q', '"']) := rfl
  have hreach : Reaches "x \"é\\q\"".toList ['x', ' '] ['"', 'é', '\\', 'q', '"'] := .step (.step .start hx) hblank
  have hfault : Faulty ['"', 'é', '\\', 'q', '"'] (.unknownEscape 'q') 3 :=
    .unknownEscape (.plain (by decide) (by decide) .nil) (by decide)
  obtain ⟨found, hfront, -⟩ := hreach.scan_eq "f"
  exact ((tokenize_eq_error_iff (by decide) "f").1 _).2 ⟨_, _, 3, hreach, ⟨found, hfront⟩, hfault, rfl, rfl⟩

end MiniLua
