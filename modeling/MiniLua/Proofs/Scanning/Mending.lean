import MiniLua.Proofs.Scanning.Numbers
/-!
# Errors that more text mends

A string or a comment that does not end can be closed, whatever state it is left in
(`Faulty.exists_closed`), and then it ends the source. An error that a character has settled stays the same with more text behind
(`Faulty.append`). The text in front is read the same in both cases, since it stands before the same character
(`tokenize_mended`).
-/

namespace MiniLua

open Lexeme Text Piece

/-- No text behind a source makes up for what is wrong: an unknown escape, a character that starts nothing, and what is
taken for a number where that does not reach the end of the bytes that are left. -/
def LexError.Cause.Settled (left : Nat) : LexError.Cause → Prop
  | illegalCharacter c => c ≠ '['
  | malformedNumber number => number.utf8ByteSize < left
  | unknownEscape _ => True
  | unterminatedString | unterminatedComment => False

namespace Lexeme

variable {c : Char} {s body value written body' value' : List Char} {cause : LexError.Cause} {n : Nat}

/-! ## What stays wrong -/

/-- A text with something settled wrong in front is wrong in the same way and place with more text behind. -/
theorem Faulty.append (h : Faulty s cause n) (hsettled : cause.Settled (width s)) (more : List Char) :
    Faulty (s ++ more) cause n := by
  cases h with
  | illegalCharacter hblank hletter hline hdigit hquote hown =>
    refine .illegalCharacter hblank hletter hline hdigit hquote hown ?_
    rintro ⟨t, ht⟩
    exact hsettled (List.cons.inj ht).1.symm
  | @malformedNumber number s h hnot =>
    have hlt : width number < width s := by
      rw [← width_ofList]
      exact hsettled
    obtain ⟨rest, rfl⟩ := h.front
    have hrest : rest ≠ [] := by
      rintro rfl
      simp at hlt
    refine .malformedNumber (h.append ?_ more) hnot
    have := List.length_pos_iff.2 hrest
    rw [List.length_append]
    omega
  | unknownEscape h hd =>
    rw [List.cons_append, List.append_assoc]
    exact .unknownEscape h hd
  | comment | brackets | quote => exact hsettled.elim

/-! ## What can be closed -/

theorem Decodes.append (h : Decodes body value) (h' : Decodes body' value') : Decodes (body ++ body') (value ++ value') := by
  induction h with
  | nil => exact h'
  | plain hq hb _ ih => exact .plain hq hb ih
  | escape hd _ ih => exact .escape hd ih

/-- Where no brackets have closed a text, one more or two do. -/
theorem exists_closing (h : ¬ [']', ']'] <:+: body) :
    ∃ more inner, width more ≤ 2 ∧ body ++ more = inner ++ [']', ']'] ∧ Closed inner := by
  by_cases hlast : [']'] <:+ body
  · -- The last bracket is the first of the two.
    obtain ⟨inner, rfl⟩ := hlast
    exact ⟨[']'], inner, by decide, by simp, h⟩
  · refine ⟨[']', ']'], body, by decide, rfl, ?_⟩
    rw [Closed, List.infix_concat_iff]
    rintro (⟨t, ht⟩ | hinfix)
    · refine hlast ⟨t, ?_⟩
      have ht : (t ++ [']']) ++ [']'] = body ++ [']'] := by simpa using ht
      exact List.append_cancel_right ht
    · exact h hinfix

/-- A string or a comment without an end has one with a few bytes more, and is then all there is. -/
theorem Faulty.exists_closed (h : Faulty s cause n) (hopen : cause = .unterminatedString ∨ cause = .unterminatedComment) :
    ∃ more token, width more ≤ 2 ∧ WellSpelled ⟨s ++ more, [], token⟩ := by
  cases h with
  | comment h =>
    obtain ⟨more, inner, hmore, hclosed, hinner⟩ := exists_closing h
    refine ⟨more, none, hmore, ?_⟩
    simp only [List.cons_append, hclosed]
    exact .longComment hinner
  | brackets h =>
    obtain ⟨more, inner, hmore, hclosed, hinner⟩ := exists_closing h
    refine ⟨more, some (.string, .ofList inner), hmore, ?_⟩
    simp only [List.cons_append, hclosed, WellSpelled, String.toList_ofList]
    exact .bracketed hinner
  | @quote body value last h hlast =>
    simp only [List.mem_cons, List.not_mem_nil, or_false] at hlast
    rcases hlast with rfl | rfl
    · refine ⟨['"'], some (.string, .ofList value), by decide, ?_⟩
      simp only [List.append_nil, List.cons_append, WellSpelled, String.toList_ofList]
      exact .quoted h
    · -- Behind a lone backslash a quote closes nothing, it is what the escape stands for.
      refine ⟨['"', '"'], some (.string, .ofList (value ++ ['"'])), by decide, ?_⟩
      have hescape : Decodes ['\\', '"'] ['"'] := .escape rfl .nil
      have hquoted := Spells.quoted (h.append hescape)
      simpa [WellSpelled] using hquoted
  | illegalCharacter | malformedNumber | unknownEscape => simp at hopen

end Lexeme

/-! ## Sources -/

/-- A row stands before a text that goes on further on. -/
theorem Piece.InRow.append_more {ps : List Piece} {c : Char} {rest : List Char} (h : InRow ps (c :: rest)) (more : List Char) :
    InRow ps (c :: rest ++ more) :=
  h.swap fun _ hp d hd => (h.getLast hp).ends d hd

/-- What more text can do about the error of a source. If a string or a comment does not end, two bytes or less let the source
have tokens. If an escape is unknown, a character other than a bracket starts nothing, or a malformed number ends before the source does,
the error is the same whatever is behind. -/
theorem tokenize_mended {source file : String} {e : LexError} (hsize : source.utf8ByteSize < UInt32.size)
    (h : tokenize source file = .error e) :
    (e.cause = .unterminatedString ∨ e.cause = .unterminatedComment →
      ∃ (more : String) (ts : List Token), more.utf8ByteSize ≤ 2 ∧ tokenize (source ++ more) file = .ok ts) ∧
    (e.cause.Settled (source.utf8ByteSize - e.position.offset.toNat) →
      ∀ more : String, tokenize (source ++ more) file = .error e) := by
  obtain ⟨front, c, rest, cause, n, hreach, he, rfl⟩ := tokenize_eq_error.1 h
  have hfault := first_eq_error_iff.1 he
  obtain ⟨ps, rfl, hrow⟩ := hreach.exists_row
  have htext : source.toList = text ps ++ (c :: rest) := hreach.append.symm
  have hwidth : width (text ps) + width (c :: rest) = source.utf8ByteSize := by
    rw [← width_append, ← htext, width_toList]
  constructor
  · intro hopen
    obtain ⟨more, token, hmore, hspelled⟩ := hfault.exists_closed hopen
    -- The closed string or comment is the last piece.
    have hrow' : InRow (ps ++ [⟨c :: rest ++ more, token⟩]) [] :=
      inRow_append.2 ⟨by simpa using hrow.append_more more, ⟨hspelled, nofun⟩, trivial⟩
    refine ⟨.ofList more, _, by rwa [width_ofList], tokenize_eq_ok.2 ⟨_, ?_, hrow', rfl⟩⟩
    simp [htext]
  · intro hsettled more
    have hleft : cause.Settled (width (c :: rest)) := by
      have hle := hfault.le_width
      cases hfault with
      | malformedNumber =>
        have hoffset : (Position.ofNat file (width (text ps) + 0)).offset.toNat = width (text ps) + 0 :=
          Position.toNat_offset (by omega)
        simp only [LexError.Cause.Settled, hoffset] at hsettled ⊢
        omega
      | _ => exact hsettled
    have hmore := hfault.append hleft more.toList
    rw [tokenize, String.toList_append, htext, List.append_assoc, scan_row (hrow.append_more more.toList), Nat.zero_add]
    exact scan_of_error (first_eq_error_iff.2 hmore)

/-- A backslash at the end of a string, and a number with a blank behind it. -/
theorem tokenize_mended_backslash :
    (∃ (more : String) (ts : List Token), more.utf8ByteSize ≤ 2 ∧ tokenize ("\"\\" ++ more) "f" = .ok ts) ∧
      ∀ more : String, tokenize ("1. " ++ more) "f" = .error ⟨.malformedNumber "1.", .ofNat "f" 0⟩ := by
  have hquote : tokenize "\"\\" "f" = .error ⟨.unterminatedString, .ofNat "f" 0⟩ := by
    have hopen : first '"' ['\\'] = .error (.unterminatedString, 0) := rfl
    exact scan_of_error hopen
  have hnumber : tokenize "1. " "f" = .error ⟨.malformedNumber "1.", .ofNat "f" 0⟩ := by
    have hdot : first '1' ['.', ' '] = .error (.malformedNumber "1.", 0) := rfl
    exact scan_of_error hdot
  refine ⟨(tokenize_mended (by decide) hquote).1 (.inl rfl), (tokenize_mended (by decide) hnumber).2 ?_⟩
  show "1.".utf8ByteSize < "1. ".utf8ByteSize - 0
  decide

end MiniLua
