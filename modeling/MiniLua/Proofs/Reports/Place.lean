import MiniLua.Proofs.Errors.Description
import MiniLua.Proofs.Reports.Lines
import MiniLua.Proofs.Scanning.Faults
import MiniLua.Proofs.Scanning.Layout
/-!
# Where errors stand

No token starts or ends with a blank, and no fault of a text is a blank. So an error of a source stands
right in front of something that is no blank, or at the end of the input right behind it
(`parseSource_error_place`), and `exists_place` cuts the source up around it.
-/

namespace MiniLua

open Lexeme Text Piece

variable {source file : String} {e : Error}

namespace Lexeme

variable {c : Char} {s w value : List Char} {kind : Token.Kind} {cause : LexError.Cause} {n : Nat}

/-! ## No blanks -/

theorem NumberShape.not_blank (h : NumberShape s) (hc : c ∈ s) : isBlank c = false := by
  have hdigit : ∀ d : Char, d.isDigit → isBlank d = false := fun d hd => isBlank_of_isWordPart (isWordPart_of_isDigit hd)
  have hpart : ∀ d, isMantissaPart d → isBlank d = false := fun d hd => by
    refine isBlank_of_isExponentPart (Bool.not_eq_false _ ▸ fun h => ?_)
    rw [isMantissaPart_of_not_isExponentPart h] at hd
    cases hd
  cases h with
  | mantissa hd hs =>
    rcases List.mem_cons.1 hc with rfl | hc
    · exact hdigit _ hd
    · exact hpart _ (hs _ hc)
  | @exponent _ mark _ sign t hd hs hm hsign ht =>
    simp only [List.mem_cons, List.not_mem_nil, or_false] at hm hsign
    simp only [List.mem_cons, List.mem_append] at hc
    rcases hc with rfl | hc | rfl | hc | hc
    · exact hdigit _ hd
    · exact hpart _ (hs _ hc)
    · rcases hm with rfl | rfl <;> rfl
    · rcases hsign with rfl | rfl | rfl
      · cases hc
      · rw [List.mem_singleton.1 hc]
        rfl
      · rw [List.mem_singleton.1 hc]
        rfl
    · exact isBlank_of_isExponentPart (ht _ hc)

theorem NumberShape.ne_nil (h : NumberShape s) : s ≠ [] := by
  cases h <;> nofun

theorem Numeral.shape (h : Numeral s) : NumberShape s := by
  have hend : ∀ c, ([] : List Char).head? = some c → isExponentPart c = false := nofun
  obtain ⟨c, t, rfl, hc, hrun⟩ := numberRun_of_numeral h hend
  have hshape := numberRun_shape hc (t ++ [])
  rwa [hrun] at hshape

theorem WordShape.not_blank (h : WordShape s) (hc : c ∈ s) : isBlank c = false := by
  cases s with
  | nil => cases hc
  | cons d s =>
    rcases List.mem_cons.1 hc with rfl | hc
    · exact isBlank_of_isWordPart (isWordPart_of_isWordStart h.1)
    · exact isBlank_of_isWordPart (h.2 c hc)

/-- A token that is no string is spelled by its value, without blanks. -/
theorem Spells.plain (h : Spells kind w value) (hk : kind ≠ .string) : w = value ∧ ∀ c ∈ w, isBlank c = false := by
  cases h with
  | reserved h => exact ⟨rfl, fun c => (wordShape_of_reserved h).not_blank⟩
  | identifier h => exact ⟨rfl, fun c => h.not_blank⟩
  | number h => exact ⟨rfl, fun c => h.shape.not_blank⟩
  | operatorPair h =>
    have hall : ∀ p ∈ operatorPairs, isBlank p.1 = false ∧ isBlank p.2 = false := by decide
    exact ⟨rfl, by simpa using hall _ h⟩
  | operator h => exact ⟨rfl, by simpa using (plain_of_mem (List.mem_append_left _ h)).1.blank⟩
  | symbol h => exact ⟨rfl, by simpa using (plain_of_mem (List.mem_append_right _ h)).1.blank⟩
  | quoted | bracketed => exact absurd rfl hk

/-- No token ends with a blank. -/
theorem Spells.last_not_blank (h : Spells kind w value) (hc : w.getLast? = some c) : isBlank c = false := by
  by_cases hk : kind = .string
  · cases h with
    | quoted | bracketed =>
      simp only [List.getLast?_append, List.getLast?_cons, ← List.cons_append] at hc
      cases hc
      rfl
    | reserved h => exact (wordShape_of_reserved h).not_blank (List.mem_of_getLast? hc)
    | _ => cases hk
  · exact (h.plain hk).2 c (List.mem_of_getLast? hc)

/-- What is wrong with a text is wrong in front of something that is no blank. -/
theorem Faulty.exists_place (h : Faulty s cause n) :
    ∃ a b, s = a ++ b ∧ width a = n ∧ ∃ c, b.head? = some c ∧ isBlank c = false := by
  cases h with
  | @illegalCharacter c s hblank => exact ⟨[], c :: s, rfl, rfl, c, rfl, hblank⟩
  | malformedNumber h =>
    obtain ⟨more, rfl⟩ := h.front
    obtain ⟨c, t, ht⟩ := List.exists_cons_of_ne_nil h.shape.ne_nil
    exact ⟨[], _, rfl, rfl, c, by rw [ht]; rfl, h.shape.not_blank (by rw [ht]; exact List.mem_cons_self)⟩
  | comment => exact ⟨[], _, rfl, rfl, '-', rfl, rfl⟩
  | brackets => exact ⟨[], _, rfl, rfl, '[', rfl, rfl⟩
  | quote => exact ⟨[], _, rfl, rfl, '"', rfl, rfl⟩
  | @unknownEscape body _ rest d => exact ⟨'"' :: body, '\\' :: d :: rest, rfl, rfl, '\\', rfl, rfl⟩

end Lexeme

/-! ## The place of an error -/

theorem tokenize_error_place {e : LexError} (h : tokenize source file = .error e) :
    ∃ a b, source.toList = a ++ b ∧ e.position = .ofNat file (width a) ∧ Touches a b := by
  obtain ⟨front, c, rest, cause, n, hreach, he, rfl⟩ := tokenize_eq_error.1 h
  obtain ⟨a, b, hsplit, rfl, hb⟩ := (first_eq_error_iff.1 he).exists_place
  refine ⟨front ++ a, b, ?_, by rw [width_append], .inl hb⟩
  rw [← hreach.append, hsplit, List.append_assoc]

/-- An error at a token stands where it starts, and one at the end of the input where the last token ends. -/
theorem parse_error_place {tokens : List Token} {e : ParseError} (htokens : tokenize source file = .ok tokens)
    (h : parse tokens file = .error e) :
    ∃ a b, source.toList = a ++ b ∧ e.position = .ofNat file (width a) ∧ Touches a b := by
  have hdescribes := parseWithin_error_describes h
  cases ht : tokens[e.index]? with
  | some t =>
    obtain ⟨a, w, b, hsplit, hspells, hspan⟩ := exists_lexeme htokens (List.mem_of_getElem? ht)
    obtain ⟨c, w, rfl⟩ := List.exists_cons_of_ne_nil hspells.ne_nil
    refine ⟨a, _, hsplit, ?_, .inl ⟨c, rfl, hspells.head_not_blank rfl⟩⟩
    rw [hdescribes.position_token t ht, hspan]
    rfl
  | none =>
    have hindex := Nat.le_antisymm hdescribes.index_le (List.getElem?_eq_none_iff.1 ht)
    obtain ⟨t, hlast, hposition⟩ := hdescribes.position_end hindex
    obtain ⟨a, w, b, hsplit, hspells, hspan⟩ := exists_lexeme htokens (List.mem_of_getLast? hlast)
    have hw := List.getLast?_eq_some_getLast hspells.ne_nil
    refine ⟨a ++ w, b, by rw [hsplit, List.append_assoc], ?_, .inr ⟨_, ?_, hspells.last_not_blank hw⟩⟩
    · rw [hposition, hspan, width_append]
      rfl
    · rw [List.getLast?_append, hw, Option.some_or]

/-- An error of a source stands at a place of it that is not among blanks. -/
theorem parseSource_error_place (h : parseSource source file = .error e) :
    ∃ a b, source.toList = a ++ b ∧ e.position = .ofNat file (width a) ∧ Touches a b := by
  unfold parseSource at h
  split at h
  · next htokens =>
    cases h
    exact tokenize_error_place htokens
  · next htokens =>
    split at h
    · next hparse =>
      cases h
      exact parse_error_place htokens hparse
    · cases h

/-- The source cut up around the place of an error. -/
structure ErrorPlace (source : String) (e : Error) (earlier indent before after blanks later : List Char) : Prop where
  parts : source.toList = (earlier ++ (indent ++ before)) ++ ((after ++ blanks) ++ later)
  offset : e.position.offset.toNat = width (earlier ++ (indent ++ before))
  line : InLine earlier (indent ++ before) (after ++ blanks) later
  trimmed : Trimmed indent before after blanks

theorem exists_place (hsize : source.utf8ByteSize < UInt32.size) (h : parseSource source file = .error e) :
    ∃ earlier indent before after blanks later, ErrorPlace source e earlier indent before after blanks later := by
  obtain ⟨a, b, hsplit, hposition, htouches⟩ := parseSource_error_place h
  have hwidth : width a + width b = source.utf8ByteSize := by rw [← width_append, ← hsplit, width_toList]
  have hoffset : e.position.offset.toNat = width a := by
    rw [hposition]
    exact Position.toNat_offset (by omega)
  obtain ⟨earlier, line, rest, later, rfl, rfl, hline⟩ := exists_inLine a b
  obtain ⟨indent, before, after, blanks, rfl, rfl, htrimmed⟩ := exists_trimmed (hline.touches htouches)
  exact ⟨earlier, indent, before, after, blanks, later, hsplit, hoffset, hline, htrimmed⟩

namespace ErrorPlace

variable {earlier indent before after blanks later : List Char} (h : ErrorPlace source e earlier indent before after blanks later)
include h

theorem length_le_offset : (earlier ++ (indent ++ before)).length ≤ e.position.offset.toNat := by
  rw [h.offset]
  exact length_le_width _

theorem length_before_le : before.length ≤ e.position.offset.toNat := by
  have hlength := h.length_le_offset
  simp only [List.length_append] at hlength
  omega

/-- The report of an error, if the place is not too far into its line. -/
theorem report?_eq : e.report? source =
    if before.length < maxWidth then
      some (String.join ((e.title :: ("-> " ++ e.position.file) ::
        caretLines (1 + (earlier ++ (indent ++ before)).count '\n') before after).map (· ++ "\n")))
    else none := by
  have hplace := lineAt?_eq h.line h.parts h.offset
  have heol : ∀ c ∈ later.take 1, c = '\n' := by
    intro c hc
    rcases h.line.line_end with rfl | hend
    · cases hc
    · obtain ⟨rest, rfl⟩ := List.head?_eq_some_iff.1 hend
      simpa using hc
  have hnumber : 1 + (earlier ++ (indent ++ before)).count '\n' ≤ UInt32.size := by
    have hcount := List.count_le_length (a := '\n') (l := earlier ++ (indent ++ before))
    have hlength := h.length_le_offset
    have hoffset : e.position.offset.toNat < UInt32.size := e.position.offset.toNat_lt
    omega
  have hlines : e.placeLines? source =
      if before.length < maxWidth then
        some (caretLines (1 + (earlier ++ (indent ++ before)).count '\n') before after)
      else none := by
    rw [Error.placeLines?, hplace]
    exact h.trimmed.lines?_eq heol hnumber
  rw [Error.report?, Error.reportLines?, hlines]
  split <;> rfl

/-- The source line and what is around it are lines. -/
theorem oneLine_lines (n : Nat) : ∀ l ∈ caretLines n before after, OneLine l := by
  refine oneLine_caretLines (fun hbreak => h.line.one_line ?_) n
  rcases List.mem_append.1 hbreak with hbreak | hbreak
  · exact List.mem_append_left _ (List.mem_append_right _ hbreak)
  · exact List.mem_append_right _ (List.mem_append_left _ hbreak)

end ErrorPlace

end MiniLua
