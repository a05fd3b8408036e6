import MiniLua.Proofs.Reports.Place
import MiniLua.Proofs.Scanning.Tiling
/-!
# The caret of a report

The report of an error ends with the line the error is in and, below it, a caret under the very character the
error stands at, or right behind the last one (`parseSource_report_caret`). An error that is too far into its line
for a field of a format has no report at all (`parseSource_report_too_far`).
-/

namespace MiniLua

open Text

variable {source file : String} {e : Error}

/-! ## Behind a word -/

section Word

variable {w : List Char} (hw : Lexeme.WordShape w)
include hw

/-- A character that is none of the language is an error behind a word. -/
theorem parseSource_word_at (file : String) :
    parseSource (.ofList (w ++ ['@'])) file = .error (.lex ⟨.illegalCharacter '@', .ofNat file (width w)⟩) := by
  have hend : ∀ d, ['@'].head? = some d → Lexeme.isWordPart d = false := by
    rintro _ ⟨⟩
    rfl
  obtain ⟨c, s, rfl, hword⟩ := Lexeme.first_wordShape hw hend
  have hat : Lexeme.first '@' [] = .error (.illegalCharacter '@', 0) := rfl
  have hfault : tokenize (.ofList (c :: s ++ ['@'])) file = .error ⟨.illegalCharacter '@', .ofNat file (width (c :: s))⟩ := by
    rw [tokenize, String.toList_ofList]
    refine (scan_of_ok hword).trans ?_
    refine (scan_of_error hat).trans ?_
    rw [Nat.zero_add, Nat.add_zero]
  rw [parseSource, hfault]

/-- The place of that error. -/
theorem errorPlace_word_at (hsize : width w < UInt32.size) (file : String) :
    ErrorPlace (.ofList (w ++ ['@'])) (.lex ⟨.illegalCharacter '@', .ofNat file (width w)⟩) [] [] w ['@'] [] [] where
  parts := by simp
  offset := Position.toNat_offset hsize
  line := {
    line_start := .inl rfl
    line_end := .inl rfl
    one_line := fun hbreak => by
      rcases List.mem_append.1 hbreak with hbreak | hbreak
      · cases hw.not_blank hbreak
      · exact absurd hbreak (by decide) }
  trimmed := {
    indent := nofun
    text_start := fun c hc => by
      rw [List.append_nil] at hc
      have hblank : isBlank c = false := by
        rcases List.mem_append.1 (List.mem_of_head? hc) with hc | hc
        · exact hw.not_blank hc
        · rw [List.mem_singleton.1 hc]
          rfl
      constructor <;> rintro rfl <;> cases hblank
    blanks := nofun
    text_end := fun c hc => by
      rw [List.getLast?_append] at hc
      cases hc
      rfl }

end Word

theorem width_letters (n : Nat) : width (List.replicate n 'a') = n := by
  induction n with
  | zero => rfl
  | succ n ih =>
    rw [List.replicate_succ, width_cons, ih]
    exact Nat.add_comm ..

/-! ## The caret -/

/-- A report ends with two lines: a text behind its number, and a caret that is as many characters from the left as the
place before `after` is in the line above. -/
def EndsWithCaret (report : String) (number : Nat) (before after : String) : Prop :=
  ∃ head lead : String,
    report = head ++ "\n" ++ (toString number ++ " | " ++ (before ++ after)) ++ "\n" ++ (lead ++ "^") ++ "\n" ∧
    OneLine (toString number ++ " | " ++ (before ++ after)) ∧ OneLine (lead ++ "^") ∧ '^' ∉ lead.toList ∧
    lead.length = (toString number ++ " | " ++ before).length

/-- An error stands in front of a character of the source or at its end. If fewer than `maxWidth` characters of its line
are in front of the place, behind the indent, there is a report. It ends with the line of that place, numbered by the line
breaks in front of the place and shown without the blanks around it, and with a caret below: under the character that the
error stands in front of, or behind the text if it stands where the text ends. For an error further on there is none. -/
theorem parseSource_report_caret (hsize : source.utf8ByteSize < UInt32.size) (h : parseSource source file = .error e) :
    e.position.offset.toNat ≤ source.utf8ByteSize ∧ (String.Pos.Raw.mk e.position.offset.toNat).IsValid source ∧
      ∃ earlier indent before after blanks later, ErrorPlace source e earlier indent before after blanks later ∧
        (before.length < maxWidth → ∃ report, e.report? source = some report ∧
          EndsWithCaret report (1 + (earlier ++ (indent ++ before)).count '\n') (.ofList before) (.ofList after)) ∧
        (maxWidth ≤ before.length → e.report? source = none) := by
  obtain ⟨earlier, indent, before, after, blanks, later, hplace⟩ := exists_place hsize h
  refine ⟨?_, ?_, earlier, indent, before, after, blanks, later, hplace, fun hnear => ?_, fun hfar => ?_⟩
  · rw [hplace.offset, ← width_toList, hplace.parts, width_append _ ((after ++ blanks) ++ later)]
    exact Nat.le_add_right ..
  · rw [hplace.offset]
    exact isValid_width hplace.parts
  · refine ⟨_, hplace.report?_eq.trans (if_pos hnear), ?_⟩
    generalize 1 + (earlier ++ (indent ++ before)).count '\n' = n
    have hone := hplace.oneLine_lines n
    simp only [caretLines, List.forall_mem_cons, ← String.append_assoc] at hone
    -- The gutters of both lines are as wide as each other.
    have hwidth : (gutter n ++ " ").length = (toString n ++ " | ").length := by
      simp only [gutter, String.length_append, String.length_ofList, List.length_replicate]
      rfl
    refine ⟨e.title ++ "\n" ++ ("-> " ++ e.position.file) ++ "\n" ++ gutter n,
      gutter n ++ " " ++ String.ofList (List.replicate before.length '-'), ?_, ?_, hone.2.2.1, ?_, ?_⟩
    · simp [caretLines, String.append_assoc]
    · simpa [String.ofList_append] using hone.2.1
    · simp [gutter]
    · rw [String.length_append, hwidth, String.length_append (toString n ++ " | ")]
      simp
  · exact hplace.report?_eq.trans (if_neg (Nat.not_lt.2 hfar))

/-- A character that is none of the language, in an indented line behind a letter of two bytes. -/
theorem parseSource_report_caret_letter :
    ∃ e, parseSource "\n\té @" "f" = .error e ∧ e.position.offset = 5 ∧
      ∃ earlier indent before after blanks later, ErrorPlace "\n\té @" e earlier indent before after blanks later ∧
        ∃ report, e.report? "\n\té @" = some report ∧
          EndsWithCaret report (1 + (earlier ++ (indent ++ before)).count '\n') (.ofList before) (.ofList after) := by
  have hfault : tokenize "\n\té @" "f" = .error ⟨.illegalCharacter '@', .ofNat "f" 5⟩ := by
    have hblank : Lexeme.first '\n' "\té @".toList = .ok (Lexeme.blank '\n' "\té @".toList) := rfl
    have hletter : Lexeme.first 'é' " @".toList = .ok (Lexeme.word 'é' " @".toList) := rfl
    have hspace : Lexeme.first ' ' "@".toList = .ok (Lexeme.blank ' ' "@".toList) := rfl
    have hat : Lexeme.first '@' [] = .error (.illegalCharacter '@', 0) := rfl
    refine (scan_of_ok hblank).trans ?_
    refine (scan_of_ok hletter).trans ?_
    refine (scan_of_ok hspace).trans ?_
    exact scan_of_error hat
  have h : parseSource "\n\té @" "f" = .error (.lex ⟨.illegalCharacter '@', .ofNat "f" 5⟩) := by
    rw [parseSource, hfault]
  obtain ⟨-, -, earlier, indent, before, after, blanks, later, hplace, hnear, -⟩ := parseSource_report_caret (by decide) h
  have hbefore : before.length < maxWidth := Nat.lt_of_le_of_lt hplace.length_before_le (by decide)
  exact ⟨_, h, rfl, earlier, indent, before, after, blanks, later, hplace, hnear hbefore⟩

/-- Not every error has a report: the caret of one behind as many letters as the widest field has characters would be in a
wider one. -/
theorem parseSource_report_too_far :
    (String.ofList (List.replicate 65535 'a' ++ ['@'])).utf8ByteSize < UInt32.size ∧
      ∃ e, parseSource (.ofList (List.replicate 65535 'a' ++ ['@'])) "shell" = .error e ∧
        e.report? (.ofList (List.replicate 65535 'a' ++ ['@'])) = none := by
  have hword : ∀ n, Lexeme.WordShape (List.replicate (n + 1) 'a') := fun n =>
    ⟨by decide, fun c hc => by rw [List.eq_of_mem_replicate hc]; decide⟩
  have hsize : width (List.replicate 65535 'a') < UInt32.size := by
    rw [width_letters]
    decide
  have hplace := errorPlace_word_at (hword 65534) hsize "shell"
  refine ⟨?_, _, parseSource_word_at (hword 65534) "shell", hplace.report?_eq.trans (if_neg ?_)⟩
  · rw [width_ofList, width_append, width_letters]
    decide
  · rw [List.length_replicate]
    decide

example : (Error.lex ⟨.illegalCharacter '@', .ofNat "f" 5⟩).report? "\n\té @" =
    some "Error: IllegalCharacter (Character `@` is not valid here)\n-> f\n  |\n2 | é @\n  | --^\n" := by
  decide

end MiniLua
