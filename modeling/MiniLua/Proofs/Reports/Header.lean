import MiniLua.Proofs.Errors.Origin
import MiniLua.Proofs.Reports.Place
/-!
# The lines of a report

Below its title a report has four lines. The title is one line as well, unless it shows a line break that stands
in the source behind a backslash or in a string (`ShowsBreak`): these are put into it as they are. So a report has
five lines, or it has more, or the error is too far into its line for a report (`parseSource_report_lines`).
-/

namespace MiniLua

open Lexeme Text Piece

variable {source file : String} {tokens : List Token} {t : Token} {e : Error}

/-! ## Parts of a title -/

theorem Expectation.oneLine_text {wanted : Expectation} (h : wanted ∈ wants) : OneLine wanted.text := by
  have hall : ∀ wanted ∈ wants, OneLine wanted.text := by decide
  exact hall _ h

theorem Token.oneLine_text : OneLine t.text ↔ OneLine t.value := by
  have hkind : ∀ k : Kind, OneLine k.text := by
    intro k
    cases k <;> decide
  have hspace : OneLine " " := by decide
  simp [Token.text, hkind, hspace]

/-- The text of a token is a line, unless it is that of a string. -/
theorem oneLine_value (h : tokenize source file = .ok tokens) (ht : t ∈ tokens) (hk : t.kind ≠ .string) :
    OneLine t.value := by
  obtain ⟨-, w, -, -, hspells, -⟩ := exists_lexeme h ht
  obtain ⟨rfl, hblank⟩ := hspells.plain hk
  intro hbreak
  cases hblank _ hbreak

/-- A title is a line if the tip in it is. -/
theorem Error.oneLine_title : OneLine e.title ↔ ∀ tip, e.tip? = some tip → OneLine tip := by
  have hlex : ∀ cause : LexError.Cause, OneLine cause.name := by
    intro cause
    cases cause <;> simp only [LexError.Cause.name] <;> decide
  have hparse : ∀ cause : ParseError.Cause, OneLine cause.name := by
    intro cause
    cases cause <;> simp only [ParseError.Cause.name] <;> decide
  have hname : OneLine e.name := by
    cases e with
    | lex e => exact hlex e.cause
    | parse e => exact hparse e.cause
  have hliterals : OneLine "Error: " ∧ OneLine " (" ∧ OneLine ")" := by decide
  unfold Error.title
  cases e.tip? with
  | none => simp [hname, hliterals]
  | some tip => simp [hname, hliterals]

/-- Of what is wrong with a text, only a line break behind a backslash is shown as a line break. -/
theorem Lexeme.Faulty.oneLine_tip {s : List Char} {cause : LexError.Cause} {n : Nat} (h : Faulty s cause n) :
    OneLine cause.tip ↔ cause ≠ .unknownEscape '\n' := by
  unfold LexError.Cause.tip
  cases h with
  | @illegalCharacter c s hblank =>
    have hc : c ≠ '\n' := by
      rintro rfl
      cases hblank
    have hliterals : OneLine "Character `" ∧ OneLine "` is not valid here" := by decide
    simp [hc, hliterals]
  | @malformedNumber number s h =>
    have hnumber : '\n' ∉ number := fun hbreak => by
      cases h.shape.not_blank hbreak
    have hliterals : OneLine "Invalid number: `" ∧
        OneLine "`, expected digits with an optional fraction and exponent" := by decide
    simp [hnumber, hliterals]
  | comment => decide
  | brackets | quote => decide
  | @unknownEscape _ _ _ d =>
    have hliterals : OneLine "Unknown escape `\\" ∧ OneLine "`, supported escapes are \\n \\t \\\" \\\\" := by decide
    simp [hliterals]

/-- Of a cause with words of the grammar, only what was found may not be a line. -/
theorem ParseError.Cause.Wants.oneLine_tip {limit : Nat} {cause : ParseError.Cause} (h : cause.Wants limit) :
    (∀ tip, cause.tip? = some tip → OneLine tip) ↔
      ∀ expected found, cause = .expectedToken expected found → OneLine found := by
  cases cause with
  | unexpectedToken => simp [tip?]
  | expectedToken expected found =>
    obtain ⟨wanted, hwanted, rfl⟩ := h
    have hliterals : OneLine "Expected " ∧ OneLine ", found `" ∧ OneLine "`" := by decide
    simp [tip?, Expectation.oneLine_text hwanted, hliterals]
  | unexpectedEnd expected =>
    obtain ⟨wanted, hwanted, rfl⟩ := h
    have hliterals : OneLine "Input ended while expecting " ∧ OneLine ", is a block missing its `end`?" := by decide
    simp [tip?, Expectation.oneLine_text hwanted, hliterals]
  | nestingTooDeep n =>
    have hliterals : OneLine "Expressions and blocks may nest at most " ∧ OneLine " levels deep" := by decide
    simp [tip?, hliterals]

/-! ## Titles with line breaks -/

/-- The title of an error shows a line break of the source: the character behind a backslash, or one in the string that
stands where another token was wanted. -/
inductive ShowsBreak (source file : String) : Error → Prop
  | escape (position : Position) : ShowsBreak source file (.lex ⟨.unknownEscape '\n', position⟩)
  | found {tokens : List Token} {t : Token} {e : ParseError} {expected : String} (htokens : tokenize source file = .ok tokens)
    (ht : tokens[e.index]? = some t) (hstring : t.kind = .string) (hbreak : '\n' ∈ t.value.toList)
    (hcause : e.cause = .expectedToken expected t.text) : ShowsBreak source file (.parse e)

theorem lex_oneLine_title {e : LexError} (h : tokenize source file = .error e) :
    OneLine (Error.lex e).title ↔ ¬ ShowsBreak source file (.lex e) := by
  obtain ⟨front, c, rest, cause, n, -, he, rfl⟩ := tokenize_eq_error.1 h
  have htip := (first_eq_error_iff.1 he).oneLine_tip
  rw [Error.oneLine_title, Error.tip?]
  simp only [Option.some.injEq, forall_eq', htip]
  refine not_congr ⟨?_, ?_⟩
  · rintro rfl
    exact .escape _
  · rintro ⟨⟩
    rfl

theorem parse_oneLine_title {e : ParseError} (htokens : tokenize source file = .ok tokens)
    (h : parse tokens file = .error e) :
    OneLine (Error.parse e).title ↔ ¬ ShowsBreak source file (.parse e) := by
  have hdescribes := parseWithin_error_describes h
  have htip := (parseWithin_error_wants h).oneLine_tip
  rw [Error.oneLine_title, Error.tip?, htip]
  constructor
  · rintro hall (_ | ⟨-, -, -, hbreak, hcause⟩)
    exact Token.oneLine_text.1 (hall _ _ hcause) hbreak
  · intro hno expected found hcause
    obtain ⟨t, ht, rfl, -⟩ := hdescribes.expected _ _ hcause
    refine Token.oneLine_text.2 fun hbreak => hno ?_
    have hstring : t.kind = .string :=
      Decidable.byContradiction fun hk => oneLine_value htokens (List.mem_of_getElem? ht) hk hbreak
    exact .found htokens ht hstring hbreak hcause

/-- The title of an error is a line unless it shows a line break of the source. -/
theorem parseSource_oneLine_title (h : parseSource source file = .error e) : OneLine e.title ↔ ¬ ShowsBreak source file e := by
  unfold parseSource at h
  split at h
  · next htokens =>
    cases h
    exact lex_oneLine_title htokens
  · next htokens =>
    split at h
    · next hparse =>
      cases h
      exact parse_oneLine_title htokens hparse
    · cases h

/-! ## Reports -/

/-- There is a report unless the error is too far into its line. Below its title it has the name of the source, a gutter, a
numbered line and the caret. With the title it is of five lines, unless the title shows a line break of the source. -/
theorem parseSource_report_lines (hsize : source.utf8ByteSize < UInt32.size) (hfile : OneLine file)
    (h : parseSource source file = .error e) :
    (∃ rest, e.title = "Error: " ++ rest) ∧
    ∃ earlier indent before after blanks later, ErrorPlace source e earlier indent before after blanks later ∧
      (before.length < maxWidth → ∃ report, e.report? source = some report ∧
        (∃ (below : String) (number dashes : Nat) (text : String), report = e.title ++ "\n" ++ below ∧
          OfLines below ["-> " ++ file, gutter number, toString number ++ " | " ++ text,
            gutter number ++ " " ++ (String.ofList (List.replicate dashes '-') ++ "^")]) ∧
        ((∃ lines, OfLines report lines ∧ lines.length = 5) ↔ ¬ ShowsBreak source file e)) ∧
      (maxWidth ≤ before.length → e.report? source = none) := by
  obtain ⟨earlier, indent, before, after, blanks, later, hplace⟩ := exists_place hsize h
  have hreport := hplace.report?_eq
  generalize 1 + (earlier ++ (indent ++ before)).count '\n' = n at hreport
  obtain ⟨a, b, -, hposition, -⟩ := parseSource_error_place h
  have hname : e.position.file = file := congrArg Position.file hposition
  rw [hname] at hreport
  have hbelow : ∀ l ∈ ("-> " ++ file) :: caretLines n before after, OneLine l :=
    List.forall_mem_cons.2 ⟨oneLine_append.2 ⟨by decide, hfile⟩, hplace.oneLine_lines n⟩
  refine ⟨?_, earlier, indent, before, after, blanks, later, hplace, fun hnear => ?_, fun hfar => ?_⟩
  · unfold Error.title
    split
    · next tip _ => exact ⟨e.name ++ (" (" ++ (tip ++ ")")), by simp only [String.append_assoc]⟩
    · exact ⟨e.name, rfl⟩
  · refine ⟨_, hreport.trans (if_pos hnear), ⟨_, n, before.length, String.ofList (before ++ after), ?_, rfl, hbelow⟩, ?_⟩
    · rw [List.map_cons, String.join_cons]
      rfl
    · have hlines := exists_ofLines_iff (e.title :: ("-> " ++ file) :: caretLines n before after)
      rw [← parseSource_oneLine_title h]
      exact hlines.trans (List.forall_mem_cons.trans (and_iff_left hbelow))
  · exact hreport.trans (if_neg (Nat.not_lt.2 hfar))

/-- A character that is none of the language makes a report of five lines. -/
theorem parseSource_report_lines_at :
    ∃ e, parseSource "@" "f" = .error e ∧
      ∃ report, e.report? "@" = some report ∧ ∃ lines, OfLines report lines ∧ lines.length = 5 := by
  have hat : first '@' [] = .error (.illegalCharacter '@', 0) := rfl
  have hfault : tokenize "@" "f" = .error ⟨.illegalCharacter '@', .ofNat "f" 0⟩ := scan_of_error hat
  have h : parseSource "@" "f" = .error (.lex ⟨.illegalCharacter '@', .ofNat "f" 0⟩) := by rw [parseSource, hfault]
  obtain ⟨-, earlier, indent, before, after, blanks, later, hplace, hnear, -⟩ :=
    parseSource_report_lines (by decide) (by decide) h
  have hbefore : before.length < maxWidth := Nat.lt_of_le_of_lt hplace.length_before_le (by decide)
  obtain ⟨report, hreport, -, hlines⟩ := hnear hbefore
  refine ⟨_, h, report, hreport, hlines.2 fun hbreak => ?_⟩
  cases hbreak

/-- Not every report has five lines: a string with a line break where a name was wanted makes six. -/
theorem parseSource_report_line_break :
    ∃ e report, parseSource "local \"\n\"" "f" = .error e ∧ e.report? "local \"\n\"" = some report ∧
      ¬ ∃ lines, OfLines report lines ∧ lines.length = 5 := by
  have htokens : tokenize "local \"\n\"" "f" =
      .ok [⟨.keyword, "local", .ofNat "f" 0 5⟩, ⟨.string, "\n", .ofNat "f" 6 3⟩] := by
    have hlocal : first 'l' "ocal \"\n\"".toList = .ok (word 'l' "ocal \"\n\"".toList) := rfl
    have hblank : first ' ' "\"\n\"".toList = .ok (blank ' ' "\"\n\"".toList) := rfl
    have hstring : first '"' "\n\"".toList = .ok ⟨"\"\n\"".toList, [], some (.string, "\n")⟩ := rfl
    refine (scan_of_ok hlocal).trans ?_
    refine (scan_of_ok hblank).trans ?_
    refine (scan_of_ok hstring).trans ?_
    exact scan_nil _ _ _
  have hprogram : Parser.program (.ofLevels maxNesting)
      [⟨.keyword, "local", .ofNat "f" 0 5⟩, ⟨.string, "\n", .ofNat "f" 6 3⟩] =
        .error ⟨.expected (.kind .identifier), [⟨.string, "\n", .ofNat "f" 6 3⟩], 0⟩ := rfl
  have hparse : parse [⟨.keyword, "local", .ofNat "f" 0 5⟩, ⟨.string, "\n", .ofNat "f" 6 3⟩] "f" =
      .error ⟨.expectedToken "IDENTIFIER" "STRING \n", 1, .ofNat "f" 6, "local =>"⟩ :=
    parseWithin_eq_error.2 ⟨_, hprogram, by decide⟩
  have h : parseSource "local \"\n\"" "f" =
      .error (.parse ⟨.expectedToken "IDENTIFIER" "STRING \n", 1, .ofNat "f" 6, "local =>"⟩) := by
    rw [parseSource, htokens]
    simp only [hparse]
  refine ⟨_, "Error: ExpectedToken (Expected IDENTIFIER, found `STRING \n`)\n-> f\n  |\n1 | local \"\n  | ------^\n",
    h, by decide, ?_⟩
  rintro ⟨lines, hlines, hlength⟩
  rw [hlines.length_eq] at hlength
  revert hlength
  decide

end MiniLua
