import MiniLua.Report
import MiniLua.Proofs.Scanning.Spelling
/-!
# Lines and what a report shows of them

A text of lines has as many of them as line breaks (`OfLines.length_eq`). A place cuts a text in two, and its
line stands between two line breaks around the place (`InLine`); `lineAt?_eq`: the line that is found for an
offset is that one. A report shows it without the blanks around it (`Trimmed`), with the caret as far from its
start as the place is, in characters, unless that is too wide for a field of a format (`Trimmed.lines?_eq`).
-/

namespace MiniLua

open Text

variable {a s earlier before after later indent blanks eol : List Char} {n k : Nat} {source : String} {offset : UInt32}

/-! ## Lines -/

/-- A text without line breaks. -/
def OneLine (s : String) : Prop := '\n' ∉ s.toList

instance (s : String) : Decidable (OneLine s) := inferInstanceAs (Decidable (¬ _))

@[simp] theorem oneLine_append {s t : String} : OneLine (s ++ t) ↔ OneLine s ∧ OneLine t := by
  simp [OneLine]

@[simp] theorem oneLine_push {s : String} {c : Char} : OneLine (s.push c) ↔ OneLine s ∧ c ≠ '\n' := by
  simp [OneLine, eq_comm]

@[simp] theorem oneLine_ofList : OneLine (String.ofList s) ↔ '\n' ∉ s := by
  simp [OneLine]

@[simp] theorem oneLine_repr (n : Nat) : OneLine n.repr := fun h => by
  cases Nat.isDigit_of_mem_toDigits (by decide) (by decide) (Nat.toList_repr ▸ h)

/-- A text of some lines, each ended by a line break. -/
def OfLines (text : String) (lines : List String) : Prop :=
  text = String.join (lines.map (· ++ "\n")) ∧ ∀ l ∈ lines, OneLine l

theorem count_join (lines : List String) :
    (String.join (lines.map (· ++ "\n"))).toList.count '\n' = (lines.flatMap String.toList).count '\n' + lines.length := by
  induction lines with
  | nil => simp
  | cons l lines ih =>
    rw [String.toList_join] at ih
    simp only [List.map_cons, String.toList_join, List.flatMap_cons, List.count_append, ih, String.toList_append,
      List.length_cons]
    have hbreak : "\n".toList.count '\n' = 1 := rfl
    omega

theorem count_flatMap_eq_zero_iff {lines : List String} :
    (lines.flatMap String.toList).count '\n' = 0 ↔ ∀ l ∈ lines, OneLine l := by
  simp [List.count_eq_zero, OneLine]

/-- A text of lines has as many line breaks. -/
theorem OfLines.length_eq {text : String} {lines : List String} (h : OfLines text lines) :
    lines.length = text.toList.count '\n' := by
  rw [h.1, count_join, count_flatMap_eq_zero_iff.2 h.2, Nat.zero_add]

/-- Texts put one below the other make that many lines just if they are lines themselves. -/
theorem exists_ofLines_iff (lines : List String) :
    (∃ ls, OfLines (String.join (lines.map (· ++ "\n"))) ls ∧ ls.length = lines.length) ↔ ∀ l ∈ lines, OneLine l := by
  constructor
  · rintro ⟨ls, hls, hlength⟩
    have hcount := hls.length_eq
    rw [count_join] at hcount
    exact count_flatMap_eq_zero_iff.1 (by omega)
  · exact fun h => ⟨lines, ⟨rfl, h⟩, rfl⟩

/-! ## The line of a place -/

/-- A text around a place: before the line of the place, that line up to the place and from there on, and
behind the line. -/
structure InLine (earlier before after later : List Char) : Prop where
  line_start : earlier = [] ∨ earlier.getLast? = some '\n'
  line_end : later = [] ∨ later.head? = some '\n'
  one_line : '\n' ∉ before ++ after

theorem exists_line_end (b : List Char) :
    ∃ after later, b = after ++ later ∧ (later = [] ∨ later.head? = some '\n') ∧ '\n' ∉ after := by
  refine ⟨b.takeWhile (· ≠ '\n'), b.dropWhile (· ≠ '\n'), by simp, ?_, fun h => ?_⟩
  · have hhead := List.head?_dropWhile_not (· ≠ '\n') b
    cases hb : (b.dropWhile (· ≠ '\n')).head? with
    | none => exact .inl (List.head?_eq_none_iff.1 hb)
    | some c =>
      rw [hb] at hhead
      exact .inr (by simpa using hhead)
  · simpa using List.all_eq_true.1 List.all_takeWhile _ h

theorem exists_line_start (a : List Char) :
    ∃ earlier before, a = earlier ++ before ∧ (earlier = [] ∨ earlier.getLast? = some '\n') ∧ '\n' ∉ before := by
  obtain ⟨after, later, ha, hend, hafter⟩ := exists_line_end a.reverse
  refine ⟨later.reverse, after.reverse, ?_, ?_, by simpa using hafter⟩
  · rw [← List.reverse_append, ← ha, List.reverse_reverse]
  · rwa [List.reverse_eq_nil_iff, List.getLast?_reverse]

/-- Every place of a text is in a line. -/
theorem exists_inLine (a b : List Char) :
    ∃ earlier before after later, a = earlier ++ before ∧ b = after ++ later ∧ InLine earlier before after later := by
  obtain ⟨earlier, before, ha, hstart, hbefore⟩ := exists_line_start a
  obtain ⟨after, later, hb, hend, hafter⟩ := exists_line_end b
  exact ⟨earlier, before, after, later, ha, hb, hstart, hend, by simp [hbefore, hafter]⟩

/-- Without a line break the line goes on. -/
theorem lineFrom_line (h : '\n' ∉ a) (n : Nat) (before : List Char) (k : Nat) (s : List Char) :
    lineFrom n before (width a + k) (a ++ s) = lineFrom n (a.reverse ++ before) k s := by
  induction a generalizing before with
  | nil => simp
  | cons c a ih =>
    rw [List.mem_cons, not_or] at h
    have hleft : c.utf8Size + width a + k - c.utf8Size = width a + k := by omega
    rw [List.cons_append, width_cons, lineFrom, if_neg (by omega), if_neg (Ne.symm h.1), hleft, ih h.2]
    simp

/-- Behind a line break a new line starts, with the next number for each. -/
theorem lineFrom_break (h : earlier.getLast? = some '\n') (n : Nat) (before : List Char) (k : Nat) (s : List Char) :
    lineFrom n before (width earlier + k) (earlier ++ s) = lineFrom (n + earlier.count '\n') [] k s := by
  induction earlier generalizing n before with
  | nil => cases h
  | cons c a ih =>
    have hleft : c.utf8Size + width a + k - c.utf8Size = width a + k := by omega
    rw [List.cons_append, width_cons, lineFrom, if_neg (by omega), hleft]
    cases a with
    | nil =>
      obtain rfl : c = '\n' := by simpa using h
      simp
    | cons d a =>
      rw [List.getLast?_cons_cons] at h
      split
      · next hc =>
        rw [ih h, hc, List.count_cons_self, Nat.add_assoc, Nat.add_comm 1]
      · next hc => rw [ih h, List.count_cons_of_ne hc]

theorem lineFrom_zero (n : Nat) (before s : List Char) :
    lineFrom n before 0 s = some ⟨n, String.ofList (before.reverse ++ firstLine s), width before⟩ := by
  cases s with
  | nil => simp [lineFrom, firstLine]
  | cons c s => simp [lineFrom, Char.utf8Size_pos]

theorem firstLine_append (hafter : '\n' ∉ after) (hend : later = [] ∨ later.head? = some '\n') :
    firstLine (after ++ later) = after ++ later.take 1 := by
  have hline : ∀ c ∈ after, decide (c ≠ '\n') = true := fun c hc => decide_eq_true fun h => hafter (h ▸ hc)
  have hbreak : ∀ c, later.head? = some c → decide (c ≠ '\n') = false := by
    intro c hc
    rcases hend with rfl | hend
    · cases hc
    · cases hend.symm.trans hc
      rfl
  obtain ⟨htake, hdrop⟩ := Lexeme.run_append hline hbreak
  rw [firstLine, htake, hdrop]

/-- The line found for an offset is the one around it, with its line break if it has one. -/
theorem lineAt?_eq (h : InLine earlier before after later) (hsource : source.toList = (earlier ++ before) ++ (after ++ later))
    (hoffset : offset.toNat = width (earlier ++ before)) :
    lineAt? source offset =
      some ⟨1 + (earlier ++ before).count '\n', String.ofList (before ++ after ++ later.take 1), width before⟩ := by
  obtain ⟨hstart, hend, hone⟩ := h
  rw [List.mem_append, not_or] at hone
  have hline : ∀ m, lineFrom m [] (width before) (before ++ (after ++ later)) =
      some ⟨m, String.ofList (before ++ after ++ later.take 1), width before⟩ := by
    intro m
    have h := lineFrom_line hone.1 m [] 0 (after ++ later)
    rw [Nat.add_zero] at h
    rw [h, lineFrom_zero, firstLine_append hone.2 hend]
    simp
  rw [lineAt?, hsource, hoffset, width_append, List.append_assoc, List.count_append, List.count_eq_zero.2 hone.1, Nat.add_zero]
  rcases hstart with rfl | hstart
  · simpa using hline 1
  · rw [lineFrom_break hstart, hline]

/-! ## The line without blanks around it -/

/-- A line in parts around a place: the spaces and tabs in front, the text up to the place and from there on,
and the blanks at the end. -/
structure Trimmed (indent before after blanks : List Char) : Prop where
  indent : ∀ c ∈ indent, c = ' ' ∨ c = '\t'
  text_start : ∀ c, (before ++ (after ++ blanks)).head? = some c → c ≠ ' ' ∧ c ≠ '\t'
  blanks : ∀ c ∈ blanks, isBlank c
  text_end : ∀ c, (before ++ after).getLast? = some c → isBlank c = false

/-- Right behind a place or right in front of it stands something else than a blank. -/
def Touches (a b : List Char) : Prop :=
  (∃ c, b.head? = some c ∧ isBlank c = false) ∨ ∃ c, a.getLast? = some c ∧ isBlank c = false

/-- What stands beside a place is in its line, unless it is a line break. -/
theorem InLine.touches (h : InLine earlier before after later) (ht : Touches (earlier ++ before) (after ++ later)) :
    Touches before after := by
  rcases ht with ⟨c, hc, hblank⟩ | ⟨c, hc, hblank⟩
  · refine .inl ⟨c, ?_, hblank⟩
    cases after with
    | cons d after => exact hc
    | nil =>
      rcases h.line_end with rfl | hend
      · cases hc
      · cases hend.symm.trans hc
        cases hblank
  · refine .inr ⟨c, ?_, hblank⟩
    rw [List.getLast?_append] at hc
    cases hlast : before.getLast? with
    | some d => rwa [hlast] at hc
    | none =>
      rw [hlast, Option.none_or] at hc
      rcases h.line_start with rfl | hstart
      · cases hc
      · cases hstart.symm.trans hc
        cases hblank

theorem isIndent_iff {c : Char} : isIndent c = true ↔ c = ' ' ∨ c = '\t' := by
  simp [isIndent]

theorem isBlank_of_isIndent {c : Char} (h : isIndent c) : isBlank c := by
  rcases isIndent_iff.1 h with rfl | rfl <;> rfl

/-- A line around a place that something touches. -/
theorem exists_trimmed (h : Touches a s) :
    ∃ indent before after blanks, a = indent ++ before ∧ s = after ++ blanks ∧ Trimmed indent before after blanks := by
  obtain ⟨blanks, hs, hblanks, hlast⟩ := trimEnd_spec s
  have ha : a.takeWhile isIndent ++ a.dropWhile isIndent = a := List.takeWhile_append_dropWhile
  have hindent : ∀ c ∈ a.takeWhile isIndent, isIndent c := fun c hc => List.all_eq_true.1 List.all_takeWhile c hc
  refine ⟨a.takeWhile isIndent, a.dropWhile isIndent, trimEnd s, blanks, ha.symm, hs, fun c hc => isIndent_iff.1 (hindent c hc),
    fun c hc => ?_, hblanks, fun c hc => ?_⟩
  · rw [← hs] at hc
    have hhead := List.head?_dropWhile_not isIndent a
    cases hbefore : a.dropWhile isIndent with
    | cons d before =>
      rw [hbefore] at hhead hc
      cases hc
      simpa [isIndent] using hhead
    | nil =>
      -- All in front of the place is indent, so it is behind the place that something stands.
      rw [hbefore, List.append_nil] at ha
      rw [hbefore, List.nil_append] at hc
      rcases h with ⟨d, hd, hblank⟩ | ⟨d, hd, hblank⟩
      · cases hd.symm.trans hc
        constructor <;> rintro rfl <;> cases hblank
      · rw [← ha] at hd
        rw [isBlank_of_isIndent (hindent d (List.mem_of_getLast? hd))] at hblank
        cases hblank
  · rw [List.getLast?_append] at hc
    cases hafter : (trimEnd s).getLast? with
    | some d =>
      rw [hafter] at hc
      cases hc
      exact hlast _ hafter
    | none =>
      -- All behind the place is blank, so it is in front of the place that something stands.
      rw [hafter, Option.none_or] at hc
      rw [List.getLast?_eq_none_iff.1 hafter, List.nil_append] at hs
      rcases h with ⟨d, hd, hblank⟩ | ⟨d, hd, hblank⟩
      · rw [hs] at hd
        rw [hblanks d (List.mem_of_head? hd)] at hblank
        cases hblank
      · rw [← ha, List.getLast?_append, hc, Option.some_or] at hd
        cases hd
        exact hblank

/-! ## What a report shows -/

theorem charCount?_width (k : Nat) (a s : List Char) : charCount? k (width a) (a ++ s) = some (k + a.length) := by
  induction a generalizing k with
  | nil => rw [width_nil, charCount?, List.length_nil, Nat.add_zero]
  | cons c a ih =>
    obtain ⟨m, hm⟩ : ∃ m, c.utf8Size + width a = m + 1 := ⟨c.utf8Size + width a - 1, by have := c.utf8Size_pos; omega⟩
    rw [width_cons, hm, List.cons_append, charCount?, if_neg (by omega), ← hm, Nat.add_sub_cancel_left, ih, List.length_cons]
    congr 1
    omega

theorem trimEnd_append (hblanks : ∀ c ∈ blanks, isBlank c) (hend : ∀ c, s.getLast? = some c → isBlank c = false) :
    trimEnd (s ++ blanks) = s := by
  have hfront : ∀ c ∈ blanks.reverse, isBlank c := by simpa using hblanks
  have hnext : ∀ c, s.reverse.head? = some c → isBlank c = false := by simpa using hend
  rw [trimEnd, List.reverse_append, (Lexeme.run_append hfront hnext).2, List.reverse_reverse]

theorem padLeft?_succ (fill : Char) (k : Nat) {s : String} (hs : s.length = 1) :
    padLeft? fill (k + 1) s = if k < maxWidth then some (String.ofList (List.replicate k fill) ++ s) else none := by
  rw [padLeft?, hs, Nat.add_sub_cancel]
  rfl

/-- What stands in front of the lines above and below the one with a number. -/
def gutter (number : Nat) : String :=
  String.ofList (List.replicate ((toString number).length + 1) ' ') ++ "|"

/-- The lines of a report around a text, with the caret below the place before `after`. -/
def caretLines (number : Nat) (before after : List Char) : List String :=
  [gutter number, toString number ++ " | " ++ String.ofList (before ++ after),
    gutter number ++ " " ++ (String.ofList (List.replicate before.length '-') ++ "^")]

theorem oneLine_caretLines (h : '\n' ∉ before ++ after) (number : Nat) :
    ∀ l ∈ caretLines number before after, OneLine l := by
  have hliterals : OneLine "|" ∧ OneLine " " ∧ OneLine " | " ∧ OneLine "^" := by decide
  rw [List.mem_append, not_or] at h
  simp [caretLines, gutter, h, hliterals]

/-- The place before `after` in a line. -/
def LinePlace.ofParts (number : Nat) (indent before after blanks eol : List Char) : LinePlace :=
  ⟨number, String.ofList ((indent ++ before) ++ (after ++ blanks) ++ eol), width (indent ++ before)⟩

namespace Trimmed

variable (h : Trimmed indent before after blanks) (heol : ∀ c ∈ eol, c = '\n')
include h heol

theorem indent_run :
    ((indent ++ before) ++ (after ++ blanks) ++ eol).takeWhile isIndent = indent ∧
      ((indent ++ before) ++ (after ++ blanks) ++ eol).dropWhile isIndent = before ++ (after ++ blanks) ++ eol := by
  have hindent : ∀ c ∈ indent, isIndent c := fun c hc => isIndent_iff.2 (h.indent c hc)
  have hnext : ∀ c, (before ++ (after ++ blanks) ++ eol).head? = some c → isIndent c = false := by
    intro c hc
    rw [List.head?_append] at hc
    cases hstart : (before ++ (after ++ blanks)).head? with
    | some d =>
      rw [hstart] at hc
      cases hc
      simpa [isIndent] using h.text_start _ hstart
    | none =>
      rw [hstart, Option.none_or] at hc
      rw [heol c (List.mem_of_head? hc)]
      rfl
  have hrun := Lexeme.run_append hindent hnext
  simpa using hrun

theorem indent_eq : (LinePlace.ofParts n indent before after blanks eol).indent = indent.length := by
  rw [LinePlace.indent, LinePlace.ofParts, String.toList_ofList, (h.indent_run heol).1]

theorem shown_eq : (LinePlace.ofParts n indent before after blanks eol).shown = String.ofList (before ++ after) := by
  have hblanks : ∀ c ∈ blanks ++ eol, isBlank c := by
    intro c hc
    rcases List.mem_append.1 hc with hc | hc
    · exact h.blanks c hc
    · rw [heol c hc]
      rfl
  have hsplit : before ++ (after ++ blanks) ++ eol = (before ++ after) ++ (blanks ++ eol) := by simp
  rw [LinePlace.shown, LinePlace.ofParts, String.toList_ofList, (h.indent_run heol).2, hsplit,
    trimEnd_append hblanks h.text_end]

/-- The lines of a place in a line show its text, and the caret where the place is in that text, if it is not too far
from the start. The gutter fits: the number of a line has few digits. -/
theorem lines?_eq (hn : n ≤ UInt32.size) : (LinePlace.ofParts n indent before after blanks eol).lines? =
    if before.length < maxWidth then some (caretLines n before after) else none := by
  have hcolumn : (LinePlace.ofParts n indent before after blanks eol).charColumn = indent.length + before.length := by
    rw [LinePlace.charColumn, LinePlace.ofParts, String.toList_ofList, List.append_assoc (indent ++ before), charCount?_width]
    simp
  have hwidth : (LinePlace.ofParts n indent before after blanks eol).gutterWidth = (toString n).length + 1 + 1 := rfl
  have hnumber : (LinePlace.ofParts n indent before after blanks eol).number = n := rfl
  have hdigits : (toString n).length ≤ 10 := (Nat.length_repr_le_iff (by decide)).2 (Nat.lt_of_le_of_lt hn (by decide))
  have hgutter : (toString n).length + 1 < maxWidth := Nat.lt_of_le_of_lt (Nat.succ_le_succ hdigits) (by decide)
  have hpad : padLeft? ' ' ((toString n).length + 1 + 1) "|" = some (gutter n) := by
    rw [padLeft?_succ _ _ (by decide), if_pos hgutter, gutter]
  rw [LinePlace.lines?, hwidth, hpad, hnumber, h.indent_eq heol, h.shown_eq heol, hcolumn, Nat.add_sub_cancel_left,
    padLeft?_succ _ _ (by decide)]
  split <;> rfl

end Trimmed

end MiniLua
