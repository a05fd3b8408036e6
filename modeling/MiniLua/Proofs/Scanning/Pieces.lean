import MiniLua.Scanner
import MiniLua.Proofs.Scanning.Boundary
/-!
# Piece by piece

The loop of `scan` gets from place to place of its text (`Reaches`), up to the end or to a place
where no lexeme is (`Reaches.exists_last`). What it has read by then is a row of pieces, each of
which stands in front of the next one, and any such row is read as the tokens of its pieces
(`scan_row`). What stands in front of one text stands in front of any other that does not go on
with it, so rows can be cut and put together.
-/

namespace MiniLua

open Lexeme Text

variable {file source : String} {offset : Nat} {found ts : List Token} {c : Char}
  {s front rest rest' : List Char} {l : Lexeme}

/-! ## Places that a scan gets to -/

/-- The loop that scans a text gets to a place, with this text in front of it and this one left. -/
inductive Reaches (s : List Char) : List Char → List Char → Prop
  | start : Reaches s [] s
  | step {front rest : List Char} {c : Char} {l : Lexeme} (h : Reaches s front (c :: rest)) (hl : first c rest = .ok l) :
    Reaches s (front ++ l.written) l.rest

theorem Reaches.append (h : Reaches s front rest) : front ++ rest = s := by
  induction h with
  | start => rfl
  | step _ hl ih => rw [List.append_assoc, first_append hl, ih]

/-- From every place the loop gets to the end or to a place where no lexeme is. -/
theorem Reaches.exists_last (h : Reaches s front rest) :
    ∃ front rest, Reaches s front rest ∧ (rest = [] ∨ ∃ c r e, rest = c :: r ∧ first c r = .error e) := by
  induction hn : rest.length using Nat.strongRecOn generalizing front rest with
  | ind n ih =>
    cases rest with
    | nil => exact ⟨front, [], h, .inl rfl⟩
    | cons c rest =>
      cases hl : first c rest with
      | error e => exact ⟨front, c :: rest, h, .inr ⟨c, rest, e, rfl, hl⟩⟩
      | ok l => exact ih l.rest.length (hn ▸ length_rest_lt hl) (h.step hl) rfl

/-! ## Pieces -/

/-- Blanks in front of a text give no token. -/
theorem scan_dropWhile (file : String) (offset : Nat) (found : List Token) (s : List Char) :
    scan file offset found s = scan file (offset + width (s.takeWhile isBlank)) found (s.dropWhile isBlank) := by
  cases s with
  | nil => rfl
  | cons c s =>
    cases hc : isBlank c with
    | false => simp [hc]
    | true =>
      rw [scan_of_ok (first_of_isBlank hc s)]
      simp [blank, Lexeme.token?, hc]

theorem scan_blanks (h : ∀ c ∈ s, isBlank c) (file : String) (offset : Nat) (found : List Token) (rest : List Char) :
    scan file offset found (s ++ rest) = scan file (offset + width s) found rest := by
  rw [scan_dropWhile, List.takeWhile_append_of_pos h, List.dropWhile_append_of_pos h, width_append, ← Nat.add_assoc]
  exact (scan_dropWhile file (offset + width s) found rest).symm

/-- A part of a text and what token it gives, if any. -/
structure Piece where
  written : List Char
  token : Option (Token.Kind × String)

namespace Piece

variable {p : Piece} {ps qs : List Piece}

/-- The token of a piece at an offset. -/
def token? (file : String) (offset : Nat) (p : Piece) : Option Token :=
  p.token.map fun t => ⟨t.1, t.2, .ofNat file offset (width p.written)⟩

/-- Before a text a piece is what is read, or some of the blanks that are. -/
structure Stands (p : Piece) (rest : List Char) : Prop where
  spelled : WellSpelled ⟨p.written, rest, p.token⟩
  ends : ∀ d, rest.head? = some d → ¬ GoesOn (p.token.map Prod.fst) p.written d

theorem Stands.of_first (h : first c s = .ok l) : Stands ⟨l.written, l.token⟩ l.rest :=
  ⟨first_spelled c s l h, first_ended c s l h⟩

/-- A piece stands before another text as well if that does not go on with it. -/
theorem Stands.swap (h : p.Stands rest) (hend : ∀ d, rest'.head? = some d → ¬ GoesOn (p.token.map Prod.fst) p.written d) :
    p.Stands rest' := by
  refine ⟨?_, hend⟩
  obtain ⟨w, token⟩ := p
  have hspelled := h.spelled
  cases token with
  | some t => exact hspelled
  | none =>
    cases hspelled with
    | blanks hne h => exact .blanks hne h
    | @lineComment body _ hbody hopen _ =>
      refine .lineComment hbody hopen fun d hd => ?_
      exact Decidable.byContradiction fun hne => hend d hd ⟨body, rfl, hopen, hne⟩
    | longComment hbody => exact .longComment hbody

/-- A piece is read as its token, whatever part of the blanks it is. -/
theorem Stands.scan (h : p.Stands rest) (file : String) (offset : Nat) (found : List Token) :
    scan file offset found (p.written ++ rest) =
      scan file (offset + width p.written) ((p.token? file offset).toList ++ found) rest := by
  by_cases hb : p.token = none ∧ ∀ c ∈ p.written, isBlank c
  · rw [token?, hb.1]
    exact scan_blanks hb.2 file offset found rest
  · obtain ⟨c, s, hw, hread⟩ := first_of_wellSpelled h.spelled (fun ht hs => hb ⟨ht, hs⟩) h.ends
    obtain ⟨w, token⟩ := p
    obtain rfl : w = c :: s := hw
    exact scan_of_ok hread

/-! ## Rows of pieces -/

/-- The text of a row. -/
def text (ps : List Piece) : List Char := ps.flatMap written

/-- The tokens of a row from an offset on. -/
def tokens (file : String) : Nat → List Piece → List Token
  | _, [] => []
  | offset, p :: ps => (p.token? file offset).toList ++ tokens file (offset + width p.written) ps

/-- Each piece stands before the next, and the last one before a text. -/
def InRow : List Piece → List Char → Prop
  | [], _ => True
  | p :: ps, rest => p.Stands (text ps ++ rest) ∧ InRow ps rest

@[simp] theorem text_nil : text [] = [] := rfl

@[simp] theorem text_cons (p : Piece) (ps : List Piece) : text (p :: ps) = p.written ++ text ps := rfl

@[simp] theorem text_append (ps qs : List Piece) : text (ps ++ qs) = text ps ++ text qs := List.flatMap_append

/-- The text of a row starts as its first piece does. -/
theorem head?_text_cons (h : p.written ≠ []) : (text (p :: ps) ++ rest).head? = p.written.head? := by
  obtain ⟨c, w, hw⟩ := List.exists_cons_of_ne_nil h
  rw [text_cons, hw]
  rfl

theorem tokens_append (file : String) (offset : Nat) (ps qs : List Piece) :
    tokens file offset (ps ++ qs) = tokens file offset ps ++ tokens file (offset + width (text ps)) qs := by
  induction ps generalizing offset with
  | nil => rfl
  | cons p ps ih => simp [tokens, ih, Nat.add_assoc]

/-- Further on a row has the same tokens, further on. -/
theorem tokens_add (file : String) (offset n : Nat) (ps : List Piece) :
    tokens file (offset + n) ps = (tokens file offset ps).map (·.shift n) := by
  induction ps generalizing offset with
  | nil => rfl
  | cons p ps ih =>
    have hp : p.token? file (offset + n) = (p.token? file offset).map (·.shift n) := by
      simp [token?, Token.shift, Span.ofNat_add, Function.comp_def]
    rw [tokens, tokens, Nat.add_right_comm, ih, hp, List.map_append]
    cases p.token? file offset <;> rfl

theorem inRow_append : InRow (ps ++ qs) rest ↔ InRow ps (text qs ++ rest) ∧ InRow qs rest := by
  induction ps with
  | nil => simp [InRow]
  | cons p ps ih => simp [InRow, ih, and_assoc]

/-- A row stands before another text as well if that does not go on with its last piece. -/
theorem InRow.swap (h : InRow ps rest)
    (hend : ∀ p, ps.getLast? = some p → ∀ d, rest'.head? = some d → ¬ GoesOn (p.token.map Prod.fst) p.written d) :
    InRow ps rest' := by
  induction ps with
  | nil => trivial
  | cons p ps ih =>
    obtain ⟨hp, hps⟩ := h
    cases ps with
    | nil => exact ⟨hp.swap (hend p rfl), trivial⟩
    | cons q ps =>
      refine ⟨hp.swap fun d hd => hp.ends d ?_, ih hps hend⟩
      -- The next piece is not empty, so the next character is the same.
      have hne : q.written ≠ [] := hps.1.spelled.ne_nil
      rw [head?_text_cons hne] at hd ⊢
      exact hd

/-- A row can end its text. -/
theorem InRow.nil (h : InRow ps rest) : InRow ps [] := h.swap nofun

/-- A row is read as the tokens of its pieces. -/
theorem scan_row (h : InRow ps rest) (file : String) (offset : Nat) (found : List Token) :
    scan file offset found (text ps ++ rest) =
      scan file (offset + width (text ps)) ((tokens file offset ps).reverse ++ found) rest := by
  induction ps generalizing offset found with
  | nil => rfl
  | cons p ps ih =>
    obtain ⟨hp, hps⟩ := h
    rw [text_cons, List.append_assoc, hp.scan, ih hps, width_append, tokens, Nat.add_assoc, List.reverse_append, List.append_assoc]
    cases p.token? file offset <;> rfl

/-- A row that ends its text is read to the end. -/
theorem scan_text (h : InRow ps []) (file : String) (offset : Nat) :
    scan file offset [] (text ps) = .ok (tokens file offset ps) := by
  have hscan := scan_row h file offset []
  rwa [List.append_nil, List.append_nil, scan_nil, List.reverse_reverse] at hscan

end Piece

/-! ## Sources -/

open Piece

/-- What a scan has read is a row. -/
theorem Reaches.exists_row (h : Reaches s front rest) : ∃ ps, text ps = front ∧ InRow ps rest := by
  induction h with
  | start => exact ⟨[], rfl, trivial⟩
  | @step front rest c l _ hl ih =>
    obtain ⟨ps, rfl, hrow⟩ := ih
    refine ⟨ps ++ [⟨l.written, l.token⟩], by simp, inRow_append.2 ⟨?_, .of_first hl, trivial⟩⟩
    simpa [first_append hl] using hrow

/-- From a place that it gets to the scan goes on, and the text in front has the tokens found by then. -/
theorem Reaches.scan_eq (h : Reaches s front rest) (file : String) :
    ∃ found, scan file 0 [] front = .ok found ∧ scan file 0 [] s = scan file (width front) found.reverse rest := by
  obtain ⟨ps, rfl, hrow⟩ := h.exists_row
  have hscan := scan_row hrow file 0 []
  rw [h.append, Nat.zero_add, List.append_nil] at hscan
  exact ⟨_, scan_text hrow.nil file 0, hscan⟩

/-- Where the loop gets to a place without a lexeme, that is the error of the text. -/
theorem Reaches.scan_eq_error {cause : LexError.Cause} {n : Nat} (h : Reaches s front (c :: rest))
    (he : first c rest = .error (cause, n)) (file : String) :
    scan file 0 [] s = .error ⟨cause, .ofNat file (width front + n)⟩ := by
  obtain ⟨found, -, hscan⟩ := h.scan_eq file
  rw [hscan, scan_of_error he]

/-- The tokens of a source are those of a row of pieces that it is. -/
theorem tokenize_eq_ok : tokenize source file = .ok ts ↔
    ∃ ps, text ps = source.toList ∧ InRow ps [] ∧ Piece.tokens file 0 ps = ts := by
  constructor
  · intro h
    obtain ⟨front, rest, hreach, rfl | ⟨c, r, e, rfl, he⟩⟩ := (Reaches.start (s := source.toList)).exists_last
    · obtain ⟨ps, rfl, hrow⟩ := hreach.exists_row
      have htext : text ps = source.toList := by rw [← hreach.append, List.append_nil]
      rw [tokenize, ← htext, scan_text hrow] at h
      exact ⟨ps, htext, hrow, Except.ok.inj h⟩
    · rw [tokenize, hreach.scan_eq_error he] at h
      cases h
  · rintro ⟨ps, htext, hrow, rfl⟩
    rw [tokenize, ← htext, scan_text hrow]

/-- The error of a source stands where the loop gets to a place without a lexeme. -/
theorem tokenize_eq_error {e : LexError} : tokenize source file = .error e ↔
    ∃ front c rest cause n, Reaches source.toList front (c :: rest) ∧ first c rest = .error (cause, n) ∧
      e = ⟨cause, .ofNat file (width front + n)⟩ := by
  constructor
  · intro h
    obtain ⟨front, rest, hreach, rfl | ⟨c, r, ⟨cause, n⟩, rfl, he⟩⟩ := (Reaches.start (s := source.toList)).exists_last
    · obtain ⟨found, -, hscan⟩ := hreach.scan_eq file
      rw [tokenize, hscan, scan_nil] at h
      cases h
    · rw [tokenize, hreach.scan_eq_error he] at h
      exact ⟨front, c, r, cause, n, hreach, he, (Except.error.inj h).symm⟩
  · rintro ⟨front, c, rest, cause, n, hreach, he, rfl⟩
    exact hreach.scan_eq_error he file

end MiniLua
