import MiniLua.Proofs.Errors.Description
import MiniLua.Proofs.Scanning.Pieces
import MiniLua.Source
/-!
# Layout has no part in reading

Blanks and comments in front of a token do not change the program of a source (`parseSource_layout`).
What is put in must not go on with the lexeme before it nor the token with what is put in, so it
begins with a blank and ends with a line break; the pieces of the source and those put in are then
pieces of the new source (`inRow_insert`). Tokens behind that place stand further on, and so does an
error at one of them.
-/

namespace MiniLua

open Lexeme Text Piece

variable {file : String} {offset n : Nat} {ts us : List Token} {t : Token} {rest : List Char} {p : Piece}
  {ps pre post gap : List Piece}

/-! ## Blanks between pieces -/

namespace Piece

/-- A blank goes on with nothing but a comment. -/
theorem goesOn_blank {kind : Option Token.Kind} {w : List Char} {d : Char} (hd : isBlank d) (h : GoesOn kind w d) :
    kind = none := by
  have hword := isWordPart_of_isBlank hd
  cases kind with
  | none => rfl
  | some kind =>
    cases kind with
    | string => exact h.elim
    | number =>
      have := isBlank_of_isExponentPart h
      simp [hd] at this
    | operator | symbol =>
      rcases h with ⟨-, rfl⟩ | ⟨c, -, hpair⟩
      · cases hd
      · have hall : ∀ p ∈ operatorPairs, isBlank p.2 = false := by decide
        simp [hall _ hpair] at hd
    | _ => simp [GoesOn, hword] at h

/-- A piece that stands before a token stands before a blank as well. -/
theorem Stands.before_blank (h : p.Stands rest) {c d : Char} (hc : rest.head? = some c) (hblank : isBlank c = false)
    (hd : isBlank d) :
    ¬ GoesOn (p.token.map Prod.fst) p.written d := by
  intro hgo
  have hkind := goesOn_blank hd hgo
  rw [hkind] at hgo
  obtain ⟨body, hbody, hopen, -⟩ := hgo
  -- A comment to the end of its line would go on with the token.
  refine h.ends c hc ?_
  rw [hkind]
  refine ⟨body, hbody, hopen, ?_⟩
  rintro rfl
  cases hblank

theorem Stands.head_not_blank (h : p.Stands rest) (ht : p.token ≠ none) {d : Char} (hd : p.written.head? = some d) :
    isBlank d = false := by
  obtain ⟨w, token⟩ := p
  obtain ⟨t, rfl⟩ := Option.ne_none_iff_exists'.1 ht
  exact Spells.head_not_blank h.spelled hd

/-- What ends with a line break stands before anything, if it is no token. -/
theorem Stands.before_any (h : p.Stands rest) (ht : p.token = none) (hlast : p.written.getLast? = some '\n') (d : Char) :
    ¬ GoesOn (p.token.map Prod.fst) p.written d := by
  obtain ⟨w, token⟩ := p
  obtain rfl : token = none := ht
  rintro ⟨body, rfl, hopen, -⟩
  have hspelled : Filler ('-' :: '-' :: body) rest := h.spelled
  generalize hw : '-' :: '-' :: body = w at hspelled
  cases hspelled with
  | blanks _ hblank =>
    subst hw
    cases hblank '-' List.mem_cons_self
  | lineComment hbody =>
    obtain rfl := (List.cons.inj (List.cons.inj hw).2).2
    have hmem : '\n' ∈ '-' :: '-' :: body := List.mem_of_getLast? hlast
    simp [hbody] at hmem
  | longComment =>
    obtain rfl := (List.cons.inj (List.cons.inj hw).2).2
    exact hopen ⟨_, rfl⟩

theorem InRow.getLast (h : InRow ps rest) (hp : ps.getLast? = some p) : p.Stands rest := by
  obtain ⟨ps, rfl⟩ := List.getLast?_eq_some_iff.1 hp
  exact (inRow_append.1 h).2.1

/-- A text ends as its last piece does. -/
theorem getLast?_text (h : InRow ps rest) (hp : ps.getLast? = some p) : (text ps).getLast? = p.written.getLast? := by
  have hne : p.written ≠ [] := (h.getLast hp).spelled.ne_nil
  obtain ⟨ps, rfl⟩ := List.getLast?_eq_some_iff.1 hp
  rw [text_append, text_cons, text_nil, List.append_nil, List.getLast?_append, List.getLast?_eq_some_getLast hne]
  rfl

theorem tokens_eq_nil_iff : tokens file offset ps = [] ↔ ∀ p ∈ ps, p.token = none := by
  induction ps generalizing offset with
  | nil => simp [tokens]
  | cons p ps ih => simp [tokens, token?, ih]

/-- Pieces that are no tokens can be put in front of a token, if a blank comes first and a line break last. -/
theorem inRow_insert (hrow : InRow (pre ++ p :: post) []) (ht : p.token ≠ none) (hgap : InRow gap [])
    (hnone : ∀ q ∈ gap, q.token = none) {d : Char} (hfirst : (text gap).head? = some d) (hd : isBlank d)
    (hlast : (text gap).getLast? = some '\n') : InRow (pre ++ (gap ++ p :: post)) [] := by
  obtain ⟨hpre, hpost⟩ := inRow_append.1 hrow
  refine inRow_append.2 ⟨?_, inRow_append.2 ⟨?_, hpost⟩⟩
  · refine hpre.swap fun q hq c hc => ?_
    obtain rfl : d = c := by
      obtain ⟨r, hr⟩ := List.head?_eq_some_iff.1 hfirst
      simpa [hr] using hc
    have hne : p.written ≠ [] := hpost.1.spelled.ne_nil
    obtain ⟨c, w, hw⟩ := List.exists_cons_of_ne_nil hne
    have hhead : p.written.head? = some c := by rw [hw, List.head?_cons]
    exact (hpre.getLast hq).before_blank ((head?_text_cons hne).trans hhead) (hpost.1.head_not_blank ht hhead) hd
  · refine hgap.swap fun q hq c _ => ?_
    have hq' := hgap.getLast hq
    refine hq'.before_any (hnone q (List.mem_of_getLast? hq)) ?_ c
    rw [← getLast?_text hgap hq, hlast]

/-- A token of a row is that of a piece of it. -/
theorem exists_of_mem_tokens (h : t ∈ tokens file offset ps) :
    ∃ pre p post, ps = pre ++ p :: post ∧ p.token? file (offset + width (text pre)) = some t := by
  induction ps generalizing offset with
  | nil => cases h
  | cons p ps ih =>
    rcases List.mem_append.1 h with h | h
    · exact ⟨[], p, ps, rfl, by simpa using h⟩
    · obtain ⟨pre, q, post, rfl, hq⟩ := ih h
      exact ⟨p :: pre, q, post, rfl, by rw [text_cons, width_append, ← Nat.add_assoc, hq]⟩

/-- A token of a source is spelled by a part of it, where the token has its span. -/
theorem exists_lexeme {source : String} (h : tokenize source file = .ok ts) (ht : t ∈ ts) :
    ∃ a w b, source.toList = a ++ (w ++ b) ∧ Spells t.kind w t.value.toList ∧ t.span = .ofNat file (width a) (width w) := by
  obtain ⟨ps, hps, hrow, rfl⟩ := tokenize_eq_ok.1 h
  obtain ⟨pre, ⟨w, token⟩, post, rfl, hp⟩ := exists_of_mem_tokens ht
  obtain ⟨token, rfl, rfl⟩ := Option.map_eq_some_iff.1 hp
  exact ⟨text pre, w, text post, by rw [← hps, text_append, text_cons], (inRow_append.1 hrow).2.1.spelled, by rw [Nat.zero_add]⟩

/-- The span of a token of a row lies in the text, and it is not empty. -/
theorem span_of_mem_tokens (hrow : InRow ps rest) (hsize : offset + width (text ps) < UInt32.size)
    (h : t ∈ tokens file offset ps) :
    offset ≤ t.span.start.offset.toNat ∧ t.span.start.offset < t.span.finish.offset ∧
      t.span.finish.offset.toNat ≤ offset + width (text ps) := by
  obtain ⟨pre, p, post, rfl, hp⟩ := exists_of_mem_tokens h
  obtain ⟨_, -, rfl⟩ := Option.map_eq_some_iff.1 hp
  have hpos := width_pos (s := p.written) (inRow_append.1 hrow).2.1.spelled.ne_nil
  simp only [text_append, text_cons, width_append] at hsize ⊢
  simp only [Span.ofNat, UInt32.lt_iff_toNat_lt]
  rw [Position.toNat_offset (by omega), Position.toNat_offset (by omega)]
  omega

end Piece

/-! ## Further on -/

/-- A place that has moved by `n` if it was at `p` or behind it, and else has not. -/
def Position.Moved (p n : Nat) (at₀ at₁ : Position) : Prop :=
  at₁.file = at₀.file ∧ at₁.offset.toNat = if p ≤ at₀.offset.toNat then at₀.offset.toNat + n else at₀.offset.toNat

theorem Position.moved_self {place : Position} {p : Nat} (h : place.offset.toNat < p) (n : Nat) : Moved p n place place :=
  ⟨rfl, (if_neg (Nat.not_le.2 h)).symm⟩

theorem Position.moved_shift {place : Position} {p n : Nat} (h : p ≤ place.offset.toNat)
    (hsize : place.offset.toNat + n < UInt32.size) :
    Moved p n place (place.shift n) := by
  refine ⟨rfl, ?_⟩
  rw [if_pos h, Position.shift, UInt32.toNat_add, UInt32.toNat_ofNat', Nat.add_mod_mod, Nat.mod_eq_of_lt hsize]

theorem alike_shift (ts us : List Token) (n : Nat) : Alike (ts ++ us) (ts ++ us.map (·.shift n)) := by
  simp [Alike, Token.word, Token.shift, Function.comp_def]

/-- If the last of the tokens are further on, so are the errors at them or behind. -/
theorem positionAt_moved {p : Nat} (i : Nat) (hus : us ≠ [])
    (hbefore : ∀ t ∈ ts, t.span.start.offset.toNat < p)
    (hbehind : ∀ t ∈ us, p ≤ t.span.start.offset.toNat ∧ t.span.start.offset < t.span.finish.offset ∧
      t.span.finish.offset.toNat + n < UInt32.size) :
    Position.Moved p n (ParseError.positionAt (ts ++ us) file i) (ParseError.positionAt (ts ++ us.map (·.shift n)) file i) := by
  unfold ParseError.positionAt
  rcases Nat.lt_or_ge i ts.length with hlt | hge
  · simp only [List.getElem?_append_left hlt, List.getElem?_eq_getElem hlt]
    exact Position.moved_self (hbefore _ (List.getElem_mem hlt)) n
  · simp only [List.getElem?_append_right hge, List.getElem?_map]
    cases hu : us[i - ts.length]? with
    | some t =>
      obtain ⟨hstart, hspan, hsize⟩ := hbehind t (List.mem_of_getElem? hu)
      rw [UInt32.lt_iff_toNat_lt] at hspan
      simp only [Option.map_some]
      exact Position.moved_shift hstart (by omega)
    | none =>
      -- Past the last token the error is where that one ends.
      have hlast := List.getLast?_eq_some_getLast hus
      obtain ⟨hstart, hspan, hsize⟩ := hbehind _ (List.getLast_mem hus)
      rw [UInt32.lt_iff_toNat_lt] at hspan
      simp only [List.getLast?_append, List.getLast?_map, hlast, Option.map_some, Option.map_none, Option.some_or]
      exact Position.moved_shift (by omega) hsize

/-! ## Sources -/

/-- What may be put into a source in front of a token: it starts with a blank, ends with a line break
and has no tokens. -/
structure Spacing (gap : String) : Prop where
  first : ∃ d, gap.toList.head? = some d ∧ isBlank d
  last : gap.toList.getLast? = some '\n'
  tokens : ∃ file, tokenize gap file = .ok []

/-- With something put into the source in front of a token there are the same tokens, of which that one
and those behind it are further on. -/
theorem tokenize_insert {source gap : String} (h : tokenize source file = .ok ts) (ht : t ∈ ts) (hgap : Spacing gap)
    (hsize : source.utf8ByteSize + gap.utf8ByteSize < UInt32.size) :
    ∃ a b xs ys, source = a ++ b ∧ a.utf8ByteSize = t.span.start.offset.toNat ∧ ts = xs ++ ys ∧ ys ≠ [] ∧
      tokenize (a ++ gap ++ b) file = .ok (xs ++ ys.map (·.shift gap.utf8ByteSize)) ∧
      (∀ x ∈ xs, x.span.start.offset.toNat < a.utf8ByteSize) ∧
      ∀ y ∈ ys, a.utf8ByteSize ≤ y.span.start.offset.toNat ∧ y.span.start.offset < y.span.finish.offset ∧
        y.span.finish.offset.toNat + gap.utf8ByteSize < UInt32.size := by
  obtain ⟨ps, hps, hrow, rfl⟩ := tokenize_eq_ok.1 h
  obtain ⟨pre, p, post, rfl, hp⟩ := exists_of_mem_tokens ht
  rw [Nat.zero_add] at hp
  obtain ⟨hpre, hpost⟩ := inRow_append.1 hrow
  -- What is put in is a row without tokens.
  obtain ⟨file', hgap'⟩ := hgap.tokens
  obtain ⟨gs, hgs, hgrow, hnil⟩ := tokenize_eq_ok.1 hgap'
  have hnone := tokens_eq_nil_iff.1 hnil
  obtain ⟨d, hfirst, hd⟩ := hgap.first
  have hlast := hgap.last
  rw [← hgs] at hfirst hlast
  obtain ⟨tok, htok, rfl⟩ := Option.map_eq_some_iff.1 hp
  have hrow' := inRow_insert hrow (by simp [htok]) hgrow hnone hfirst hd hlast
  have hwidth : width (text pre) + width (text (p :: post)) = source.utf8ByteSize := by
    rw [← width_append, ← text_append, hps, width_toList]
  have hgwidth : width (text gs) = gap.utf8ByteSize := by rw [hgs, width_toList]
  refine ⟨.ofList (text pre), .ofList (text (p :: post)), tokens file 0 pre, tokens file (width (text pre)) (p :: post),
    ?_, ?_, ?_, ?_, ?_, ?_, ?_⟩
  · rw [← String.ofList_append, ← text_append, hps, String.ofList_toList]
  · rw [width_ofList]
    exact (Position.toNat_offset (by omega)).symm
  · rw [tokens_append, Nat.zero_add]
  · simp [tokens, hp]
  · refine tokenize_eq_ok.2 ⟨_, ?_, hrow', ?_⟩
    · simp [hgs]
    · rw [tokens_append, tokens_append, tokens_eq_nil_iff.2 hnone, List.nil_append, Nat.zero_add, hgwidth, tokens_add]
  · intro x hx
    obtain ⟨-, hspan, hfinish⟩ := span_of_mem_tokens hpre (by omega) hx
    rw [UInt32.lt_iff_toNat_lt] at hspan
    rw [width_ofList]
    omega
  · intro y hy
    obtain ⟨hstart, hspan, hfinish⟩ := span_of_mem_tokens hpost (by omega) hy
    rw [width_ofList]
    exact ⟨hstart, hspan, by omega⟩

/-- Two readings of sources are the same, but for errors at `p` or behind it, which are `n` bytes further on. -/
def SameButMoved (p n : Nat) : Except Error (List Stmt) → Except Error (List Stmt) → Prop
  | .ok stmts, .ok stmts' => stmts' = stmts
  | .error (.parse e), .error (.parse e') =>
    e'.cause = e.cause ∧ e'.index = e.index ∧ e'.context = e.context ∧ e.position.Moved p n e'.position
  | _, _ => False

/-- Spacing in front of a token has no part in what is read: there is the same program, or the same error
at the same token. -/
theorem parseSource_layout {source gap file : String} {tokens : List Token} {t : Token} (h : tokenize source file = .ok tokens)
    (ht : t ∈ tokens) (hgap : Spacing gap) (hsize : source.utf8ByteSize + gap.utf8ByteSize < UInt32.size) :
    ∃ a b, source = a ++ b ∧ a.utf8ByteSize = t.span.start.offset.toNat ∧
      SameButMoved a.utf8ByteSize gap.utf8ByteSize (parseSource source file) (parseSource (a ++ gap ++ b) file) := by
  obtain ⟨a, b, xs, ys, hsplit, ha, rfl, hys, hnew, hbefore, hbehind⟩ := tokenize_insert h ht hgap hsize
  refine ⟨a, b, hsplit, ha, ?_⟩
  have hsame := (alike_shift xs ys gap.utf8ByteSize).sameReading maxNesting file file
  simp only [parseSource, h, hnew, parse]
  cases hr : parseWithin maxNesting (xs ++ ys) file <;>
    cases hr' : parseWithin maxNesting (xs ++ ys.map (·.shift gap.utf8ByteSize)) file <;> rw [hr, hr'] at hsame
  · obtain ⟨hcause, hindex, hcontext⟩ := hsame
    refine ⟨hcause, hindex, hcontext, ?_⟩
    rw [parseWithin_error_position hr, parseWithin_error_position hr', hindex]
    exact positionAt_moved _ hys hbefore hbehind
  · exact hsame
  · exact hsame
  · exact hsame

/-- A line of comment between a name and a parenthesis. -/
theorem parseSource_layout_comment :
    ∃ a b, "x )" = a ++ b ∧ a.utf8ByteSize = 2 ∧
      SameButMoved a.utf8ByteSize 5 (parseSource "x )" "f") (parseSource (a ++ " --y\n" ++ b) "f") := by
  have h : tokenize "x )" "f" = .ok [⟨.identifier, "x", .ofNat "f" 0 1⟩, ⟨.symbol, ")", .ofNat "f" 2 1⟩] := by
    have hx : first 'x' [' ', ')'] = .ok (word 'x' [' ', ')']) := rfl
    have hblank : first ' ' [')'] = .ok (blank ' ' [')']) := rfl
    have hparen : first ')' [] = .ok ⟨[')'], [], some (.symbol, ")")⟩ := rfl
    refine (scan_of_ok hx).trans ?_
    refine (scan_of_ok hblank).trans ?_
    refine (scan_of_ok hparen).trans ?_
    exact scan_nil _ _ _
  have hgap : tokenize " --y\n" "f" = .ok [] := by
    have hblank : first ' ' ['-', '-', 'y', '\n'] = .ok (blank ' ' ['-', '-', 'y', '\n']) := rfl
    have hcomment : first '-' ['-', 'y', '\n'] = .ok (lineComment ['y', '\n']) := rfl
    have hbreak : first '\n' [] = .ok (blank '\n' []) := rfl
    refine (scan_of_ok hblank).trans ?_
    refine (scan_of_ok hcomment).trans ?_
    refine (scan_of_ok hbreak).trans ?_
    exact scan_nil _ _ _
  exact parseSource_layout h (List.mem_cons_of_mem _ List.mem_cons_self) ⟨⟨' ', rfl, rfl⟩, rfl, "f", hgap⟩ (by decide)

end MiniLua
