import MiniLua.Proofs.Canonical.Operands
import MiniLua.Proofs.Errors.Local
import MiniLua.Proofs.Syntax.Complete
import MiniLua.Proofs.Syntax.Neighbours
/-!
# Where an expression stops

An expression stops before a token that is no link, unless the last token it took is one that
nothing can be linked to (`ofLevels_detaches`). What is read up to such a place is read the same if
other tokens are there that do not continue an expression (`UpTo`), and then it makes no
difference how tightly its operators have to bind (`climb_lowest`).
-/

namespace MiniLua.Parser

open MiniLua.Syntax

variable {α β : Type} {inner : Inner} {bound : Precedence} {n : Nat} {t : Token} {e left : Expr}
  {ts us w w₁ w₂ rest rest' : List Token}

/-- What a call for an expression has consumed starts one. -/
theorem exists_starts (h : (Inner.ofLevels n).expr bound (w ++ rest) = .ok (e, rest)) : ∃ t v, w = t :: v ∧ StartsExpr t := by
  obtain ⟨u, hu, hd⟩ := ((ofLevels_reads n).expr bound _).ok h
  rw [List.append_cancel_right hu]
  exact expr_start hd

/-! ## The last token -/

/-- No link is left, or what is left stands behind a solid token. -/
def Detached (ts rest : List Token) : Prop := Unlinked rest ∨ ∃ v t, Solid t ∧ ts = v ++ t :: rest

theorem Detached.of_suffix (h : Detached us rest) (hs : us <:+ ts) : Detached ts rest := by
  obtain ⟨v, rfl⟩ := hs
  refine h.imp_right ?_
  rintro ⟨w, t, ht, rfl⟩
  exact ⟨v ++ w, t, ht, (List.append_assoc ..).symm⟩

theorem Detached.of_solid (ht : Solid t) (hs : t :: rest <:+ ts) : Detached ts rest := by
  obtain ⟨v, rfl⟩ := hs
  exact .inr ⟨v, t, ht, rfl⟩

/-- Whatever is left by a parser is so. -/
def Detaches (p : Parser Expr) : Prop := ∀ {ts e rest}, p ts = .ok (e, rest) → Detached ts rest

/-- Links are taken as long as there are any. -/
theorem unlinked_of_links (hi : inner.Takes 0) (h : links inner e ts = .ok (left, rest)) : Unlinked rest :=
  fun t us hr => link?_eq_none_iff.1 (repeating_stops (progressive_link hi) h t us hr)

theorem detaches_table (hi : inner.Takes 0) : Detaches (table inner) := by
  intro ts e rest h
  obtain ⟨_, us, ho, h⟩ := bind_eq_ok.1 h
  obtain ⟨_, vs, hf, h⟩ := bind_eq_ok.1 h
  obtain ⟨_, ws, hl, h⟩ := bind_eq_ok.1 h
  obtain ⟨t, _, hc, h⟩ := bind_eq_ok.1 h
  cases h
  obtain ⟨rfl, ht⟩ := symbol_eq_ok.1 hc
  refine .of_solid (.inr (.inl (Terminal.symbol_iff.2 ht))) ?_
  exact ((Takes.repeating (fun _ _ hn => takes_nextField hi hn) _).suffix_of_ok hl).trans
    (((takes_fieldOrEnd hi _).suffix_of_ok hf).trans ((takes_symbol "\x7b" (k := 0)).suffix_of_ok ho))

theorem detaches_function (hi : inner.Takes 0) : Detaches (function inner) := by
  intro ts e rest h
  obtain ⟨_, us, ho, h⟩ := bind_eq_ok.1 h
  obtain ⟨_, _, h, he⟩ := bind_eq_ok.1 h
  cases he
  obtain ⟨_, vs, hp, h⟩ := bind_eq_ok.1 h
  obtain ⟨_, ws, hb, h⟩ := bind_eq_ok.1 h
  obtain ⟨t, _, hc, h⟩ := bind_eq_ok.1 h
  cases h
  obtain ⟨rfl, ht⟩ := keyword_eq_ok.1 hc
  refine .of_solid (.inr (.inr (Terminal.keyword_iff.2 ht))) ?_
  exact (hi.block.suffix_of_ok hb).trans
    (((takes_name.parenthesized (k := 0)).suffix_of_ok hp).trans ((takes_keyword "function" (k := 0)).suffix_of_ok ho))

section
variable (hi : inner.Takes 0) (he : ∀ bound, Detaches (inner.expr bound))
include hi he

theorem detaches_operand : Detaches (operand inner) := by
  intro ts e rest h
  cases operand_cases h with
  | unary _ hx => exact (he _ hx).of_suffix (List.suffix_cons _ _)
  | literal hv => exact .of_solid (.inl (Terminal.literal_iff.2 ⟨_, hv⟩)) (List.suffix_refl _)
  | name _ hl => exact .inl (unlinked_of_links hi hl)
  | group _ _ hl => exact .inl (unlinked_of_links hi hl)
  | table _ ht => exact detaches_table hi ht
  | function _ hf => exact detaches_function hi hf

omit hi in
theorem detaches_binary (left : Expr) (op : BinaryOp) (bound : Precedence) : Detaches (binary inner left op bound) := by
  intro ts e rest h
  obtain ⟨_, us, hn, h⟩ := bind_eq_ok.1 h
  obtain ⟨_, _, h, hp⟩ := bind_eq_ok.1 h
  cases hp
  exact (he _ h).of_suffix ((takes_next (k := 0)).suffix_of_ok hn)

theorem detaches_climb (bound : Precedence) : Detaches (climb inner bound) := by
  intro ts e rest h
  obtain ⟨left, us, hl, h⟩ := bind_eq_ok.1 h
  -- Each round ends where an operand does, and all of them within `ts`.
  have hinv : us <:+ ts ∧ Detached ts us := ⟨(takes_operand hi).suffix_of_ok hl, detaches_operand hi he hl⟩
  refine (repeating_invariant (progressive_tighter hi bound) (fun _ us => us <:+ ts ∧ Detached ts us) ?_ hinv h).2
  intro left t us round right vs ⟨hs, _⟩ hr h
  refine ⟨((takes_tighter hi hr left).suffix_of_ok h).trans hs, ?_⟩
  obtain ⟨op, -, -, rfl⟩ := tighter?_eq_some hr
  exact (detaches_binary he _ _ _ h).of_suffix hs

end

theorem ofLevels_detaches (n : Nat) (bound : Precedence) : Detaches ((Inner.ofLevels n).expr bound) := by
  induction n generalizing bound with
  | zero => exact nofun
  | succ n ih =>
    intro ts e rest h
    exact detaches_climb (Inner.ofLevels_takes n).zero ih bound (ofLevels_expr_eq_ok.1 h)

/-! ## Other tokens behind -/

/-- What a local parser reads up to some tokens it reads the same up to others. -/
structure UpTo (rest rest' : List Token) (p : Parser α) : Prop where
  isLocal : Local p
  stops : ∀ {w a}, p (w ++ rest) = .ok (a, rest) → p (w ++ rest') = .ok (a, rest')

/-- As long as a token stays before them, a local parser sees no difference. -/
theorem Local.ok_before {p : Parser α} (hp : Local p) {a : α} (h : p (w₁ ++ t :: w₂ ++ rest) = .ok (a, t :: w₂ ++ rest))
    (rest' : List Token) : p (w₁ ++ t :: w₂ ++ rest') = .ok (a, t :: w₂ ++ rest') := by
  rw [List.append_assoc] at h ⊢
  exact (hp.localAt w₁).ok h (w₂ ++ rest')

namespace UpTo

variable {p : Parser α} {q : α → Parser β}

theorem append (hp : UpTo rest rest' p) {a : α} (h : p (w₁ ++ w₂ ++ rest) = .ok (a, w₂ ++ rest)) :
    p (w₁ ++ w₂ ++ rest') = .ok (a, w₂ ++ rest') := by
  cases w₂ with
  | nil =>
    rw [List.append_nil] at h ⊢
    exact hp.stops h
  | cons t w₂ => exact hp.isLocal.ok_before h rest'

theorem pure (a : α) : UpTo rest rest' (Pure.pure a : Parser α) where
  isLocal := local_pure a
  stops {w _} h := by
    obtain ⟨rfl, hw⟩ := Prod.mk.inj (Except.ok.inj h)
    obtain rfl : w = [] := List.append_left_eq_self.1 hw
    rfl

theorem fail {fault : Fault} (h : fault ≠ .tooDeep) : UpTo rest rest' (Parser.fail fault : Parser α) where
  isLocal := local_fail fault h
  stops := nofun

theorem bind (hp : UpTo rest rest' p) (hq : ∀ a, UpTo rest rest' (q a)) : UpTo rest rest' (p >>= q) where
  isLocal := hp.isLocal.bind fun a => (hq a).isLocal
  stops h := by
    obtain ⟨a, us, ha, hb⟩ := bind_eq_ok.1 h
    obtain ⟨w₁, w₂, rfl, rfl⟩ := exists_split_of_suffix (hp.isLocal.takes.suffix_of_ok ha) ((hq a).isLocal.takes.suffix_of_ok hb)
    exact bind_eq_ok.2 ⟨a, _, hp.append ha, (hq a).stops hb⟩

/-- Nothing is asked of a parser behind which a token is taken. -/
theorem close (hp : Local p) (ht : ∀ a, (q a).Takes 1 0) (hq : ∀ a, UpTo rest rest' (q a)) : UpTo rest rest' (p >>= q) where
  isLocal := hp.bind fun a => (hq a).isLocal
  stops h := by
    obtain ⟨a, us, ha, hb⟩ := bind_eq_ok.1 h
    obtain ⟨w₁, w₂, rfl, rfl⟩ := exists_split_of_suffix (hp.takes.suffix_of_ok ha) ((ht a).suffix_of_ok hb)
    cases w₂ with
    | nil => exact absurd hb ((ht a).ne_ok_self _)
    | cons t w₂ => exact bind_eq_ok.2 ⟨a, _, hp.ok_before ha rest', (hq a).stops hb⟩

theorem satisfy (wanted : Expectation) (test : Token → Bool) : UpTo rest rest' (satisfy wanted test) where
  isLocal := local_satisfy wanted test
  stops {w a} h := by
    obtain ⟨hw, ht⟩ := satisfy_eq_ok.1 h
    obtain rfl : w = [a] := List.append_cancel_right hw
    exact satisfy_eq_ok.2 ⟨rfl, ht⟩

theorem next : UpTo rest rest' Parser.next where
  isLocal := local_next
  stops {w a} h := by
    cases w with
    | nil => exact absurd h ((takes_next (k := 0)).ne_ok_self a)
    | cons t w =>
      obtain ⟨rfl, hw⟩ := Prod.mk.inj (Except.ok.inj h)
      obtain rfl : w = [] := List.append_left_eq_self.1 hw
      rfl

theorem ite {b : Prop} [Decidable b] {p' : Parser α} (hp : UpTo rest rest' p) (hp' : UpTo rest rest' p') :
    UpTo rest rest' (if b then p else p') := by
  split
  · exact hp
  · exact hp'

/-- A test that comes out the same on both. -/
theorem check {test : Token → Bool} (h : rest.head?.any test = rest'.head?.any test) : UpTo rest rest' (check test) where
  isLocal := local_check test
  stops {w _} hc := by
    obtain ⟨rfl, hw⟩ := Prod.mk.inj (Except.ok.inj hc)
    obtain rfl : w = [] := List.append_left_eq_self.1 hw
    rw [List.nil_append, List.nil_append, h]
    rfl

/-- The first token says how to go on, and it is taken. -/
theorem look {wanted : Expectation} {go : Token → Parser α} (ht : (look wanted go).Takes 1 0)
    (h : ∀ t, UpTo rest rest' (go t)) : UpTo rest rest' (Parser.look wanted go) where
  isLocal := local_look fun t => (h t).isLocal
  stops {w _} hc := by
    cases w with
    | nil => exact absurd hc (ht.ne_ok_self _)
    | cons t w => exact (h t).stops (w := t :: w) hc

theorem repeating {round? : Token → Option (α → Parser α)} (hp : Progressive round?)
    (hstop : Ahead (fun t => round? t = none) rest') (h : ∀ t round, round? t = some round → ∀ a, UpTo rest rest' (round a))
    (a : α) : UpTo rest rest' (Parser.repeating round? a) where
  isLocal := local_repeating hp (fun t round hr a => (h t round hr a).isLocal) a
  stops {w b} hb := by
    -- The rounds before `rest` are the rounds before `rest'`, where the loop ends.
    have hinv := repeating_invariant hp (fun b us => ∀ v, us = v ++ rest →
      Parser.repeating round? a (w ++ rest') = Parser.repeating round? b (v ++ rest')) ?_ ?_ hb [] rfl
    · rw [hinv]
      cases rest' with
      | nil => rfl
      | cons t us => exact repeating_of_none (ahead_cons.1 hstop) b us
    · rintro c t us round d vs ih hr hc v rfl
      obtain ⟨w₁, hw⟩ := (hp t round hr c).suffix_of_ok hc
      rw [← List.append_assoc] at hw
      rw [ih _ hw.symm]
      rw [← hw] at hc
      cases w₁ with
      | nil => exact absurd hc ((hp t round hr c).ne_ok_self d)
      | cons x w₁ =>
        obtain ⟨rfl, -⟩ := List.cons.inj hw
        have hc' := (h x round hr c).append hc
        rw [List.cons_append, List.cons_append, repeating_of_some hp hr, bind_run]
        rw [List.cons_append, List.cons_append] at hc'
        rw [hc']
    · rintro v hv
      rw [List.append_cancel_right hv]

end UpTo

/-! ## Productions that end with a token of their own -/

theorem upTo_primary : UpTo rest rest' primary := by
  refine .look takes_primary fun t => ?_
  split
  · exact .bind .next fun _ => .pure _
  · exact .ite (.bind .next fun _ => .pure _) (.fail nofun)

theorem upTo_grouping (he : ∀ bound, UpTo rest rest' (inner.expr bound)) : UpTo rest rest' (grouping inner) := by
  unfold grouping
  exact .bind (.satisfy _ _) fun _ => .bind (he _) fun _ => .bind (.satisfy _ _) fun _ => .pure _

section
variable (hi : LocalInner inner)
include hi

theorem upTo_arguments : UpTo rest rest' (arguments inner) := by
  have hitems := Local.congruence.separated hi.takes.argument hi.takes.argument hi.argument
  have hclose : ∀ a : List Expr, Takes 1 0 (symbol ")" >>= fun _ => (pure a : Parser (List Expr))) :=
    fun _ => (takes_symbol _).bind fun _ => takes_pure _
  unfold arguments parenthesized
  refine .bind (.satisfy _ _) fun _ => .close (local_check _) (fun closed => ?_) fun closed => .ite ?_ ?_
  · refine .ite (takes_next.bind fun _ => takes_pure _) ?_
    exact (hi.takes.argument.separated.bind hclose).of_le (by omega) (Nat.le_refl 0)
  · exact .bind .next fun _ => .pure _
  · exact .close hitems hclose fun _ => .bind (.satisfy _ _) fun _ => .pure _

theorem upTo_table : UpTo rest rest' (table inner) := by
  have hR := Local.congruence
  have hclose : ∀ k, ∀ fields : List Expr × List Entry,
      Takes 1 k (symbol "\x7d" >>= fun _ => (pure (.table fields.1.reverse fields.2) : Parser Expr)) :=
    fun _ _ => (takes_symbol _).bind fun _ => takes_pure _
  unfold table
  refine .bind (.satisfy _ _) fun _ => .close (hR.fieldOrEnd hi.agree _) (fun fields => ?_) fun fields =>
    .close (hR.nextFields hi.agree fields) (hclose 0) fun _ => .bind (.satisfy _ _) fun _ => .pure _
  exact ((Takes.repeating (fun _ _ hn => takes_nextField hi.takes hn) fields).bind (hclose _)).of_le (by omega) (Nat.zero_le _)

theorem upTo_function : UpTo rest rest' (function inner) := by
  have hR := Local.congruence
  have hend : ∀ params : List String, ∀ body : List Stmt,
      Takes 1 0 (keyword "end" >>= fun _ => (pure (params, body) : Parser (List String × List Stmt))) :=
    fun _ _ => (takes_keyword _).bind fun _ => takes_pure _
  unfold function functionBody parameters
  refine .bind (.satisfy _ _) fun _ => .bind ?_ fun _ => .pure _
  refine .close (hR.parenthesized takes_name takes_name hR.name) (fun params => ?_) fun params =>
    .close hi.block (hend params) fun _ => .bind (.satisfy _ _) fun _ => .pure _
  exact (hi.takes.block.bind (hend params)).of_le (by omega) (Nat.le_refl 0)

end

/-! ## Productions that end before a token -/

section
variable (hr : Unlinked rest) (hr' : AfterExpr rest')
include hr hr'

section
variable (hi : LocalInner inner)
include hi

theorem upTo_link {link : Expr → Parser Expr} (hl : link? inner t = some link) (e : Expr) : UpTo rest rest' (link e) := by
  have hargs : UpTo rest rest' (arguments inner) := upTo_arguments hi
  have hname : UpTo rest rest' name := .bind (.satisfy _ _) fun _ => .pure _
  obtain ⟨-, rfl⟩ | ⟨-, rfl⟩ | ⟨-, rfl⟩ := link?_eq_some hl
  · exact .bind hargs fun _ => .pure _
  · -- The member is called in neither case.
    have hcheck : rest.head?.any (·.isSymbol "(") = rest'.head?.any (·.isSymbol "(") :=
      (hr.any_eq_false fun _ ht => ht.1).trans (hr'.unlinked.any_eq_false fun _ ht => ht.1).symm
    exact .bind (.satisfy _ _) fun _ => .bind hname fun _ => .bind (.check hcheck) fun _ =>
      .ite (.bind hargs fun _ => .pure _) (.pure _)
  · exact .bind (.satisfy _ _) fun _ => .bind hname fun _ => .bind hargs fun _ => .pure _

theorem upTo_links (e : Expr) : UpTo rest rest' (links inner e) :=
  .repeating (progressive_link hi.takes) (hr'.unlinked.mono fun _ => link?_eq_none_iff.2) (fun _ _ hl => upTo_link hr hr' hi hl) e

variable (he : ∀ bound, UpTo rest rest' (inner.expr bound))
include he

theorem upTo_operand : UpTo rest rest' (operand inner) := by
  refine .look ((takes_operand hi.takes).of_le (Nat.le_refl 1) (Nat.zero_le _)) fun t => ?_
  split
  · exact .bind .next fun _ => .bind (he _) fun _ => .pure _
  · split
    · exact upTo_primary
    · exact upTo_primary
    · exact upTo_primary
    · exact upTo_primary
    · exact .bind .next fun _ => upTo_links hr hr' hi _
    · exact .ite (.bind (upTo_grouping he) fun _ => upTo_links hr hr' hi _) (.ite (upTo_table hi) (.fail nofun))
    · exact .ite (upTo_function hi) (.fail nofun)
    · exact .fail nofun

theorem upTo_climb (bound : Precedence) : UpTo rest rest' (climb inner bound) := by
  unfold climb
  refine .bind (upTo_operand hr hr' hi he) fun left =>
    .repeating (progressive_tighter hi.takes bound) (hr'.mono fun t ht => ?_) (fun t round hround left => ?_) left
  · have hop := ((continuesExpr_eq_false_iff inner).1 ht).2
    exact tighter?_eq_none_iff.2 (by simp [hop])
  · obtain ⟨op, -, -, rfl⟩ := tighter?_eq_some hround
    exact .bind .next fun _ => .bind (he _) fun _ => .pure _

end

theorem ofLevels_upTo (n : Nat) (bound : Precedence) : UpTo rest rest' ((Inner.ofLevels n).expr bound) := by
  induction n generalizing bound with
  | zero => exact ⟨(ofLevels_local 0).expr bound, nofun⟩
  | succ n ih =>
    have h := upTo_climb hr hr' (ofLevels_local n) ih bound
    exact ⟨(ofLevels_local (n + 1)).expr bound, fun hw => ofLevels_expr_eq_ok.2 (h.stops (ofLevels_expr_eq_ok.1 hw))⟩

end

/-- Operators that bind tighter than a bound are all that are taken with none, if none follows. -/
theorem climb_lowest (hi : inner.Takes 0) (h : climb inner bound ts = .ok (e, rest)) (hr : AfterExpr rest) :
    climb inner .lowest ts = .ok (e, rest) := by
  obtain ⟨left, us, hl, h⟩ := bind_eq_ok.1 h
  refine bind_eq_ok.2 ⟨left, us, hl, ?_⟩
  have hinv := repeating_invariant (progressive_tighter hi bound)
    (fun e vs => repeating (tighter? inner .lowest) left us = repeating (tighter? inner .lowest) e vs) ?_ rfl h
  · rw [hinv]
    refine repeating_of_noTighter inner (hr.mono fun t ht op hop => ?_) e
    rw [((continuesExpr_eq_false_iff inner).1 ht).2] at hop
    cases hop
  · intro c t us round d vs ih hround hc
    obtain ⟨op, ho, -, rfl⟩ := tighter?_eq_some hround
    have hlowest : ¬ op.precedence ≤ .lowest := by cases op <;> decide
    have hsame := tighter?_of_lt inner ho hlowest
    have hc : binary inner c op op.precedence (t :: us) = .ok (d, vs) := hc
    rw [ih, repeating_of_some (progressive_tighter hi .lowest) hsame, bind_run, hc]

end MiniLua.Parser
