import MiniLua.Proofs.Canonical.Nested
/-!
# Expressions that were read are returned

What is read with some levels left is returned by its own tokens with no more levels. Two
loops build an expression, the links and the operators, and each round must know whether its
operand can be written without parentheses: either it stood in parentheses, and then there is
a level for them, or what follows it leaves it together (`LinkReady`, `OperatorReady`).
-/

namespace MiniLua

open MiniLua.Parser MiniLua.Syntax

variable {n m k : Nat} {e e' : Expr} {bound : Precedence} {t : Token} {ts us : List Token}

/-- What the parsers for `n` levels read is returned by its tokens. -/
structure Rereads (n : Nat) : Prop where
  expr : ∀ {bound ts e us}, (Inner.ofLevels n).expr bound ts = .ok (e, us) → ∃ m, n = m + 1 ∧ e.ReturnsIn m (e.loose bound)
  argument : ∀ {ts e us}, (Inner.ofLevels n).argument ts = .ok (e, us) → e.NestsAsArgument n
  block : ∀ {ts ss us}, (Inner.ofLevels n).block ts = .ok (ss, us) → BlockNests n ss

theorem Rereads.nests (h : Rereads n) (hp : (Inner.ofLevels n).expr bound ts = .ok (e, us)) : e.Nests n := by
  obtain ⟨m, rfl, he⟩ := h.expr hp
  exact he.1.nests

/-- A nested expression ends before an operator only if that does not bind tighter. -/
theorem noTighter_of_expr (hp : (Inner.ofLevels n).expr bound ts = .ok (e, us)) : NoTighter bound us := by
  cases n with
  | zero => cases hp
  | succ n =>
    intro t rest hus
    subst hus
    exact tighter?_eq_none_iff.1 (climb_stops (Inner.ofLevels_takes n).zero (ofLevels_expr_eq_ok.1 hp))

/-! ## Links -/

/-- The expression may be written before the link that comes next, if one does. -/
def LinkReady (n : Nat) (e : Expr) (us : List Token) : Prop :=
  e.Returns n ∧ ((∃ m, n = m + 1 ∧ e.Returns m) ∨ (e.parensBase = false ∧ e.Callable us))

/-- What a link makes of an expression. -/
theorem link_cases {inner : Inner} {link : Expr → Parser Expr} (hl : link? inner t = some link)
    (h : link e (t :: ts) = .ok (e', us)) :
    (t.isSymbol "(" = true ∧ ∃ args vs, arguments inner vs = .ok (args, us) ∧ e' = e.applyTo args) ∨
      (∃ x, e' = .member e x ∧ Ahead (fun t => t.isSymbol "(" = false) us) ∨
      ∃ x args vs, arguments inner vs = .ok (args, us) ∧ (e' = .methodCall e x args false ∨ e' = .methodCall e x (e :: args) true) := by
  obtain ⟨ht, rfl⟩ | ⟨-, rfl⟩ | ⟨-, rfl⟩ := link?_eq_some hl
  · obtain ⟨args, _, hargs, he⟩ := bind_eq_ok.1 h
    cases he
    exact .inl ⟨ht, args, _, hargs, rfl⟩
  · obtain ⟨_, _, _, h⟩ := bind_eq_ok.1 h
    obtain ⟨x, vs, _, h⟩ := bind_eq_ok.1 h
    obtain ⟨called, _, hc, h⟩ := bind_eq_ok.1 h
    cases hc
    split at h
    · obtain ⟨args, _, hargs, he⟩ := bind_eq_ok.1 h
      cases he
      exact .inr (.inr ⟨x, args, _, hargs, .inl rfl⟩)
    · next hc =>
      cases h
      refine .inr (.inl ⟨x, rfl, ?_⟩)
      rintro t ts rfl
      simpa using hc
  · obtain ⟨_, _, _, h⟩ := bind_eq_ok.1 h
    obtain ⟨x, _, _, h⟩ := bind_eq_ok.1 h
    obtain ⟨args, _, hargs, he⟩ := bind_eq_ok.1 h
    cases he
    exact .inr (.inr ⟨x, args, _, hargs, .inr rfl⟩)

/-- Before a call an expression that is ready stood in parentheses or is no member. -/
theorem LinkReady.callee (h : LinkReady n e (t :: ts)) (ht : t.isSymbol "(" = true) : e.ReturnsIn n e.parensCallee := by
  refine ⟨h.1, fun hc => h.2.resolve_right fun ⟨_, hcall⟩ => ?_⟩
  have := ahead_cons.1 (hcall hc)
  rw [ht] at this
  cases this

theorem LinkReady.base (h : LinkReady n e us) : e.ReturnsIn n e.parensBase := by
  refine ⟨h.1, fun hb => h.2.resolve_right fun ⟨hb', _⟩ => ?_⟩
  rw [hb] at hb'
  cases hb'

section
variable (h : Rereads n)
include h

theorem forall_of_arguments {args : List Expr} (hp : arguments (.ofLevels n) ts = .ok (args, us)) :
    ∀ a ∈ args, a.NestsAsArgument n :=
  forall_of_parenthesized (Inner.ofLevels_takes n).zero.argument (fun _ _ _ => h.argument) hp

theorem linkReady_of_link {link : Expr → Parser Expr} (hl : link? (.ofLevels n) t = some link) (he : LinkReady n e (t :: ts))
    (hp : link e (t :: ts) = .ok (e', us)) : LinkReady n e' us := by
  rcases link_cases hl hp with ⟨ht, args, vs, hargs, rfl⟩ | ⟨x, rfl, hus⟩ | ⟨x, args, vs, hargs, rfl | rfl⟩
  · exact ⟨.applyTo (he.callee ht) (forall_of_arguments h hargs), .inr ⟨e.applyTo_parensBase args, e.applyTo_callable args⟩⟩
  · exact ⟨.member he.base x, .inr ⟨rfl, fun _ => hus⟩⟩
  · exact ⟨.methodCall he.base x (forall_of_arguments h hargs), .inr ⟨rfl, by intro hc; cases hc⟩⟩
  · exact ⟨.colonCall he.base x (forall_of_arguments h hargs), .inr ⟨rfl, by intro hc; cases hc⟩⟩

theorem linkReady_of_links (he : LinkReady n e ts) (hp : links (.ofLevels n) e ts = .ok (e', us)) : LinkReady n e' us :=
  repeating_invariant (progressive_link (Inner.ofLevels_takes n).zero) (LinkReady n)
    (fun _ _ _ _ _ _ he hl hp => linkReady_of_link h hl he hp) he hp

/-! ## Tables -/

/-- The fields read so far. -/
structure FieldsNest (n : Nat) (fields : List Expr × List Entry) : Prop where
  elements : ∀ e ∈ fields.1, e.Nests n
  entries : ∀ a ∈ fields.2, a.value.Nests n
  ascending : Entry.Ascending fields.2

variable {fields fields' : List Expr × List Entry}

omit h in
theorem FieldsNest.addField {f : Expr ⊕ Entry} (hf : FieldsNest n fields) (h : FieldTokens (fun e _ => e.Nests n) f w) :
    FieldsNest n (addField fields f) := by
  cases h with
  | element he => exact ⟨List.forall_mem_cons.2 ⟨he, hf.elements⟩, hf.entries, hf.ascending⟩
  | named _ _ he =>
    refine ⟨hf.elements, fun a ha => ?_, Entry.ascending_insert _ _ hf.ascending⟩
    rcases Entry.mem_insert ha with rfl | ha
    · exact he
    · exact hf.entries a ha

theorem fieldsNest_of_fieldOrEnd (hf : FieldsNest n fields) (hp : fieldOrEnd (.ofLevels n) fields ts = .ok (fields', us)) :
    FieldsNest n fields' := by
  obtain ⟨-, rfl, -⟩ | ⟨f, w, rfl, hfield, rfl⟩ := fieldOrEnd_cases (Inner.ofLevels_takes n).zero hp
  · exact hf
  · exact hf.addField (hfield.mono fun e v he => h.nests he)

theorem returns_of_table (hp : table (.ofLevels n) ts = .ok (e, us)) : e.Returns n ∧ ∃ elements entries, e = .table elements entries := by
  obtain ⟨_, _, _, hp⟩ := bind_eq_ok.1 hp
  obtain ⟨first, _, hfirst, hp⟩ := bind_eq_ok.1 hp
  obtain ⟨fields, _, hloop, hp⟩ := bind_eq_ok.1 hp
  obtain ⟨_, _, _, he⟩ := bind_eq_ok.1 hp
  cases he
  have hinit : FieldsNest n ([], []) := ⟨by simp, by simp, List.Pairwise.nil⟩
  have hfields : FieldsNest n fields := by
    refine repeating_invariant (progressive_nextField (Inner.ofLevels_takes n).zero) (fun fields _ => FieldsNest n fields)
      ?_ (fieldsNest_of_fieldOrEnd h hinit hfirst) hloop
    intro fields t ts round fields' us hf hr hp
    obtain ⟨-, rfl⟩ := nextField?_eq_some hr
    obtain ⟨_, _, _, hp⟩ := bind_eq_ok.1 hp
    exact fieldsNest_of_fieldOrEnd h hf hp
  exact ⟨.table (fun e he => hfields.elements e (List.mem_reverse.1 he)) hfields.entries hfields.ascending, _, _, rfl⟩

/-! ## Functions -/

theorem blockNests_of_functionBody {params : List String} {body : List Stmt}
    (hp : functionBody (.ofLevels n) ts = .ok ((params, body), us)) : BlockNests n body := by
  obtain ⟨_, _, _, hp⟩ := bind_eq_ok.1 hp
  obtain ⟨_, _, hbody, hp⟩ := bind_eq_ok.1 hp
  obtain ⟨_, _, _, he⟩ := bind_eq_ok.1 hp
  cases he
  exact h.block hbody

theorem returns_of_function (hp : function (.ofLevels n) ts = .ok (e, us)) : e.Returns n ∧ ∃ params body, e = .function params body := by
  obtain ⟨_, _, _, hp⟩ := bind_eq_ok.1 hp
  obtain ⟨⟨params, body⟩, _, hbody, he⟩ := bind_eq_ok.1 hp
  cases he
  exact ⟨.function (blockNests_of_functionBody h hbody), _, _, rfl⟩

/-! ## Operators -/

end

/-- The expression may be written before the operator that comes next, if one does that binds
tighter than the bound. -/
def OperatorReady (n : Nat) (bound : Precedence) (e : Expr) (us : List Token) : Prop :=
  e.Returns n ∧ ((∃ m, n = m + 1 ∧ e.Returns m) ∨ (e.loose bound = false ∧ e.Fits us))

theorem LinkReady.operatorReady (h : LinkReady n e us) : OperatorReady n bound e us := by
  refine ⟨h.1, h.2.imp_right fun ⟨hb, _⟩ => ⟨?_, Expr.fits_of_base hb⟩⟩
  cases e with
  | binary => cases hb
  | _ => rfl

theorem OperatorReady.left {op : BinaryOp} (h : OperatorReady n bound e (t :: us)) (ho : BinaryOp.ofToken? t = some op) :
    e.ReturnsIn n (e.parensLeft op) := by
  refine ⟨h.1, fun hl => h.2.resolve_right fun ⟨_, hf⟩ => ?_⟩
  rw [ahead_cons.1 hf op ho] at hl
  cases hl

/-- Nothing needs to be known of what comes after an expression without operators. -/
theorem operatorReady_of_atom (he : e.Returns n) (hl : e.loose bound = false) (hf : ∀ op, e.parensLeft op = false) :
    OperatorReady n bound e us :=
  ⟨he, .inr ⟨hl, fun _ _ _ op _ => hf op⟩⟩

/-- What a round of the operators makes of an expression. -/
theorem tighter_cases {inner : Inner} {round : Expr → Parser Expr} (hr : tighter? inner bound t = some round)
    (hp : round e (t :: ts) = .ok (e', us)) :
    ∃ op right, BinaryOp.ofToken? t = some op ∧ ¬ op.precedence ≤ bound ∧
      inner.expr (rightBound op op.precedence) ts = .ok (right, us) ∧ e' = .binary e op right := by
  obtain ⟨op, ho, hop, rfl⟩ := tighter?_eq_some hr
  obtain ⟨_, _, hn, hp⟩ := bind_eq_ok.1 hp
  cases hn
  obtain ⟨right, _, hright, he⟩ := bind_eq_ok.1 hp
  cases he
  exact ⟨op, right, ho, hop, hright, rfl⟩

theorem primary_cases (hp : primary (t :: ts) = .ok (e, us)) :
    us = ts ∧ ((∃ v, Literal.ofToken? t = some v ∧ e = .literal v) ∨ (t.kind = .identifier ∧ e = .var t.value)) := by
  cases hv : Literal.ofToken? t with
  | some v =>
    rw [primary_literal hv] at hp
    cases hp
    exact ⟨rfl, .inl ⟨v, rfl, rfl⟩⟩
  | none =>
    simp only [primary, look, hv] at hp
    split at hp
    · next ht =>
      cases hp
      exact ⟨rfl, .inr ⟨ht, rfl⟩⟩
    · cases hp

section
variable (h : Rereads n)
include h

theorem operatorReady_of_operand (hp : operand (.ofLevels n) ts = .ok (e, us)) : OperatorReady n bound e us := by
  cases operand_cases hp with
  | unary _ hx =>
    obtain ⟨m, rfl, hm⟩ := h.expr hx
    rw [← Expr.parensUnary_eq] at hm
    exact ⟨.unary hm, .inr ⟨rfl, Expr.fits_unary.2 (noTighter_of_expr hx)⟩⟩
  | literal _ => exact operatorReady_of_atom (.literal _) rfl fun _ => rfl
  | @name t _ us _ _ hl =>
    have hvar : LinkReady n (.var t.value) us := ⟨.var t.value, .inr ⟨rfl, by intro hc; cases hc⟩⟩
    exact (linkReady_of_links h hvar hl).operatorReady
  | group _ hgroup hl =>
    obtain ⟨_, _, _, hgroup⟩ := bind_eq_ok.1 hgroup
    obtain ⟨_, _, hx, hgroup⟩ := bind_eq_ok.1 hgroup
    obtain ⟨_, _, _, he⟩ := bind_eq_ok.1 hgroup
    cases he
    -- The parentheses that stood there are the level that others would take.
    obtain ⟨m, rfl, hm⟩ := h.expr hx
    exact (linkReady_of_links h ⟨hm.1.mono (Nat.le_succ m), .inl ⟨m, rfl, hm.1⟩⟩ hl).operatorReady
  | table _ ht =>
    obtain ⟨he, _, _, rfl⟩ := returns_of_table h ht
    exact operatorReady_of_atom he rfl fun _ => rfl
  | function _ hf =>
    obtain ⟨he, _, _, rfl⟩ := returns_of_function h hf
    exact operatorReady_of_atom he rfl fun _ => rfl

theorem operatorReady_of_round {round : Expr → Parser Expr} (hr : tighter? (.ofLevels n) bound t = some round)
    (he : OperatorReady n bound e (t :: ts)) (hp : round e (t :: ts) = .ok (e', us)) : OperatorReady n bound e' us := by
  obtain ⟨op, right, ho, hop, hright, rfl⟩ := tighter_cases hr hp
  obtain ⟨m, rfl, hm⟩ := h.expr hright
  rw [← Expr.parensRight_eq] at hm
  exact ⟨.binary (he.left ho) hm, .inr ⟨decide_eq_false hop, Expr.fits_binary.2 (noTighter_of_expr hright)⟩⟩

theorem operatorReady_of_climb (hp : climb (.ofLevels n) bound ts = .ok (e, us)) : OperatorReady n bound e us := by
  obtain ⟨left, _, hleft, hp⟩ := bind_eq_ok.1 hp
  exact repeating_invariant (progressive_tighter (Inner.ofLevels_takes n).zero bound) (OperatorReady n bound)
    (fun _ _ _ _ _ _ he hr hp => operatorReady_of_round h hr he hp) (operatorReady_of_operand h hleft) hp

/-! ## One level more -/

theorem returnsIn_of_expr (hp : (Inner.ofLevels (n + 1)).expr bound ts = .ok (e, us)) : e.ReturnsIn n (e.loose bound) := by
  have he := operatorReady_of_climb h (ofLevels_expr_eq_ok.1 hp)
  refine ⟨he.1, fun hl => he.2.resolve_right fun ⟨hl', _⟩ => ?_⟩
  rw [hl] at hl'
  cases hl'

omit h in
/-- A lone constant or name is an argument with no level left. -/
theorem nestsAsArgument_of_token (hw : e.tokens = [t]) (ht : t.kind = .number ∨ t.kind = .string ∨ t.kind = .identifier)
    (hp : ∀ us, primary (t :: us) = .ok (e, us)) : e.NestsAsArgument n := by
  rintro k _ _ ⟨u, us, rfl, hu⟩
  have hl : startsLone (t :: u :: us) = true := by
    simp only [startsLone, Bool.and_eq_true, Bool.or_eq_true, decide_eq_true_eq, or_assoc]
    exact ⟨ht, hu⟩
  have hread : (Inner.ofLevels k).argument (t :: u :: us) = primary (t :: u :: us) := by
    cases k <;> exact if_pos hl
  rw [hw]
  exact hread.trans (hp _)

omit h in
theorem nestsAsArgument_of_lone (hl : startsLone ts = true) (hp : primary ts = .ok (e, us)) : e.NestsAsArgument n := by
  match ts, hl with
  | t :: u :: ts, hl =>
    simp only [startsLone, Bool.and_eq_true, Bool.or_eq_true, decide_eq_true_eq, or_assoc] at hl
    obtain ⟨_, ⟨v, hv, rfl⟩ | ⟨_, rfl⟩⟩ := primary_cases hp
    · refine nestsAsArgument_of_token rfl ?_ fun us => primary_literal (Literal.ofToken?_token v) us
      rcases hl.1 with ht | ht | ht <;> simp only [Literal.ofToken?, ht] at hv <;> cases hv
      · exact .inl rfl
      · exact .inr (.inl rfl)
    · exact nestsAsArgument_of_token rfl (.inr (.inr rfl)) fun us => primary_name rfl us

omit h in
theorem nestsAsArgument_of_argument (hx : ∀ {ts e us}, (Inner.ofLevels n).expr .lowest ts = .ok (e, us) → e.Nests n)
    (hp : (Inner.ofLevels n).argument ts = .ok (e, us)) : e.NestsAsArgument n := by
  have hargument : (Inner.ofLevels n).argument = argument ((Inner.ofLevels n).expr .lowest) := by
    cases n <;> rfl
  rw [hargument, argument] at hp
  split at hp
  · next hl => exact nestsAsArgument_of_lone hl hp
  · exact (hx hp).asArgument

end

/-! ## Expressions that start with a name -/

/-- The tokens of the expression start with a name, and are no more than that only if nothing
after it was taken. -/
def Named (x : String) (start : List Token) (e : Expr) (us : List Token) : Prop :=
  ∃ w, e.tokens = .plain .identifier x :: w ∧ (w = [] → us = start)

variable {x : String} {start v : List Token}

theorem Named.append (h : Named x start e ts) (hw : e'.tokens = e.tokens ++ v) (hv : v ≠ []) : Named x start e' us := by
  obtain ⟨w, he, _⟩ := h
  refine ⟨w ++ v, by rw [hw, he, List.cons_append], fun hwv => absurd (List.append_eq_nil_iff.1 hwv).2 hv⟩

theorem named_of_link {link : Expr → Parser Expr} {inner : Inner} (hl : link? inner t = some link) (h : Named x start e (t :: ts))
    (hb : e.parensBase = false) (hc : e.Callable (t :: ts)) (hp : link e (t :: ts) = .ok (e', us)) :
    Named x start e' us ∧ e'.parensBase = false ∧ e'.Callable us := by
  rcases link_cases hl hp with ⟨ht, args, vs, _, rfl⟩ | ⟨x, rfl, hus⟩ | ⟨x, args, vs, _, rfl | rfl⟩
  · have hn : e.parensCallee = false := by
      rw [Bool.eq_false_iff]
      intro hn
      have := ahead_cons.1 (hc hn)
      rw [ht] at this
      cases this
    refine ⟨h.append (v := listTokens (eachTokens args)) ?_ (List.cons_ne_nil _ _), e.applyTo_parensBase args,
      e.applyTo_callable args⟩
    rw [e.applyTo_tokens, hn]
    rfl
  · exact ⟨h.append (by rw [Expr.tokens, hb]; rfl) (List.cons_ne_nil _ _), rfl, fun _ => hus⟩
  · exact ⟨h.append (by rw [Expr.tokens, hb]; rfl) (List.cons_ne_nil _ _), rfl, by intro hc; cases hc⟩
  · exact ⟨h.append (by rw [Expr.tokens, hb]; rfl) (List.cons_ne_nil _ _), rfl, by intro hc; cases hc⟩

theorem named_of_climb (ht : t.kind = .identifier) (hp : climb (.ofLevels n) bound (t :: ts) = .ok (e, us)) :
    Named t.value ts e us := by
  obtain ⟨left, rest, hleft, hp⟩ := bind_eq_ok.1 hp
  rw [operand_name ht] at hleft
  have hlinks : Named t.value ts left rest ∧ left.parensBase = false ∧ left.Callable rest :=
    repeating_invariant (progressive_link (Inner.ofLevels_takes n).zero)
      (fun e us => Named t.value ts e us ∧ e.parensBase = false ∧ e.Callable us)
      (fun _ _ _ _ _ _ h hl hp => named_of_link hl h.1 h.2.1 h.2.2 hp)
      ⟨⟨[], rfl, fun _ => rfl⟩, rfl, by intro hc; cases hc⟩ hleft
  refine (repeating_invariant (progressive_tighter (Inner.ofLevels_takes n).zero bound)
    (fun e us => Named t.value ts e us ∧ e.Fits us) ?_ ⟨hlinks.1, Expr.fits_of_base hlinks.2.1⟩ hp).1
  intro e u rest round e' us h hr hp
  obtain ⟨op, right, ho, _, hright, rfl⟩ := tighter_cases hr hp
  have hw : (Expr.binary e op right).tokens = e.tokens ++ op.token :: parens (right.parensRight op) right.tokens := by
    rw [Expr.tokens, ahead_cons.1 h.2 op ho]
    rfl
  exact ⟨h.1.append hw (List.cons_ne_nil _ _), Expr.fits_binary.2 (noTighter_of_expr hright)⟩

end MiniLua
