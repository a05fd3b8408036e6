import MiniLua.Cursor
import MiniLua.Proofs.Layers.Basic
/-!
# Climbing reads in layers

Reading with a bound and reading the layer of the bound are the same. Without a limit on
nesting the expressions satisfy the equations of the layers: what binds tighter than one
bound is what binds tighter than the next one, with operators of that strength between
(`climb_chain`). The layered reading is the least solution of these equations, so a run
with a limit ends as it does or for want of levels.
-/

namespace MiniLua.Layered

open MiniLua.Parser

variable {inner : Inner} {bound lo hi : Precedence} {e : Expr} {rest : List Token}

/-! ## Loops that have nothing to do -/

/-- A loop after a parser that never stops where a round begins does nothing. -/
theorem bind_repeating_of_settled {α : Type} {p : Parser α} {round? : Token → Option (α → Parser α)}
    (h : ∀ ts a t us, p ts = .ok (a, t :: us) → round? t = none) : p >>= repeating round? = p := by
  funext ts
  rw [bind_run]
  cases hp : p ts with
  | error e => rfl
  | ok r =>
    obtain ⟨a, rest⟩ := r
    cases rest with
    | nil => rfl
    | cons t us => exact repeating_of_none (h ts a t us hp) a us

/-- No expression stops before an operator that binds tighter than its bound. -/
theorem unlimited_expr_settled {ts us : List Token} {t : Token}
    (h : Inner.unlimited.expr bound ts = .ok (e, t :: us)) : tighter? inner bound t = none := by
  rw [(Inner.unlimited_expr bound ts).ok_iff, climb] at h
  obtain ⟨left, vs, -, h⟩ := bind_eq_ok.1 h
  have := repeating_stops (progressive_tighter Inner.unlimited_takes bound) h t us rfl
  rw [tighter?_eq_none_iff] at this ⊢
  exact this

/-- So an operator and what it binds leave nothing to a loop of the same bound. -/
theorem bind_expr_repeating (inner : Inner) (bound : Precedence) (wrap : Expr → Expr) :
    (next >>= fun _ => Inner.unlimited.expr bound >>= fun e => pure (wrap e)) >>= repeating (tighter? inner bound) =
      next >>= fun _ => Inner.unlimited.expr bound >>= fun e => pure (wrap e) := by
  refine bind_repeating_of_settled fun ts a t us h => ?_
  obtain ⟨_, vs, -, h⟩ := bind_eq_ok.1 h
  obtain ⟨e, ws, h, hp⟩ := bind_eq_ok.1 h
  cases hp
  exact unlimited_expr_settled h

/-! ## Without operators and with a power -/

theorem operand_eq_prefixed (inner : Inner) : Parser.operand inner = prefixed inner (operand inner) := by
  funext ts
  cases ts with
  | nil => rfl
  | cons t ts =>
    simp only [Parser.operand, prefixed, look]
    rw [prefixAs?_eq]
    cases UnaryOp.ofToken? t <;> rfl

theorem climb_power (inner : Inner) : climb inner .power = prefixed inner (operand inner) := by
  rw [← operand_eq_prefixed, climb]
  refine bind_repeating_of_settled fun _ _ t _ _ => tighter?_eq_none_iff.2 fun op _ => ?_
  cases op <;> decide

theorem rightBound_pow (bound : Precedence) : rightBound .pow bound = .unary := rfl

theorem pow_of_not_le {op : BinaryOp} (h : ¬ op.precedence ≤ .unary) : op = .pow := by
  revert h
  cases op <;> decide

theorem climb_unary : Below False (climb .unlimited .unary) (un .unlimited) := by
  -- the loop of the climb, which the layer reads as at most one `^`
  have hloop : ∀ base, Below False (repeating (tighter? .unlimited .unary) base) (do
      if ← check (writtenSo "^") then
        let _ ← next
        let exponent ← Inner.unlimited.expr .unary
        pure (.binary base .pow exponent)
      else pure base) := by
    intro base ts
    cases ts with
    | nil => exact .refl _
    | cons t ts =>
      have hwritten : writtenSo "^" t = true ↔ BinaryOp.ofToken? t = some .pow := @writtenSo_text_iff .pow t
      by_cases ho : BinaryOp.ofToken? t = some .pow
      · have hb := congrFun (bind_expr_repeating .unlimited .unary (.binary base .pow)) (t :: ts)
        rw [repeating_of_some (progressive_tighter Inner.unlimited_takes _) (tighter?_of_lt _ ho (by decide))]
        simp only [binary, rightBound_pow, hb, bind_run (p := check _), check, List.head?_cons, Option.any_some, hwritten.2 ho]
        exact .refl _
      · rw [repeating_of_none (tighter?_eq_none_iff.2 fun op hop =>
          Decidable.byContradiction fun hle => ho (pow_of_not_le hle ▸ hop))]
        simp only [bind_run, check, List.head?_cons, Option.any_some, eq_false_of_ne_true (mt hwritten.1 ho)]
        exact .refl _
  rw [climb, operand_eq_prefixed, un]
  intro ts
  cases ts with
  | nil => exact .refl _
  | cons t ts =>
    rw [bind_run, prefixed, prefixed, look, look, prefixAs?_eq]
    cases ho : UnaryOp.ofToken? t with
    | some op =>
      have hb := congrFun (bind_expr_repeating .unlimited .unary (.unary op)) (t :: ts)
      rw [bind_run] at hb
      rw [hb]
      exact .refl _
    | none => exact (Below.refl _).bind hloop (t :: ts)

theorem climb_multiplicative (inner : Inner) : climb inner .multiplicative = climb inner .unary := by
  have h : tighter? inner .multiplicative = tighter? inner .unary := by
    funext t
    unfold tighter?
    cases BinaryOp.ofToken? t with
    | none => rfl
    | some op => cases op <;> rfl
  rw [climb, climb, h]

/-! ## One layer more -/

/-- Some operators are all that bind tighter than `lo` and no tighter than `hi`. They are of one strength, so they group to
the left. -/
structure Between (lo hi : Precedence) (ops : List (String × BinaryOp)) : Prop where
  text : ∀ p ∈ ops, p.1 = p.2.text
  le_iff : ∀ op : BinaryOp, op.precedence ≤ lo ↔ op.precedence ≤ hi ∧ op ∉ ops.map (·.2)
  precedence : ∀ op ∈ ops.map (·.2), op.precedence = hi
  pow : .pow ∉ ops.map (·.2)

theorem Between.fold?_of_mem {ops : List (String × BinaryOp)} (hops : Between lo hi ops) {item : Parser Expr} {t : Token}
    {op : BinaryOp} (ho : BinaryOp.ofToken? t = some op) (hop : op ∈ ops.map (·.2)) :
    fold? ops item t = some fun left => next >>= fun _ => item >>= fun right => pure (.binary left op right) := by
  rw [fold?, (writtenAs?_binary hops.text).2 ⟨ho, hop⟩]

theorem Between.fold?_eq_none {ops : List (String × BinaryOp)} (hops : Between lo hi ops) {item : Parser Expr} {t : Token}
    (h : ∀ op, BinaryOp.ofToken? t = some op → op ∉ ops.map (·.2)) : fold? ops item t = none := by
  have hnone : writtenAs? ops t = none := by
    refine Option.eq_none_iff_forall_ne_some.2 fun op ho => ?_
    obtain ⟨ht, hop⟩ := (writtenAs?_binary hops.text).1 ho
    exact h op ht hop
  rw [fold?, hnone]

/-- A loop over what binds tighter than `lo` is one over what binds tighter than `hi`, and then one over the
operators between. -/
theorem repeating_chain {ops : List (String × BinaryOp)} (hops : Between lo hi ops) (left : Expr) :
    Below False (repeating (tighter? .unlimited lo) left)
      (repeating (tighter? .unlimited hi) left >>= repeating (fold? ops (climb .unlimited hi))) := by
  have hlo' := progressive_tighter Inner.unlimited_takes lo
  have hhi' := progressive_tighter Inner.unlimited_takes hi
  intro ts
  induction left, ts using hlo'.induction with
  | nil left => exact .refl _
  | stop left t ts hr =>
    -- no operator for either loop
    have hle : ∀ op, BinaryOp.ofToken? t = some op → op.precedence ≤ hi ∧ op ∉ ops.map (·.2) :=
      fun op ho => (hops.le_iff op).1 (tighter?_eq_none_iff.1 hr op ho)
    rw [repeating_of_none hr, bind_run, repeating_of_none (tighter?_eq_none_iff.2 fun op ho => (hle op ho).1)]
    simp only
    rw [repeating_of_none (hops.fold?_eq_none fun op ho => (hle op ho).2)]
    exact .refl _
  | round left t ts round hr ih =>
    obtain ⟨op, ho, hnl, rfl⟩ := tighter?_eq_some hr
    rw [repeating_of_some hlo' hr, bind_run, bind_run]
    by_cases hle : op.precedence ≤ hi
    · -- An operator between is a round of the chain, and the tighter loop stops before it.
      have hop : op ∈ ops.map (·.2) := Decidable.byContradiction fun hop => hnl ((hops.le_iff op).2 ⟨hle, hop⟩)
      have hpow : op ≠ .pow := fun h => hops.pow (h ▸ hop)
      rw [repeating_of_none (tighter?_eq_none_iff.2 fun op' ho' => Option.some.inj (ho.symm.trans ho') ▸ hle)]
      simp only
      rw [repeating_of_some (progressive_fold (takes_climb Inner.unlimited_takes hi)) (hops.fold?_of_mem ho hop), bind_run]
      simp only [binary, rightBound, hpow, if_false, hops.precedence op hop, bind_run, next, pure_run] at ih ⊢
      have hx := Inner.unlimited_expr hi ts
      cases hr : Inner.unlimited.expr hi ts with
      | error e =>
        rw [hr] at hx
        rcases hx with hx | ⟨e', he, hf⟩
        · exact hx.1.elim
        · rw [he]
          exact .inr ⟨e', rfl, hf⟩
      | ok r =>
        obtain ⟨right, us⟩ := r
        rw [hr] at hx
        rw [show climb .unlimited hi ts = .ok (right, us) from hx]
        have hnext := ih (.binary left op right) us (by rw [hr])
        cases us with
        | nil => exact .refl _
        | cons u us => rwa [repeating_of_none (unlimited_expr_settled hr)] at hnext
    · -- both go on with the same operator
      rw [repeating_of_some hhi' (tighter?_of_lt _ ho hle), bind_run]
      cases hr : binary .unlimited left op op.precedence (t :: ts) with
      | error e => exact .refl (.error e)
      | ok r => exact ih r.1 r.2 hr

theorem climb_chain {ops : List (String × BinaryOp)} (hops : Between lo hi ops) :
    Below False (climb .unlimited lo) (chain ops (climb .unlimited hi)) := by
  unfold chain
  rw [climb, climb, bind_assoc]
  exact (Below.refl _).bind fun left => repeating_chain hops left

/-! ## All layers -/

/-- A layer on top of one that is climbed. -/
theorem climb_of_chain {ops : List (String × BinaryOp)} {item : Parser Expr} (hops : Between lo hi ops) (ht : item.Takes 1 1)
    (hi' : Below False (climb .unlimited hi) item) : Below False (climb .unlimited lo) (chain ops item) :=
  (climb_chain hops).trans (related_chain (Below.congruence False) (takes_climb Inner.unlimited_takes hi) ht hi')

theorem between_mul : Between .additive .multiplicative [("*", .mul), ("/", .div), ("%", .mod)] :=
  ⟨by decide, by intro op; cases op <;> decide, by decide, by decide⟩

theorem between_add : Between .concat .additive [("+", .add), ("-", .sub)] :=
  ⟨by decide, by intro op; cases op <;> decide, by decide, by decide⟩

theorem between_cat : Between .comparison .concat [("..", .concat)] :=
  ⟨by decide, by intro op; cases op <;> decide, by decide, by decide⟩

theorem between_cmp : Between .and .comparison [("<", .lt), (">", .gt), ("<=", .le), (">=", .ge), ("~=", .ne), ("==", .eq)] :=
  ⟨by decide, by intro op; cases op <;> decide, by decide, by decide⟩

theorem between_and : Between .or .and [("and", .and)] :=
  ⟨by decide, by intro op; cases op <;> decide, by decide, by decide⟩

theorem between_or : Between .lowest .or [("or", .or)] :=
  ⟨by decide, by intro op; cases op <;> decide, by decide, by decide⟩

/-- Without a limit, climbing from a bound is reading its layer. -/
theorem climb_layer (bound : Precedence) : Below False (climb .unlimited bound) (layer .unlimited bound) := by
  have hu := Inner.unlimited_takes
  have hun : Below False (climb .unlimited .multiplicative) (un .unlimited) := by
    rw [climb_multiplicative]
    exact climb_unary
  have hmul : Below False (climb .unlimited .additive) (mul .unlimited) := climb_of_chain between_mul (takes_un hu) hun
  have hadd : Below False (climb .unlimited .concat) (add .unlimited) := climb_of_chain between_add (takes_layer hu .additive) hmul
  have hcat : Below False (climb .unlimited .comparison) (cat .unlimited) := climb_of_chain between_cat (takes_layer hu .concat) hadd
  have hcmp : Below False (climb .unlimited .and) (cmp .unlimited) := climb_of_chain between_cmp (takes_layer hu .comparison) hcat
  have hand : Below False (climb .unlimited .or) (andChain .unlimited) := climb_of_chain between_and (takes_layer hu .and) hcmp
  cases bound with
  | lowest => exact climb_of_chain between_or (takes_layer hu .or) hand
  | or => exact hand
  | and => exact hcmp
  | comparison => exact hcat
  | concat => exact hadd
  | additive => exact hmul
  | multiplicative => exact hun
  | unary => exact climb_unary
  | power =>
    rw [climb_power]
    exact .refl _

/-! ## The layered reading -/

/-- Without a limit, an argument is read as any expression. -/
theorem unlimited_argument : Below False (Inner.unlimited.expr .lowest) Inner.unlimited.argument := by
  intro ts
  show EndsAs False _ (if startsLone ts then primary ts else Inner.unlimited.expr .lowest ts)
  split
  · next h =>
    rw [← climb_of_startsLone h]
    exact Inner.unlimited_expr .lowest ts
  · exact .refl _

theorem nest_below_unlimited (n : Nat) : Agree (@Below True) (nest n) .unlimited := by
  induction n with
  | zero =>
    refine .of_below (nest_takes 0).zero Inner.unlimited_takes (fun _ ts => ?_) (fun ts => ?_) fun ts => ?_
    · exact .inl ⟨trivial, rfl⟩
    · exact .inl ⟨trivial, rfl⟩
    · exact .inl ⟨trivial, rfl⟩
  | succ n ih =>
    have he : ∀ bound, Below True ((nest (n + 1)).expr bound) (Inner.unlimited.expr bound) := fun bound ts =>
      (endsAs_nested _ ts).lax_of_strict.trans ((related_layer (Below.congruence True) ih bound ts).trans
        (((Inner.unlimited_expr bound ts).trans (climb_layer bound ts)).symm.lax_of_strict))
    refine .of_below (nest_takes (n + 1)).zero Inner.unlimited_takes he (fun ts => ?_) fun ts => ?_
    · exact (he .lowest ts).trans (unlimited_argument ts).lax_of_strict
    · exact (endsAs_nested _ ts).lax_of_strict.trans
        ((Below.block ih ts).trans (Inner.unlimited_block ts).symm.lax_of_strict)

/-- The layered reading is the reading without a limit. -/
theorem read_endsAs (bound : Precedence) (ts : List Token) : EndsAs False (read bound ts) (Inner.unlimited.expr bound ts) := by
  refine ((nest_below_unlimited (ts.length + 1)).expr bound ts).strict fun e he hd => ?_
  have := ((nest_takes (ts.length + 1)).expr bound).length_of_tooDeep he hd
  omega

theorem ofLevels_endsAs_read {n : Nat} {ts : List Token}
    (h : ∀ e, (Inner.ofLevels n).expr bound ts = .error e → e.fault ≠ .tooDeep) :
    EndsAs False ((Inner.ofLevels n).expr bound ts) (read bound ts) :=
  (((Inner.ofLevels_below_unlimited n).expr bound ts).strict h).trans (read_endsAs bound ts).symm

/-- From any place and any depth of nesting, reading with a bound succeeds exactly where the layer of
the bound is read, with the same tree and after as many tokens, unless expressions nest too deep. -/
theorem run_expr_iff_read (c : Cursor) (bound : Precedence)
    (h : ∀ e, (c.run (·.expr bound)).1 = .error e → e.cause ≠ .nestingTooDeep maxNesting) (e : Expr) (k : Nat) :
    (∃ c', c.run (·.expr bound) = (.ok e, c') ∧ c'.index = c.index + k) ↔
      ∃ rest, read bound c.rest = .ok (e, rest) ∧ c.rest.length = rest.length + k := by
  have hf : ∀ e, c.inner.expr bound c.rest = .error e → e.fault ≠ .tooDeep := by
    intro e he hd
    refine h (e.error maxNesting c.tokens c.file) ?_ ?_
    · simp [Cursor.run, he]
    · simp [Failure.error, ParseError.atIndex, Fault.cause, hd]
  have hiff : ∀ r, c.inner.expr bound c.rest = .ok r ↔ read bound c.rest = .ok r := fun r =>
    (ofLevels_endsAs_read hf).ok_iff
  have hlen : c.rest.length = c.tokens.length - c.index := by simp [Cursor.rest]
  constructor
  · rintro ⟨c', hc, hk⟩
    cases hr : c.inner.expr bound c.rest with
    | error e => simp [Cursor.run, hr] at hc
    | ok r =>
      have := ((Inner.ofLevels_takes _).expr bound).length_of_ok hr
      simp only [Cursor.run, hr, Prod.mk.injEq, Except.ok.injEq] at hc
      obtain ⟨rfl, rfl⟩ := hc
      simp only at hk
      exact ⟨r.2, (hiff r).1 hr, by omega⟩
  · rintro ⟨rest, hr, hk⟩
    have hr := (hiff _).2 hr
    have := ((Inner.ofLevels_takes _).expr bound).length_of_ok hr
    refine ⟨{ c with index := c.tokens.length - rest.length }, by simp [Cursor.run, hr], ?_⟩
    simp only
    omega

set_option maxRecDepth 4000 in
/-- `-x ^ 2 * y`, behind a `return` and before an `end`. -/
theorem run_expr_iff_read_minus :
    let c : Cursor :=
      ⟨[.plain .keyword "return", .plain .operator "-", .plain .identifier "x", .plain .operator "^", .plain .number "2",
        .plain .operator "*", .plain .identifier "y", .plain .keyword "end"], "f", 1, 5⟩
    (∀ e, (c.run (·.expr .lowest)).1 = .error e → e.cause ≠ .nestingTooDeep maxNesting) ∧
      ∃ rest, read .lowest c.rest = .ok (.binary (.unary .neg (.binary (.var "x") .pow (.literal (.number "2")))) .mul
        (.var "y"), rest) ∧ c.rest.length = rest.length + 6 := by
  intro c
  have hr : c.run (·.expr .lowest) = (.ok (.binary (.unary .neg (.binary (.var "x") .pow (.literal (.number "2")))) .mul
      (.var "y")), { c with index := 7 }) := rfl
  have h : ∀ e, (c.run (·.expr .lowest)).1 = .error e → e.cause ≠ .nestingTooDeep maxNesting := by
    intro e he
    rw [hr] at he
    cases he
  exact ⟨h, (run_expr_iff_read c .lowest h _ 6).1 ⟨_, hr, rfl⟩⟩

end MiniLua.Layered
