import MiniLua.Proofs.Calls.Replacing
/-!
# Redundant parentheses

What a call for an expression has consumed can be put into parentheses, and so can a lone
argument: the program is the same, or it nests too deep (`parse_parenthesized`). An expression
that is a statement is left out, since no statement starts with a parenthesis.

In parentheses an expression is read up to the closing one as it was read before, and what follows
behind it cannot be a link: in a program no link follows a constant, a table or a function, and all other
expressions have taken theirs (`endsAs_parens`). Then every call above gets the same answer.
-/

namespace MiniLua

open MiniLua.Parser MiniLua.Syntax

variable {n m limit : Nat} {bound : Precedence} {e : Expr} {o c t : Token} {ts w before after rest : List Token}

/-! ## One expression -/

/-- An expression in parentheses with nothing linked to them is the expression, if there are levels left. -/
theorem endsAs_parens (h : climb (.ofLevels m) bound (w ++ rest) = .ok (e, rest)) (hr : Unlinked rest)
    (ho : o.isSymbol "(" = true) (hc : c.isSymbol ")" = true) :
    EndsAs True ((Inner.ofLevels n).expr bound (o :: (w ++ c :: rest))) (.ok (e, rest)) := by
  have hafter : AfterExpr (c :: rest) := ahead_cons.2 (continuesExpr_symbol (by decide) (Terminal.symbol_iff.2 hc))
  -- With enough levels it is read up to the closing parenthesis as it was before, however loose its operators are.
  have hinside : (Inner.ofLevels (m + 1)).expr .lowest (w ++ c :: rest) = .ok (e, c :: rest) := by
    have hupTo := (ofLevels_upTo hr hafter (m + 1) bound).stops (ofLevels_expr_eq_ok.2 h)
    exact ofLevels_expr_eq_ok.2 (climb_lowest (Inner.ofLevels_takes m).zero (ofLevels_expr_eq_ok.1 hupTo) hafter)
  have hlevels : ∀ k, EndsAs True ((Inner.ofLevels k).expr .lowest (w ++ c :: rest)) (.ok (e, c :: rest)) := by
    intro k
    have hmore := ((Inner.ofLevels_below (Nat.le_max_right k (m + 1))).expr .lowest).ok hinside
    exact hmore ▸ (Inner.ofLevels_below (Nat.le_max_left k (m + 1))).expr .lowest _
  have htight : NoTighter bound rest := by
    rintro t us rfl
    exact tighter?_eq_none_iff.1 (climb_stops (Inner.ofLevels_takes m).zero h)
  cases n with
  | zero => exact .inl ⟨trivial, rfl⟩
  | succ k =>
    have hopen : EndsAs True (symbol "(" (o :: (w ++ c :: rest))) (.ok (o, w ++ c :: rest)) := by
      rw [symbol_eq_ok.2 ⟨rfl, ho⟩]
      rfl
    have hgroup : EndsAs True (grouping (.ofLevels k) (o :: (w ++ c :: rest))) (.ok (e, rest)) := by
      refine hopen.bind_ok ((hlevels k).bind_ok ?_)
      rw [bind_run, symbol_eq_ok.2 ⟨rfl, hc⟩]
      rfl
    have hoperand : EndsAs True (operand (.ofLevels k) (o :: (w ++ c :: rest))) (.ok (e, rest)) := by
      rw [operand_group ho]
      exact hgroup.bind_ok (by rw [links_of_unlinked _ hr]; rfl)
    refine (endsAs_nested _ _).lax_of_strict.trans (hoperand.bind_ok ?_)
    rw [repeating_of_noTighter _ htight]
    rfl

/-- No link stands behind an expression in a program. -/
theorem unlinked_of_block (hts : Derives [.block] (before ++ (w ++ rest)))
    (h : climb (.ofLevels m) bound (w ++ rest) = .ok (e, rest)) : Unlinked rest := by
  rcases detaches_climb (Inner.ofLevels_takes m).zero (ofLevels_detaches m) bound h with hr | ⟨v, t, ht, hv⟩
  · exact hr
  · -- The expression ends with a solid token, which keeps links away.
    rintro u us rfl
    have hchain := block_isChain hts
    rw [hv, ← List.append_assoc, List.isChain_append_cons_cons] at hchain
    exact hchain.2.1 ht

/-! ## What calls have consumed -/

/-- The tokens of a program up to those that one call for an expression has consumed, these, and the rest.
The call for an expression that is a statement does not count, and that for a lone argument does. -/
inductive Consumed (limit : Nat) (ts : List Token) : List Token → List Token → List Token → Prop
  | expr {α : Type} {r : Routine α} {n : Nat} {bound : Precedence} {e : Expr} {us before w after : List Token} :
      Routine.Made limit ts r us → r.Calls us (.expr n bound) (w ++ after) → r.isNameStmt = false →
      (Routine.expr n bound).parser (w ++ after) = .ok (e, after) → ts = before ++ (w ++ after) →
      Consumed limit ts before w after
  | lone {n : Nat} {e : Expr} {before w after : List Token} :
      Routine.Made limit ts (.argument n) (w ++ after) → startsLone (w ++ after) = true →
      (Routine.argument n).parser (w ++ after) = .ok (e, after) → ts = before ++ (w ++ after) →
      Consumed limit ts before w after

/-- The start of an expression, and the parenthesis that comes to stand before it. -/
def Swap.parens (t : Token) (v after : List Token) (o c : Token) (ht : StartsExpr t) (ho : o.isSymbol "(" = true) : Swap where
  front := []
  first := t
  rest := v ++ after
  paren := o
  rest' := t :: v ++ c :: after
  starts := ht
  isParen := ho

/-- An argument without regard to how many levels are left. -/
theorem parser_argument (n : Nat) (ts : List Token) :
    (Routine.argument n).parser ts = if startsLone ts then primary ts else (Inner.ofLevels n).expr .lowest ts := by
  cases n <;> rfl

/-- The parser gives the same for a program with the parentheses, or levels run out. -/
theorem Consumed.program_parens (h : Consumed limit ts before w after) (ho : o.isSymbol "(" = true) (hc : c.isSymbol ")" = true)
    {x : List Stmt × List Token} (hx : program (.ofLevels limit) ts = .ok x) :
    EndsAs True (program (.ofLevels limit) (before ++ o :: (w ++ c :: after))) (.ok x) := by
  have hts := derives_of_program hx
  cases h with
  | @expr _ r n bound e us _ _ _ hmade hcall hr hrun hsplit =>
    subst hsplit
    obtain ⟨t, v, rfl, ht⟩ := exists_starts hrun
    obtain ⟨m, rfl⟩ : ∃ m, n = m + 1 := by
      cases n with
      | zero => cases hrun
      | succ m => exact ⟨m, rfl⟩
    have hclimb := ofLevels_expr_eq_ok.1 hrun
    have hparens := endsAs_parens (n := m + 1) hclimb (unlinked_of_block hts hclimb) ho hc
    -- The caller gets the same answer, and so does whoever has called it.
    let s : Swap := .parens t v after o c ht ho
    obtain ⟨u, rfl, hlead, hcaller⟩ := Routine.Calls.replace (s := s) (e := true) hcall (.inr rfl)
      (fun hr' => nomatch hr.symm.trans hr') (fun y hy => Except.ok.inj (hrun.symm.trans hy) ▸ hparens)
    exact hmade.replace_program hlead hcaller hx
  | @lone n e _ _ _ hmade hlone hrun hsplit =>
    subst hsplit
    rw [parser_argument, if_pos hlone] at hrun
    have hclimb : climb (.ofLevels n) .lowest (w ++ after) = .ok (e, after) := (climb_of_startsLone hlone).trans hrun
    obtain ⟨t, v, rfl, ht⟩ := exists_starts (ofLevels_expr_eq_ok.2 hclimb)
    -- Behind a parenthesis the argument is an expression like any other.
    have hparens : EndsAs True ((Routine.argument n).parser (o :: (t :: v ++ c :: after))) (.ok (e, after)) := by
      rw [parser_argument, startsLone_of_symbol (isSymbol_iff.1 ho).1]
      exact endsAs_parens hclimb (unlinked_of_block hts hclimb) ho hc
    refine Routine.Made.replace_program (s := .parens t v after o c ht ho) (u := []) (.inr rfl) (fun y hy => ?_) hmade hx
    have hy' : primary (t :: v ++ after) = .ok y := (if_pos hlone).symm.trans ((parser_argument n _).symm.trans hy)
    exact Except.ok.inj (hrun.symm.trans hy') ▸ hparens

/-! ## Programs -/

/-- With parentheses around what a call for an expression has consumed, or around a lone argument, a program is the same,
or it is rejected for its nesting. The expression that is a statement is left out. -/
theorem parse_parenthesized {p : List Stmt} {file : String} (hp : parse ts file = .ok p) (h : Consumed maxNesting ts before w after)
    (ho : o.isSymbol "(" = true) (hc : c.isSymbol ")" = true) :
    parse (before ++ o :: (w ++ c :: after)) file = .ok p ∨
      ∃ e, parse (before ++ o :: (w ++ c :: after)) file = .error e ∧ e.cause = .nestingTooDeep maxNesting := by
  obtain ⟨rest, hrun⟩ := parseWithin_eq_ok.1 hp
  exact (h.program_parens ho hc hrun).outcome maxNesting maxNesting

/-- The tokens `a + b`. -/
def sumTokens : List Token := [.plain .identifier "a", .plain .operator "+", .plain .identifier "b"]

/-- The value of `x = a + b` is what the call of an assignment has consumed. -/
theorem parse_parenthesized_value :
    Consumed maxNesting (.plain .identifier "x" :: .plain .operator "=" :: sumTokens)
      [.plain .identifier "x", .plain .operator "="] sumTokens [] ∧
    (parse (.plain .identifier "x" :: .plain .operator "=" :: .plain .symbol "(" :: (sumTokens ++ [.plain .symbol ")"])) "f" =
        .ok [.assign "x" (.binary (.var "a") .add (.var "b"))] ∨
      ∃ e, parse (.plain .identifier "x" :: .plain .operator "=" :: .plain .symbol "(" :: (sumTokens ++ [.plain .symbol ")"])) "f" =
        .error e ∧ e.cause = .nestingTooDeep maxNesting) := by
  let ts : List Token := .plain .identifier "x" :: .plain .operator "=" :: sumTokens
  have hstmt : (Routine.program maxNesting).Calls ts (.stmt maxNesting) ts :=
    Fueled.bind_eq_none.2 (.inl (Fueled.bind_eq_none.2 (.inl (Fueled.bind_eq_none.2 (.inl (Routine.withheld_self _ _))))))
  have hname : (Routine.stmt maxNesting).Calls ts (.nameStmt maxNesting) ts := Routine.withheld_self _ _
  have hassign : (Routine.nameStmt maxNesting).Calls ts (.assignment maxNesting) ts := Routine.withheld_self _ _
  have hvalue : (Routine.assignment maxNesting).Calls ts (.expr maxNesting .lowest) sumTokens := by
    -- The name and the equals sign are taken, and the call for the value comes next.
    refine Fueled.bind_eq_none.2 (.inr ⟨_, _, rfl, Fueled.bind_eq_none.2 (.inr ⟨_, _, rfl, ?_⟩)⟩)
    exact Fueled.bind_eq_none.2 (.inl (Routine.withheld_self _ _))
  have hconsumed : Consumed maxNesting ts [.plain .identifier "x", .plain .operator "="] sumTokens [] :=
    .expr (.call (.call (.call .program hstmt) hname) hassign) hvalue rfl rfl rfl
  have hp : parse ts "f" = .ok [.assign "x" (.binary (.var "a") .add (.var "b"))] := parseWithin_eq_ok.2 ⟨[], rfl⟩
  exact ⟨hconsumed, parse_parenthesized hp hconsumed rfl rfl⟩

end MiniLua
