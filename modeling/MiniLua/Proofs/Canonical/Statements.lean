import MiniLua.Proofs.Canonical.Expressions
/-!
# Statements of a written program

A statement is returned by its tokens wherever it may stand, a `return` without values only
at the end of its block (`MayFollow`). One lemma for each kind of statement says so from what
is nested in it, one more that what was read is of that kind.
-/

namespace MiniLua

open MiniLua.Parser MiniLua.Syntax

variable {n k : Nat} {e c : Expr} {t : Token} {ts us w : List Token} {x : String} {params : List String}
  {body otherwise : List Stmt} {s : Stmt} {F : List Token → Prop}

/-- What may come after a statement: another one or the end of the block, which ends a bare `return`. -/
def MayFollow (s : Stmt) (us : List Token) : Prop := AfterStmt us ∧ (s = .ret [] → EndsBlock us)

/-- With `n` levels left, the tokens of a statement are read as it. -/
def Stmt.Returns (n : Nat) (s : Stmt) : Prop :=
  ∀ k, n ≤ k → (stmt (.ofLevels k)).ReadsAs s.tokens s (MayFollow s)

/-- By the keyword that it starts with. -/
theorem Stmt.Returns.of_head {word : String} {head : StmtHead} (hw : s.tokens = .plain .keyword word :: w)
    (hh : StmtHead.ofText? word = some head)
    (h : ∀ k, n ≤ k → (headed (.ofLevels k) head).ReadsAs (.plain .keyword word :: w) s (MayFollow s)) : s.Returns n := by
  intro k hk us hus
  rw [hw, List.cons_append, stmt_of_keyword (Token.is_iff.2 ⟨rfl, rfl⟩) hh]
  exact h k hk us hus

/-! ## Parts of statements -/

theorem loopBody_readsAs (hb : BlockNests n body) (hk : n ≤ k) :
    (loopBody (.ofLevels k)).ReadsAs (loopTokens (blockTokens body)) body F :=
  (readsAs_keyword "do").bind_token
    ((hb k hk).bind (readsAs_keyword "end").bind_pure fun _ _ => ahead_cons.2 (by decide))

theorem guarded_readsAs (hc : c.Nests n) (hb : BlockNests n body) (hk : n ≤ k) :
    (guarded (.ofLevels k)).ReadsAs (guardTokens c.tokens (blockTokens body)) (c, body) EndsBlock :=
  (hc k hk).bind ((readsAs_keyword "then").bind_token (hb k hk).bind_pure) fun _ _ => ahead_cons.2 (by decide)

theorem namedFunction_readsAs (hb : BlockNests n body) (hk : n ≤ k) :
    (namedFunction (.ofLevels k)).ReadsAs (Expr.definition x params body).tokens (x, params, body) F :=
  (readsAs_keyword "function").bind_token ((readsAs_name x).bind_token (functionBody_readsAs hb hk).bind_pure)

theorem branch_readsAs {b : Branch} (hc : b.condition.Nests n) (hb : BlockNests n b.body) (hk : n ≤ k) :
    (branch (.ofLevels k)).ReadsAs b.tokens b EndsBlock := by
  cases b
  exact (readsAs_next _).bind_token (guarded_readsAs hc hb hk).bind_pure

/-- The `else` or the `end` of an `if` comes next. -/
def AfterArms (ts : List Token) : Prop := ∃ t us, ts = t :: us ∧ t.closesBlock = true ∧ t.isKeyword "elseif" = false

theorem before_branches (bs : List Branch) (hus : AfterArms us) : EndsBlock (branchesTokens bs ++ us) := by
  cases bs with
  | nil =>
    obtain ⟨t, us, rfl, ht, _⟩ := hus
    exact ahead_cons.2 ht
  | cons b bs =>
    cases b
    exact ahead_cons.2 (by decide)

theorem branches_readsAs {bs : List Branch} (hbs : ∀ b ∈ bs, b.condition.Nests n ∧ BlockNests n b.body) (hk : n ≤ k) :
    (many (·.isKeyword "elseif") (branch (.ofLevels k))).ReadsAs (branchesTokens bs) bs AfterArms := by
  rw [branchesTokens_eq]
  refine many_readsAs ((takes_branch (Inner.ofLevels_takes k)).of_le (Nat.le_refl 1) (Nat.zero_le _)) (fun b rest hs => ⟨?_, ?_⟩) ?_
  · cases b
    exact ⟨_, _, rfl, rfl⟩
  · have hb := hbs b (hs.subset List.mem_cons_self)
    refine (branch_readsAs hb.1 hb.2 hk).mono ?_
    rintro _ ⟨us, hus, rfl⟩
    rw [← branchesTokens_eq]
    exact before_branches rest hus
  · rintro t us ⟨_, _, ⟨⟩, _, ht⟩
    exact ht

/-- An `else` is written if there is something after it. -/
theorem otherwise_readsAs (hb : otherwise ≠ [] → BlockNests n otherwise) (hk : n ≤ k) :
    (Parser.otherwise (.ofLevels k)).ReadsAs
      (if otherwise.isEmpty then [] else .plain .keyword "else" :: blockTokens otherwise) otherwise
      (fun ts => ∃ us, ts = .plain .keyword "end" :: us) := by
  cases otherwise with
  | nil =>
    refine .check_false ?_ (readsAs_pure [])
    rintro _ ⟨us, rfl⟩
    rfl
  | cons s ss =>
    refine .check_true (fun _ _ => rfl) ((readsAs_next _).bind_token ((hb (List.cons_ne_nil s ss) k hk).mono ?_))
    rintro _ ⟨us, rfl⟩
    exact ahead_cons.2 (by decide)

theorem step_readsAs {step : Option Expr} (hs : ∀ e, step = some e → e.Nests n) (hk : n ≤ k) :
    (Parser.step (.ofLevels k)).ReadsAs (stepTokens step) step fun ts => ∃ us, ts = .plain .keyword "do" :: us := by
  cases step with
  | none =>
    refine .check_false ?_ (readsAs_pure none)
    rintro _ ⟨us, rfl⟩
    rfl
  | some e =>
    refine .check_true (fun _ _ => rfl) ((readsAs_next _).bind_token (((hs e rfl) k hk).bind_pure.mono ?_))
    rintro _ ⟨us, rfl⟩
    exact ahead_cons.2 (by decide)

theorem valueName_readsAs (value : Option String) :
    valueName.ReadsAs (valueTokens value) value fun ts => ∃ us, ts = .plain .keyword "in" :: us := by
  cases value with
  | none =>
    rintro _ ⟨us, rfl⟩
    rfl
  | some x => exact .check_true (fun _ _ => rfl) ((readsAs_next _).bind_token (readsAs_name x).bind_pure)

/-! ## Each kind of statement -/

namespace Stmt.Returns

theorem whileLoop (hc : c.Nests n) (hb : BlockNests n body) : (Stmt.whileLoop c body).Returns n := by
  refine .of_head rfl rfl fun k hk => (readsAs_keyword "while").bind_token ?_
  exact (hc k hk).bind (loopBody_readsAs hb hk).bind_pure fun _ _ => ahead_cons.2 (by decide)

theorem repeatLoop (hb : BlockNests n body) (hc : c.Nests n) : (Stmt.repeatLoop body c).Returns n := by
  refine .of_head rfl rfl fun k hk => (readsAs_keyword "repeat").bind_token ?_
  refine (hb k hk).bind ((readsAs_keyword "until").bind_token ?_) fun _ _ => ahead_cons.2 (by decide)
  exact (hc k hk).bind_pure.mono fun us hus => hus.1.afterExpr

theorem ifThen {elseifs : List Branch} (hc : c.Nests n) (hb : BlockNests n body)
    (hes : ∀ b ∈ elseifs, b.condition.Nests n ∧ BlockNests n b.body) (ho : otherwise ≠ [] → BlockNests n otherwise) :
    (Stmt.ifThen c body elseifs otherwise).Returns n := by
  refine .of_head rfl rfl fun k hk => (readsAs_keyword "if").bind_token ?_
  refine (guarded_readsAs hc hb hk).bind ((branches_readsAs hes hk).bind ?_ ?_) ?_
  · exact (otherwise_readsAs ho hk).bind (readsAs_keyword "end").bind_pure fun us _ => ⟨us, rfl⟩
  · intro us _
    cases otherwise <;> exact ⟨_, _, rfl, rfl, rfl⟩
  · intro us _
    rw [List.append_assoc]
    refine before_branches elseifs ?_
    cases otherwise <;> exact ⟨_, _, rfl, rfl, rfl⟩

theorem forRange {start limit : Expr} {step : Option Expr} (hs : start.Nests n) (hl : limit.Nests n)
    (hst : ∀ e, step = some e → e.Nests n) (hb : BlockNests n body) : (Stmt.forRange x start limit step body).Returns n := by
  refine .of_head rfl rfl fun k hk => (readsAs_keyword "for").bind_token ((readsAs_name x).bind_token ?_)
  refine .check_true (fun _ _ => rfl) ((readsAs_next _).bind_token ?_)
  refine (hs k hk).bind ((readsAs_symbol ",").bind_token ?_) fun _ _ => ahead_cons.2 (by decide)
  refine (hl k hk).bind ((step_readsAs hst hk).bind (loopBody_readsAs hb hk).bind_pure fun us _ => ⟨_, rfl⟩) ?_
  intro us _
  cases step <;> exact ahead_cons.2 (by decide)

theorem forIn {value : Option String} (he : e.Nests n) (hb : BlockNests n body) : (Stmt.forIn x value e body).Returns n := by
  refine .of_head rfl rfl fun k hk => (readsAs_keyword "for").bind_token ((readsAs_name x).bind_token ?_)
  refine .check_false (fun us _ => ?_) ((valueName_readsAs value).bind ((readsAs_keyword "in").bind_token ?_) fun us _ => ⟨_, rfl⟩)
  · cases value <;> rfl
  · exact (he k hk).bind (loopBody_readsAs hb hk).bind_pure fun _ _ => ahead_cons.2 (by decide)

theorem ret {values : List Expr} (hes : ∀ e ∈ values, e.Nests n) : (Stmt.ret values).Returns n := by
  refine .of_head rfl rfl fun k hk => (readsAs_keyword "return").bind_token ?_
  rw [eachTokens_eq]
  cases values with
  | nil => exact .check_false (fun us hus => endsBlock_iff.1 (hus.2 rfl)) (readsAs_pure _)
  | cons e es =>
    obtain ⟨t, v, hv, ht⟩ := expr_start (hes e List.mem_cons_self).derives
    refine .check_true (fun us _ => ?_) ?_
    · simp only [List.map_cons, commas, hv, List.cons_append, List.head?_cons, Option.any_some, ht.closesBlock_eq_false, Bool.not_false]
    · refine (separated_readsAs ((Inner.ofLevels_takes k).zero.expr .lowest) (fun e he => hes e he k hk) ?_ ?_ ?_).bind_pure
      · exact fun t us ht => ahead_cons.2 (continuesExpr_symbol (by decide) (Terminal.symbol_iff.2 ht))
      · exact fun us hus => hus.1.afterExpr
      · exact fun t us hus => (ahead_cons.1 hus.1).isSymbol_eq_false _

theorem function (hb : BlockNests n body) : (Stmt.expr (.definition x params body)).Returns n :=
  .of_head rfl rfl fun _ hk => (namedFunction_readsAs hb hk).bind_pure.map

theorem assign (he : e.Nests n) : (Stmt.assign x e).Returns n := by
  intro k hk us hus
  have hread : (assignment (.ofLevels k)).ReadsAs (Stmt.assign x e).tokens (Stmt.assign x e) AfterExpr :=
    (readsAs_name x).bind_token ((readsAs_operator "=").bind_token (he k hk).bind_pure)
  rw [← hread us hus.1.afterExpr]
  exact (stmt_of_name rfl _).trans (nameStmt_of_equals rfl)

/-- An expression that starts with a name and goes on. -/
theorem expr {u : Token} (he : e.Nests n) (hw : e.tokens = .plain .identifier x :: u :: w) (hu : continuesExpr u = true) :
    (Stmt.expr e).Returns n := by
  intro k hk us hus
  have hread := (he k hk).map (c := Stmt.expr) us hus.1.afterExpr
  rw [hw] at hread
  rw [tokens, hw]
  exact (stmt_of_name rfl _).trans ((nameStmt_of_continues hu).trans hread)

theorem localFunction (hb : BlockNests n body) : (Stmt.localVar x (some (.definition x params body))).Returns n := by
  refine .of_head rfl rfl fun k hk => (readsAs_keyword "local").bind_token ?_
  refine .check_true (fun _ _ => rfl) ?_
  rw [localFunction_eq]
  exact (namedFunction_readsAs hb hk).bind_pure

theorem localVar {init : Option Expr} (hi : ∀ e, init = some e → e.Nests n) : (Stmt.localVar x init).Returns n := by
  refine .of_head rfl rfl fun k hk => (readsAs_keyword "local").bind_token ?_
  cases init with
  | none =>
    refine .check_false (fun _ _ => rfl) ((readsAs_name x).bind_token (.check_false (fun us hus => ?_) (readsAs_pure _)))
    exact hus.1.any_eq_false fun t ht => ht.isOperator_eq_false _
  | some e =>
    have he := hi e rfl
    rw [localTokens, he.not_definition]
    refine .check_false (fun _ _ => rfl) ((readsAs_name x).bind_token (.check_true (fun _ _ => rfl) ?_))
    exact (readsAs_next _).bind_token ((he k hk).bind_pure.mono fun us hus => hus.1.afterExpr)

end Stmt.Returns
/-! ## What was read -/

section
variable (h : Rereads n)
include h

theorem blockNests_of_loopBody (hp : loopBody (.ofLevels n) ts = .ok (body, us)) : BlockNests n body := by
  obtain ⟨_, _, _, hp⟩ := bind_eq_ok.1 hp
  obtain ⟨_, _, hbody, hp⟩ := bind_eq_ok.1 hp
  obtain ⟨_, _, _, he⟩ := bind_eq_ok.1 hp
  cases he
  exact h.block hbody

theorem nests_of_guarded (hp : guarded (.ofLevels n) ts = .ok ((c, body), us)) : c.Nests n ∧ BlockNests n body := by
  obtain ⟨_, _, hc, hp⟩ := bind_eq_ok.1 hp
  obtain ⟨_, _, _, hp⟩ := bind_eq_ok.1 hp
  obtain ⟨_, _, hbody, he⟩ := bind_eq_ok.1 hp
  cases he
  exact ⟨h.nests hc, h.block hbody⟩

theorem nests_of_branch {b : Branch} (hp : branch (.ofLevels n) ts = .ok (b, us)) : b.condition.Nests n ∧ BlockNests n b.body := by
  obtain ⟨_, _, _, hp⟩ := bind_eq_ok.1 hp
  obtain ⟨arm, _, harm, he⟩ := bind_eq_ok.1 hp
  cases he
  exact nests_of_guarded h harm

theorem blockNests_of_namedFunction (hp : namedFunction (.ofLevels n) ts = .ok ((x, params, body), us)) : BlockNests n body := by
  obtain ⟨_, _, _, hp⟩ := bind_eq_ok.1 hp
  obtain ⟨_, _, _, hp⟩ := bind_eq_ok.1 hp
  obtain ⟨_, _, hbody, he⟩ := bind_eq_ok.1 hp
  cases he
  exact blockNests_of_functionBody h hbody

theorem blockNests_of_otherwise (hp : Parser.otherwise (.ofLevels n) ts = .ok (body, us)) (hne : body ≠ []) : BlockNests n body := by
  obtain ⟨present, _, _, hp⟩ := bind_eq_ok.1 hp
  split at hp
  · obtain ⟨_, _, _, hbody⟩ := bind_eq_ok.1 hp
    exact h.block hbody
  · cases hp
    exact absurd rfl hne

theorem nests_of_step {step : Option Expr} (hp : Parser.step (.ofLevels n) ts = .ok (step, us)) (he : step = some e) : e.Nests n := by
  obtain ⟨present, _, _, hp⟩ := bind_eq_ok.1 hp
  split at hp
  · obtain ⟨_, _, _, hp⟩ := bind_eq_ok.1 hp
    obtain ⟨_, _, hstep, hs⟩ := bind_eq_ok.1 hp
    cases hs
    cases he
    exact h.nests hstep
  · cases hp
    cases he

theorem returns_of_functionStmt (hp : functionStmt (.ofLevels n) ts = .ok (s, us)) : s.Returns n ∧ s ≠ .ret [] := by
  rw [functionStmt, map_eq_pure_bind] at hp
  obtain ⟨_, _, hdef, hs⟩ := bind_eq_ok.1 hp
  obtain ⟨f, _, hf, he⟩ := bind_eq_ok.1 hdef
  cases he
  cases hs
  exact ⟨.function (blockNests_of_namedFunction h hf), by intro hs; cases hs⟩

theorem returns_of_localStmt (hp : localStmt (.ofLevels n) ts = .ok (s, us)) : s.Returns n ∧ s ≠ .ret [] := by
  obtain ⟨_, _, _, hp⟩ := bind_eq_ok.1 hp
  obtain ⟨function, _, _, hp⟩ := bind_eq_ok.1 hp
  split at hp
  · rw [localFunction_eq] at hp
    obtain ⟨f, _, hf, hs⟩ := bind_eq_ok.1 hp
    cases hs
    exact ⟨.localFunction (blockNests_of_namedFunction h hf), by intro hs; cases hs⟩
  · obtain ⟨x, _, _, hp⟩ := bind_eq_ok.1 hp
    obtain ⟨valued, _, _, hp⟩ := bind_eq_ok.1 hp
    split at hp
    · obtain ⟨_, _, _, hp⟩ := bind_eq_ok.1 hp
      obtain ⟨e, _, he, hs⟩ := bind_eq_ok.1 hp
      cases hs
      exact ⟨.localVar fun _ hi => by cases hi; exact h.nests he, by intro hs; cases hs⟩
    · cases hp
      exact ⟨.localVar fun _ hi => (by cases hi), by intro hs; cases hs⟩

theorem returns_of_returnStmt (hp : returnStmt (.ofLevels n) ts = .ok (s, us)) : s.Returns n ∧ (s = .ret [] → EndsBlock us) := by
  obtain ⟨_, rest, _, hp⟩ := bind_eq_ok.1 hp
  obtain ⟨valued, _, hcheck, hp⟩ := bind_eq_ok.1 hp
  cases hcheck
  split at hp
  · obtain ⟨values, _, hvalues, hs⟩ := bind_eq_ok.1 hp
    cases hs
    refine ⟨.ret (forall_of_separated ((Inner.ofLevels_takes n).zero.expr .lowest) (fun _ _ _ => h.nests) hvalues), fun hs => ?_⟩
    cases hs
    obtain ⟨_, _, _, hvalues⟩ := bind_eq_ok.1 hvalues
    obtain ⟨_, _, _, hv⟩ := bind_eq_ok.1 hvalues
    cases hv
  · next hend =>
    cases hp
    exact ⟨.ret (by simp), fun _ => endsBlock_iff.2 (Bool.eq_false_iff.2 hend)⟩

theorem returns_of_ifStmt (hp : ifStmt (.ofLevels n) ts = .ok (s, us)) : s.Returns n ∧ s ≠ .ret [] := by
  obtain ⟨_, _, _, hp⟩ := bind_eq_ok.1 hp
  obtain ⟨arm, _, harm, hp⟩ := bind_eq_ok.1 hp
  obtain ⟨elseifs, _, helseifs, hp⟩ := bind_eq_ok.1 hp
  obtain ⟨rest, _, hrest, hp⟩ := bind_eq_ok.1 hp
  obtain ⟨_, _, _, hs⟩ := bind_eq_ok.1 hp
  cases hs
  have hbranch : (branch (.ofLevels n)).Takes 1 0 := (takes_branch (Inner.ofLevels_takes n)).of_le (Nat.le_refl 1) (Nat.zero_le _)
  have harm := nests_of_guarded h harm
  exact ⟨.ifThen harm.1 harm.2 (forall_of_many hbranch (fun _ _ _ => nests_of_branch h) helseifs)
    (blockNests_of_otherwise h hrest), by intro hs; cases hs⟩

theorem returns_of_whileStmt (hp : whileStmt (.ofLevels n) ts = .ok (s, us)) : s.Returns n ∧ s ≠ .ret [] := by
  obtain ⟨_, _, _, hp⟩ := bind_eq_ok.1 hp
  obtain ⟨c, _, hc, hp⟩ := bind_eq_ok.1 hp
  obtain ⟨body, _, hbody, hs⟩ := bind_eq_ok.1 hp
  cases hs
  exact ⟨.whileLoop (h.nests hc) (blockNests_of_loopBody h hbody), by intro hs; cases hs⟩

theorem returns_of_repeatStmt (hp : repeatStmt (.ofLevels n) ts = .ok (s, us)) : s.Returns n ∧ s ≠ .ret [] := by
  obtain ⟨_, _, _, hp⟩ := bind_eq_ok.1 hp
  obtain ⟨body, _, hbody, hp⟩ := bind_eq_ok.1 hp
  obtain ⟨_, _, _, hp⟩ := bind_eq_ok.1 hp
  obtain ⟨c, _, hc, hs⟩ := bind_eq_ok.1 hp
  cases hs
  exact ⟨.repeatLoop (h.block hbody) (h.nests hc), by intro hs; cases hs⟩

theorem returns_of_forRange (hp : forRange (.ofLevels n) x ts = .ok (s, us)) : s.Returns n ∧ s ≠ .ret [] := by
  obtain ⟨_, _, _, hp⟩ := bind_eq_ok.1 hp
  obtain ⟨start, _, hstart, hp⟩ := bind_eq_ok.1 hp
  obtain ⟨_, _, _, hp⟩ := bind_eq_ok.1 hp
  obtain ⟨limit, _, hlimit, hp⟩ := bind_eq_ok.1 hp
  obtain ⟨step, _, hstep, hp⟩ := bind_eq_ok.1 hp
  obtain ⟨body, _, hbody, hs⟩ := bind_eq_ok.1 hp
  cases hs
  exact ⟨.forRange (h.nests hstart) (h.nests hlimit) (fun _ => nests_of_step h hstep) (blockNests_of_loopBody h hbody),
    by intro hs; cases hs⟩

theorem returns_of_forIn (hp : forIn (.ofLevels n) x ts = .ok (s, us)) : s.Returns n ∧ s ≠ .ret [] := by
  obtain ⟨value, _, _, hp⟩ := bind_eq_ok.1 hp
  obtain ⟨_, _, _, hp⟩ := bind_eq_ok.1 hp
  obtain ⟨e, _, he, hp⟩ := bind_eq_ok.1 hp
  obtain ⟨body, _, hbody, hs⟩ := bind_eq_ok.1 hp
  cases hs
  exact ⟨.forIn (h.nests he) (blockNests_of_loopBody h hbody), by intro hs; cases hs⟩

theorem returns_of_forStmt (hp : forStmt (.ofLevels n) ts = .ok (s, us)) : s.Returns n ∧ s ≠ .ret [] := by
  obtain ⟨_, _, _, hp⟩ := bind_eq_ok.1 hp
  obtain ⟨x, _, _, hp⟩ := bind_eq_ok.1 hp
  obtain ⟨ranged, _, _, hp⟩ := bind_eq_ok.1 hp
  split at hp
  · exact returns_of_forRange h hp
  · exact returns_of_forIn h hp

theorem returns_of_headed (head : StmtHead) (hp : headed (.ofLevels n) head ts = .ok (s, us)) :
    s.Returns n ∧ (s = .ret [] → EndsBlock us) := by
  have hother : s.Returns n ∧ s ≠ .ret [] → s.Returns n ∧ (s = .ret [] → EndsBlock us) :=
    fun ⟨hs, hne⟩ => ⟨hs, fun he => absurd he hne⟩
  cases head with
  | function => exact hother (returns_of_functionStmt h hp)
  | localVar => exact hother (returns_of_localStmt h hp)
  | ret => exact returns_of_returnStmt h hp
  | ifThen => exact hother (returns_of_ifStmt h hp)
  | forLoop => exact hother (returns_of_forStmt h hp)
  | whileLoop => exact hother (returns_of_whileStmt h hp)
  | repeatLoop => exact hother (returns_of_repeatStmt h hp)

/-- An expression that stands as a statement still starts with its name and goes on after it. -/
theorem returns_of_exprStmt {u : Token} (ht : t.kind = .identifier) (hu : continuesExpr u = true)
    (hp : (Inner.ofLevels n).expr .lowest (t :: u :: ts) = .ok (e, us)) : (Stmt.expr e).Returns n := by
  have he := h.nests hp
  cases n with
  | zero => cases hp
  | succ n =>
    have hclimb := ofLevels_expr_eq_ok.1 hp
    obtain ⟨w, hw, hstart⟩ := named_of_climb ht hclimb
    cases w with
    | nil =>
      obtain rfl := hstart rfl
      rw [continuesExpr_of_climb_name (Inner.ofLevels_takes n).zero ht hclimb] at hu
      cases hu
    | cons v w =>
      have hd := he.derives
      rw [hw] at hd
      exact .expr he hw (expr_second hd (.inr (.inr rfl)))

theorem returns_of_nameStmt (ht : t.kind = .identifier) (hp : nameStmt (.ofLevels n) (t :: ts) = .ok (s, us)) :
    s.Returns n ∧ s ≠ .ret [] := by
  cases ts with
  | nil => cases hp
  | cons u ts =>
    rcases nameStmt_dispatch (.ofLevels n) u with ⟨-, hrun⟩ | ⟨hu, hrun⟩ | hrun
    · rw [hrun] at hp
      obtain ⟨x, _, _, hp⟩ := bind_eq_ok.1 hp
      obtain ⟨_, _, _, hp⟩ := bind_eq_ok.1 hp
      obtain ⟨e, _, he, hs⟩ := bind_eq_ok.1 hp
      cases hs
      exact ⟨.assign (h.nests he), by intro hs; cases hs⟩
    · rw [hrun, map_eq_pure_bind] at hp
      obtain ⟨e, _, he, hs⟩ := bind_eq_ok.1 hp
      cases hs
      exact ⟨returns_of_exprStmt h ht hu he, by intro hs; cases hs⟩
    · rw [hrun] at hp
      cases hp

/-- A bare `return` that was read was at the end of its block. -/
theorem returns_of_stmt (hp : stmt (.ofLevels n) ts = .ok (s, us)) : s.Returns n ∧ (s = .ret [] → EndsBlock us) := by
  cases ts with
  | nil => cases hp
  | cons t ts =>
    rcases stmt_dispatch (.ofLevels n) t with ⟨ht, hrun⟩ | ⟨head, hrun⟩ | hrun
    · rw [hrun] at hp
      have hs := returns_of_nameStmt h ht hp
      exact ⟨hs.1, fun he => absurd he hs.2⟩
    · rw [hrun] at hp
      exact returns_of_headed h head hp
    · rw [hrun] at hp
      cases hp

end

end MiniLua
