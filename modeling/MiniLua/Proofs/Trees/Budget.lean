import MiniLua.Proofs.Trees.Construction
import MiniLua.Proofs.Trees.Measure
/-!
# Budgets

A budget allows a tree to measure so much, by the tokens that it was read from and the levels of
nesting that were left. If it allows for each kind of node what that node adds (`Budget`), then
every tree that is read keeps within it (`Budget.program`).
-/

namespace MiniLua

open MiniLua.Parser

/-- What trees read from some tokens with `n` levels left may measure. -/
structure Budget (m : Measure) where
  expr : (n : Nat) → List Token → Nat
  stmt : (n : Nat) → List Token → Nat
  /-- All that stands inside one node. -/
  inside : (n : Nat) → List Token → Nat
  join_le : ∀ n u v, m.join (inside n u) (inside n v) ≤ inside n (u ++ v)
  lone_le : ∀ n t, m.node 0 0 0 ≤ inside n [t]
  expr_le : ∀ n w, expr n w ≤ inside (n + 1) w
  stmt_le : ∀ n w, stmt n w ≤ inside (n + 1) w
  group_le : ∀ n t w u, expr n w ≤ expr (n + 1) (t :: (w ++ [u]))
  /-- A node that stands around something. -/
  wrap_le : ∀ n t w, m.node 0 0 (inside n w) ≤ expr n (t :: w)
  /-- A node that is put behind its base. -/
  chain_le : ∀ n v t w, m.node (expr n v) 0 (inside n w) ≤ expr n (v ++ t :: w)
  colon_le : ∀ n v t w, t.isSymbol ":" = true → m.node (expr n v) (expr n v) (inside n w) ≤ expr n (v ++ t :: w)
  stmt_wrap_le : ∀ n t w, m.node 0 0 (inside n w) ≤ stmt n (t :: w)
  exprStmt_le : ∀ n t w, m.node 0 0 (expr n (t :: w)) ≤ stmt (n + 1) (t :: w)
  /-- A function with a name is a node inside the statement that defines it. -/
  definition_le : ∀ n t w, m.node 0 0 (m.node 0 0 (inside (n + 1) w)) ≤ stmt (n + 1) (t :: w)

namespace Budget

variable {m : Measure} (b : Budget m) {n k l : Nat} {t : Token} {u v w : List Token}

/-! ## What stands inside a node -/

theorem join_le_append (hk : k ≤ b.inside n v) (hl : l ≤ b.inside n w) : m.join k l ≤ b.inside n (v ++ w) :=
  Nat.le_trans (m.join_mono hk hl) (b.join_le n v w)

theorem le_append_left (h : k ≤ b.inside n v) : k ≤ b.inside n (v ++ w) :=
  Nat.le_trans h (Nat.le_trans Measure.le_join_left (b.join_le n v w))

theorem le_append_right (h : k ≤ b.inside n w) : k ≤ b.inside n (v ++ w) :=
  Nat.le_trans h (Nat.le_trans Measure.le_join_right (b.join_le n v w))

theorem le_cons (h : k ≤ b.inside n w) : k ≤ b.inside n (t :: w) := b.le_append_right (v := [t]) h

/-! ## Nodes -/

theorem wrap (h : k ≤ b.inside n w) : m.node 0 0 k ≤ b.expr n (t :: w) :=
  Nat.le_trans (m.node_mono (Nat.le_refl 0) (Nat.le_refl 0) h) (b.wrap_le n t w)

theorem chain (hk : k ≤ b.expr n v) (hl : l ≤ b.inside n w) : m.node k 0 l ≤ b.expr n (v ++ t :: w) :=
  Nat.le_trans (m.node_mono hk (Nat.le_refl 0) hl) (b.chain_le n v t w)

theorem colon (hk : k ≤ b.expr n v) (hl : l ≤ b.inside n w) (ht : t.isSymbol ":" = true) :
    m.node k k l ≤ b.expr n (v ++ t :: w) :=
  Nat.le_trans (m.node_mono hk hk hl) (b.colon_le n v t w ht)

theorem stmtWrap (h : k ≤ b.inside n w) : m.node 0 0 k ≤ b.stmt n (t :: w) :=
  Nat.le_trans (m.node_mono (Nat.le_refl 0) (Nat.le_refl 0) h) (b.stmt_wrap_le n t w)

/-! ## Trees that keep within the budget -/

def ExprWithin (n : Nat) (e : Expr) (w : List Token) : Prop := e.measure m ≤ b.expr n w

def StmtWithin (n : Nat) (s : Stmt) (w : List Token) : Prop := s.measure m ≤ b.stmt n w

def FieldsWithin (n : Nat) (fields : List Expr × List Entry) (w : List Token) : Prop :=
  m.join (measureExprs m fields.1) (measureEntries m fields.2) ≤ b.inside n w

section
variable {α : Type} {φ : α → List Token → Prop} {f : α → Nat} {as : List α}

theorem row (hφ : ∀ a v, φ a v → f a ≤ b.inside n v) (h : Row φ as w) : m.total f as ≤ b.inside n w := by
  induction h with
  | nil => exact Nat.zero_le _
  | cons ha _ ih => exact b.join_le_append (hφ _ _ ha) ih

theorem listed (hφ : ∀ a v, φ a v → f a ≤ b.inside n v) (h : Listed φ as w) : m.total f as ≤ b.inside n w := by
  obtain ⟨ha, has⟩ := h
  refine b.join_le_append (hφ _ _ ha) (b.row ?_ has)
  rintro a _ ⟨-, ha⟩
  exact b.le_cons (hφ _ _ ha)

theorem grouped (hφ : ∀ a v, φ a v → f a ≤ b.inside n v) (h : Grouped φ as w) : m.total f as ≤ b.inside n w := by
  cases h with
  | none => exact Nat.zero_le _
  | some _ has _ => exact b.le_cons (b.le_append_left (b.listed hφ has))

end

section
variable {e : Expr} {es : List Expr} {body : List Stmt} {params : List String}

theorem nested (h : Nested b.ExprWithin n e w) : e.measure m ≤ b.inside n w := by
  obtain ⟨k, rfl, h⟩ := h
  exact Nat.le_trans h (b.expr_le k w)

theorem argument (h : Argument b.ExprWithin n e w) : e.measure m ≤ b.inside n w := by
  cases h with
  | lone h => cases h <;> exact b.lone_le n _
  | nested h => exact b.nested h

theorem arguments (h : Grouped (Argument b.ExprWithin n) es w) : measureExprs m es ≤ b.inside n w := by
  rw [measureExprs_eq]
  exact b.grouped (fun _ _ => b.argument) h

/-- A call is charged to the parenthesis before its arguments. -/
theorem call (he : b.ExprWithin n e v) (h : Grouped (Argument b.ExprWithin n) es w) :
    b.ExprWithin n (e.applyTo es) (v ++ w) := by
  refine Nat.le_trans (Expr.measure_applyTo_le e es) ?_
  cases h with
  | none => exact b.chain he (Nat.zero_le _)
  | some _ hes _ =>
    have hes : m.total (·.measure m) es ≤ b.inside n _ := b.listed (fun _ _ => b.argument) hes
    rw [← measureExprs_eq] at hes
    exact b.chain he (b.le_append_left hes)

theorem block (h : NestedBlock b.StmtWithin n body w) : measureStmts m body ≤ b.inside n w := by
  obtain ⟨k, rfl, h⟩ := h
  rw [measureStmts_eq]
  exact b.row (fun s v hs => Nat.le_trans hs (b.stmt_le k v)) h.each

theorem functionBody (h : FunctionBody b.StmtWithin n params body w) : measureStmts m body ≤ b.inside n w := by
  obtain ⟨-, hbody, -⟩ := h
  exact b.le_append_right (b.le_append_left (b.block hbody))

theorem loopBody (h : LoopBody b.StmtWithin n body w) : measureStmts m body ≤ b.inside n w := by
  obtain ⟨-, hbody, -⟩ := h
  exact b.le_cons (b.le_append_left (b.block hbody))

theorem guarded (h : Guarded b.ExprWithin b.StmtWithin n e body w) :
    m.join (e.measure m) (measureStmts m body) ≤ b.inside n w := by
  obtain ⟨he, -, hbody⟩ := h
  exact b.join_le_append (b.nested he) (b.le_cons (b.block hbody))

theorem arms {bs : List Branch} (h : Row (Arm b.ExprWithin b.StmtWithin n) bs w) :
    measureBranches m bs ≤ b.inside n w := by
  rw [measureBranches_eq]
  refine b.row ?_ h
  rintro _ _ ⟨-, h⟩
  exact b.le_cons (b.guarded h)

theorem otherwise (h : Otherwise b.StmtWithin n body w) : measureStmts m body ≤ b.inside n w := by
  cases h with
  | none => exact Nat.zero_le _
  | some _ hbody => exact b.le_cons (b.block hbody)

theorem step {e : Option Expr} (h : Step b.ExprWithin n e w) : measureExpr? m e ≤ b.inside n w := by
  cases h with
  | none => exact Nat.zero_le _
  | some _ he => exact b.le_cons (b.nested he)

theorem definition (h : FunctionBody b.StmtWithin n params body w) :
    m.node 0 0 (m.node 0 0 (measureStmts m body)) ≤ b.stmt n (t :: (v ++ w)) := by
  have hbody : m.node 0 0 (measureStmts m body) ≤ m.node 0 0 (b.inside n (v ++ w)) :=
    m.node_mono (Nat.le_refl 0) (Nat.le_refl 0) (b.le_append_right (b.functionBody h))
  -- The body takes a level.
  obtain ⟨k, rfl⟩ : ∃ k, n = k + 1 := by
    obtain ⟨-, ⟨k, rfl, -⟩, -⟩ := h
    exact ⟨k, rfl⟩
  exact Nat.le_trans (m.node_mono (Nat.le_refl 0) (Nat.le_refl 0) hbody) (b.definition_le k t (v ++ w))

end

/-- A budget is kept by every way to put a tree together. -/
theorem construction : Construction b.ExprWithin b.FieldsWithin b.StmtWithin where
  leaf h := by cases h <;> exact b.wrap (Nat.zero_le _)
  group _ h _ := by
    obtain ⟨k, rfl, h⟩ := h
    exact Nat.le_trans h (b.group_le k _ _ _)
  unary _ h := b.wrap (b.nested h)
  binary hl _ hr := b.chain hl (b.nested hr)
  call := b.call
  member he _ _ := b.chain he (Nat.zero_le _)
  methodCall he _ _ hargs := by
    rw [ExprWithin, Expr.measure_methodCall_dot]
    exact b.chain he (b.le_cons (b.arguments hargs))
  colonCall he ht _ hargs := b.colon he (b.le_cons (b.arguments hargs)) ht
  function _ h := b.wrap (b.functionBody h)
  table _ hf _ := by
    refine b.wrap (b.le_append_left ?_)
    rwa [measureExprs_reverse]
  noField {n} := by
    rw [FieldsWithin, measureExprs, measureEntries, m.zero_join]
    exact Nat.zero_le _
  element hf _ he := by
    refine Nat.le_trans (Nat.le_of_eq ?_) (b.join_le_append hf (b.nested he))
    rw [measureExprs, m.join_assoc, m.join_comm]
  entry hf _ _ _ he := by
    refine Nat.le_trans ?_ (b.join_le_append hf (b.le_cons (b.le_cons (b.nested he))))
    rw [m.join_assoc, m.join_comm _ (Expr.measure m _)]
    exact m.join_mono (Nat.le_refl _) (measureEntries_insert_le _ _ _)
  comma hf _ := b.le_append_left hf
  expr _ _ he := by
    obtain ⟨k, rfl, he⟩ := he
    exact Nat.le_trans (m.node_mono (Nat.le_refl 0) (Nat.le_refl 0) he) (b.exprStmt_le k _ _)
  assign _ _ he := b.stmtWrap (b.le_cons (b.nested he))
  definition {_ _ u _ _ _} _ _ hbody := b.definition (v := [u]) hbody
  localFunction {_ _ t u _ _ _} _ _ _ hbody := b.definition (v := [t, u]) hbody
  localVar _ _ := b.stmtWrap (Nat.zero_le _)
  localInit _ _ _ he := b.stmtWrap (b.le_cons (b.le_cons (b.nested he)))
  bareReturn _ := b.stmtWrap (Nat.zero_le _)
  ret _ hes := by
    refine b.stmtWrap ?_
    rw [measureExprs_eq]
    exact b.listed (fun _ _ => b.nested) hes
  ifThen _ harm hbs ho _ := by
    refine b.stmtWrap (b.join_le_append (b.guarded harm) ?_)
    exact b.join_le_append (b.arms hbs) (b.le_append_left (b.otherwise ho))
  whileLoop _ he hbody := b.stmtWrap (b.join_le_append (b.nested he) (b.loopBody hbody))
  repeatLoop _ hbody _ he := b.stmtWrap (b.join_le_append (b.block hbody) (b.le_cons (b.nested he)))
  forRange _ _ _ hs _ hl hst hbody := by
    have hrest := b.join_le_append (b.nested hl) (b.join_le_append (b.step hst) (b.loopBody hbody))
    exact b.stmtWrap (b.le_cons (b.le_cons (b.join_le_append (b.nested hs) (b.le_cons hrest))))
  forIn _ _ _ _ he hbody := by
    have hrest := b.join_le_append (b.nested he) (b.loopBody hbody)
    exact b.stmtWrap (b.le_cons (b.le_append_right (b.le_cons hrest)))

/-! ## Programs -/

section
variable {limit : Nat} {ts : List Token} {file : String} {p : List Stmt}

theorem of_mem (hp : parseWithin limit ts file = .ok p) {s : Stmt} (hs : s ∈ p) :
    ∃ w, w.Sublist ts ∧ s.measure m ≤ b.stmt limit w :=
  (b.construction.program hp).each.exists_of_mem hs

theorem program (hp : parseWithin limit ts file = .ok p) : measureStmts m p ≤ b.inside (limit + 1) ts := by
  rw [measureStmts_eq]
  exact b.row (fun s v hs => Nat.le_trans hs (b.stmt_le limit v)) (b.construction.program hp).each

end

end Budget

end MiniLua
