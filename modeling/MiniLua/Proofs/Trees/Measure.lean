import MiniLua.Tree.Entries
/-!
# Measures of trees

A measure goes up from the leaves of a tree and takes at each node what it found on the
children. It tells three kinds of them apart: the *base*, which is what an operator or a link
was put behind, the *copy* of it that a call with a colon holds among its arguments, and all
that stands *inside*. The nodes are expressions and statements; named entries and `elseif` arms
are none, what they hold counts as standing inside the node around them.
-/

namespace MiniLua

/-- How to measure trees. The order of children does not matter, and none can be made up for. -/
structure Measure where
  /-- Of two children that stand inside, or of two groups of them. -/
  join : Nat → Nat → Nat
  /-- Of a node, from its base, the copy of it and what stands inside. -/
  node : (base copy inside : Nat) → Nat
  zero_join : ∀ a, join 0 a = a
  join_comm : ∀ a b, join a b = join b a
  join_assoc : ∀ a b c, join (join a b) c = join a (join b c)
  join_mono : ∀ {a a' b b'}, a ≤ a' → b ≤ b' → join a b ≤ join a' b'
  node_mono : ∀ {a a' b b' c c'}, a ≤ a' → b ≤ b' → c ≤ c' → node a b c ≤ node a' b' c'

namespace Measure

/-- The number of nodes on the longest way down. -/
def height : Measure where
  join := max
  node base copy inside := max (max base copy) inside + 1
  zero_join := by omega
  join_comm := by omega
  join_assoc := by omega
  join_mono := by omega
  node_mono := by omega

/-- The height if no step to a base or its copy is counted. -/
def depth : Measure where
  join := max
  node base copy inside := max (max base copy) (inside + 1)
  zero_join := by omega
  join_comm := by omega
  join_assoc := by omega
  join_mono := by omega
  node_mono := by omega

/-- The number of nodes, with those of a copy counted so many times. -/
def count (copies : Nat) : Measure where
  join := (· + ·)
  node base copy inside := base + copies * copy + inside + 1
  zero_join := by omega
  join_comm := by omega
  join_assoc := by omega
  join_mono := by omega
  node_mono ha hb hc := by
    have := Nat.mul_le_mul_left copies hb
    omega

@[simp] theorem height_join (a b : Nat) : height.join a b = max a b := rfl

@[simp] theorem height_node (base copy inside : Nat) : height.node base copy inside = max (max base copy) inside + 1 := rfl

@[simp] theorem depth_join (a b : Nat) : depth.join a b = max a b := rfl

@[simp] theorem depth_node (base copy inside : Nat) :
    depth.node base copy inside = max (max base copy) (inside + 1) := rfl

@[simp] theorem count_join (copies a b : Nat) : (count copies).join a b = a + b := rfl

@[simp] theorem count_node (copies base copy inside : Nat) :
    (count copies).node base copy inside = base + copies * copy + inside + 1 := rfl

end Measure

/-! ## The measure of a tree -/

mutual

def Expr.measure (m : Measure) : Expr → Nat
  | .literal _ => m.node 0 0 0
  | .binary l _ r => m.node (l.measure m) 0 (r.measure m)
  | .unary _ e => m.node 0 0 (e.measure m)
  | .var _ => m.node 0 0 0
  | .namedCall _ args => m.node 0 0 (measureExprs m args)
  | .call e args => m.node (e.measure m) 0 (measureExprs m args)
  | .methodCall e _ (copy :: args) true => m.node (e.measure m) (copy.measure m) (measureExprs m args)
  | .methodCall e _ args _ => m.node (e.measure m) 0 (measureExprs m args)
  | .member e _ => m.node (e.measure m) 0 0
  | .table elements entries => m.node 0 0 (m.join (measureExprs m elements) (measureEntries m entries))
  | .definition _ _ body => m.node 0 0 (measureStmts m body)
  | .function _ body => m.node 0 0 (measureStmts m body)

def measureExprs (m : Measure) : List Expr → Nat
  | [] => 0
  | e :: es => m.join (e.measure m) (measureExprs m es)

def measureExpr? (m : Measure) : Option Expr → Nat
  | none => 0
  | some e => e.measure m

def Entry.measure (m : Measure) : Entry → Nat
  | .mk _ e => e.measure m

def measureEntries (m : Measure) : List Entry → Nat
  | [] => 0
  | n :: ns => m.join (n.measure m) (measureEntries m ns)

def Stmt.measure (m : Measure) : Stmt → Nat
  | .expr e => m.node 0 0 (e.measure m)
  | .assign _ e => m.node 0 0 (e.measure m)
  | .localVar _ e => m.node 0 0 (measureExpr? m e)
  | .ret es => m.node 0 0 (measureExprs m es)
  | .ifThen e body bs otherwise =>
    m.node 0 0 (m.join (m.join (e.measure m) (measureStmts m body))
      (m.join (measureBranches m bs) (measureStmts m otherwise)))
  | .whileLoop e body => m.node 0 0 (m.join (e.measure m) (measureStmts m body))
  | .repeatLoop body e => m.node 0 0 (m.join (measureStmts m body) (e.measure m))
  | .forRange _ start limit step body =>
    m.node 0 0 (m.join (start.measure m)
      (m.join (limit.measure m) (m.join (measureExpr? m step) (measureStmts m body))))
  | .forIn _ _ e body => m.node 0 0 (m.join (e.measure m) (measureStmts m body))

def measureStmts (m : Measure) : List Stmt → Nat
  | [] => 0
  | s :: ss => m.join (s.measure m) (measureStmts m ss)

def Branch.measure (m : Measure) : Branch → Nat
  | .mk e body => m.join (e.measure m) (measureStmts m body)

def measureBranches (m : Measure) : List Branch → Nat
  | [] => 0
  | b :: bs => m.join (b.measure m) (measureBranches m bs)

end

variable {m : Measure} {a b k : Nat} {e : Expr}

namespace Measure

theorem le_join_left : a ≤ m.join a b := by
  have := m.join_mono (Nat.le_refl a) (Nat.zero_le b)
  rwa [m.join_comm, m.zero_join] at this

theorem le_join_right : b ≤ m.join a b := by
  rw [m.join_comm]
  exact le_join_left

theorem join_left_comm (a b c : Nat) : m.join a (m.join b c) = m.join b (m.join a c) := by
  rw [← m.join_assoc, m.join_comm a b, m.join_assoc]

end Measure

/-- The measure of a list from that of its members. -/
def Measure.total {α : Type} (m : Measure) (f : α → Nat) (as : List α) : Nat :=
  as.foldr (fun a n => m.join (f a) n) 0

theorem measureExprs_eq (es : List Expr) : measureExprs m es = m.total (·.measure m) es := by
  induction es with
  | nil => rfl
  | cons e es ih => rw [measureExprs, ih]; rfl

theorem measureStmts_eq (ss : List Stmt) : measureStmts m ss = m.total (·.measure m) ss := by
  induction ss with
  | nil => rfl
  | cons s ss ih => rw [measureStmts, ih]; rfl

theorem measureBranches_eq (bs : List Branch) : measureBranches m bs = m.total (·.measure m) bs := by
  induction bs with
  | nil => rfl
  | cons b bs ih => rw [measureBranches, ih]; rfl

theorem measureExprs_reverse (es : List Expr) : measureExprs m es.reverse = measureExprs m es := by
  rw [measureExprs_eq, measureExprs_eq, Measure.total, Measure.total]
  refine (List.reverse_perm es).foldr_eq' (fun _ _ _ _ _ => ?_) 0
  exact Measure.join_left_comm _ _ _

/-- An entry that takes another's place counts instead of it. -/
theorem measureEntries_insert_le (key : String) (e : Expr) (ns : List Entry) :
    measureEntries m (Entry.insert key e ns) ≤ m.join (e.measure m) (measureEntries m ns) := by
  induction ns with
  | nil => exact Nat.le_refl _
  | cons n ns ih =>
    rw [Entry.insert, measureEntries]
    split
    · exact Nat.le_refl _
    · split
      · exact m.join_mono (Nat.le_refl _) Measure.le_join_right
      · rw [measureEntries, Measure.join_left_comm]
        exact m.join_mono (Nat.le_refl _) ih

/-- A call by name has one node less than a call of that name would have. -/
theorem Expr.measure_applyTo_le (e : Expr) (args : List Expr) :
    (e.applyTo args).measure m ≤ m.node (e.measure m) 0 (measureExprs m args) := by
  cases e with
  | var x => exact m.node_mono (Nat.zero_le _) (Nat.le_refl 0) (Nat.le_refl _)
  | _ => exact Nat.le_refl _

@[simp] theorem Expr.measure_methodCall_dot (e : Expr) (x : String) (args : List Expr) :
    (Expr.methodCall e x args false).measure m = m.node (e.measure m) 0 (measureExprs m args) := by
  cases args <;> rfl

end MiniLua
