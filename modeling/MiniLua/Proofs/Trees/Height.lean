import MiniLua.Proofs.Canonical.RoundTrip
import MiniLua.Proofs.Trees.Budget
/-!
# The height of trees

Levels of nesting bound how far in a tree goes, not how high it is. An operator or a link is put
behind what was read so far in a loop that opens no level, and makes the tree one node higher
each time. If the steps down these chains are not counted, no tree has more than two nodes on a
way down for each level (`parse_depth`); a whole chain may be as long as the input, so the height
has no bound (`height_unbounded`).
-/

namespace MiniLua

open MiniLua.Parser

/-! ## Bounds -/

namespace Budget

/-- Two nodes for each level: a statement and the function that it defines. -/
def depth : Budget .depth where
  expr n _ := 2 * n + 2
  stmt n _ := 2 * n + 2
  inside n _ := max (2 * n) 1
  join_le := by simp only [Measure.depth_join]; omega
  lone_le := by simp only [Measure.depth_node]; omega
  expr_le := by omega
  stmt_le := by omega
  group_le := by omega
  wrap_le := by simp only [Measure.depth_node]; omega
  chain_le := by simp only [Measure.depth_node]; omega
  colon_le := by simp only [Measure.depth_node]; omega
  stmt_wrap_le := by simp only [Measure.depth_node]; omega
  exprStmt_le := by simp only [Measure.depth_node]; omega
  definition_le := by simp only [Measure.depth_node]; omega

/-- Two nodes for each token. -/
def height : Budget .height where
  expr _ w := 2 * w.length - 1
  stmt _ w := 2 * w.length
  inside _ w := 2 * w.length
  join_le := by simp only [Measure.height_join, List.length_append]; omega
  lone_le := by simp only [Measure.height_node, List.length_singleton]; omega
  expr_le := by omega
  stmt_le := by omega
  group_le := by simp only [List.length_cons, List.length_append]; omega
  wrap_le := by simp only [Measure.height_node, List.length_cons]; omega
  chain_le := by simp only [Measure.height_node, List.length_cons, List.length_append]; omega
  colon_le := by simp only [Measure.height_node, List.length_cons, List.length_append]; omega
  stmt_wrap_le := by simp only [Measure.height_node, List.length_cons]; omega
  exprStmt_le := by simp only [Measure.height_node, List.length_cons]; omega
  definition_le := by simp only [Measure.height_node, List.length_cons]; omega

end Budget

/-- Without the steps to a base or its copy, the way down a tree that is read is bounded by the limit of nesting.
With them it is at most twice as long as the input. -/
theorem parse_depth {ts : List Token} {file : String} {p : List Stmt} (hp : parse ts file = .ok p) {s : Stmt} (hs : s ∈ p) :
    s.measure .depth ≤ 2 * maxNesting + 2 ∧ s.measure .height ≤ 2 * ts.length := by
  obtain ⟨v, -, hdepth⟩ := Budget.depth.of_mem hp hs
  obtain ⟨w, hw, hheight⟩ := Budget.height.of_mem hp hs
  exact ⟨hdepth, Nat.le_trans hheight (Nat.mul_le_mul_left 2 hw.length_le)⟩

/-! ## Chains of links -/

/-- A name with members of members. -/
def memberChain : Nat → Expr
  | 0 => .var "x"
  | n + 1 => .member (memberChain n) "a"

theorem memberChain_parensBase (n : Nat) : (memberChain n).parensBase = false := by
  cases n <;> rfl

theorem memberChain_returns (n : Nat) : (memberChain n).Returns 0 := by
  induction n with
  | zero => exact .var "x"
  | succ n ih => exact .member (ih.bare (memberChain_parensBase n)) "a"

/-- A chain takes one level of nesting, however long it is. -/
theorem parse_memberChain (n : Nat) (file : String) :
    parse (blockTokens [.ret [memberChain n]]) file = .ok [.ret [memberChain n]] :=
  parseWithin_ret (memberChain_returns n).nests (by decide) file

theorem height_memberChain (n : Nat) : (memberChain n).measure .height = n + 1 := by
  induction n with
  | zero => rfl
  | succ n ih => simp [memberChain, Expr.measure, ih]

/-- No number of nodes is enough for the height of all trees that are read. -/
theorem height_unbounded :
    ¬ ∃ bound, ∀ ts file p, parse ts file = .ok p → ∀ s ∈ p, s.measure .height ≤ bound := by
  rintro ⟨bound, h⟩
  have hle := h _ "f" _ (parse_memberChain bound "f") _ List.mem_cons_self
  have hlt : bound < (Stmt.ret [memberChain bound]).measure .height := by
    simp only [Stmt.measure, measureExprs, height_memberChain, Measure.height_node, Measure.height_join]
    omega
  omega

/-- The depth of a chain of three members in a `return` is two, its height five. -/
theorem parse_depth_memberChain :
    (Stmt.ret [memberChain 3]).measure .depth ≤ 2 * maxNesting + 2 ∧
      (Stmt.ret [memberChain 3]).measure .height ≤ 2 * (blockTokens [.ret [memberChain 3]]).length :=
  parse_depth (parse_memberChain 3 "f") List.mem_cons_self

end MiniLua
