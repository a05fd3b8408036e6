import MiniLua.Proofs.Canonical.RoundTrip
import MiniLua.Proofs.Trees.Budget
import Mathlib.Tactic.Ring
/-!
# The size of trees

A tree has at most two nodes for each token that it was read from, as long as the copies of
receivers in calls with a colon are not counted. A copy holds all copies made before it, so along
a chain of such calls the nodes double with each: with the copies a tree has at most two nodes for
each token, doubled for every colon (`parse_count`). Chains come close to that
(`count_colonChain`), and so no multiple of the length is a bound (`count_not_linear`).
-/

namespace MiniLua

open MiniLua.Parser

/-! ## What the nodes of a tree are charged to -/

/-- How many colons there are. -/
def colons (ts : List Token) : Nat := ts.countP (·.isSymbol ":")

/-- Two nodes for each token, multiplied by each colon. -/
def charge (copies : Nat) (ts : List Token) : Nat := 2 * ts.length * (1 + copies) ^ colons ts

section
variable (copies : Nat) {t : Token} (v w : List Token)

theorem colons_append : colons (v ++ w) = colons v + colons w := List.countP_append

theorem growth_pos : 0 < (1 + copies) ^ colons w := Nat.pow_pos (Nat.add_pos_left Nat.one_pos copies)

theorem charge_append_le : charge copies v + charge copies w ≤ charge copies (v ++ w) := by
  rw [charge, charge, charge, colons_append, Nat.pow_add, List.length_append, Nat.mul_add, Nat.add_mul]
  apply Nat.add_le_add
  · exact Nat.mul_le_mul_left _ (Nat.le_mul_of_pos_right _ (growth_pos copies w))
  · exact Nat.mul_le_mul_left _ (Nat.le_mul_of_pos_left _ (growth_pos copies v))

theorem charge_singleton (t : Token) : 2 ≤ charge copies [t] :=
  Nat.le_mul_of_pos_right 2 (growth_pos copies [t])

/-- A colon pays for as many copies of all that is before it, and for two nodes more. -/
theorem charge_concat_colon (h : t.isSymbol ":" = true) :
    charge copies v + copies * charge copies v + 2 ≤ charge copies (v ++ [t]) := by
  have hcolon : colons [t] = 1 := by simp [colons, h]
  have hpos := Nat.mul_le_mul (growth_pos copies v) (Nat.le_add_right 1 copies)
  rw [charge, charge, colons_append, hcolon, Nat.pow_succ, List.length_append, List.length_singleton]
  calc 2 * v.length * (1 + copies) ^ colons v + copies * (2 * v.length * (1 + copies) ^ colons v) + 2
      = 2 * v.length * ((1 + copies) ^ colons v * (1 + copies)) + 2 * 1 := by ring
    _ ≤ 2 * v.length * ((1 + copies) ^ colons v * (1 + copies)) + 2 * ((1 + copies) ^ colons v * (1 + copies)) := by
        omega
    _ = 2 * (v.length + 1) * ((1 + copies) ^ colons v * (1 + copies)) := by ring

/-- A token more pays for two nodes more. -/
theorem charge_cons (t : Token) : charge copies w + 2 ≤ charge copies (t :: w) := by
  have happend : charge copies [t] + charge copies w ≤ charge copies (t :: w) := charge_append_le copies [t] w
  have := charge_singleton copies t
  omega

theorem charge_between (t : Token) : charge copies v + charge copies w + 2 ≤ charge copies (v ++ t :: w) := by
  have := charge_append_le copies v (t :: w)
  have := charge_cons copies w t
  omega

end

/-- An expression leaves one of its nodes to the statement that it may be. -/
def Budget.count (copies : Nat) : Budget (.count copies) where
  expr _ w := charge copies w - 1
  stmt _ w := charge copies w
  inside _ w := charge copies w
  join_le _ := charge_append_le copies
  lone_le _ t := by
    have := charge_singleton copies t
    simp only [Measure.count_node, Nat.mul_zero]
    omega
  expr_le _ w := by omega
  stmt_le _ w := Nat.le_refl _
  group_le _ t w u := by
    have := charge_cons copies (w ++ [u]) t
    have := charge_append_le copies w [u]
    omega
  wrap_le _ t w := by
    have := charge_cons copies w t
    simp only [Measure.count_node, Nat.mul_zero]
    omega
  chain_le _ v t w := by
    have := charge_between copies v w t
    simp only [Measure.count_node, Nat.mul_zero]
    omega
  colon_le _ v t w ht := by
    have := charge_concat_colon copies v ht
    have happend := charge_append_le copies (v ++ [t]) w
    have := Nat.mul_le_mul_left copies (Nat.sub_le (charge copies v) 1)
    rw [List.append_assoc] at happend
    simp only [Measure.count_node, List.singleton_append] at happend ⊢
    omega
  stmt_wrap_le _ t w := by
    have := charge_cons copies w t
    simp only [Measure.count_node, Nat.mul_zero]
    omega
  exprStmt_le _ t w := by
    have := charge_cons copies w t
    simp only [Measure.count_node, Nat.mul_zero]
    omega
  definition_le _ t w := by
    have := charge_cons copies w t
    simp only [Measure.count_node, Nat.mul_zero]
    omega

/-- Without the copies of receivers a program has two nodes for each token at most, with them as many
doubled for every colon. -/
theorem parse_count {ts : List Token} {file : String} {p : List Stmt} (hp : parse ts file = .ok p) :
    measureStmts (.count 0) p ≤ 2 * ts.length ∧ measureStmts (.count 1) p ≤ 2 * ts.length * 2 ^ colons ts := by
  constructor
  · have hcount : measureStmts (.count 0) p ≤ charge 0 ts := (Budget.count 0).program hp
    rwa [charge, Nat.add_zero, Nat.one_pow, Nat.mul_one] at hcount
  · exact (Budget.count 1).program hp

/-! ## Chains of calls with a colon -/

/-- Calls with a colon, each on what the one before it returns. -/
def colonChain : Nat → Expr
  | 0 => .var "x"
  | n + 1 => .methodCall (colonChain n) "a" [colonChain n] true

theorem colonChain_parensBase (n : Nat) : (colonChain n).parensBase = false := by
  cases n <;> rfl

theorem colonChain_returns (n : Nat) : (colonChain n).Returns 0 := by
  induction n with
  | zero => exact .var "x"
  | succ n ih => exact .colonCall (ih.bare (colonChain_parensBase n)) "a" (by simp)

theorem parse_colonChain (n : Nat) (file : String) :
    parse (blockTokens [.ret [colonChain n]]) file = .ok [.ret [colonChain n]] :=
  parseWithin_ret (colonChain_returns n).nests (by decide) file

/-- Each call adds four tokens. -/
theorem length_colonChain (n : Nat) : (blockTokens [.ret [colonChain n]]).length = 4 * n + 2 := by
  have htokens : (colonChain n).tokens.length = 4 * n + 1 := by
    induction n with
    | zero => rfl
    | succ n ih =>
      simp only [colonChain, Expr.tokens, colonChain_parensBase, parens, eachTokens, List.tail_cons, listTokens, commas]
      simp
      omega
  simp [blockTokens, Stmt.tokens, eachTokens, commas, moreTokens, htokens]

/-- Each call doubles the nodes. -/
theorem count_colonChain (n : Nat) : measureStmts (.count 1) [.ret [colonChain n]] = 2 ^ (n + 1) := by
  have hcount : (colonChain n).measure (.count 1) + 1 = 2 ^ (n + 1) := by
    induction n with
    | zero => rfl
    | succ n ih =>
      simp only [colonChain, Expr.measure, measureExprs, Measure.count_node]
      rw [Nat.pow_succ, ← ih]
      omega
  simpa [measureStmts, Stmt.measure, measureExprs] using hcount

/-- No multiple of the number of tokens is enough for the nodes of all programs. -/
theorem count_not_linear :
    ¬ ∃ c, ∀ ts file p, parse ts file = .ok p → measureStmts (.count 1) p ≤ c * ts.length := by
  rintro ⟨c, h⟩
  have hle := h _ "f" _ (parse_colonChain (2 * c + 3) "f")
  rw [count_colonChain, length_colonChain] at hle
  -- The square of `2 ^ c` is above that of `c + 1`.
  have hsq : (c + 1) * (c + 1) ≤ 2 ^ c * 2 ^ c := Nat.mul_le_mul Nat.lt_two_pow_self Nat.lt_two_pow_self
  have hpow : 2 ^ (2 * c + 3 + 1) = 16 * (2 ^ c * 2 ^ c) := by ring
  have hlength : c * (4 * (2 * c + 3) + 2) < 16 * ((c + 1) * (c + 1)) := by
    ring_nf
    omega
  omega

/-- A `return` of three calls has sixteen nodes, five of them without the copies, and fourteen tokens. -/
theorem parse_count_colonChain :
    measureStmts (.count 0) [.ret [colonChain 3]] ≤ 2 * (blockTokens [.ret [colonChain 3]]).length ∧
      measureStmts (.count 1) [.ret [colonChain 3]] ≤
        2 * (blockTokens [.ret [colonChain 3]]).length * 2 ^ colons (blockTokens [.ret [colonChain 3]]) :=
  parse_count (parse_colonChain 3 "f")

end MiniLua
