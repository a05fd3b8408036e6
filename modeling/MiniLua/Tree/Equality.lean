import MiniLua.Tree.Basic
/-!
# Equality of trees

Trees are equal if they are built alike. `Expr.same` and its companions compare
two trees node by node; `Expr.same_iff` and `Stmt.same_iff` say that they decide
equality, which makes equality of programs decidable.
-/

namespace MiniLua

mutual

def Expr.same : Expr → Expr → Bool
  | .literal a, .literal b => a = b
  | .binary l op r, .binary l' op' r' => l.same l' && op = op' && r.same r'
  | .unary op e, .unary op' e' => op = op' && e.same e'
  | .var a, .var b => a = b
  | .namedCall f as, .namedCall f' as' => f = f' && sameExprs as as'
  | .call e as, .call e' as' => e.same e' && sameExprs as as'
  | .methodCall e m as c, .methodCall e' m' as' c' =>
    e.same e' && m = m' && sameExprs as as' && c = c'
  | .member e m, .member e' m' => e.same e' && m = m'
  | .table es ns, .table es' ns' => sameExprs es es' && sameEntries ns ns'
  | .definition f ps b, .definition f' ps' b' => f = f' && ps = ps' && sameStmts b b'
  | .function ps b, .function ps' b' => ps = ps' && sameStmts b b'
  | _, _ => false

def sameExprs : List Expr → List Expr → Bool
  | [], [] => true
  | e :: es, e' :: es' => e.same e' && sameExprs es es'
  | _, _ => false

def sameExpr? : Option Expr → Option Expr → Bool
  | none, none => true
  | some e, some e' => e.same e'
  | _, _ => false

def Entry.same : Entry → Entry → Bool
  | .mk k e, .mk k' e' => k = k' && e.same e'

def sameEntries : List Entry → List Entry → Bool
  | [], [] => true
  | n :: ns, n' :: ns' => n.same n' && sameEntries ns ns'
  | _, _ => false

def Stmt.same : Stmt → Stmt → Bool
  | .expr e, .expr e' => e.same e'
  | .assign x e, .assign x' e' => x = x' && e.same e'
  | .localVar x e, .localVar x' e' => x = x' && sameExpr? e e'
  | .ret es, .ret es' => sameExprs es es'
  | .ifThen e b bs o, .ifThen e' b' bs' o' =>
    e.same e' && sameStmts b b' && sameBranches bs bs' && sameStmts o o'
  | .whileLoop e b, .whileLoop e' b' => e.same e' && sameStmts b b'
  | .repeatLoop b e, .repeatLoop b' e' => sameStmts b b' && e.same e'
  | .forRange x s l t b, .forRange x' s' l' t' b' =>
    x = x' && s.same s' && l.same l' && sameExpr? t t' && sameStmts b b'
  | .forIn k v e b, .forIn k' v' e' b' => k = k' && v = v' && e.same e' && sameStmts b b'
  | _, _ => false

def sameStmts : List Stmt → List Stmt → Bool
  | [], [] => true
  | s :: ss, s' :: ss' => s.same s' && sameStmts ss ss'
  | _, _ => false

def Branch.same : Branch → Branch → Bool
  | .mk e b, .mk e' b' => e.same e' && sameStmts b b'

def sameBranches : List Branch → List Branch → Bool
  | [], [] => true
  | b :: bs, b' :: bs' => b.same b' && sameBranches bs bs'
  | _, _ => false

end

mutual

theorem Expr.same_iff (a b : Expr) : a.same b ↔ a = b := by
  cases a <;> cases b <;>
    simp [Expr.same, Expr.same_iff, sameExprs_iff, sameEntries_iff, sameStmts_iff, and_assoc]
termination_by structural a

theorem sameExprs_iff (a b : List Expr) : sameExprs a b ↔ a = b := by
  cases a <;> cases b <;> simp [sameExprs, Expr.same_iff, sameExprs_iff]
termination_by structural a

theorem sameExpr?_iff (a b : Option Expr) : sameExpr? a b ↔ a = b := by
  cases a <;> cases b <;> simp [sameExpr?, Expr.same_iff]
termination_by structural a

theorem Entry.same_iff (a b : Entry) : a.same b ↔ a = b := by
  cases a
  cases b
  simp [Entry.same, Expr.same_iff]
termination_by structural a

theorem sameEntries_iff (a b : List Entry) : sameEntries a b ↔ a = b := by
  cases a <;> cases b <;> simp [sameEntries, Entry.same_iff, sameEntries_iff]
termination_by structural a

theorem Stmt.same_iff (a b : Stmt) : a.same b ↔ a = b := by
  cases a <;> cases b <;>
    simp [Stmt.same, Expr.same_iff, sameExprs_iff, sameExpr?_iff, sameStmts_iff, sameBranches_iff,
      and_assoc]
termination_by structural a

theorem sameStmts_iff (a b : List Stmt) : sameStmts a b ↔ a = b := by
  cases a <;> cases b <;> simp [sameStmts, Stmt.same_iff, sameStmts_iff]
termination_by structural a

theorem Branch.same_iff (a b : Branch) : a.same b ↔ a = b := by
  cases a
  cases b
  simp [Branch.same, Expr.same_iff, sameStmts_iff]
termination_by structural a

theorem sameBranches_iff (a b : List Branch) : sameBranches a b ↔ a = b := by
  cases a <;> cases b <;> simp [sameBranches, Branch.same_iff, sameBranches_iff]
termination_by structural a

end

instance : DecidableEq Expr := fun a b => decidable_of_iff _ (Expr.same_iff a b)

instance : DecidableEq Stmt := fun a b => decidable_of_iff _ (Stmt.same_iff a b)

end MiniLua
