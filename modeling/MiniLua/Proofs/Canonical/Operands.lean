import MiniLua.Proofs.Canonical.Rereading
import MiniLua.Proofs.Syntax.Sound
/-!
# Operators and links of a written expression

`Expr.Returns n` says that the tokens of an expression are read as it where an operand and its
operators are read, with `n` levels of nesting left or more. Each way to build an expression
keeps it if the parts have it: a part in parentheses with a level less, a part without them
because the operators around it leave it together, which is what the rules for parentheses
come to (`parensRight_eq`, `fits_binary`, `fits_of_noTighter`).
-/

namespace MiniLua

open MiniLua.Parser MiniLua.Syntax

variable {n m k : Nat} {e l r : Expr} {op o : BinaryOp} {bound : Precedence} {t : Token} {ts us : List Token}

/-- One level more than an expression and its operators take. -/
theorem ofLevels_expr_eq_ok {r : Expr × List Token} :
    (Inner.ofLevels (n + 1)).expr bound ts = .ok r ↔ climb (.ofLevels n) bound ts = .ok r :=
  (endsAs_nested _ _).ok_iff

/-! ## Binding strength -/

theorem BinaryOp.level_le (op : BinaryOp) : op.precedence.level ≤ 8 := by
  cases op <;> decide

theorem BinaryOp.eq_pow_iff : op = .pow ↔ op.precedence.level = 8 := by
  cases op <;> decide

theorem Precedence.level_inj {p q : Precedence} : p = q ↔ p.level = q.level := by
  constructor
  · rintro rfl
    rfl
  · intro h
    have := congrArg ofLevel? h
    rw [ofLevel?_level, ofLevel?_level] at this
    exact Option.some.inj this

theorem rightBound_level (op : BinaryOp) :
    (rightBound op op.precedence).level = if op.precedence.level = 8 then 7 else op.precedence.level := by
  cases op <;> rfl

theorem rightBound_le (op : BinaryOp) : rightBound op op.precedence ≤ .unary := by
  cases op <;> decide

/-- No operator comes next that binds tighter than a bound. -/
abbrev NoTighter (bound : Precedence) : List Token → Prop :=
  Ahead fun t => ∀ op, BinaryOp.ofToken? t = some op → op.precedence ≤ bound

theorem repeating_of_noTighter (inner : Inner) (h : NoTighter bound us) (e : Expr) :
    repeating (tighter? inner bound) e us = .ok (e, us) := by
  cases us with
  | nil => rfl
  | cons t us => exact repeating_of_none (tighter?_eq_none_iff.2 (ahead_cons.1 h)) e us

theorem links_of_unlinked (inner : Inner) (h : Unlinked us) (e : Expr) : links inner e us = .ok (e, us) := by
  cases us with
  | nil => rfl
  | cons t us => exact links_of_none (link?_eq_none_iff.2 (ahead_cons.1 h)) us

namespace Expr

/-- Whether an expression binds no tighter than a bound. -/
def loose (bound : Precedence) : Expr → Bool
  | binary _ o _ => o.precedence ≤ bound
  | _ => false

@[simp] theorem loose_lowest (e : Expr) : e.loose .lowest = false := by
  cases e with
  | binary l o r => cases o <;> rfl
  | _ => rfl

theorem parensRight_eq (op : BinaryOp) (e : Expr) : e.parensRight op = e.loose (rightBound op op.precedence) := by
  cases e with
  | binary l o r =>
    have hp : ∀ o : BinaryOp, o = .pow ↔ o.precedence.level = 8 := fun _ => BinaryOp.eq_pow_iff
    rw [Bool.eq_iff_iff]
    simp only [parensRight, loose, Bool.or_eq_true, Bool.and_eq_true, decide_eq_true_eq, Precedence.level_inj,
      Precedence.le_iff, rightBound_level, ne_eq, hp]
    have := o.level_le
    split <;> omega
  | _ => rfl

theorem parensUnary_eq (e : Expr) : e.parensUnary = e.loose .unary := by
  cases e with
  | binary l o r => cases o <;> rfl
  | _ => rfl

/-- What binds tighter than a bound and needs no parentheses before an operator that does. -/
theorem loose_of_parensLeft (hop : ¬ op.precedence ≤ bound) (he : e.parensLeft op = false) : e.loose bound = false := by
  cases e with
  | binary l o r =>
    simp only [parensLeft, loose, Bool.or_eq_false_iff, decide_eq_false_iff_not, Precedence.le_iff] at hop he ⊢
    omega
  | _ => rfl

/-- No operator comes next that would take a part of the expression. -/
abbrev Fits (e : Expr) : List Token → Prop :=
  Ahead fun t => ∀ op, BinaryOp.ofToken? t = some op → e.parensLeft op = false

theorem fits_binary : (binary l op r).Fits us ↔ NoTighter (rightBound op op.precedence) us := by
  have hiff : ∀ o, (binary l op r).parensLeft o = false ↔ o.precedence ≤ rightBound op op.precedence := by
    intro o
    have hp : o = .pow ↔ o.precedence.level = 8 := BinaryOp.eq_pow_iff
    simp only [parensLeft, Bool.or_eq_false_iff, Bool.and_eq_false_imp, decide_eq_false_iff_not, decide_eq_true_eq,
      Precedence.level_inj, Precedence.le_iff, rightBound_level, hp]
    have := o.level_le
    split <;> omega
  simp only [Ahead, hiff]

theorem fits_unary {op : UnaryOp} : (unary op e).Fits us ↔ NoTighter .unary us := by
  have hiff : ∀ o, (unary op e).parensLeft o = false ↔ o.precedence ≤ .unary := by
    intro o
    have hp : o = .pow ↔ o.precedence.level = 8 := BinaryOp.eq_pow_iff
    have hu : Precedence.unary.level = 7 := rfl
    have := o.level_le
    simp only [parensLeft, decide_eq_false_iff_not, hp, Precedence.le_iff]
    omega
  simp only [Ahead, hiff]

/-- What is no operator is left together by every operator. -/
theorem fits_of_base (he : e.parensBase = false) : e.Fits us := by
  intro t us _ op _
  cases e with
  | binary | unary => cases he
  | _ => rfl

/-- Where no tighter operator follows, none takes a part of what binds tighter. -/
theorem fits_of_noTighter (hb : bound ≤ .unary) (he : e.loose bound = false) (h : NoTighter bound us) : e.Fits us := by
  refine h.mono fun t ht op hop => ?_
  have ht := ht op hop
  have hp : op = .pow ↔ op.precedence.level = 8 := BinaryOp.eq_pow_iff
  have hu : Precedence.unary.level = 7 := rfl
  cases e with
  | binary l o r =>
    simp only [loose, parensLeft, decide_eq_false_iff_not, Bool.or_eq_false_iff, Bool.and_eq_false_imp, decide_eq_true_eq,
      Precedence.level_inj, Precedence.le_iff] at *
    omega
  | unary =>
    simp only [parensLeft, decide_eq_false_iff_not, hp, Precedence.le_iff] at *
    omega
  | _ => rfl

/-! ## What the tokens return -/

/-- No call follows that would make a method call of a member. -/
def Callable (e : Expr) (us : List Token) : Prop :=
  e.parensCallee = true → Ahead (fun t => t.isSymbol "(" = false) us

/-- With `n` levels left, the tokens of an expression are read as it. A name, call or member
takes the links that follow, and every expression the operators that follow. -/
structure Returns (n : Nat) (e : Expr) : Prop where
  base : e.parensBase = false → ∀ k, n ≤ k → ∀ us, e.Callable us →
    operand (.ofLevels k) (e.tokens ++ us) = links (.ofLevels k) e us
  climb : ∀ k, n ≤ k → ∀ bound us, e.loose bound = false → e.Fits us → Unlinked us →
    climb (.ofLevels k) bound (e.tokens ++ us) = repeating (tighter? (.ofLevels k) bound) e us

/-- The same for an expression that may stand in parentheses, which take a level. -/
def ReturnsIn (n : Nat) (needed : Bool) (e : Expr) : Prop :=
  e.Returns n ∧ (needed = true → ∃ m, n = m + 1 ∧ e.Returns m)

theorem Returns.mono (h : e.Returns m) (hmn : m ≤ n) : e.Returns n where
  base hb k hk := h.base hb k (Nat.le_trans hmn hk)
  climb k hk := h.climb k (Nat.le_trans hmn hk)

theorem Returns.wrapped (h : e.Returns m) (needed : Bool) : e.ReturnsIn (m + 1) needed :=
  ⟨h.mono (Nat.le_succ m), fun _ => ⟨m, rfl, h⟩⟩

theorem Returns.bare (h : e.Returns n) {needed : Bool} (hn : needed = false) : e.ReturnsIn n needed :=
  ⟨h, fun hn' => by rw [hn] at hn'; cases hn'⟩

/-- An operand that is read whatever follows it, links and `^` apart. -/
theorem Returns.of_operand (hb : e.parensBase = true)
    (h : ∀ k, n ≤ k → (operand (.ofLevels k)).ReadsAs e.tokens e fun us => e.Fits us ∧ Unlinked us) : e.Returns n where
  base hb' := by
    rw [hb] at hb'
    cases hb'
  climb k hk bound us _ hf hu := by
    rw [Parser.climb, bind_run, h k hk us ⟨hf, hu⟩]

/-- A name, call or member is the operand up to where its links end. -/
theorem Returns.of_base
    (h : ∀ k, n ≤ k → ∀ us, e.Callable us → operand (.ofLevels k) (e.tokens ++ us) = links (.ofLevels k) e us) :
    e.Returns n where
  base _ := h
  climb k hk bound us _ _ hu := by
    rw [Parser.climb, bind_run, h k hk us fun _ => hu.mono fun _ ht => ht.1, links_of_unlinked _ hu]

/-! ## Parentheses -/

/-- Parentheses around an expression, with a level more for what is in them. -/
theorem Returns.grouping (h : e.Returns m) (hk : m < k) {F : List Token → Prop} :
    (Parser.grouping (.ofLevels k)).ReadsAs (parens true e.tokens) e F := by
  obtain ⟨k, rfl⟩ := Nat.exists_eq_add_one_of_ne_zero (Nat.ne_zero_of_lt hk)
  refine (readsAs_symbol "(").bind_token (ReadsAs.bind (F := fun ts => ∃ us, ts = .plain .symbol ")" :: us) ?_
    ((readsAs_symbol ")").bind_pure) fun us _ => ⟨us, rfl⟩)
  refine ReadsAs.nested ?_
  rintro _ ⟨us, rfl⟩
  have hnone : NoTighter .lowest (.plain .symbol ")" :: us) := ahead_cons.2 (by intro op hop; cases hop)
  rw [h.climb k (Nat.le_of_lt_succ hk) .lowest _ e.loose_lowest
    (fits_of_noTighter (by decide) e.loose_lowest hnone) (ahead_cons.2 (by decide))]
  exact repeating_of_noTighter _ hnone e

/-- An operand that needs parentheses or is read up to where its links end. -/
theorem ReturnsIn.operand {needed : Bool} (h : e.ReturnsIn n needed) (hb : needed = false → e.parensBase = false)
    (hk : n ≤ k) (hc : needed = false → e.Callable us) :
    Parser.operand (.ofLevels k) (parens needed e.tokens ++ us) = links (.ofLevels k) e us := by
  cases needed with
  | false => exact h.1.base (hb rfl) k hk us (hc rfl)
  | true =>
    obtain ⟨m, rfl, hm⟩ := h.2 rfl
    have hstart : Parser.operand (.ofLevels k) (parens true e.tokens ++ us) =
        (Parser.grouping (.ofLevels k) >>= links (.ofLevels k)) (parens true e.tokens ++ us) := operand_group rfl _
    rw [hstart, bind_run, hm.grouping hk (F := fun _ => True) us trivial]

theorem Returns.climb_wrapped (h : e.Returns m) (hk : m < k) (hu : Unlinked us) :
    Parser.climb (.ofLevels k) bound (parens true e.tokens ++ us) = repeating (tighter? (.ofLevels k) bound) e us := by
  have ho : Parser.operand (.ofLevels k) (parens true e.tokens ++ us) = links (.ofLevels k) e us :=
    (h.wrapped true).operand (by intro hn; cases hn) (Nat.succ_le_of_lt hk) (by intro hn; cases hn)
  rw [Parser.climb, bind_run, ho, links_of_unlinked _ hu]

/-! ## Operators -/

/-- The left side of an operator is read up to the operator. -/
theorem ReturnsIn.climb_left (h : l.ReturnsIn n (l.parensLeft op)) (hk : n ≤ k) (hop : ¬ op.precedence ≤ bound)
    (ts : List Token) :
    Parser.climb (.ofLevels k) bound (parens (l.parensLeft op) l.tokens ++ op.token :: ts) =
      repeating (tighter? (.ofLevels k) bound) l (op.token :: ts) := by
  have hu : Unlinked (op.token :: ts) := by
    refine ahead_cons.2 ⟨?_, ?_, ?_⟩ <;> exact isSymbol_of_binaryOp (Syntax.Terminal.binaryOp_iff.2 ⟨op, BinaryOp.ofToken?_token op⟩) _
  cases hp : l.parensLeft op with
  | true =>
    obtain ⟨m, rfl, hm⟩ := h.2 hp
    exact hm.climb_wrapped (Nat.lt_of_succ_le hk) hu
  | false =>
    refine h.1.climb k hk bound _ (loose_of_parensLeft hop hp) (ahead_cons.2 fun o ho => ?_) hu
    rw [BinaryOp.ofToken?_token] at ho
    cases ho
    exact hp

/-- The right side of an operator is read up to the next one that does not bind tighter. -/
theorem ReturnsIn.climb_right (h : e.ReturnsIn n (e.loose bound)) (hb : bound ≤ .unary) (hk : n ≤ k) :
    (Parser.climb (.ofLevels k) bound).ReadsAs (parens (e.loose bound) e.tokens) e
      fun us => NoTighter bound us ∧ Unlinked us := by
  rintro us ⟨hn, hu⟩
  have hstop := repeating_of_noTighter (.ofLevels k) hn e
  cases hp : e.loose bound with
  | true =>
    obtain ⟨m, rfl, hm⟩ := h.2 hp
    exact (hm.climb_wrapped (Nat.lt_of_succ_le hk) hu).trans hstop
  | false => exact (h.1.climb k hk bound us hp (fits_of_noTighter hb hp hn) hu).trans hstop

theorem Returns.binary (hl : l.ReturnsIn (m + 1) (l.parensLeft op)) (hr : r.ReturnsIn m (r.parensRight op)) :
    (binary l op r).Returns (m + 1) where
  base hb := by cases hb
  climb k hk bound us hloose hfits hu := by
    obtain ⟨k, rfl⟩ := Nat.exists_eq_add_one_of_ne_zero (Nat.ne_zero_of_lt hk)
    have hop : ¬ op.precedence ≤ bound := of_decide_eq_false hloose
    rw [parensRight_eq] at hr
    have hround : (Parser.binary (.ofLevels (k + 1)) l op op.precedence).ReadsAs
        (op.token :: parens (r.loose (rightBound op op.precedence)) r.tokens) (Expr.binary l op r)
        fun us => NoTighter (rightBound op op.precedence) us ∧ Unlinked us :=
      (readsAs_next _).bind_token (hr.climb_right (rightBound_le op) (Nat.le_of_succ_le_succ hk)).nested.bind_pure
    rw [tokens, parensRight_eq, List.append_assoc, List.cons_append, hl.climb_left hk hop,
      repeating_of_some (progressive_tighter (Inner.ofLevels_takes _).zero bound) (tighter?_of_lt _ (BinaryOp.ofToken?_token op) hop),
      bind_run, ← List.cons_append, hround us ⟨fits_binary.1 hfits, hu⟩]

theorem Returns.unary {op : UnaryOp} (h : e.ReturnsIn m e.parensUnary) : (unary op e).Returns (m + 1) := by
  refine .of_operand rfl fun k hk us hus => ?_
  obtain ⟨k, rfl⟩ := Nat.exists_eq_add_one_of_ne_zero (Nat.ne_zero_of_lt hk)
  rw [parensUnary_eq] at h
  have hread := (h.climb_right (by decide) (Nat.le_of_succ_le_succ hk)).nested.bind_pure (c := Expr.unary op)
  rw [tokens, parensUnary_eq, List.cons_append, operand_unary (UnaryOp.ofToken?_token op)]
  exact hread us ⟨fits_unary.1 hus.1, hus.2⟩

theorem Returns.literal (v : Literal) : (literal v).Returns n :=
  .of_operand rfl fun _ _ us _ => operand_literal (Literal.ofToken?_token v) us

theorem Returns.var (x : String) : (var x).Returns n :=
  .of_base fun _ _ us _ => operand_name rfl us

end Expr
end MiniLua
