import MiniLua.Proofs.Reading.Progress
/-!
# What the first tokens decide

An operand that starts with a constant or a name is read as one, and where the token
after it neither links nor operates, it is the whole expression. So the two tokens that
an argument, a field and a statement look at never lead elsewhere than reading the
expression does.
-/

namespace MiniLua

/-- A token of a kind and a text, wherever it stands. -/
def Token.plain (kind : Token.Kind) (value : String) : Token := ⟨kind, value, .ofNat defaultFile 0 0⟩

theorem UnaryOp.text_of_ofToken? {t : Token} {op : UnaryOp} (h : ofToken? t = some op) :
    (t.kind = .operator ∨ t.kind = .keyword) ∧ t.value = op.text := by
  have htext : ∀ s, ofText? s = some op → s = op.text := by
    intro s hs
    unfold ofText? at hs
    split at hs <;> cases hs <;> rfl
  unfold ofToken? at h
  split at h
  · exact ⟨.inl ‹_›, htext _ h⟩
  · exact ⟨.inr ‹_›, htext _ h⟩
  · cases h

theorem BinaryOp.text_of_ofToken? {t : Token} {op : BinaryOp} (h : ofToken? t = some op) :
    (t.kind = .operator ∨ t.kind = .keyword) ∧ t.value = op.text := by
  have htext : ∀ s, ofText? s = some op → s = op.text := by
    intro s hs
    unfold ofText? at hs
    split at hs <;> cases hs <;> rfl
  unfold ofToken? at h
  split at h
  · exact ⟨.inl ‹_›, htext _ h⟩
  · exact ⟨.inr ‹_›, htext _ h⟩
  · cases h

namespace Parser

variable {inner : Inner} {bound : Precedence} {t u : Token} {ts us : List Token} {e : Expr}

/-! ## One token -/

theorem isSymbol_iff {text : String} : t.isSymbol text = true ↔ t.kind = .symbol ∧ t.value = text := Token.is_iff

theorem isKeyword_iff {word : String} : t.isKeyword word = true ↔ t.kind = .keyword ∧ t.value = word := Token.is_iff

theorem isOperator_iff {text : String} : t.isOperator text = true ↔ t.kind = .operator ∧ t.value = text := Token.is_iff

theorem keyword_eq_ok {word : String} : keyword word ts = .ok (t, us) ↔ ts = t :: us ∧ t.isKeyword word = true :=
  satisfy_eq_ok

theorem symbol_eq_ok {text : String} : symbol text ts = .ok (t, us) ↔ ts = t :: us ∧ t.isSymbol text = true :=
  satisfy_eq_ok

theorem check_true {α : Type} {p q : Parser α} {test : Token → Bool} {s : List Token} (h : s.head?.any test = true) :
    (check test >>= fun b => if b then p else q) s = p s := by
  simp only [bind_run, check, h, if_true]

theorem check_false {α : Type} {p q : Parser α} {test : Token → Bool} {s : List Token} (h : s.head?.any test = false) :
    (check test >>= fun b => if b then p else q) s = q s := by
  simp only [bind_run, check, h, Bool.false_eq_true, if_false]

theorem link?_eq_none_iff :
    link? inner t = none ↔ t.isSymbol "(" = false ∧ t.isSymbol "." = false ∧ t.isSymbol ":" = false := by
  unfold link?
  grind

theorem tighter?_eq_none_iff :
    tighter? inner bound t = none ↔ ∀ op, BinaryOp.ofToken? t = some op → op.precedence ≤ bound := by
  unfold tighter?
  cases BinaryOp.ofToken? t with
  | none => simp
  | some op => by_cases h : op.precedence ≤ bound <;> simp [h]

theorem tighter?_of_lt (inner : Inner) {op : BinaryOp} (h : BinaryOp.ofToken? t = some op) (hb : ¬ op.precedence ≤ bound) :
    tighter? inner bound t = some fun left => binary inner left op op.precedence := by
  simp [tighter?, h, hb]

/-- Every operator binds tighter than nothing. -/
theorem ofToken?_of_tighter?_lowest (h : tighter? inner .lowest t = none) : BinaryOp.ofToken? t = none := by
  cases ho : BinaryOp.ofToken? t with
  | none => rfl
  | some op =>
    have := tighter?_eq_none_iff.1 h op ho
    cases op <;> revert this <;> decide

/-- A token that does not continue an expression links nothing and is no operator. -/
theorem continuesExpr_eq_false_iff (inner : Inner) :
    continuesExpr t = false ↔ link? inner t = none ∧ BinaryOp.ofToken? t = none := by
  rw [link?_eq_none_iff]
  simp [continuesExpr, and_assoc]

theorem links_of_none (h : link? inner u = none) (us : List Token) : links inner e (u :: us) = .ok (e, u :: us) :=
  repeating_of_none h e us

/-! ## The start of an operand -/

theorem primary_literal {v : Literal} (h : Literal.ofToken? t = some v) (ts : List Token) :
    primary (t :: ts) = .ok (.literal v, ts) := by
  simp [primary, look, h, bind_run, next]

theorem primary_name (h : t.kind = .identifier) (ts : List Token) : primary (t :: ts) = .ok (.var t.value, ts) := by
  simp [primary, look, Literal.ofToken?, h, bind_run, next]

theorem operand_literal {v : Literal} (h : Literal.ofToken? t = some v) (ts : List Token) :
    operand inner (t :: ts) = .ok (.literal v, ts) := by
  rw [← primary_literal h ts]
  unfold Literal.ofToken? at h
  cases hk : t.kind <;> simp [operand, look, UnaryOp.ofToken?, hk] at h ⊢

theorem operand_name (h : t.kind = .identifier) (ts : List Token) :
    operand inner (t :: ts) = links inner (.var t.value) ts := by
  simp [operand, look, UnaryOp.ofToken?, h, bind_run, next]

theorem operand_unary {op : UnaryOp} (h : UnaryOp.ofToken? t = some op) (ts : List Token) :
    operand inner (t :: ts) = (inner.expr .unary >>= fun e => pure (.unary op e)) ts := by
  simp only [operand, look, h]
  rfl

theorem operand_group (h : t.isSymbol "(" = true) (ts : List Token) :
    operand inner (t :: ts) = (grouping inner >>= links inner) (t :: ts) := by
  obtain ⟨hk, hv⟩ := isSymbol_iff.1 h
  simp only [operand, look, UnaryOp.ofToken?, hk, hv, if_true]

theorem operand_table (h : t.isSymbol "\x7b" = true) (ts : List Token) :
    operand inner (t :: ts) = table inner (t :: ts) := by
  obtain ⟨hk, hv⟩ := isSymbol_iff.1 h
  simp [operand, look, UnaryOp.ofToken?, hk, hv]

theorem operand_function (h : t.isKeyword "function" = true) (ts : List Token) :
    operand inner (t :: ts) = function inner (t :: ts) := by
  obtain ⟨hk, hv⟩ := isKeyword_iff.1 h
  simp [operand, look, UnaryOp.ofToken?, UnaryOp.ofText?, hk, hv]

/-- How an operand is read, by its first token. -/
inductive OperandRun (inner : Inner) : List Token → Expr → List Token → Prop
  | unary {t op e us rest} : UnaryOp.ofToken? t = some op → inner.expr .unary us = .ok (e, rest) →
      OperandRun inner (t :: us) (.unary op e) rest
  | literal {t v us} : Literal.ofToken? t = some v → OperandRun inner (t :: us) (.literal v) us
  | name {t e us rest} : t.kind = .identifier → links inner (.var t.value) us = .ok (e, rest) → OperandRun inner (t :: us) e rest
  | group {t x e us vs rest} : t.isSymbol "(" = true → grouping inner (t :: us) = .ok (x, vs) → links inner x vs = .ok (e, rest) →
      OperandRun inner (t :: us) e rest
  | table {t e us rest} : t.isSymbol "\x7b" = true → table inner (t :: us) = .ok (e, rest) → OperandRun inner (t :: us) e rest
  | function {t e us rest} : t.isKeyword "function" = true → function inner (t :: us) = .ok (e, rest) →
      OperandRun inner (t :: us) e rest

theorem operand_cases (h : operand inner ts = .ok (e, us)) : OperandRun inner ts e us := by
  cases ts with
  | nil => cases h
  | cons t ts =>
    cases hu : UnaryOp.ofToken? t with
    | some op =>
      rw [operand_unary hu] at h
      obtain ⟨_, _, he, hp⟩ := bind_eq_ok.1 h
      cases hp
      exact .unary hu he
    | none =>
      cases hk : t.kind with
      | number | string | boolean | nil =>
        obtain ⟨v, hv⟩ : ∃ v, Literal.ofToken? t = some v := by simp [Literal.ofToken?, hk]
        rw [operand_literal hv] at h
        cases h
        exact .literal hv
      | identifier => exact .name hk ((operand_name hk ts).symm.trans h)
      | symbol =>
        simp only [operand, look, hu, hk] at h
        split at h
        · next hv =>
          obtain ⟨_, _, hg, hl⟩ := bind_eq_ok.1 h
          exact .group (isSymbol_iff.2 ⟨hk, hv⟩) hg hl
        · split at h
          · next hv => exact .table (isSymbol_iff.2 ⟨hk, hv⟩) h
          · cases h
      | keyword =>
        simp only [operand, look, hu, hk] at h
        split at h
        · next hv => exact .function (isKeyword_iff.2 ⟨hk, hv⟩) h
        · cases h
      | operator =>
        simp only [operand, look, hu, hk] at h
        cases h

/-! ## Fields -/

theorem fieldOrEnd_of_closing (fields : List Expr × List Entry) (ht : t.isSymbol "\x7d" = true) (ts : List Token) :
    fieldOrEnd inner fields (t :: ts) = .ok (fields, t :: ts) := by
  exact check_true (by simp [ht])

theorem fieldOrEnd_of_not_closing {fields : List Expr × List Entry} (h : ts.head?.any (·.isSymbol "\x7d") = false) :
    fieldOrEnd inner fields ts = field inner fields ts :=
  check_false h

theorem nextField?_of_closing (ht : t.isSymbol "\x7d" = true) : nextField? inner t = none := by
  obtain ⟨hk, hv⟩ := isSymbol_iff.1 ht
  simp [nextField?, Token.isSymbol, Token.is, hk, hv]

/-! ## Whole expressions of one token -/

/-- An operand that nothing operates on is the expression. -/
theorem climb_of_operand (ho : operand inner ts = .ok (e, u :: us)) (hu : BinaryOp.ofToken? u = none) :
    climb inner bound ts = .ok (e, u :: us) := by
  unfold climb
  rw [bind_run, ho]
  exact repeating_of_none (tighter?_eq_none_iff.2 (by simp [hu])) e us

theorem climb_stops (hi : inner.Takes 0) (h : climb inner bound ts = .ok (e, t :: us)) : tighter? inner bound t = none := by
  obtain ⟨left, rest, _, hr⟩ := bind_eq_ok.1 h
  exact repeating_stops (progressive_tighter hi bound) hr t us rfl

theorem climb_name (ht : t.kind = .identifier) (hu : continuesExpr u = false) (us : List Token) :
    climb inner bound (t :: u :: us) = .ok (.var t.value, u :: us) := by
  obtain ⟨hl, ho⟩ := (continuesExpr_eq_false_iff inner).1 hu
  exact climb_of_operand ((operand_name ht _).trans (links_of_none hl us)) ho

/-- Conversely an expression that ends right after a name ends before a token that does not continue it. -/
theorem continuesExpr_of_climb_name (hi : inner.Takes 0) (ht : t.kind = .identifier)
    (h : climb inner .lowest (t :: u :: us) = .ok (e, u :: us)) : continuesExpr u = false := by
  obtain ⟨left, rest, hl, hr⟩ := bind_eq_ok.1 h
  rw [operand_name ht] at hl
  -- Neither the links nor the operators took anything.
  obtain rfl : rest = u :: us :=
    ((takes_links hi _).suffix_of_ok hl).eq_of_length_le
      ((Takes.repeating (fun _ _ hr => takes_tighter hi hr) left).suffix_of_ok hr).length_le
  refine (continuesExpr_eq_false_iff inner).2 ⟨?_, ?_⟩
  · exact repeating_stops (progressive_link hi) hl u us rfl
  · exact ofToken?_of_tighter?_lowest (repeating_stops (progressive_tighter hi _) hr u us rfl)

theorem primary_of_startsLone (h : startsLone (t :: ts) = true) : ∃ e, primary (t :: ts) = .ok (e, ts) := by
  cases ts with
  | nil => cases h
  | cons u us =>
    simp only [startsLone, Bool.and_eq_true, Bool.or_eq_true, decide_eq_true_eq] at h
    rcases h.1 with (ht | ht) | ht
    · exact ⟨_, primary_literal (v := .number t.value) (by simp [Literal.ofToken?, ht]) _⟩
    · exact ⟨_, primary_literal (v := .string t.value) (by simp [Literal.ofToken?, ht]) _⟩
    · exact ⟨_, primary_name ht _⟩

/-- A lone argument is read as the expression it is. -/
theorem climb_of_startsLone (h : startsLone ts = true) : climb inner bound ts = primary ts := by
  match ts, h with
  | t :: u :: us, h =>
    simp only [startsLone, Bool.and_eq_true, Bool.or_eq_true, decide_eq_true_eq] at h
    obtain ⟨ht, hu⟩ := h
    have hu : continuesExpr u = false := by
      rcases hu with hu | hu <;> simp [isSymbol_iff] at hu <;>
        simp [continuesExpr, Token.isSymbol, Token.is, BinaryOp.ofToken?, hu]
    have ho := ((continuesExpr_eq_false_iff inner).1 hu).2
    rcases ht with (ht | ht) | ht
    · have hv : Literal.ofToken? t = some (.number t.value) := by simp [Literal.ofToken?, ht]
      rw [climb_of_operand (operand_literal hv _) ho, primary_literal hv]
    · have hv : Literal.ofToken? t = some (.string t.value) := by simp [Literal.ofToken?, ht]
      rw [climb_of_operand (operand_literal hv _) ho, primary_literal hv]
    · rw [climb_name ht hu, primary_name ht]

/-! ## The start of a statement -/

theorem stmt_of_keyword {word : String} {head : StmtHead} (ht : t.isKeyword word = true) (hw : StmtHead.ofText? word = some head)
    (ts : List Token) : stmt inner (t :: ts) = headed inner head (t :: ts) := by
  obtain ⟨hk, rfl⟩ := isKeyword_iff.1 ht
  simp only [stmt, look, hk, hw]

theorem stmt_of_name (ht : t.kind = .identifier) (ts : List Token) : stmt inner (t :: ts) = nameStmt inner (t :: ts) := by
  simp only [stmt, look, ht]

/-- The first token decides what kind of statement is read, if any. -/
theorem stmt_dispatch (inner : Inner) (t : Token) :
    (t.kind = .identifier ∧ ∀ ts, stmt inner (t :: ts) = nameStmt inner (t :: ts)) ∨
      (∃ head, ∀ ts, stmt inner (t :: ts) = headed inner head (t :: ts)) ∨
      ∀ ts, stmt inner (t :: ts) = unexpectedToken (t :: ts) := by
  cases hk : t.kind with
  | identifier => exact .inl ⟨rfl, stmt_of_name hk⟩
  | keyword =>
    cases hw : StmtHead.ofText? t.value with
    | some head => exact .inr (.inl ⟨head, stmt_of_keyword (isKeyword_iff.2 ⟨hk, rfl⟩) hw⟩)
    | none => exact .inr (.inr fun ts => by simp only [stmt, look, hk, hw])
  | _ => exact .inr (.inr fun ts => by simp only [stmt, look, hk])

theorem nameStmt_of_equals (hu : u.isOperator "=" = true) : nameStmt inner (t :: u :: us) = assignment inner (t :: u :: us) := by
  rw [nameStmt, if_pos hu]

theorem nameStmt_of_continues (hu : continuesExpr u = true) :
    nameStmt inner (t :: u :: us) = (Stmt.expr <$> inner.expr .lowest) (t :: u :: us) := by
  have heq : ¬ u.isOperator "=" = true := by
    intro heq
    obtain ⟨hk, hv⟩ := isOperator_iff.1 heq
    simp [continuesExpr, Token.isSymbol, Token.is, BinaryOp.ofToken?, BinaryOp.ofText?, hk, hv] at hu
  rw [nameStmt, if_neg heq, if_pos hu]

/-- The second token decides what kind of statement starts with a name, if any. -/
theorem nameStmt_dispatch (inner : Inner) (u : Token) :
    (u.isOperator "=" = true ∧ ∀ t ts, nameStmt inner (t :: u :: ts) = assignment inner (t :: u :: ts)) ∨
      (continuesExpr u = true ∧
        ∀ t ts, nameStmt inner (t :: u :: ts) = (Stmt.expr <$> inner.expr .lowest) (t :: u :: ts)) ∨
      ∀ t ts, nameStmt inner (t :: u :: ts) = unexpectedToken (u :: ts) := by
  by_cases heq : u.isOperator "="
  · exact .inl ⟨heq, fun _ _ => nameStmt_of_equals heq⟩
  · by_cases hu : continuesExpr u
    · exact .inr (.inl ⟨hu, fun _ _ => nameStmt_of_continues hu⟩)
    · refine .inr (.inr fun t ts => ?_)
      rw [nameStmt, if_neg heq, if_neg hu]
      rfl

theorem ofText?_of_closesBlock (h : t.closesBlock = true) : StmtHead.ofText? t.value = none := by
  simp only [Token.closesBlock, Bool.and_eq_true, decide_eq_true_eq, List.mem_cons, List.not_mem_nil, or_false] at h
  rcases h.2 with h | h | h | h <;> rw [h] <;> rfl

/-- A statement does not start with what closes a block. -/
theorem stmt_of_closesBlock (h : t.closesBlock = true) (ts : List Token) :
    stmt inner (t :: ts) = unexpectedToken (t :: ts) := by
  have hk : t.kind = .keyword := by
    simp only [Token.closesBlock, Bool.and_eq_true, decide_eq_true_eq] at h
    exact h.1
  simp [stmt, look, hk, ofText?_of_closesBlock h]

end Parser
end MiniLua
