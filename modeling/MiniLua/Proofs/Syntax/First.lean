import MiniLua.Proofs.Syntax.Grammar
/-!
# First tokens

What an instance of a form starts with, and what may come after it. A production decides
by the next token what to read; the facts here say that what it sees in an instance of its
own form, or behind one, decides as the form says.
-/

namespace MiniLua.Syntax

open MiniLua.Parser

variable {P Q : Token → Prop} {F : List Token → Prop} {f g : List Item} {k : Terminal} {t u : Token}
  {v w ts rest : List Token}

/-- The next token satisfies a condition, if there is one. -/
def Ahead (P : Token → Prop) (ts : List Token) : Prop := ∀ t us, ts = t :: us → P t

theorem ahead_nil : Ahead P [] := nofun

theorem ahead_cons : Ahead P (t :: ts) ↔ P t := by
  constructor
  · exact fun h => h t ts rfl
  · rintro h _ _ ⟨⟩
    exact h

theorem Ahead.mono (h : Ahead P ts) (hPQ : ∀ t, P t → Q t) : Ahead Q ts := fun t us hts => hPQ t (h t us hts)

/-- A check of the next token finds nothing that it looks for. -/
theorem Ahead.any_eq_false {test : Token → Bool} (h : Ahead P ts) (hP : ∀ t, P t → test t = false) :
    ts.head?.any test = false := by
  cases ts with
  | nil => rfl
  | cons t ts => simpa using hP t (ahead_cons.1 h)

/-! ## By the form -/

/-- An instance of the form starts so, or what comes after it does. -/
def Leads (P : Token → Prop) (f : List Item) (F : List Token → Prop) : Prop :=
  ∀ w rest, Derives f w → F rest → Ahead P (w ++ rest)

theorem leads_nil (h : ∀ rest, F rest → Ahead P rest) : Leads P [] F := by
  rintro _ rest ⟨⟩ hF
  exact h rest hF

theorem leads_one (h : ∀ t, k.Matches t → P t) : Leads P (.one k :: f) F := by
  intro w rest hw _
  obtain ⟨t, v, rfl, ht, _⟩ := Derives.one_iff.1 hw
  exact ahead_cons.2 (h t ht)

theorem leads_option (h : ∀ t, k.Matches t → P t) (hf : Leads P f F) : Leads P (.option (.one k :: g) :: f) F := by
  intro w rest hw hF
  obtain ⟨u, v, rfl, hu, hv⟩ := Derives.cons_iff.1 hw
  rcases Derives.option_iff.1 hu with rfl | hu
  · exact hf v rest hv hF
  · obtain ⟨t, x, rfl, ht, _⟩ := Derives.one_iff.1 hu
    exact ahead_cons.2 (h t ht)

theorem leads_many (h : ∀ t, k.Matches t → P t) (hf : Leads P f F) : Leads P (.many (.one k :: g) :: f) F := by
  intro w rest hw hF
  cases hw with
  | stop hw => exact hf w rest hw hF
  | again hu hw =>
    obtain ⟨t, x, rfl, ht, _⟩ := Derives.one_iff.1 hu
    exact ahead_cons.2 (h t ht)

theorem leads_loopBody (h : ∀ t, (Terminal.keyword "do").Matches t → P t) : Leads P (.loopBody :: f) F := by
  intro w rest hw _
  obtain ⟨u, v, rfl, hu, hv⟩ := Derives.cons_iff.1 hw
  obtain ⟨_, ⟨⟩, hu⟩ := hu.exists_rule (by decide)
  obtain ⟨t, x, rfl, ht, _⟩ := Derives.one_iff.1 hu
  exact ahead_cons.2 (h t ht)

/-! ## Expressions -/

/-- An expression may start so. -/
def StartsExpr (t : Token) : Prop :=
  Terminal.unaryOp.Matches t ∨ Terminal.literal.Matches t ∨ Terminal.name.Matches t ∨
    (Terminal.symbol "(").Matches t ∨ (Terminal.symbol "\x7b").Matches t ∨ (Terminal.keyword "function").Matches t

theorem operand_start (h : Derives [.operand] w) : ∃ t v, w = t :: v ∧ StartsExpr t := by
  obtain ⟨_, hr, hw⟩ := h.exists_rule (by decide)
  cases hr with
  | unary =>
    obtain ⟨t, v, rfl, ht, _⟩ := Derives.one_iff.1 hw
    exact ⟨t, v, rfl, .inl ht⟩
  | literal =>
    obtain ⟨t, v, rfl, ht, _⟩ := Derives.one_iff.1 hw
    exact ⟨t, v, rfl, .inr (.inl ht)⟩
  | name =>
    obtain ⟨t, v, rfl, ht, _⟩ := Derives.one_iff.1 hw
    exact ⟨t, v, rfl, .inr (.inr (.inl ht))⟩
  | group =>
    obtain ⟨t, v, rfl, ht, _⟩ := Derives.one_iff.1 hw
    exact ⟨t, v, rfl, .inr (.inr (.inr (.inl ht)))⟩
  | table =>
    obtain ⟨_, ⟨⟩, hw⟩ := hw.exists_rule (by decide)
    obtain ⟨t, v, rfl, ht, _⟩ := Derives.one_iff.1 hw
    exact ⟨t, v, rfl, .inr (.inr (.inr (.inr (.inl ht))))⟩
  | lambda =>
    obtain ⟨t, v, rfl, ht, _⟩ := Derives.one_iff.1 hw
    exact ⟨t, v, rfl, .inr (.inr (.inr (.inr (.inr ht))))⟩

theorem expr_start (h : Derives [.expr] w) : ∃ t v, w = t :: v ∧ StartsExpr t := by
  obtain ⟨_, ⟨⟩, hw⟩ := h.exists_rule (by decide)
  obtain ⟨o, m, rfl, ho, _⟩ := Derives.cons_iff.1 hw
  obtain ⟨t, v, rfl, ht⟩ := operand_start ho
  exact ⟨t, v ++ m, rfl, ht⟩

/-- No expression starts with a symbol that ends a list. -/
theorem StartsExpr.isSymbol_eq_false (h : StartsExpr t) {text : String} (hs : text ∉ ["(", "\x7b"]) :
    t.isSymbol text = false := by
  rw [Bool.eq_false_iff]
  intro ht
  obtain ⟨hk, rfl⟩ := isSymbol_iff.1 ht
  rcases h with h | h | h | h | h | h
  · simp [Terminal.Matches, hk] at h
  · simp [Terminal.Matches, hk] at h
  · simp [Terminal.Matches, hk] at h
  · simp [h.2] at hs
  · simp [h.2] at hs
  · simp [Terminal.Matches, hk] at h

theorem StartsExpr.isEquals_eq_false (h : StartsExpr t) : t.isOperator "=" = false := by
  rw [Bool.eq_false_iff]
  intro ht
  obtain ⟨hk, hv⟩ := isOperator_iff.1 ht
  rcases h with h | h | h | h | h | h
  · simp [Terminal.Matches, hv] at h
  · simp [Terminal.Matches, hk] at h
  · simp [Terminal.Matches, hk] at h
  · simp [Terminal.Matches, hk] at h
  · simp [Terminal.Matches, hk] at h
  · simp [Terminal.Matches, hk] at h

theorem StartsExpr.closesBlock_eq_false (h : StartsExpr t) : t.closesBlock = false := by
  rcases h with h | h | h | h | h | h
  · have hvalue := h.2
    simp only [List.mem_cons, List.not_mem_nil, or_false] at hvalue
    rcases hvalue with hv | hv | hv <;> simp [Token.closesBlock, hv]
  · rcases h with h | h | h | h <;> simp [Token.closesBlock, h]
  · simp [Token.closesBlock, show t.kind = .identifier from h]
  · simp [Token.closesBlock, h.1]
  · simp [Token.closesBlock, h.1]
  · simp [Token.closesBlock, h.2]

/-! ## Behind expressions -/

/-- Nothing that could continue an expression comes next. -/
abbrev AfterExpr : List Token → Prop := Ahead fun t => continuesExpr t = false

/-- No link comes next. -/
abbrev Unlinked : List Token → Prop :=
  Ahead fun t => t.isSymbol "(" = false ∧ t.isSymbol "." = false ∧ t.isSymbol ":" = false

/-- The operators and operands behind an operand. -/
abbrev Tail (w : List Token) : Prop := Derives [.many [.binaryOp, .operand]] w

theorem continuesExpr_keyword {word : String} (hw : BinaryOp.ofText? word = none) (h : (Terminal.keyword word).Matches t) :
    continuesExpr t = false := by
  simp [continuesExpr, Token.isSymbol, Token.is, BinaryOp.ofToken?, h.1, h.2, hw]

theorem continuesExpr_symbol {text : String} (hs : text ∉ ["(", ".", ":"]) (h : (Terminal.symbol text).Matches t) :
    continuesExpr t = false := by
  simp only [List.mem_cons, List.not_mem_nil, or_false, not_or] at hs
  simp [continuesExpr, Token.isSymbol, Token.is, BinaryOp.ofToken?, h.1, h.2, hs]

theorem AfterExpr.unlinked (h : AfterExpr rest) : Unlinked rest :=
  h.mono fun t ht => by
    simp only [continuesExpr, Bool.or_eq_false_iff, and_assoc] at ht
    exact ⟨ht.1, ht.2.1, ht.2.2.1⟩

theorem isSymbol_of_binaryOp (h : Terminal.binaryOp.Matches t) (text : String) : t.isSymbol text = false := by
  rcases h.1 with hk | hk <;> simp [Token.isSymbol, Token.is, hk]

theorem Tail.unlinked (hv : Tail v) (h : AfterExpr rest) : Unlinked (v ++ rest) :=
  leads_many (F := AfterExpr) (fun _ ht => ⟨isSymbol_of_binaryOp ht _, isSymbol_of_binaryOp ht _, isSymbol_of_binaryOp ht _⟩)
    (leads_nil fun _ h => h.unlinked) v rest hv h

theorem link_start (h : Derives [.link] w) :
    ∃ t v, w = t :: v ∧ (t.isSymbol "(" = true ∨ t.isSymbol "." = true ∨ t.isSymbol ":" = true) := by
  obtain ⟨_, hr, hw⟩ := h.exists_rule (by decide)
  cases hr with
  | call =>
    obtain ⟨_, ⟨⟩, hw⟩ := hw.exists_rule (by decide)
    obtain ⟨t, v, rfl, ht, _⟩ := Derives.one_iff.1 hw
    exact ⟨t, v, rfl, .inl (Terminal.symbol_iff.1 ht)⟩
  | member =>
    obtain ⟨t, v, rfl, ht, _⟩ := Derives.one_iff.1 hw
    exact ⟨t, v, rfl, .inr (.inl (Terminal.symbol_iff.1 ht))⟩
  | method =>
    obtain ⟨t, v, rfl, ht, _⟩ := Derives.one_iff.1 hw
    exact ⟨t, v, rfl, .inr (.inr (Terminal.symbol_iff.1 ht))⟩

theorem arguments_of_link (h : Derives [.link] (t :: w)) (ht : t.isSymbol "(" = true) : Derives [.arguments] (t :: w) := by
  obtain ⟨hk, hv⟩ := isSymbol_iff.1 ht
  obtain ⟨_, hr, hw⟩ := h.exists_rule (by decide)
  cases hr with
  | call => exact hw
  | member =>
    obtain ⟨_, _, h, ht, _⟩ := Derives.one_iff.1 hw
    cases h
    simp [Terminal.Matches, hv] at ht
  | method =>
    obtain ⟨_, _, h, ht, _⟩ := Derives.one_iff.1 hw
    cases h
    simp [Terminal.Matches, hv] at ht

theorem continuesExpr_of_binaryOp (h : Terminal.binaryOp.Matches t) : continuesExpr t = true := by
  obtain ⟨op, h⟩ := Terminal.binaryOp_iff.1 h
  simp [continuesExpr, h]

/-- Two tokens that start one expression, the first of them one that could stand alone. -/
theorem expr_second (h : Derives [.expr] (t :: u :: w))
    (ht : t.kind = .number ∨ t.kind = .string ∨ t.kind = .identifier) : continuesExpr u = true := by
  have hk : t.kind ≠ .operator ∧ t.kind ≠ .keyword ∧ t.kind ≠ .symbol := by
    rcases ht with ht | ht | ht <;> simp [ht]
  obtain ⟨_, ⟨⟩, h⟩ := h.exists_rule (by decide)
  obtain ⟨o, m, how, ho, hm⟩ := Derives.cons_iff.1 h
  have htail : m = u :: w → continuesExpr u = true := by
    rintro rfl
    exact ahead_cons.1 (leads_many (F := (· = [])) (P := (continuesExpr · = true)) (fun _ => continuesExpr_of_binaryOp)
      (leads_nil fun _ h => h ▸ ahead_nil) _ [] hm rfl)
  obtain ⟨_, hr, ho⟩ := ho.exists_rule (by decide)
  cases hr with
  | literal =>
    obtain ⟨_, v, rfl, _, hv⟩ := Derives.one_iff.1 ho
    cases hv
    cases how
    exact htail rfl
  | name =>
    -- Behind a name a link may follow before any operator.
    obtain ⟨_, l, rfl, _, hl⟩ := Derives.one_iff.1 ho
    obtain ⟨_, how⟩ := List.cons.inj how
    cases hl with
    | stop hl =>
      cases hl
      exact htail how.symm
    | again hu hl =>
      obtain ⟨x, y, rfl, hx⟩ := link_start hu
      obtain ⟨rfl, _⟩ := List.cons.inj how
      rcases hx with hx | hx | hx <;> simp [continuesExpr, hx]
  | unary =>
    -- From here on the first token is of no such kind.
    obtain ⟨_, v, rfl, ho, _⟩ := Derives.one_iff.1 ho
    obtain ⟨rfl, _⟩ := List.cons.inj how
    exact (ho.1.elim hk.1 hk.2.1).elim
  | table =>
    obtain ⟨_, ⟨⟩, ho⟩ := ho.exists_rule (by decide)
    obtain ⟨_, v, rfl, ho, _⟩ := Derives.one_iff.1 ho
    obtain ⟨rfl, _⟩ := List.cons.inj how
    exact absurd ho.1 hk.2.2
  | lambda =>
    obtain ⟨_, v, rfl, ho, _⟩ := Derives.one_iff.1 ho
    obtain ⟨rfl, _⟩ := List.cons.inj how
    exact absurd ho.1 hk.2.1
  | group =>
    obtain ⟨_, v, rfl, ho, _⟩ := Derives.one_iff.1 ho
    obtain ⟨rfl, _⟩ := List.cons.inj how
    exact absurd ho.1 hk.2.2

/-- A lone constant or name is the whole expression. -/
theorem eq_singleton_of_startsLone (h : Derives [.expr] w) (hl : startsLone (w ++ rest) = true) : ∃ t, w = [t] := by
  obtain ⟨t, v, rfl, _⟩ := expr_start h
  cases v with
  | nil => exact ⟨t, rfl⟩
  | cons u v =>
    simp only [List.cons_append, startsLone, Bool.and_eq_true, Bool.or_eq_true, decide_eq_true_eq, or_assoc] at hl
    have := expr_second h hl.1
    rcases hl.2 with hu | hu <;>
      rw [continuesExpr_symbol (by decide) (Terminal.symbol_iff.2 hu)] at this <;> cases this

/-! ## Fields -/

theorem field_start (h : Derives [.field] w) : ∃ t v, w = t :: v ∧ t.isSymbol "\x7d" = false := by
  obtain ⟨_, hr, hw⟩ := h.exists_rule (by decide)
  cases hr with
  | named =>
    obtain ⟨t, v, rfl, ht, _⟩ := Derives.one_iff.1 hw
    exact ⟨t, v, rfl, by simp [Token.isSymbol, Token.is, show t.kind = .identifier from ht]⟩
  | positional =>
    obtain ⟨t, v, rfl, ht⟩ := expr_start hw
    exact ⟨t, v, rfl, ht.isSymbol_eq_false (by decide)⟩

/-- What may follow a field. -/
abbrev AfterField : List Token → Prop := Ahead fun t => t.isSymbol "," = true ∨ t.isSymbol "\x7d" = true

theorem AfterField.afterExpr (h : AfterField rest) : AfterExpr rest :=
  h.mono fun t ht => ht.elim (fun ht => continuesExpr_symbol (by decide) (Terminal.symbol_iff.2 ht))
    fun ht => continuesExpr_symbol (by decide) (Terminal.symbol_iff.2 ht)

/-- The end of a table comes next. -/
def BeforeBrace (ts : List Token) : Prop := ∃ t us, ts = t :: us ∧ t.isSymbol "\x7d" = true

theorem nextFields_lead :
    Leads (fun t => t.isSymbol "," = true ∨ t.isSymbol "\x7d" = true) [.many [.sym ",", .field], .option [.sym ","]]
      BeforeBrace := by
  refine leads_many (fun t ht => .inl (Terminal.symbol_iff.1 ht)) (leads_option (fun t ht => .inl (Terminal.symbol_iff.1 ht))
    (leads_nil ?_))
  rintro _ ⟨t, us, rfl, ht⟩
  exact ahead_cons.2 (.inr ht)

/-- An expression in a table is not taken for a named field. -/
theorem startsNamed_eq_false (h : Derives [.expr] w) (hr : AfterField rest) : startsNamed (w ++ rest) = false := by
  rw [Bool.eq_false_iff]
  intro hn
  obtain ⟨t, v, rfl, _⟩ := expr_start h
  cases v with
  | nil =>
    cases rest with
    | nil => cases hn
    | cons u us =>
      simp only [List.cons_append, List.nil_append, startsNamed, Bool.and_eq_true, isOperator_iff] at hn
      have := ahead_cons.1 hr
      simp [Token.isSymbol, Token.is, hn.2] at this
  | cons u v =>
    simp only [List.cons_append, startsNamed, Bool.and_eq_true, decide_eq_true_eq, isOperator_iff] at hn
    have := expr_second h (.inr (.inr hn.1))
    obtain ⟨_, hk, hv⟩ := hn
    simp [continuesExpr, Token.isSymbol, Token.is, BinaryOp.ofToken?, BinaryOp.ofText?, hk, hv] at this

/-! ## Statements -/

/-- What may come after a statement other than the end: a name or a word that is no operator. -/
def Separates (t : Token) : Prop := t.kind = .identifier ∨ (t.kind = .keyword ∧ BinaryOp.ofText? t.value = none)

/-- The block ends here, or its next statement starts. -/
abbrev AfterStmt : List Token → Prop := Ahead Separates

theorem Separates.continuesExpr_eq_false (h : Separates t) : continuesExpr t = false := by
  rcases h with h | ⟨h, hv⟩
  · simp [continuesExpr, Token.isSymbol, Token.is, BinaryOp.ofToken?, h]
  · simp [continuesExpr, Token.isSymbol, Token.is, BinaryOp.ofToken?, h, hv]

theorem AfterStmt.afterExpr (h : AfterStmt rest) : AfterExpr rest := h.mono fun _ => Separates.continuesExpr_eq_false

theorem Separates.isSymbol_eq_false (h : Separates t) (text : String) : t.isSymbol text = false := by
  rcases h with h | ⟨h, _⟩ <;> simp [Token.isSymbol, Token.is, h]

theorem Separates.isOperator_eq_false (h : Separates t) (text : String) : t.isOperator text = false := by
  rcases h with h | ⟨h, _⟩ <;> simp [Token.isOperator, Token.is, h]

theorem separates_of_closesBlock (h : t.closesBlock = true) : Separates t := by
  simp only [Token.closesBlock, Bool.and_eq_true, decide_eq_true_eq, List.mem_cons, List.not_mem_nil, or_false] at h
  refine .inr ⟨h.1, ?_⟩
  rcases h.2 with h | h | h | h <;> rw [h] <;> rfl

/-- The end of the input or of a block comes next. -/
abbrev EndsBlock : List Token → Prop := Ahead fun t => t.closesBlock = true

theorem endsBlock_iff : EndsBlock ts ↔ ts.head?.any (!·.closesBlock) = false := by
  cases ts with
  | nil => simpa using ahead_nil
  | cons t ts => simp [ahead_cons]

theorem closesBlock_of_keyword {word : String} (hw : word ∈ ["end", "else", "elseif", "until"])
    (h : (Terminal.keyword word).Matches t) : t.closesBlock = true := by
  rw [Token.closesBlock, h.1, h.2]
  simpa using hw

theorem stmt_start (h : Derives [.stmt] w) : ∃ t v, w = t :: v ∧ Separates t ∧ t.closesBlock = false := by
  have hword : ∀ {word f w}, Derives (.kw word :: f) w → BinaryOp.ofText? word = none →
      word ∉ ["end", "else", "elseif", "until"] → ∃ t v, w = t :: v ∧ Separates t ∧ t.closesBlock = false := by
    intro word f w hw ho hc
    obtain ⟨t, v, rfl, ⟨hk, rfl⟩, _⟩ := Derives.one_iff.1 hw
    exact ⟨t, v, rfl, .inr ⟨hk, ho⟩, by simp only [Token.closesBlock, hc]; simp⟩
  rcases h.stmt_cases with ⟨_, hr, hw⟩ | ⟨t, u, v, rfl, ht, _⟩
  · cases hr with
    | assign =>
      obtain ⟨t, v, rfl, ht, _⟩ := Derives.one_iff.1 hw
      exact ⟨t, v, rfl, .inl ht, by simp [Token.closesBlock, show t.kind = .identifier from ht]⟩
    | _ => exact hword hw rfl (by decide)
  · exact ⟨t, u :: v, rfl, .inl ht, by simp [Token.closesBlock, show t.kind = .identifier from ht]⟩

/-- A statement is followed by another, by a `return` or by the end of its block. -/
theorem block_lead : Leads Separates [.many [.stmt], .option [.kw "return"]] EndsBlock := by
  intro w rest hw hr
  cases hw with
  | stop hw =>
    exact leads_option (fun t ht => .inr ⟨ht.1, ht.2 ▸ rfl⟩)
      (leads_nil fun rest hr => hr.mono fun t => separates_of_closesBlock) w rest hw hr
  | again hu hw =>
    obtain ⟨t, v, rfl, ht, _⟩ := stmt_start hu
    exact ahead_cons.2 ht

end MiniLua.Syntax
