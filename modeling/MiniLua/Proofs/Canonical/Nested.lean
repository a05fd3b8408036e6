import MiniLua.Proofs.Canonical.Operands
import MiniLua.Proofs.Reading.Fields
/-!
# Links, tables and functions of a written expression

What stands between brackets is read by the parsers for what is nested. `Expr.Nests`,
`Expr.NestsAsArgument` and `BlockNests` say that these return it, and with that the whole is
returned. The entries of a table come back in order because their keys ascend.
-/

namespace MiniLua

open MiniLua.Parser MiniLua.Syntax

variable {n m k : Nat} {e : Expr} {t : Token} {ts us v w : List Token} {args elements : List Expr}
  {entries : List Entry} {params : List String} {body : List Stmt} {F : List Token → Prop}

/-- With `n` levels left, the tokens of an expression are read as it where one may be nested. -/
def Expr.Nests (n : Nat) (e : Expr) : Prop :=
  ∀ k, n ≤ k → ((Inner.ofLevels k).expr .lowest).ReadsAs e.tokens e AfterExpr

def Expr.NestsAsArgument (n : Nat) (e : Expr) : Prop :=
  ∀ k, n ≤ k → (Inner.ofLevels k).argument.ReadsAs e.tokens e AfterItem

def BlockNests (n : Nat) (ss : List Stmt) : Prop :=
  ∀ k, n ≤ k → (Inner.ofLevels k).block.ReadsAs (blockTokens ss) ss EndsBlock

theorem Parser.AfterItem.afterExpr (h : AfterItem us) : AfterExpr us := by
  obtain ⟨t, us, rfl, ht⟩ := h
  exact ahead_cons.2 (ht.elim (fun ht => continuesExpr_symbol (by decide) (Terminal.symbol_iff.2 ht))
    fun ht => continuesExpr_symbol (by decide) (Terminal.symbol_iff.2 ht))

/-- An argument that is a lone constant or name is read as the same expression without a level. -/
theorem Parser.readsAs_argument (h : ((Inner.ofLevels k).expr .lowest).ReadsAs w e AfterExpr) :
    (Inner.ofLevels k).argument.ReadsAs w e AfterItem := by
  intro us hus
  have hread := h us hus.afterExpr
  cases k with
  | zero => cases hread
  | succ k =>
    show argument (.nested (Parser.climb (.ofLevels k) .lowest)) _ = _
    rw [argument]
    split
    · next hl =>
      have hprimary : Parser.climb (.ofLevels k) .lowest (w ++ us) = primary (w ++ us) := climb_of_startsLone hl
      rw [← hprimary]
      exact ofLevels_expr_eq_ok.1 hread
    · exact hread

/-- What is read as said is an instance of the form that the parser reads. -/
theorem derives_of_readsAs {α : Type} {p : Parser α} {a : α} {f : List Item} (hr : Reads p f) (h : p.ReadsAs w a F) (hus : F us) :
    Derives f w := by
  obtain ⟨w', hw, hd⟩ := (hr _).ok (h us hus)
  rwa [List.append_cancel_right hw]

/-! ## Links -/

namespace Parser

variable {inner : Inner} {u : Token}

theorem link?_dot (ht : t.isSymbol "." = true) : link? inner t = some (member inner) := by
  simp [link?, Token.isSymbol, Token.is, isSymbol_iff.1 ht]

theorem link?_colon (ht : t.isSymbol ":" = true) : link? inner t = some (methodCall inner) := by
  simp [link?, Token.isSymbol, Token.is, isSymbol_iff.1 ht]

/-- A member is no call if no parenthesis follows it. -/
theorem member_readsAs (ht : t.isSymbol "." = true) (hu : u.kind = .identifier) (e : Expr) :
    (member inner e).ReadsAs [t, u] (.member e u.value) (Ahead fun t => t.isSymbol "(" = false) :=
  (readsAs_satisfy ht).bind_token ((readsAs_identifier hu).bind_token
    (.check_false (fun _ hus => hus.any_eq_false fun _ ht => ht) (readsAs_pure _)))

theorem memberCall_readsAs (ht : t.isSymbol "." = true) (hu : u.kind = .identifier)
    (hw : ∀ us, (w ++ us).head?.any (·.isSymbol "(") = true) (hargs : (arguments inner).ReadsAs w args F) (e : Expr) :
    (member inner e).ReadsAs (t :: u :: w) (.methodCall e u.value args false) F :=
  (readsAs_satisfy ht).bind_token ((readsAs_identifier hu).bind_token (.check_true (fun us _ => hw us) hargs.bind_pure))

theorem methodCall_readsAs (ht : t.isSymbol ":" = true) (hu : u.kind = .identifier)
    (hargs : (arguments inner).ReadsAs w args F) (e : Expr) :
    (methodCall inner e).ReadsAs (t :: u :: w) (.methodCall e u.value (e :: args) true) F :=
  (readsAs_satisfy ht).bind_token ((readsAs_identifier hu).bind_token hargs.bind_pure)

end Parser

namespace Expr

theorem Nests.derives (h : e.Nests n) : Derives [.expr] e.tokens :=
  derives_of_readsAs ((ofLevels_reads n).expr .lowest) (h n (Nat.le_refl n)) ahead_nil

theorem NestsAsArgument.derives (h : e.NestsAsArgument n) : Derives [.expr] e.tokens :=
  have hus : AfterItem [.plain .symbol ")"] := ⟨_, _, rfl, .inr rfl⟩
  derives_of_readsAs (ofLevels_reads n).argument (h n (Nat.le_refl n)) hus

theorem Returns.nests (h : e.Returns m) : e.Nests (m + 1) := by
  intro k hk
  obtain ⟨k, rfl⟩ := Nat.exists_eq_add_one_of_ne_zero (Nat.ne_zero_of_lt hk)
  refine ReadsAs.nested fun us hus => ?_
  have hnone : NoTighter .lowest us := hus.mono fun t ht op hop => by
    rw [((continuesExpr_eq_false_iff (.ofLevels k)).1 ht).2] at hop
    cases hop
  rw [h.climb k (Nat.le_of_succ_le_succ hk) .lowest us e.loose_lowest
    (fits_of_noTighter (by decide) e.loose_lowest hnone) hus.unlinked]
  exact repeating_of_noTighter _ hnone e

/-- A function with a name is no expression by itself. -/
theorem Nests.not_definition (h : e.Nests n) : e.isDefinition = false := by
  cases e with
  | definition f params body =>
    have hread := h n (Nat.le_refl n) [] ahead_nil
    cases n with
    | zero => cases hread
    | succ n =>
      obtain ⟨left, _, ho, _⟩ := bind_eq_ok.1 (ofLevels_expr_eq_ok.1 hread)
      have herror : Parser.operand (.ofLevels n) ((definition f params body).tokens ++ []) =
          .error ⟨.expected (.exact .symbol "("), (definition f params body).tokens.tail ++ [], 0⟩ :=
        (operand_function rfl _).trans rfl
      rw [herror] at ho
      cases ho
  | _ => rfl

theorem Nests.asArgument (h : e.Nests n) : e.NestsAsArgument n := fun k hk => readsAs_argument (h k hk)

/-! ## Written links -/

/-- Arguments are read back if each of them is. -/
theorem arguments_readsAs (h : ∀ e ∈ args, e.NestsAsArgument n) (hk : n ≤ k) :
    (arguments (.ofLevels k)).ReadsAs (listTokens (eachTokens args)) args F := by
  rw [eachTokens_eq]
  refine parenthesized_readsAs (Inner.ofLevels_takes k).zero.argument (fun e he => h e he k hk) fun e he => ?_
  obtain ⟨t, v, hv, ht⟩ := expr_start (h e he).derives
  exact ⟨t, v, hv, ht.isSymbol_eq_false (by decide)⟩

/-- An expression is read up to a link, and with the link as what the link makes of it. -/
theorem ReturnsIn.link {needed : Bool} {e' : Expr} (he : e.ReturnsIn n needed) (hb : needed = false → e.parensBase = false)
    (ht : needed = false → e.parensCallee = true → t.isSymbol "(" = false) (hw : e'.tokens = parens needed e.tokens ++ t :: v)
    (h : ∀ k, n ≤ k → ∃ link, link? (.ofLevels k) t = some link ∧ (link e).ReadsAs (t :: v) e' e'.Callable) :
    e'.Returns n := by
  refine .of_base fun k hk us hus => ?_
  obtain ⟨link, hl, hread⟩ := h k hk
  rw [hw, List.append_assoc, List.cons_append, he.operand hb hk fun hn hc => ahead_cons.2 (ht hn hc), links,
    repeating_of_some (progressive_link (Inner.ofLevels_takes k).zero) hl, bind_run, ← List.cons_append, hread us hus]
  rfl

theorem parensBase_of_parensCallee (h : e.parensCallee = false) : e.parensBase = false := by
  cases e with
  | member => cases h
  | _ => exact h

theorem applyTo_tokens (e : Expr) (args : List Expr) :
    (e.applyTo args).tokens = parens e.parensCallee e.tokens ++ listTokens (eachTokens args) := by
  cases e <;> rfl

theorem applyTo_parensBase (e : Expr) (args : List Expr) : (e.applyTo args).parensBase = false := by
  cases e <;> rfl

theorem applyTo_callable (e : Expr) (args : List Expr) : (e.applyTo args).Callable us := by
  cases e <;> exact fun h => by cases h

theorem Returns.applyTo (he : e.ReturnsIn n e.parensCallee) (hargs : ∀ a ∈ args, a.NestsAsArgument n) :
    (e.applyTo args).Returns n :=
  he.link parensBase_of_parensCallee (fun hn hc => by rw [hn] at hc; cases hc) (applyTo_tokens e args) fun _ hk =>
    ⟨_, rfl, (arguments_readsAs hargs hk).bind_pure⟩

theorem Returns.member (he : e.ReturnsIn n e.parensBase) (x : String) : (member e x).Returns n := by
  refine he.link id (fun _ _ => rfl) (v := [.plain .identifier x]) rfl fun k _ => ⟨_, rfl, ?_⟩
  exact (member_readsAs rfl (u := .plain .identifier x) rfl e).mono fun us hus => hus rfl

theorem Returns.methodCall (he : e.ReturnsIn n e.parensBase) (x : String) (hargs : ∀ a ∈ args, a.NestsAsArgument n) :
    (methodCall e x args false).Returns n :=
  he.link id (fun _ _ => rfl) (t := .plain .symbol ".") rfl fun _ hk =>
    ⟨_, rfl, memberCall_readsAs rfl (u := .plain .identifier x) rfl (fun _ => rfl) (arguments_readsAs hargs hk) e⟩

/-- The receiver of a call with a colon is not among the arguments that are written. -/
theorem Returns.colonCall (he : e.ReturnsIn n e.parensBase) (x : String) (hargs : ∀ a ∈ args, a.NestsAsArgument n) :
    (Expr.methodCall e x (e :: args) true).Returns n :=
  he.link id (fun _ _ => rfl) (t := .plain .symbol ":") rfl fun _ hk =>
    ⟨_, rfl, methodCall_readsAs rfl (u := .plain .identifier x) rfl (arguments_readsAs hargs hk) e⟩

end Expr

/-! ## Functions -/

theorem parameters_readsAs (params : List String) :
    parameters.ReadsAs (listTokens (params.map fun x => [.plain .identifier x])) params F :=
  parenthesized_readsAs takes_name (fun x _ => readsAs_name x) fun _ _ => ⟨_, _, rfl, rfl⟩

theorem functionBody_readsAs (h : BlockNests n body) (hk : n ≤ k) :
    (functionBody (.ofLevels k)).ReadsAs (bodyTokens params (blockTokens body)) (params, body) F :=
  (parameters_readsAs params (F := fun _ => True)).bind
    ((h k hk).bind (readsAs_keyword "end").bind_pure fun _ _ => ahead_cons.2 (by decide)) fun _ _ => trivial

theorem Expr.Returns.function (h : BlockNests n body) : (Expr.function params body).Returns n := by
  refine .of_operand rfl fun k hk us _ => ?_
  have hread : (Parser.function (.ofLevels k)).ReadsAs (Expr.function params body).tokens (Expr.function params body)
      fun _ => True :=
    (readsAs_keyword "function").bind_token (functionBody_readsAs h hk).bind_pure
  exact (operand_function rfl _).trans (hread us trivial)

/-! ## Tables -/

/-- A key after all others is put behind them. -/
theorem Entry.insert_of_lt {key : String} {value : Expr} (h : ∀ a ∈ entries, a.key < key) :
    Entry.insert key value entries = entries ++ [.mk key value] := by
  induction entries with
  | nil => rfl
  | cons a as ih =>
    have ha := h a List.mem_cons_self
    have hne : key ≠ a.key := by
      rintro rfl
      exact String.lt_irrefl _ ha
    rw [Entry.insert, if_neg (String.lt_asymm ha), if_neg hne, ih fun b hb => h b (List.mem_cons_of_mem a hb), List.cons_append]

theorem foldl_addField_inl (elements : List Expr) (fields : List Expr × List Entry) :
    (elements.map Sum.inl).foldl addField fields = (elements.reverse ++ fields.1, fields.2) := by
  induction elements generalizing fields with
  | nil => rfl
  | cons e es ih => rw [List.map_cons, List.foldl_cons, ih, List.reverse_cons, List.append_assoc]; rfl

theorem foldl_addField_inr (elements : List Expr) (before : List Entry) (h : Entry.Ascending (before ++ entries)) :
    (entries.map Sum.inr).foldl addField (elements, before) = (elements, before ++ entries) := by
  induction entries generalizing before with
  | nil => rw [List.append_nil]; rfl
  | cons a as ih =>
    have hlt : ∀ b ∈ before, b.key < a.key := fun b hb => (List.pairwise_append.1 h).2.2 b hb a List.mem_cons_self
    have hadd : addField (elements, before) (.inr a) = (elements, before ++ [a]) := by
      cases a
      exact congrArg _ (Entry.insert_of_lt hlt)
    rw [List.append_cons] at h
    rw [List.map_cons, List.foldl_cons, hadd, ih _ h, ← List.append_cons]

def fieldTokens : Expr ⊕ Entry → List Token
  | .inl e => e.tokens
  | .inr a => a.tokens

/-- Fields that are written are those of the table that is written. -/
theorem tableTokens_commas {φ : Expr → List Token → Prop} {cs : List (Expr ⊕ Entry)}
    (h : ∀ c ∈ cs, FieldTokens φ c (fieldTokens c)) :
    TableTokens φ cs (.plain .symbol "\x7b" :: (commas (cs.map fieldTokens) ++ [.plain .symbol "\x7d"])) := by
  cases cs with
  | nil => exact .empty rfl rfl
  | cons c cs =>
    rw [← List.append_nil (commas _)]
    exact .fields rfl (listed_commas h) .none rfl

/-- Values that can be nested are read where they are written. -/
theorem readsValues_nests (hk : n ≤ k) : ReadsValues (.ofLevels k) fun e w => e.tokens = w ∧ e.Nests n where
  takes := (Inner.ofLevels_takes k).zero
  derives := fun ⟨hw, he⟩ => hw ▸ Expr.Nests.derives he
  reads := fun ⟨hw, he⟩ => hw ▸ he k hk

theorem Expr.Returns.table (hes : ∀ e ∈ elements, e.Nests n) (hns : ∀ a ∈ entries, a.value.Nests n)
    (ha : Entry.Ascending entries) : (Expr.table elements entries).Returns n := by
  refine .of_operand rfl fun k hk us _ => (operand_table rfl _).trans ?_
  have hfields : ∀ c ∈ elements.map Sum.inl ++ entries.map Sum.inr,
      FieldTokens (fun e w => e.tokens = w ∧ e.Nests n) c (fieldTokens c) := by
    intro c hc
    rcases List.mem_append.1 hc with hc | hc
    · obtain ⟨e, he, rfl⟩ := List.mem_map.1 hc
      exact .element ⟨rfl, hes e he⟩
    · obtain ⟨⟨x, e⟩, ha, rfl⟩ := List.mem_map.1 hc
      exact .named (t := .plain .identifier x) (u := .plain .operator "=") rfl rfl ⟨rfl, hns _ ha⟩
  have hwrite : eachTokens elements ++ entriesTokens entries =
      (elements.map Sum.inl ++ entries.map Sum.inr).map fieldTokens := by
    rw [eachTokens_eq, entriesTokens_eq, List.map_append, List.map_map, List.map_map]
    rfl
  have hresult : Expr.ofFields (elements.map Sum.inl ++ entries.map Sum.inr) = .table elements entries := by
    rw [Expr.ofFields, List.foldl_append, foldl_addField_inl, foldl_addField_inr _ [] ha, List.append_nil, List.nil_append,
      List.reverse_reverse]
  have hread := (tableTokens_commas hfields).readsAs (F := fun _ => True) (readsValues_nests hk) us trivial
  rwa [← hwrite, hresult] at hread

end MiniLua
