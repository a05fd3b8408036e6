import MiniLua.Proofs.Canonical.Rereading
import MiniLua.Proofs.Syntax.Sound
/-!
# Fields in braces

The tokens of fields, with commas between them and braces around them, are read as the table that these fields make, put
into it one after the other, if those of the values are read as the values (`TableTokens.readsAs`). Two tokens decide
whether a field has a name, and no expression in a table starts with a name and an equals sign.
-/

namespace MiniLua

open MiniLua.Parser MiniLua.Syntax

/-! ## Tokens -/

section
variable (φ : Expr → List Token → Prop)

/-- The tokens of a field, with those of its value as said. -/
inductive FieldTokens : Expr ⊕ Entry → List Token → Prop
  | element {e w} : φ e w → FieldTokens (.inl e) w
  | named {t u e w} : t.kind = .identifier → u.isOperator "=" = true → φ e w → FieldTokens (.inr ⟨t.value, e⟩) (t :: u :: w)

/-- A comma, or none. -/
inductive Trailing : List Token → Prop
  | none : Trailing []
  | comma {t} : t.isSymbol "," = true → Trailing [t]

/-- The tokens of a table: fields with commas between them, of which one more may follow the last field, or no field. -/
inductive TableTokens : List (Expr ⊕ Entry) → List Token → Prop
  | empty {o c} : o.isSymbol "\x7b" = true → c.isSymbol "\x7d" = true → TableTokens [] [o, c]
  | fields {o c fs w v} : o.isSymbol "\x7b" = true → Listed (FieldTokens φ) fs w → Trailing v → c.isSymbol "\x7d" = true →
    TableTokens fs (o :: (w ++ v ++ [c]))

end

/-- A table's fields with one more, which is an element or an entry. -/
def addField (fields : List Expr × List Entry) : Expr ⊕ Entry → List Expr × List Entry
  | .inl e => (e :: fields.1, fields.2)
  | .inr a => (fields.1, Entry.insert a.key a.value fields.2)

/-- The table with some fields, one put into it after the other. -/
def Expr.ofFields (fs : List (Expr ⊕ Entry)) : Expr :=
  .table (fs.foldl addField ([], [])).1.reverse (fs.foldl addField ([], [])).2

variable {inner : Inner} {φ ψ : Expr → List Token → Prop} {f : Expr ⊕ Entry} {fs : List (Expr ⊕ Entry)} {ts us v w : List Token}
  {fields fields' : List Expr × List Entry} {F : List Token → Prop}

theorem FieldTokens.mono (h : FieldTokens φ f w) (hφ : ∀ e w, φ e w → ψ e w) : FieldTokens ψ f w := by
  cases h with
  | element he => exact .element (hφ _ _ he)
  | named ht hu he => exact .named ht hu (hφ _ _ he)

/-- Behind a field comes a comma or the end of the table. -/
theorem afterField_row (h : Row (Behind (FieldTokens φ)) fs w) (hv : Trailing v) (hc : BeforeBrace us) :
    AfterField (w ++ (v ++ us)) := by
  refine before_behind h (fun t us ht => ahead_cons.2 (.inl ht)) ?_
  cases hv with
  | none =>
    obtain ⟨c, us, rfl, hc⟩ := hc
    exact ahead_cons.2 (.inr hc)
  | comma ht => exact ahead_cons.2 (.inl ht)

/-! ## Reading -/

/-- Tokens of values have the form of expressions, and are read as the values. -/
structure ReadsValues (inner : Inner) (φ : Expr → List Token → Prop) : Prop where
  takes : inner.Takes 0
  derives : ∀ {e w}, φ e w → Derives [.expr] w
  reads : ∀ {e w}, φ e w → (inner.expr .lowest).ReadsAs w e AfterExpr

theorem FieldTokens.readsAs (hf : FieldTokens φ f w) (h : ReadsValues inner φ) (fields : List Expr × List Entry) :
    (fieldOrEnd inner fields).ReadsAs w (addField fields f) AfterField := by
  intro us hus
  cases hf with
  | element he =>
    have hopen : (w ++ us).head?.any (·.isSymbol "\x7d") = false := by
      obtain ⟨t, v, rfl, ht⟩ := expr_start (h.derives he)
      exact ht.isSymbol_eq_false (by decide)
    rw [fieldOrEnd_of_not_closing hopen, field, startsNamed_eq_false (h.derives he) hus]
    exact (h.reads he).bind_pure us hus.afterExpr
  | @named t u e w ht hu he =>
    have hnamed : startsNamed (t :: u :: (w ++ us)) = true := by simp [startsNamed, ht, hu]
    have hopen : (t :: u :: (w ++ us)).head?.any (·.isSymbol "\x7d") = false := by simp [Token.isSymbol, Token.is, ht]
    have hread := (readsAs_next (F := fun _ => True) t).bind_token
      (q := fun key => do
        let _ ← next
        let value ← inner.expr .lowest
        pure (fields.1, Entry.insert key.value value fields.2))
      ((readsAs_next u).bind_token (h.reads he).bind_pure)
    rw [List.cons_append, List.cons_append, fieldOrEnd_of_not_closing hopen, field, if_pos hnamed]
    exact hread us hus.afterExpr

/-- The fields behind the first one, and the comma behind the last one. -/
theorem nextFields_readsAs (hfs : Row (Behind (FieldTokens φ)) fs w) (hv : Trailing v) (h : ReadsValues inner φ)
    (fields : List Expr × List Entry) :
    (repeating (nextField? inner) fields).ReadsAs (w ++ v) (fs.foldl addField fields) BeforeBrace := by
  have hp := progressive_nextField h.takes
  have hstop : ∀ t us, BeforeBrace (t :: us) → nextField? inner t = none := by
    rintro t us ⟨_, _, ⟨⟩, ht⟩
    exact nextField?_of_closing ht
  induction hfs generalizing fields with
  | nil =>
    cases hv with
    | none => exact repeating_stop hstop fields
    | comma ht =>
      have hend : (fieldOrEnd inner fields).ReadsAs [] fields BeforeBrace := by
        rintro _ ⟨c, us, rfl, hc⟩
        exact fieldOrEnd_of_closing fields hc us
      exact repeating_step hp (if_pos ht) ((readsAs_next _).bind_token hend) (repeating_stop hstop fields) fun us hus => hus
  | cons hf hfs ih =>
    obtain ⟨ht, hf⟩ := hf
    rw [List.append_assoc]
    refine repeating_step hp (if_pos ht) ((readsAs_next _).bind_token (hf.readsAs h fields)) (ih _) fun us hus => ?_
    rw [List.append_assoc]
    exact afterField_row hfs hv hus

theorem TableTokens.readsAs (hfs : TableTokens φ fs w) (h : ReadsValues inner φ) :
    (table inner).ReadsAs w (.ofFields fs) F := by
  have hclose : ∀ {c}, c.isSymbol "\x7d" = true → ∀ fields : List Expr × List Entry,
      (symbol "\x7d" >>= fun _ => pure (.table fields.1.reverse fields.2) : Parser Expr).ReadsAs [c]
        (.table fields.1.reverse fields.2) F := fun hc _ => (readsAs_satisfy hc).bind_pure
  cases hfs with
  | empty ho hc =>
    refine (readsAs_satisfy ho).bind_token fun us hus => ?_
    exact bind_eq_ok.2 ⟨_, _, fieldOrEnd_of_closing _ hc us, bind_eq_ok.2 ⟨_, _, repeating_of_none (nextField?_of_closing hc) _ us,
      hclose hc ([], []) us hus⟩⟩
  | @fields o c fs w v ho hfs hv hc =>
    obtain ⟨hf, hfs⟩ := hfs
    rw [List.append_assoc _ _ v, List.append_assoc]
    refine (readsAs_satisfy ho).bind_token ((hf.readsAs h ([], [])).bind
      ((nextFields_readsAs hfs hv h _).bind (hclose hc _) fun us _ => ?_) fun us _ => ?_)
    · exact ⟨_, us, rfl, hc⟩
    · rw [List.append_assoc, List.append_assoc]
      exact afterField_row hfs hv ⟨_, us, rfl, hc⟩

/-! ## What was read -/

theorem field_cases (hi : inner.Takes 0) (h : field inner fields ts = .ok (fields', us)) :
    ∃ f w, ts = w ++ us ∧ FieldTokens (fun e v => inner.expr .lowest (v ++ us) = .ok (e, us)) f w ∧ fields' = addField fields f := by
  rw [field] at h
  split at h
  · next hnamed =>
    obtain _ | ⟨t, _ | ⟨u, ts⟩⟩ := ts
    · cases hnamed
    · cases hnamed
    · simp only [startsNamed, Bool.and_eq_true, decide_eq_true_eq] at hnamed
      obtain ⟨key, _, hkey, h⟩ := bind_eq_ok.1 h
      cases hkey
      obtain ⟨_, _, hequals, h⟩ := bind_eq_ok.1 h
      cases hequals
      obtain ⟨e, _, he, h⟩ := bind_eq_ok.1 h
      cases h
      obtain ⟨w, rfl⟩ := (hi.expr .lowest).suffix_of_ok he
      exact ⟨_, t :: u :: w, rfl, .named hnamed.1 hnamed.2 he, rfl⟩
  · obtain ⟨e, _, he, h⟩ := bind_eq_ok.1 h
    cases h
    obtain ⟨w, rfl⟩ := (hi.expr .lowest).suffix_of_ok he
    exact ⟨_, w, rfl, .element he, rfl⟩

/-- Either the table ends here, or a field is read. -/
theorem fieldOrEnd_cases (hi : inner.Takes 0) (h : fieldOrEnd inner fields ts = .ok (fields', us)) :
    (BeforeBrace ts ∧ fields' = fields ∧ us = ts) ∨
      ∃ f w, ts = w ++ us ∧ FieldTokens (fun e v => inner.expr .lowest (v ++ us) = .ok (e, us)) f w ∧
        fields' = addField fields f := by
  cases hopen : ts.head?.any (·.isSymbol "\x7d") with
  | false => exact .inr (field_cases hi ((fieldOrEnd_of_not_closing hopen).symm.trans h))
  | true =>
    cases ts with
    | nil => cases hopen
    | cons t ts =>
      rw [fieldOrEnd_of_closing fields hopen] at h
      cases h
      exact .inl ⟨⟨t, ts, rfl, hopen⟩, rfl, rfl⟩

end MiniLua
