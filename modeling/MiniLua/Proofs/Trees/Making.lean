import MiniLua.Proofs.Reading.Lookahead
/-!
# What parsers make of tokens

`Makes` relates the value of a parser to the very tokens that it took: a parser that succeeds has
taken tokens of which its value is made as said. What a list is made of is put together from what
its members are made of (`Row`, `Listed`, `Grouped`), and each combinator keeps such relations.
-/

namespace MiniLua

/-! ## Lists -/

section
variable {α : Type}

/-- Values one after another, each with its own tokens. -/
inductive Row (φ : α → List Token → Prop) : List α → List Token → Prop
  | nil : Row φ [] []
  | cons {a as v w} : φ a v → Row φ as w → Row φ (a :: as) (v ++ w)

/-- A value behind a comma. -/
inductive Behind (φ : α → List Token → Prop) : α → List Token → Prop
  | mk {t a w} : t.isSymbol "," = true → φ a w → Behind φ a (t :: w)

/-- One value or more with commas between them. -/
inductive Listed (φ : α → List Token → Prop) : List α → List Token → Prop
  | mk {a as v w} : φ a v → Row (Behind φ) as w → Listed φ (a :: as) (v ++ w)

/-- Values with commas between them, or none, in parentheses. -/
inductive Grouped (φ : α → List Token → Prop) : List α → List Token → Prop
  | none {t c} : t.isSymbol "(" = true → c.isSymbol ")" = true → Grouped φ [] [t, c]
  | some {t c as w} : t.isSymbol "(" = true → Listed φ as w → c.isSymbol ")" = true →
    Grouped φ as (t :: (w ++ [c]))

end

variable {α : Type} {φ ψ : α → List Token → Prop} {a : α} {as : List α} {t : Token} {v w : List Token}

theorem Row.concat (h : Row φ as v) (ha : φ a w) : Row φ (as ++ [a]) (v ++ w) := by
  induction h with
  | nil =>
    have := Row.cons ha .nil
    rwa [List.append_nil] at this
  | cons hb _ ih =>
    rw [List.append_assoc]
    exact .cons hb ih

/-- Each value of a row has its tokens among those of the row. -/
theorem Row.exists_of_mem (h : Row φ as w) (ha : a ∈ as) : ∃ v, v.Sublist w ∧ φ a v := by
  induction h with
  | nil => cases ha
  | @cons b bs v w hb _ ih =>
    rcases List.mem_cons.1 ha with rfl | ha
    · exact ⟨v, List.sublist_append_left v w, hb⟩
    · obtain ⟨u, hu, hau⟩ := ih ha
      exact ⟨u, hu.trans (List.sublist_append_right v w), hau⟩

/-- What is said of each value of a list is said of its own tokens. -/
theorem Listed.exists_of_mem (h : Listed φ as w) (ha : a ∈ as) : ∃ v, φ a v := by
  obtain ⟨hb, has⟩ := h
  rcases List.mem_cons.1 ha with rfl | ha
  · exact ⟨_, hb⟩
  · obtain ⟨_, -, -, hv⟩ := has.exists_of_mem ha
    exact ⟨_, hv⟩

theorem Grouped.exists_of_mem (h : Grouped φ as w) (ha : a ∈ as) : ∃ v, φ a v := by
  cases h with
  | none => cases ha
  | some _ has _ => exact has.exists_of_mem ha

namespace Parser

variable {β : Type} {p : Parser α} {q : α → Parser β} {χ : β → List Token → Prop} {ts us : List Token}

/-! ## Combinators -/

/-- What the parser makes here is made so of the tokens that it takes. -/
def MakesAt (p : Parser α) (φ : α → List Token → Prop) (ts : List Token) : Prop :=
  ∀ a us, p ts = .ok (a, us) → ∃ w, ts = w ++ us ∧ φ a w

def Makes (p : Parser α) (φ : α → List Token → Prop) : Prop := ∀ ts, p.MakesAt φ ts

namespace MakesAt

theorem mono (h : p.MakesAt φ ts) (hφ : ∀ a w, φ a w → ψ a w) : p.MakesAt ψ ts := by
  intro a us hp
  obtain ⟨w, hw, ha⟩ := h a us hp
  exact ⟨w, hw, hφ a w ha⟩

/-- Only the run at these tokens matters. -/
theorem congr {p' : Parser α} (h : p.MakesAt φ ts) (hp : p' ts = p ts) : p'.MakesAt φ ts := by
  intro a us ha
  exact h a us (hp ▸ ha)

theorem bind (hp : p.MakesAt φ ts) (hq : ∀ a v, φ a v → (q a).Makes fun b w => χ b (v ++ w)) :
    (p >>= q).MakesAt χ ts := by
  intro b us h
  obtain ⟨a, vs, ha, hb⟩ := bind_eq_ok.1 h
  obtain ⟨v, rfl, hv⟩ := hp a vs ha
  obtain ⟨w, rfl, hw⟩ := hq a v hv vs b us hb
  exact ⟨v ++ w, (List.append_assoc v w us).symm, hw⟩

/-- What is made of the value of a parser that is the last to take tokens. -/
theorem bind_pure {f : α → β} (hp : p.MakesAt φ ts) (h : ∀ a w, φ a w → χ (f a) w) :
    (p >>= fun a => pure (f a)).MakesAt χ ts := by
  intro b us hb
  obtain ⟨a, vs, ha, hb⟩ := bind_eq_ok.1 hb
  cases hb
  obtain ⟨w, hw, hφ⟩ := hp a us ha
  exact ⟨w, hw, h a w hφ⟩

theorem map {f : α → β} (hp : p.MakesAt φ ts) (h : ∀ a w, φ a w → χ (f a) w) : (f <$> p).MakesAt χ ts := by
  rw [map_eq_pure_bind]
  exact hp.bind_pure h

theorem choice {test : List Token → Bool} {q : Parser α} (hp : test ts = true → p.MakesAt φ ts)
    (hq : q.MakesAt φ ts) : MakesAt (fun ts => if test ts then p ts else q ts) φ ts := by
  cases h : test ts with
  | true => exact (hp h).congr (by simp [h])
  | false => exact hq.congr (by simp [h])

/-- The next token has been looked at already. -/
theorem next_bind {q : Token → Parser β} (hq : (q t).MakesAt (fun b w => χ b (t :: w)) us) :
    (Parser.next >>= q).MakesAt χ (t :: us) := by
  intro b vs h
  obtain ⟨w, rfl, hw⟩ := hq b vs h
  exact ⟨t :: w, rfl, hw⟩

end MakesAt

namespace Makes

theorem bind (hp : p.Makes φ) (hq : ∀ a v, φ a v → (q a).Makes fun b w => χ b (v ++ w)) : (p >>= q).Makes χ :=
  fun ts => (hp ts).bind hq

theorem bind_pure {f : α → β} (hp : p.Makes φ) (h : ∀ a w, φ a w → χ (f a) w) : (p >>= fun a => pure (f a)).Makes χ :=
  fun ts => (hp ts).bind_pure h

theorem map {f : α → β} (hp : p.Makes φ) (h : ∀ a w, φ a w → χ (f a) w) : (f <$> p).Makes χ :=
  fun ts => (hp ts).map h

theorem nested (hp : p.Makes φ) : (Parser.nested p).Makes φ := by
  intro ts a us h
  rw [Parser.nested] at h
  split at h
  · next r hr =>
    cases h
    exact hp ts a us hr
  · cases h

end Makes

theorem makes_pure (h : φ a []) : (pure a : Parser α).Makes φ := by
  rintro ts _ _ ⟨⟩
  exact ⟨[], rfl, h⟩

theorem makes_fail (fault : Fault) : (fail fault : Parser α).Makes φ := by
  rintro ts _ _ ⟨⟩

theorem makes_satisfy (wanted : Expectation) (test : Token → Bool) :
    (satisfy wanted test).Makes fun t w => w = [t] ∧ test t = true := by
  intro ts t us h
  obtain ⟨rfl, ht⟩ := satisfy_eq_ok.1 h
  exact ⟨[t], rfl, rfl, ht⟩

theorem makes_keyword (word : String) : (keyword word).Makes fun t w => w = [t] ∧ t.isKeyword word = true :=
  makes_satisfy _ _

theorem makes_symbol (text : String) : (symbol text).Makes fun t w => w = [t] ∧ t.isSymbol text = true :=
  makes_satisfy _ _

theorem makes_operator (text : String) : (operator text).Makes fun t w => w = [t] ∧ t.isOperator text = true :=
  makes_satisfy _ _

theorem makes_name : name.Makes fun x w => ∃ t, w = [t] ∧ t.kind = .identifier ∧ x = t.value :=
  (makes_satisfy _ _).map fun t _ ⟨hw, ht⟩ => ⟨t, hw, of_decide_eq_true ht, rfl⟩

theorem makes_look {wanted : Expectation} {go : Token → Parser α} (h : ∀ t us, (go t).MakesAt φ (t :: us)) :
    (look wanted go).Makes φ := by
  intro ts
  cases ts with
  | nil => rintro _ _ ⟨⟩
  | cons t us => exact h t us

/-- The next token decides between two parsers. -/
theorem makes_check {test : Token → Bool} {p q : Parser α} (hp : ∀ t us, test t = true → p.MakesAt φ (t :: us))
    (hq : q.Makes φ) : (check test >>= fun b => if b then p else q).Makes φ := by
  intro ts
  cases h : ts.head?.any test with
  | false => exact (hq ts).congr (check_false h)
  | true =>
    cases ts with
    | nil => cases h
    | cons t us => exact (hp t us (by simpa using h)).congr (check_true h)

/-! ## Loops -/

/-- What is so at the start of a loop and kept by every round is so at its end. -/
theorem makes_repeating {round? : Token → Option (α → Parser α)}
    (hround : ∀ a v, φ a v → ∀ t round, round? t = some round → ∀ us,
      (round a).MakesAt (fun b w => φ b (v ++ w)) (t :: us))
    (h : φ a v) : (repeating round? a).Makes fun b w => φ b (v ++ w) := by
  have hstop : ∀ a v, φ a v → ∀ ts : List Token, ∃ w, ts = w ++ ts ∧ φ a (v ++ w) :=
    fun a v h ts => ⟨[], rfl, by rwa [List.append_nil]⟩
  have hrounds : ∀ bound a v, φ a v → (rounds round? bound a).Makes fun b w => φ b (v ++ w) := by
    intro bound
    induction bound with
    | nil =>
      rintro a v h ts _ _ ⟨⟩
      exact hstop a v h ts
    | cons _ bound ih =>
      intro a v h ts b us hb
      cases ts with
      | nil =>
        cases hb
        exact hstop a v h []
      | cons t ts =>
        rw [rounds] at hb
        cases hr : round? t with
        | none =>
          rw [hr] at hb
          cases hb
          exact hstop a v h (t :: ts)
        | some round =>
          have hb : (round a >>= rounds round? bound) (t :: ts) = .ok (b, us) := by
            rw [hr] at hb
            exact hb
          obtain ⟨c, vs, hc, hb⟩ := bind_eq_ok.1 hb
          obtain ⟨w, hw, hφ⟩ := hround a v h t round hr ts c vs hc
          obtain ⟨x, rfl, hx⟩ := ih c (v ++ w) hφ vs b us hb
          have hx : φ b (v ++ (w ++ x)) := by rwa [← List.append_assoc]
          exact ⟨w ++ x, by rw [hw, List.append_assoc], hx⟩
  exact fun ts => hrounds ts a v h ts

theorem makes_many {test : Token → Bool} (h : ∀ t us, test t = true → p.MakesAt φ (t :: us)) :
    (many test p).Makes (Row φ) := by
  -- The items are held last one first.
  have hloop : (repeating (fun t => if test t then some fun items => (· :: items) <$> p else none) []).Makes
      fun items w => Row φ (List.reverse items) ([] ++ w) := by
    refine makes_repeating (φ := fun items w => Row φ (List.reverse items) w) (fun items v hv t round hr us => ?_) .nil
    simp only [Option.ite_none_right_eq_some, Option.some.injEq] at hr
    obtain ⟨ht, rfl⟩ := hr
    refine (h t us ht).map fun a w ha => ?_
    rw [List.reverse_cons]
    exact hv.concat ha
  exact hloop.bind_pure fun _ _ h => h

theorem makes_separated (h : p.Makes φ) : (separated p).Makes (Listed φ) := by
  refine h.bind fun a v ha => ?_
  refine Makes.bind_pure (φ := Row (Behind φ)) (makes_many fun t us ht => .next_bind ?_) fun as w has => .mk ha has
  exact (h us).mono fun a w ha => .mk ht ha

theorem makes_parenthesized (h : p.Makes φ) : (parenthesized p).Makes (Grouped φ) := by
  refine (makes_symbol "(").bind ?_
  rintro t _ ⟨rfl, ht⟩
  refine makes_check (fun c us hc => .next_bind (makes_pure (.none ht hc) us)) ?_
  refine (makes_separated h).bind fun as v has => (makes_symbol ")").bind_pure ?_
  rintro c _ ⟨rfl, hc⟩
  exact .some ht has hc

end Parser
end MiniLua
