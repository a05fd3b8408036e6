import MiniLua.Proofs.Canonical.Tokens
import MiniLua.Proofs.Reading.Progress
import MiniLua.Proofs.Trees.Making
/-!
# Reading what was written

`ReadsAs` says that a parser reads certain tokens as a certain value and stops behind them,
if what comes next is as said. It goes through the combinators in the order in which the
tokens are written. `repeating_invariant` is the other direction: what holds of the value of
a loop because each round keeps it.
-/

namespace MiniLua.Parser

variable {α β γ : Type} {p : Parser α} {q : α → Parser β} {F G : List Token → Prop} {a : α} {b : β}
  {t : Token} {w v ts us : List Token}

/-- The tokens are read as the value before whatever satisfies a condition. -/
def ReadsAs (p : Parser α) (w : List Token) (a : α) (F : List Token → Prop) : Prop :=
  ∀ us, F us → p (w ++ us) = .ok (a, us)

namespace ReadsAs

theorem mono (h : p.ReadsAs w a F) (hGF : ∀ us, G us → F us) : p.ReadsAs w a G := fun us hus => h us (hGF us hus)

theorem bind (hp : p.ReadsAs w a F) (hq : (q a).ReadsAs v b G) (h : ∀ us, G us → F (v ++ us)) :
    (p >>= q).ReadsAs (w ++ v) b G := by
  intro us hus
  rw [List.append_assoc, bind_run, hp _ (h us hus)]
  exact hq us hus

/-- After one token that is read whatever follows it. -/
theorem bind_token (hp : p.ReadsAs [t] a fun _ => True) (hq : (q a).ReadsAs v b G) : (p >>= q).ReadsAs (t :: v) b G :=
  hp.bind hq fun _ _ => trivial

theorem bind_pure {c : α → β} (hp : p.ReadsAs w a F) : (p >>= fun x => pure (c x)).ReadsAs w (c a) F := by
  intro us hus
  rw [bind_run, hp us hus]
  rfl

theorem map {c : α → β} (hp : p.ReadsAs w a F) : (c <$> p).ReadsAs w (c a) F := by
  rw [map_eq_pure_bind]
  exact hp.bind_pure

theorem nested (hp : p.ReadsAs w a F) : (Parser.nested p).ReadsAs w a F := by
  intro us hus
  rw [Parser.nested, hp us hus]

theorem check_true {p q : Parser α} {test : Token → Bool} (ht : ∀ us, F us → (w ++ us).head?.any test = true)
    (hp : p.ReadsAs w a F) : (check test >>= fun b => if b then p else q).ReadsAs w a F :=
  fun us hus => (Parser.check_true (ht us hus)).trans (hp us hus)

theorem check_false {p q : Parser α} {test : Token → Bool} (ht : ∀ us, F us → (w ++ us).head?.any test = false)
    (hq : q.ReadsAs w a F) : (check test >>= fun b => if b then p else q).ReadsAs w a F :=
  fun us hus => (Parser.check_false (ht us hus)).trans (hq us hus)

end ReadsAs

/-! ## One token -/

theorem readsAs_pure (a : α) : (pure a : Parser α).ReadsAs [] a F := fun _ _ => rfl

theorem readsAs_next (t : Token) : next.ReadsAs [t] t F := fun _ _ => rfl

theorem readsAs_satisfy {wanted : Expectation} {test : Token → Bool} (h : test t = true) :
    (satisfy wanted test).ReadsAs [t] t F := by
  intro us _
  simp [satisfy, h]

theorem readsAs_keyword (word : String) : (keyword word).ReadsAs [.plain .keyword word] (.plain .keyword word) F :=
  readsAs_satisfy (Token.is_iff.2 ⟨rfl, rfl⟩)

theorem readsAs_symbol (text : String) : (symbol text).ReadsAs [.plain .symbol text] (.plain .symbol text) F :=
  readsAs_satisfy (Token.is_iff.2 ⟨rfl, rfl⟩)

theorem readsAs_operator (text : String) : (operator text).ReadsAs [.plain .operator text] (.plain .operator text) F :=
  readsAs_satisfy (Token.is_iff.2 ⟨rfl, rfl⟩)

theorem readsAs_identifier (ht : t.kind = .identifier) : name.ReadsAs [t] t.value F :=
  (readsAs_satisfy (decide_eq_true ht)).map

theorem readsAs_name (x : String) : name.ReadsAs [.plain .identifier x] x F :=
  readsAs_identifier (t := .plain .identifier x) rfl

/-! ## Loops -/

section
variable {round? : Token → Option (α → Parser α)} {write : γ → List Token} {as : List α} {cs : List γ}

/-- A loop ends before what gives no round. -/
theorem repeating_stop (hstop : ∀ t us, F (t :: us) → round? t = none) (a : α) : (repeating round? a).ReadsAs [] a F := by
  intro us hus
  cases us with
  | nil => rfl
  | cons t us => exact repeating_of_none (hstop t us hus) a us

/-- A round, and then the loop goes on with what it made. -/
theorem repeating_step (hp : Progressive round?) {round : α → Parser α} (hr : round? t = some round) {a b c : α}
    (hround : (round a).ReadsAs (t :: v) b G) (hmore : (repeating round? b).ReadsAs w c F) (h : ∀ us, F us → G (w ++ us)) :
    (repeating round? a).ReadsAs (t :: v ++ w) c F := by
  intro us hus
  exact (repeating_of_some hp hr a (v ++ w ++ us)).trans (hround.bind hmore h us hus)

/-- A loop reads items one after another, each in one round. -/
theorem repeating_readsAs (hp : Progressive round?) (write : γ → List Token) (add : α → γ → α)
    (hround : ∀ c rest, c :: rest <:+ cs → ∀ a, ∃ t v round, write c = t :: v ∧ round? t = some round ∧
      (round a).ReadsAs (write c) (add a c) fun ts => ∃ us, F us ∧ ts = (rest.map write).flatten ++ us)
    (hstop : ∀ t us, F (t :: us) → round? t = none) (a : α) :
    (repeating round? a).ReadsAs (cs.map write).flatten (cs.foldl add a) F := by
  induction cs generalizing a with
  | nil => exact repeating_stop hstop a
  | cons c cs ih =>
    obtain ⟨t, v, round, hw, hr, hread⟩ := hround c cs (List.suffix_refl _) a
    have ih := ih (fun c' rest hs => hround c' rest (hs.trans (List.suffix_cons c cs))) (add a c)
    rw [List.map_cons, List.flatten_cons]
    rw [hw] at hread ⊢
    exact repeating_step hp hr hread ih fun us hus => ⟨us, hus, rfl⟩

theorem many_readsAs {item : Parser γ} {test : Token → Bool} (hi : item.Takes 1 0)
    (hitem : ∀ c rest, c :: rest <:+ cs → (∃ t v, write c = t :: v ∧ test t = true) ∧
      item.ReadsAs (write c) c fun ts => ∃ us, F us ∧ ts = (rest.map write).flatten ++ us)
    (hstop : ∀ t us, F (t :: us) → test t = false) : (many test item).ReadsAs (cs.map write).flatten cs F := by
  have hloop : (repeating (fun t => if test t then some fun items => (· :: items) <$> item else none) []).ReadsAs
      (cs.map write).flatten (cs.foldl (fun items c => c :: items) []) F := by
    refine repeating_readsAs (progressive_many hi test) write _ (fun c rest hs items => ?_)
      (fun t us hus => by simp [hstop t us hus]) []
    obtain ⟨⟨t, v, hw, ht⟩, hread⟩ := hitem c rest hs
    exact ⟨t, v, _, hw, if_pos ht, hread.map⟩
  have hrev : cs.foldl (fun items c => c :: items) [] = cs.reverse := by simp
  rw [hrev] at hloop
  have := hloop.bind_pure (c := List.reverse)
  rwa [List.reverse_reverse] at this

/-! ## Lists -/

variable {ψ : γ → List Token → Prop} {item : Parser γ} {H : List Token → Prop}

/-- Before more items there is a comma, or what is behind all of them. -/
theorem before_behind (h : Row (Behind ψ) cs w) (hcomma : ∀ t us, t.isSymbol "," = true → H (t :: us)) (hus : H us) :
    H (w ++ us) := by
  cases h with
  | nil => exact hus
  | cons hc _ =>
    obtain ⟨ht, _⟩ := hc
    exact hcomma _ _ ht

/-- Items behind commas are read one after another, each up to the next comma. -/
theorem many_behind (hi : item.Takes 1 0) (hitem : ∀ {c v}, ψ c v → item.ReadsAs v c H)
    (hcomma : ∀ t us, t.isSymbol "," = true → H (t :: us)) (hF : ∀ us, F us → H us)
    (hstop : ∀ t us, F (t :: us) → t.isSymbol "," = false) (h : Row (Behind ψ) cs w) :
    (many (·.isSymbol ",") (next >>= fun _ => item)).ReadsAs w cs F := by
  have hp := progressive_many (takes_next.bind fun _ => hi.of_le (Nat.zero_le 1) (Nat.le_refl 0)) (·.isSymbol ",")
  -- The loop holds the items last one first, those before it included.
  have hloop : ∀ items, (repeating (fun t => if t.isSymbol "," then
      some fun items => (· :: items) <$> (next >>= fun _ => item) else none) items).ReadsAs w (cs.reverse ++ items) F := by
    induction h with
    | nil => exact fun items => repeating_stop (fun t us ht => by simp [hstop t us ht]) items
    | cons hc hrow ih =>
      intro items
      obtain ⟨ht, hc⟩ := hc
      rw [List.reverse_cons, List.append_assoc]
      exact repeating_step hp (if_pos ht) ((readsAs_next _).bind_token (hitem hc)).map (ih _)
        fun us hus => before_behind hrow hcomma (hF us hus)
  have hread := (hloop []).bind_pure (c := List.reverse)
  rwa [List.append_nil, List.reverse_reverse] at hread

theorem separated_listed (hi : item.Takes 1 0) (hitem : ∀ {c v}, ψ c v → item.ReadsAs v c H)
    (hcomma : ∀ t us, t.isSymbol "," = true → H (t :: us)) (hF : ∀ us, F us → H us)
    (hstop : ∀ t us, F (t :: us) → t.isSymbol "," = false) (h : Listed ψ cs w) : (separated item).ReadsAs w cs F := by
  obtain ⟨hc, hrow⟩ := h
  exact (hitem hc).bind (many_behind hi hitem hcomma hF hstop hrow).bind_pure fun us hus =>
    before_behind hrow hcomma (hF us hus)

/-- A comma or the end of a list in parentheses comes next. -/
def AfterItem (ts : List Token) : Prop := ∃ t us, ts = t :: us ∧ (t.isSymbol "," = true ∨ t.isSymbol ")" = true)

theorem parenthesized_grouped (hi : item.Takes 1 0) (hitem : ∀ {c v}, ψ c v → item.ReadsAs v c AfterItem)
    (hstart : ∀ {c v}, ψ c v → ∃ t u, v = t :: u ∧ t.isSymbol ")" = false) (h : Grouped ψ cs w) :
    (parenthesized item).ReadsAs w cs F := by
  cases h with
  | none ho hc =>
    exact (readsAs_satisfy ho).bind_token (.check_true (fun _ _ => hc) ((readsAs_next _).bind_token (readsAs_pure [])))
  | some ho has hc =>
    have hitems := separated_listed (F := fun ts => ∃ t us, ts = t :: us ∧ t.isSymbol ")" = true) hi hitem
      (fun t us ht => ⟨t, us, rfl, .inl ht⟩) (fun _ ⟨t, us, hts, ht⟩ => ⟨t, us, hts, .inr ht⟩) ?_ has
    · refine (readsAs_satisfy ho).bind_token (.check_false (fun _ _ => ?_)
        (hitems.bind (readsAs_satisfy hc).bind_pure fun us _ => ⟨_, us, rfl, hc⟩))
      obtain ⟨hc, _⟩ := has
      obtain ⟨t, u, rfl, ht⟩ := hstart hc
      exact ht
    · rintro _ _ ⟨t, us, ⟨⟩, ht⟩
      simp [Token.isSymbol, Token.is, isSymbol_iff.1 ht]

/-! ## Written lists -/

theorem moreTokens_map (write : γ → List Token) (cs : List γ) :
    moreTokens (cs.map write) = (cs.map fun x => .plain .symbol "," :: write x).flatten := by
  rw [moreTokens, List.map_map]
  rfl

theorem row_moreTokens (h : ∀ x ∈ cs, ψ x (write x)) : Row (Behind ψ) cs (moreTokens (cs.map write)) := by
  rw [moreTokens_map]
  induction cs with
  | nil => exact .nil
  | cons c cs ih =>
    exact .cons (.mk rfl (h c List.mem_cons_self)) (ih fun x hx => h x (List.mem_cons_of_mem c hx))

theorem listed_commas {c : γ} (h : ∀ x ∈ c :: cs, ψ x (write x)) : Listed ψ (c :: cs) (commas ((c :: cs).map write)) :=
  .mk (h c List.mem_cons_self) (row_moreTokens fun x hx => h x (List.mem_cons_of_mem c hx))

theorem grouped_listTokens (h : ∀ x ∈ cs, ψ x (write x)) : Grouped ψ cs (listTokens (cs.map write)) := by
  cases cs with
  | nil => exact .none rfl rfl
  | cons c cs => exact .some rfl (listed_commas h) rfl

theorem separated_readsAs {c : γ} (hi : item.Takes 1 0) (hitem : ∀ x ∈ c :: cs, item.ReadsAs (write x) x H)
    (hcomma : ∀ t us, t.isSymbol "," = true → H (t :: us)) (hF : ∀ us, F us → H us)
    (hstop : ∀ t us, F (t :: us) → t.isSymbol "," = false) :
    (separated item).ReadsAs (commas ((c :: cs).map write)) (c :: cs) F :=
  separated_listed (ψ := fun x v => item.ReadsAs v x H) hi id hcomma hF hstop (listed_commas hitem)

theorem parenthesized_readsAs (hi : item.Takes 1 0) (hitem : ∀ x ∈ cs, item.ReadsAs (write x) x AfterItem)
    (hstart : ∀ x ∈ cs, ∃ t v, write x = t :: v ∧ t.isSymbol ")" = false) :
    (parenthesized item).ReadsAs (listTokens (cs.map write)) cs F :=
  parenthesized_grouped (ψ := fun x v => item.ReadsAs v x AfterItem ∧ ∃ t u, v = t :: u ∧ t.isSymbol ")" = false) hi
    (fun h => h.1) (fun h => h.2) (grouped_listTokens fun x hx => ⟨hitem x hx, hstart x hx⟩)

end

/-- What each round keeps holds at the end. -/
theorem repeating_invariant {round? : Token → Option (α → Parser α)} (hp : Progressive round?) (Inv : α → List Token → Prop)
    (hround : ∀ a t ts round b us, Inv a (t :: ts) → round? t = some round → round a (t :: ts) = .ok (b, us) → Inv b us)
    {a b : α} (ha : Inv a ts) (h : repeating round? a ts = .ok (b, us)) : Inv b us := by
  induction a, ts using hp.induction with
  | nil a =>
    cases h
    exact ha
  | stop a t ts hr =>
    rw [repeating_of_none hr] at h
    cases h
    exact ha
  | round a t ts round hr ih =>
    rw [repeating_of_some hp hr] at h
    obtain ⟨c, vs, hc, h⟩ := bind_eq_ok.1 h
    exact ih c vs hc (hround a t ts round c vs ha hr hc) h

/-! ## What lists are made of -/

variable {item : Parser α} {P : α → Prop} {as : List α}

theorem forall_of_many (hi : item.Takes 1 0) (hitem : ∀ ts a us, item ts = .ok (a, us) → P a) {test : Token → Bool}
    (h : many test item ts = .ok (as, us)) : ∀ a ∈ as, P a := by
  obtain ⟨items, _, hloop, he⟩ := bind_eq_ok.1 h
  cases he
  have hall : ∀ a ∈ items, P a := by
    refine repeating_invariant (progressive_many hi test) (fun items _ => ∀ a ∈ items, P a) ?_ (by simp) hloop
    intro items t ts round items' us hitems hr h a ha
    simp only [Option.ite_none_right_eq_some, Option.some.injEq] at hr
    obtain ⟨-, rfl⟩ := hr
    simp only [map_eq_pure_bind] at h
    obtain ⟨b, _, hb, he⟩ := bind_eq_ok.1 h
    cases he
    rcases List.mem_cons.1 ha with rfl | ha
    · exact hitem _ _ _ hb
    · exact hitems a ha
  exact fun a ha => hall a (List.mem_reverse.1 ha)

theorem forall_of_separated (hi : item.Takes 1 0) (hitem : ∀ ts a us, item ts = .ok (a, us) → P a)
    (h : separated item ts = .ok (as, us)) : ∀ a ∈ as, P a := by
  obtain ⟨first, _, hfirst, h⟩ := bind_eq_ok.1 h
  obtain ⟨more, _, hmore, he⟩ := bind_eq_ok.1 h
  cases he
  refine List.forall_mem_cons.2 ⟨hitem _ _ _ hfirst, ?_⟩
  refine forall_of_many (takes_next.bind fun _ => hi.of_le (Nat.zero_le 1) (Nat.le_refl 0)) (fun ts a us h => ?_) hmore
  obtain ⟨_, _, _, h⟩ := bind_eq_ok.1 h
  exact hitem _ _ _ h

theorem forall_of_parenthesized (hi : item.Takes 1 0) (hitem : ∀ ts a us, item ts = .ok (a, us) → P a)
    (h : parenthesized item ts = .ok (as, us)) : ∀ a ∈ as, P a := by
  obtain ⟨_, _, _, h⟩ := bind_eq_ok.1 h
  obtain ⟨closed, _, _, h⟩ := bind_eq_ok.1 h
  split at h
  · obtain ⟨_, _, _, he⟩ := bind_eq_ok.1 h
    cases he
    simp
  · obtain ⟨_, _, hitems, h⟩ := bind_eq_ok.1 h
    obtain ⟨_, _, _, he⟩ := bind_eq_ok.1 h
    cases he
    exact forall_of_separated hi hitem hitems

end MiniLua.Parser
