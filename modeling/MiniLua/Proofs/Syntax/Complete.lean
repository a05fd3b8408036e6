import MiniLua.Proofs.Syntax.Sound
/-!
# What is in the grammar is read

A production that is given an instance of its form, and behind it something that may come
there, takes just that instance, if levels do not run out (`Accepts`). Only an expression with
a bound leaves some of its operators, for whoever set the bound (`NestedAccepts.expr`).

With `Sound` this makes the accepted sequences those of the grammar (`parse_isOk_iff_derives`).
-/

namespace MiniLua.Syntax

open MiniLua.Parser

variable {α β : Type} {p : Parser α} {q : α → Parser β} {f g : List Item} {i : Item} {k : Terminal}
  {F G : List Token → Prop} {Q R : List Token → Prop} {t : Token} {ts u us v w rest : List Token}

/-- What is left is as said, unless levels ran out. -/
def Ends (p : Parser α) (ts : List Token) (Q : List Token → Prop) : Prop :=
  match p ts with
  | .ok (_, rest) => Q rest
  | .error e => e.fault = .tooDeep

/-- An instance of the form is taken if what follows it is as said. -/
def Accepts (p : Parser α) (f : List Item) (F : List Token → Prop) : Prop :=
  ∀ w rest, Derives f w → F rest → Ends p (w ++ rest) (· = rest)

namespace Ends

theorem of_ok {a : α} {r : List Token} (hp : p ts = .ok (a, r)) (hQ : Q r) : Ends p ts Q := by
  rwa [Ends, hp]

theorem congr {p' : Parser α} (h : Ends p ts Q) (hp : p' us = p ts) : Ends p' us Q := by
  rwa [Ends, hp]

theorem mono (h : Ends p ts Q) (hQR : ∀ us, Q us → R us) : Ends p ts R := by
  unfold Ends at h ⊢
  split at h
  · exact hQR _ h
  · exact h

theorem bind (hp : Ends p ts Q) (hq : ∀ a us, p ts = .ok (a, us) → Q us → Ends (q a) us R) : Ends (p >>= q) ts R := by
  unfold Ends at hp ⊢
  rw [bind_run]
  cases hr : p ts with
  | ok r =>
    rw [hr] at hp
    exact hq r.1 r.2 hr hp
  | error e => rwa [hr] at hp

theorem map {c : α → β} (hp : Ends p ts Q) : Ends (c <$> p) ts Q := by
  rw [map_eq_pure_bind]
  exact hp.bind fun a us _ hQ => .of_ok rfl hQ

end Ends

/-! ## Combinators -/

theorem accepts_pure (a : α) : Accepts (pure a) [] F := by
  rintro _ rest ⟨⟩ _
  exact .of_ok rfl rfl

theorem accepts_satisfy {wanted : Expectation} {test : Token → Bool} (h : ∀ t, k.Matches t → test t = true) :
    Accepts (satisfy wanted test) [.one k] F := by
  intro w rest hw _
  obtain ⟨t, _, rfl, ht, ⟨⟩⟩ := Derives.one_iff.1 hw
  exact .of_ok (satisfy_eq_ok.2 ⟨rfl, h t ht⟩) rfl

theorem accepts_keyword (word : String) : Accepts (keyword word) [.kw word] F :=
  accepts_satisfy fun _ => Terminal.keyword_iff.1

theorem accepts_symbol (text : String) : Accepts (symbol text) [.sym text] F :=
  accepts_satisfy fun _ => Terminal.symbol_iff.1

theorem accepts_operator (text : String) : Accepts (operator text) [.op text] F :=
  accepts_satisfy fun _ => Terminal.operator_iff.1

theorem accepts_next (k : Terminal) : Accepts next [.one k] F := by
  intro w rest hw _
  obtain ⟨t, _, rfl, _, ⟨⟩⟩ := Derives.one_iff.1 hw
  exact .of_ok rfl rfl

namespace Accepts

theorem map {c : α → β} (h : Accepts p f F) : Accepts (c <$> p) f F := fun w rest hw hF => (h w rest hw hF).map

theorem of_rule {n : Nonterminal} (h : Accepts p f F) (hn : ∀ g, Rule n g → g = f) (hs : n ≠ .stmt) :
    Accepts p [.of n] F := by
  intro w rest hw hF
  obtain ⟨g, hr, hw⟩ := hw.exists_rule hs
  obtain rfl := hn g hr
  exact h w rest hw hF

/-- One parser after another, where the first minds what follows it. -/
theorem append (hp : Accepts p f G) (hq : ∀ a, Accepts (q a) g F) (hG : ∀ w rest, Derives g w → F rest → G (w ++ rest)) :
    Accepts (p >>= q) (f ++ g) F := by
  intro w rest hw hF
  obtain ⟨u, v, rfl, hu, hv⟩ := hw.split
  rw [List.append_assoc]
  refine (hp u (v ++ rest) hu (hG v rest hv hF)).bind fun a us _ hus => ?_
  subst hus
  exact hq a v rest hv hF

theorem bind_of (hp : Accepts p [i] G) (hq : ∀ a, Accepts (q a) g F) (hG : ∀ w rest, Derives g w → F rest → G (w ++ rest)) :
    Accepts (p >>= q) (i :: g) F :=
  hp.append hq hG

/-- One parser after another, where the first takes the same whatever follows it. -/
theorem bind (hp : Accepts p [i] fun _ => True) (hq : ∀ a, Accepts (q a) g F) : Accepts (p >>= q) (i :: g) F :=
  hp.bind_of hq fun _ _ _ _ => trivial

/-- Something that may be left out is read where the next token announces it. -/
theorem option {test : Token → Bool} {p' : Parser α} (hp : Accepts p (.one k :: g) F) (hq : Accepts p' [] F)
    (ht : ∀ t, k.Matches t → test t = true) (hF : ∀ rest, F rest → rest.head?.any test = false) :
    Accepts (check test >>= fun b => if b then p else p') [.option (.one k :: g)] F := by
  intro w rest hw hFr
  rcases Derives.option_iff.1 hw with rfl | hw
  · exact (hq [] rest .nil hFr).congr (check_false (hF rest hFr))
  · refine (hp w rest hw hFr).congr (check_true ?_)
    obtain ⟨t, v, rfl, htm, _⟩ := Derives.one_iff.1 hw
    simp [ht t htm]

end Accepts

theorem accepts_name : Accepts name [.name] F :=
  (accepts_satisfy (k := .name) fun t ht => by simpa [Terminal.Matches] using ht).map

/-! ## Loops -/

/-- One more item of a loop, and then the loop over what is left. -/
theorem ends_many_cons {item : Parser α} {test : Token → Bool} (hitem : item.Takes 1 0) (ht : test t = true)
    (hp : Ends item (t :: ts) Q)
    (hq : ∀ items us, Q us →
      Ends (repeating (fun t => if test t then some fun items => (· :: items) <$> item else none) items) us R)
    (items : List α) :
    Ends (repeating (fun t => if test t then some fun items => (· :: items) <$> item else none) items) (t :: ts) R := by
  refine .congr ?_ (repeating_of_some (progressive_many hitem test) (if_pos ht) items ts)
  exact hp.map.bind fun items us _ hQ => hq items us hQ

theorem accepts_many {item : Parser α} {test : Token → Bool} (hitem : item.Takes 1 0) (h : Accepts item (.one k :: g) G)
    (ht : ∀ t, k.Matches t → test t = true) (hF : ∀ rest, F rest → rest.head?.any test = false)
    (hG : ∀ w rest, Derives [.many (.one k :: g)] w → F rest → G (w ++ rest)) :
    Accepts (many test item) [.many (.one k :: g)] F := by
  intro w rest hw hFr
  unfold many
  obtain ⟨ws, rfl, hws⟩ := Derives.many_iff.1 hw
  refine Ends.bind (Q := (· = rest)) ?_ fun items us _ hus => .of_ok rfl hus
  generalize ([] : List α) = items
  induction ws generalizing items with
  | nil =>
    have hrest := hF rest hFr
    cases rest with
    | nil => exact .of_ok rfl rfl
    | cons t us =>
      have : test t = false := by simpa using hrest
      exact .of_ok (repeating_of_none (by simp [this]) items us) rfl
  | cons u ws ih =>
    have hu := hws u (by simp)
    have htail : ∀ v ∈ ws, Derives (.one k :: g) v := fun v hv => hws v (by simp [hv])
    have hmore := Derives.many_iff.2 ⟨ws, rfl, htail⟩
    have hone := h u (ws.flatten ++ rest) hu (hG _ rest hmore hFr)
    obtain ⟨t, v, rfl, htm, _⟩ := Derives.one_iff.1 hu
    rw [List.flatten_cons, List.append_assoc]
    refine ends_many_cons hitem (ht t htm) hone (fun items us hus => ?_) items
    subst hus
    exact ih htail hmore items

section Lists
variable {item : Parser α} {P : Token → Prop} (hitem : item.Takes 1 0) (h : Accepts item f (Ahead P))
  (hcomma : ∀ t, (Terminal.symbol ",").Matches t → P t)
include hitem h hcomma

theorem accepts_separated (hF : ∀ rest, F rest → Ahead (fun t => P t ∧ t.isSymbol "," = false) rest) :
    Accepts (separated item) (Item.separated f) F := by
  have hG : ∀ w rest, Derives [.many (.sym "," :: f)] w → F rest → Ahead P (w ++ rest) := fun w rest =>
    leads_many hcomma (leads_nil fun rest hr => (hF rest hr).mono fun _ h => h.1) w rest
  unfold separated
  refine h.append (fun first => .bind_of (G := F) ?_ (fun more => accepts_pure _) ?_) hG
  · refine accepts_many ?_ ((accepts_next _).bind fun _ => h) (fun t => Terminal.symbol_iff.1) (fun rest hr => ?_) hG
    · exact (takes_next.bind fun _ => hitem).of_le (by omega) (Nat.le_refl 0)
    · exact (hF rest hr).any_eq_false fun t ht => ht.2
  · rintro _ rest ⟨⟩ hr
    exact hr

theorem accepts_parenthesized (hparen : ∀ t, (Terminal.symbol ")").Matches t → P t)
    (hfirst : ∀ w, Derives f w → ∃ t v, w = t :: v ∧ t.isSymbol ")" = false) :
    Accepts (parenthesized item) (Item.parenthesized f) F := by
  unfold parenthesized
  refine (accepts_symbol _).bind fun _ w rest hw hr => ?_
  obtain ⟨u, v, rfl, hu, hv⟩ := Derives.cons_iff.1 hw
  rcases Derives.option_iff.1 hu with rfl | hu
  · obtain ⟨t, _, rfl, ht, ⟨⟩⟩ := Derives.one_iff.1 hv
    exact .of_ok (a := []) (check_true (s := t :: rest) (by simp [Terminal.symbol_iff.1 ht])) rfl
  · have hlist : Accepts (separated item >>= fun items => symbol ")" >>= fun _ => pure items)
        (Item.separated f ++ [.sym ")"]) F := by
      refine (accepts_separated hitem h hcomma (F := Ahead fun t => t.isSymbol ")" = true) fun rest hr => ?_).append
        (fun items => (accepts_symbol _).bind fun _ => accepts_pure _) fun w rest hw hr => ?_
      · refine hr.mono fun t ht => ⟨hparen t (Terminal.symbol_iff.2 ht), ?_⟩
        obtain ⟨hk, hv⟩ := isSymbol_iff.1 ht
        simp [Token.isSymbol, Token.is, hv]
      · exact leads_one (F := F) (fun t ht => Terminal.symbol_iff.1 ht) w rest hw hr
    refine (hlist _ rest (hu.append hv) hr).congr (check_false ?_)
    obtain ⟨x, y, rfl, hx, _⟩ := hu.split
    obtain ⟨t, z, rfl, ht⟩ := hfirst x hx
    simp [ht]
end Lists

/-! ## Expressions -/

/-- What is nested accepts what it should. An expression with a bound may leave a part of its tail. -/
structure NestedAccepts (inner : Inner) : Prop where
  takes : inner.Takes 0
  expr : ∀ bound w rest, Derives [.expr] w → AfterExpr rest →
    Ends (inner.expr bound) (w ++ rest) fun us => ∃ v, us = v ++ rest ∧ Tail v
  whole : Accepts (inner.expr .lowest) [.expr] AfterExpr
  argument : Accepts inner.argument [.expr] AfterExpr
  block : Accepts inner.block [.block] EndsBlock

section
variable {inner : Inner} (hi : NestedAccepts inner)
include hi

theorem accepts_arguments : Accepts (arguments inner) [.arguments] F := by
  refine .of_rule (accepts_parenthesized hi.takes.argument hi.argument (fun t => continuesExpr_symbol (by decide))
    (fun t => continuesExpr_symbol (by decide)) fun w hw => ?_) (fun _ => by rintro ⟨⟩; rfl) (by decide)
  obtain ⟨t, v, rfl, ht⟩ := expr_start hw
  exact ⟨t, v, rfl, ht.isSymbol_eq_false (by decide)⟩

theorem accepts_grouping : Accepts (grouping inner) [.sym "(", .expr, .sym ")"] F := by
  unfold grouping
  exact (accepts_symbol _).bind fun _ => hi.whole.bind_of (fun _ => (accepts_symbol _).bind fun _ => accepts_pure _)
    (leads_one fun t => continuesExpr_symbol (by decide))

omit hi in
theorem link?_of_unlinked (h : Unlinked (t :: ts)) : link? inner t = none := link?_eq_none_iff.2 (ahead_cons.1 h)

/-- The arguments of a method call stand in the link of the name, or they are the next link. -/
theorem ends_methodArguments (callOf : List Expr → Expr) (e : Expr) (hu : Derives [.option [.arguments]] u)
    (hv : Derives [.many [.link]] v) (hr : Unlinked rest) :
    Ends (check (·.isSymbol "(") >>= fun b =>
        if b then arguments inner >>= fun args => pure (callOf args) else pure e)
      (u ++ (v ++ rest)) fun us => ∃ l, us = l ++ rest ∧ Derives [.many [.link]] l ∧ l.length ≤ v.length := by
  have hcall : ∀ a l, Derives [.arguments] a → Derives [.many [.link]] l → l.length ≤ v.length →
      Ends (check (·.isSymbol "(") >>= fun b =>
        if b then arguments inner >>= fun args => pure (callOf args) else pure e)
      (a ++ (l ++ rest)) fun us => ∃ l, us = l ++ rest ∧ Derives [.many [.link]] l ∧ l.length ≤ v.length := by
    intro a l ha hl hlen
    have hends : Ends (arguments inner >>= fun args => pure (callOf args)) (a ++ (l ++ rest)) fun us =>
        ∃ l, us = l ++ rest ∧ Derives [.many [.link]] l ∧ l.length ≤ v.length :=
      (accepts_arguments hi (F := fun _ => True) a _ ha trivial).bind fun args us _ hus => .of_ok rfl ⟨l, hus, hl, hlen⟩
    refine hends.congr (check_true ?_)
    obtain ⟨_, ⟨⟩, ha⟩ := ha.exists_rule (by decide)
    obtain ⟨t, b, rfl, ht, _⟩ := Derives.one_iff.1 ha
    simp [Terminal.symbol_iff.1 ht]
  rcases Derives.option_iff.1 hu with rfl | hu
  · rw [List.nil_append]
    by_cases hopen : (v ++ rest).head?.any (·.isSymbol "(") = true
    · cases hv with
      | stop hv =>
        cases hv
        rw [List.nil_append, hr.any_eq_false fun t ht => ht.1] at hopen
        cases hopen
      | again hu hv =>
        obtain ⟨t, a, rfl, _⟩ := link_start hu
        rw [List.append_assoc]
        exact hcall _ _ (arguments_of_link hu (by simpa using hopen)) hv (by simp; omega)
    · exact .of_ok (a := e) (check_false (by simpa using hopen)) ⟨v, rfl, hv, Nat.le_refl _⟩
  · exact hcall u v hu hv (Nat.le_refl _)

/-- A link takes itself, and a member also the call that is the next link. -/
theorem ends_link (hu : Derives [.link] (t :: u)) (hv : Derives [.many [.link]] v) (hr : Unlinked rest) :
    ∃ link, link? inner t = some link ∧ ∀ e, Ends (link e) (t :: u ++ (v ++ rest)) fun us =>
      ∃ l, us = l ++ rest ∧ Derives [.many [.link]] l ∧ l.length ≤ v.length := by
  obtain ⟨_, hrule, hw⟩ := hu.exists_rule (by decide)
  have hstop : ∀ us, us = v ++ rest → ∃ l, us = l ++ rest ∧ Derives [.many [.link]] l ∧ l.length ≤ v.length :=
    fun us hus => ⟨v, hus, hv, Nat.le_refl _⟩
  cases hrule with
  | call =>
    have ht : t.isSymbol "(" = true := by
      obtain ⟨_, ⟨⟩, hw⟩ := hw.exists_rule (by decide)
      obtain ⟨_, _, h, ht, _⟩ := Derives.one_iff.1 hw
      cases h
      exact Terminal.symbol_iff.1 ht
    refine ⟨call inner, by simp [link?, ht], fun e => ?_⟩
    unfold call
    exact (accepts_arguments hi (F := fun _ => True) _ _ hw trivial).bind fun args us _ hus => .of_ok rfl (hstop us hus)
  | member =>
    obtain ⟨_, w, h, ht, hw⟩ := Derives.one_iff.1 hw
    cases h
    obtain ⟨n, a, rfl, hn, ha⟩ := Derives.one_iff.1 hw
    obtain ⟨hk, hval⟩ := ht
    refine ⟨member inner, by simp [link?, Token.isSymbol, Token.is, hk, hval], fun e => ?_⟩
    unfold member
    refine Ends.congr (ends_methodArguments hi (.methodCall e n.value · false) (.member e n.value) ha hv hr) ?_
    simp [bind_run, symbol, exact, satisfy, Token.is, hk, hval, name, ofKind, show n.kind = .identifier from hn]
  | method =>
    obtain ⟨_, w, h, ht, hw⟩ := Derives.one_iff.1 hw
    cases h
    refine ⟨methodCall inner, ?_, fun e => ?_⟩
    · obtain ⟨hk, hval⟩ := ht
      simp [link?, Token.isSymbol, Token.is, hk, hval]
    · have : Accepts (methodCall inner e) [.sym ":", .name, .arguments] fun _ => True := by
        unfold methodCall
        exact (accepts_symbol _).bind fun _ => accepts_name.bind fun _ => (accepts_arguments hi).bind fun _ => accepts_pure _
      exact (this _ _ (.one ht hw) trivial).mono hstop

theorem accepts_links (e : Expr) : Accepts (links inner e) [.many [.link]] Unlinked := by
  intro w rest hw hr
  induction hn : w.length using Nat.strongRecOn generalizing w e with
  | ind n ih =>
    cases hw with
    | stop hw =>
      cases hw
      cases rest with
      | nil => exact .of_ok rfl rfl
      | cons t us => exact .of_ok (repeating_of_none (link?_of_unlinked hr) e us) rfl
    | again hu hv =>
      obtain ⟨t, u, rfl, _⟩ := link_start hu
      obtain ⟨link, hlink, hends⟩ := ends_link hi hu hv hr
      rw [List.append_assoc]
      refine .congr ?_ (repeating_of_some (progressive_link hi.takes) hlink e _)
      refine (hends e).bind fun e us _ hus => ?_
      obtain ⟨l, rfl, hl, hlen⟩ := hus
      simp only [List.length_append, List.length_cons] at hn
      exact ih l.length (by omega) e l hl rfl

/-! ## Tables and functions -/

theorem accepts_field (fields : List Expr × List Entry) : Accepts (field inner fields) [.field] AfterField := by
  intro w rest hw hr
  have hafter := AfterField.afterExpr hr
  obtain ⟨_, hrule, hw⟩ := hw.exists_rule (by decide)
  cases hrule with
  | named =>
    obtain ⟨t, _, rfl, ht, hw⟩ := Derives.one_iff.1 hw
    obtain ⟨u, v, rfl, hu, hw⟩ := Derives.one_iff.1 hw
    have hnamed : startsNamed (t :: u :: (v ++ rest)) = true := by
      simp [startsNamed, show t.kind = .identifier from ht, Terminal.operator_iff.1 hu]
    refine ((hi.whole v rest hw hafter).bind fun value us _ hus => ?_).congr (if_pos hnamed)
    exact .of_ok rfl hus
  | positional =>
    have hnamed := startsNamed_eq_false hw hr
    refine ((hi.whole w rest hw hafter).bind fun value us _ hus => ?_).congr (if_neg (by simp [hnamed]))
    exact .of_ok rfl hus

theorem accepts_nextFields (fields : List Expr × List Entry) :
    Accepts (repeating (nextField? inner) fields) [.many [.sym ",", .field], .option [.sym ","]] BeforeBrace := by
  intro w rest hw hr
  obtain ⟨c, o, rfl, hc, ho⟩ := Derives.cons_iff.1 hw
  obtain ⟨ws, rfl, hws⟩ := Derives.many_iff.1 hc
  have hround : ∀ t : Token, (Terminal.symbol ",").Matches t →
      nextField? inner t = some fun fields => next >>= fun _ => fieldOrEnd inner fields := by
    intro t ht
    simp [nextField?, Terminal.symbol_iff.1 ht]
  have hstop : ∀ fields, Ends (repeating (nextField? inner) fields) rest (· = rest) := by
    intro fields
    obtain ⟨t, us, rfl, ht⟩ := hr
    exact .of_ok (repeating_of_none (nextField?_of_closing ht) fields us) rfl
  clear hw hc
  induction ws generalizing fields with
  | nil =>
    rcases Derives.option_iff.1 ho with rfl | ho
    · exact hstop fields
    · obtain ⟨t, _, rfl, ht, ⟨⟩⟩ := Derives.one_iff.1 ho
      refine .congr ?_ (repeating_of_some (progressive_nextField hi.takes) (hround t ht) fields rest)
      refine Ends.bind (Q := (· = rest)) ?_ fun fields us _ hus => hus ▸ hstop fields
      obtain ⟨u, us, rfl, hu⟩ := hr
      exact .of_ok (fieldOrEnd_of_closing fields hu us) rfl
  | cons v ws ih =>
    obtain ⟨t, x, rfl, ht, hx⟩ := Derives.one_iff.1 (hws v (by simp))
    have hws : ∀ u ∈ ws, Derives [.sym ",", .field] u := fun u hu => hws u (by simp [hu])
    rw [List.flatten_cons, List.append_assoc, List.append_assoc]
    refine .congr ?_ (repeating_of_some (progressive_nextField hi.takes) (hround t ht) fields _)
    have hmore := (Derives.many_iff.2 ⟨ws, rfl, hws⟩).append ho
    have hafter : AfterField (ws.flatten ++ (o ++ rest)) := by
      rw [← List.append_assoc]
      exact nextFields_lead _ rest hmore hr
    have hfield : Ends (fieldOrEnd inner fields) (x ++ (ws.flatten ++ (o ++ rest)))
        (· = ws.flatten ++ (o ++ rest)) := by
      obtain ⟨u, y, rfl, hu⟩ := field_start hx
      exact (accepts_field hi fields _ _ hx hafter).congr (fieldOrEnd_of_not_closing (by simp [hu]))
    refine Ends.bind (Q := (· = ws.flatten ++ (o ++ rest))) hfield fun fields us _ hus => ?_
    subst hus
    simpa using ih fields hws

theorem accepts_table : Accepts (table inner) [.table] F := by
  refine .of_rule (f := [.sym "\x7b", .option [.field, .many [.sym ",", .field], .option [.sym ","]], .sym "\x7d"]) ?_
    (fun _ => by rintro ⟨⟩; rfl) (by decide)
  unfold table
  refine (accepts_symbol _).bind fun _ w rest hw hF => ?_
  obtain ⟨u, v, rfl, hu, hv⟩ := Derives.cons_iff.1 hw
  obtain ⟨t, _, rfl, ht, ⟨⟩⟩ := Derives.one_iff.1 hv
  have hbrace : BeforeBrace (t :: rest) := ⟨t, rest, rfl, Terminal.symbol_iff.1 ht⟩
  -- Behind the first field, or where there is none, the loop takes the other fields and stops at the brace.
  have hclose : ∀ (fields : List Expr × List Entry) (y : List Token),
      Derives [.many [.sym ",", .field], .option [.sym ","]] y → Ends (repeating (nextField? inner) fields >>= fun fields =>
        symbol "\x7d" >>= fun _ => pure (Expr.table fields.1.reverse fields.2)) (y ++ t :: rest) (· = rest) := by
    intro fields y hy
    refine (accepts_nextFields hi fields y _ hy hbrace).bind fun fields us _ hus => ?_
    subst hus
    exact (accepts_symbol (F := F) _ [t] rest (.one ht .nil) hF).bind fun _ us _ hus => .of_ok rfl hus
  rw [List.append_assoc]
  rcases Derives.option_iff.1 hu with rfl | hu
  · refine Ends.bind (Q := (· = t :: rest)) (.of_ok (fieldOrEnd_of_closing _ (Terminal.symbol_iff.1 ht) rest) rfl) ?_
    rintro fields _ _ rfl
    exact hclose fields [] (.stop (.skip .nil))
  · obtain ⟨x, y, rfl, hx, hy⟩ := Derives.cons_iff.1 hu
    obtain ⟨a, z, rfl, ha⟩ := field_start hx
    rw [List.append_assoc]
    refine Ends.bind (Q := (· = y ++ t :: rest)) ?_ ?_
    · exact (accepts_field hi _ _ _ hx (nextFields_lead _ _ hy hbrace)).congr (fieldOrEnd_of_not_closing (by simp [ha]))
    · rintro fields _ _ rfl
      exact hclose fields y hy

theorem accepts_functionBody : Accepts (functionBody inner) [.functionBody] F := by
  unfold functionBody parameters
  refine .of_rule (f := Item.parenthesized [.name] ++ [.block, .kw "end"]) ?_ (fun _ => by rintro ⟨⟩; rfl) (by decide)
  refine (accepts_parenthesized (P := fun _ => True) takes_name accepts_name (fun _ _ => trivial) (fun _ _ => trivial)
    fun w hw => ?_).append (G := fun _ => True) (fun params => hi.block.bind_of (fun _ => (accepts_keyword _).bind fun _ =>
    accepts_pure _) ?_) fun _ _ _ _ => trivial
  · obtain ⟨t, v, rfl, ht, _⟩ := Derives.one_iff.1 hw
    exact ⟨t, v, rfl, by simp [Token.isSymbol, Token.is, show t.kind = .identifier from ht]⟩
  · exact leads_one fun t => closesBlock_of_keyword (by decide)

theorem accepts_function : Accepts (function inner) [.kw "function", .functionBody] F := by
  unfold function
  exact (accepts_keyword _).bind fun _ => (accepts_functionBody hi).bind fun _ => accepts_pure _

/-! ## Operators -/

theorem ends_operand {o m : List Token} (ho : Derives [.operand] o) (hm : Tail m) (hr : AfterExpr rest) :
    Ends (operand inner) (o ++ (m ++ rest)) fun us => ∃ v, us = v ++ rest ∧ Tail v := by
  have hstop : ∀ us, us = m ++ rest → ∃ v, us = v ++ rest ∧ Tail v := fun us hus => ⟨m, hus, hm⟩
  have hun := hm.unlinked hr
  obtain ⟨_, hrule, ho⟩ := ho.exists_rule (by decide)
  cases hrule with
  | unary =>
    obtain ⟨t, x, rfl, ht, hx⟩ := Derives.one_iff.1 ho
    obtain ⟨op, hop⟩ := Terminal.unaryOp_iff.1 ht
    have hx : Derives [.expr] (x ++ m) := .of_rule .expr (hx.append hm)
    have hends := (hi.expr .unary (x ++ m) rest hx hr).bind (q := fun e => pure (Expr.unary op e)) fun e us _ hus =>
      .of_ok rfl hus
    rw [List.append_assoc] at hends
    exact hends.congr (operand_unary hop _)
  | literal =>
    obtain ⟨t, _, rfl, ht, ⟨⟩⟩ := Derives.one_iff.1 ho
    obtain ⟨v, hv⟩ := Terminal.literal_iff.1 ht
    exact .of_ok (operand_literal hv _) (hstop _ rfl)
  | name =>
    obtain ⟨t, l, rfl, ht, hl⟩ := Derives.one_iff.1 ho
    exact ((accepts_links hi _ l _ hl hun).mono hstop).congr (operand_name ht _)
  | group =>
    have hgroup : Accepts (grouping inner >>= links inner) ([.sym "(", .expr, .sym ")"] ++ [.many [.link]]) Unlinked :=
      (accepts_grouping hi (F := fun _ => True)).append (fun e => accepts_links hi e) fun _ _ _ _ => trivial
    obtain ⟨t, x, rfl, ht, _⟩ := Derives.one_iff.1 ho
    exact ((hgroup _ _ ho hun).mono hstop).congr (operand_group (Terminal.symbol_iff.1 ht) _)
  | table =>
    have hends := (accepts_table hi (F := fun _ => True) o _ ho trivial).mono hstop
    obtain ⟨_, ⟨⟩, ho⟩ := ho.exists_rule (by decide)
    obtain ⟨t, x, rfl, ht, _⟩ := Derives.one_iff.1 ho
    exact hends.congr (operand_table (Terminal.symbol_iff.1 ht) _)
  | lambda =>
    obtain ⟨t, x, rfl, ht, _⟩ := Derives.one_iff.1 ho
    exact ((accepts_function hi (F := fun _ => True) _ _ ho trivial).mono hstop).congr
      (operand_function (Terminal.keyword_iff.1 ht) _)

/-- The loop takes operators as long as they are tight enough, and leaves the others. -/
theorem ends_tighter (bound : Precedence) (left : Expr) (hv : Tail v) (hr : AfterExpr rest) :
    Ends (repeating (tighter? inner bound) left) (v ++ rest) fun us => ∃ v, us = v ++ rest ∧ Tail v := by
  induction hn : v.length using Nat.strongRecOn generalizing v left with
  | ind n ih =>
    have hall := hv
    cases hv with
    | stop hv =>
      cases hv
      cases rest with
      | nil => exact .of_ok rfl ⟨[], rfl, hall⟩
      | cons t us =>
        have ho := (continuesExpr_eq_false_iff inner).1 (ahead_cons.1 hr)
        exact .of_ok (repeating_of_none (tighter?_eq_none_iff.2 (by simp [ho.2])) left us) ⟨[], rfl, hall⟩
    | again hu hm =>
      obtain ⟨t, o, rfl, ht, ho⟩ := Derives.one_iff.1 hu
      obtain ⟨op, hop⟩ := Terminal.binaryOp_iff.1 ht
      by_cases hb : op.precedence ≤ bound
      · exact .of_ok (repeating_of_none (by simp [tighter?, hop, hb]) left _) ⟨_, rfl, hall⟩
      · have hround := tighter?_of_lt inner hop hb
        have hexpr : Derives [.expr] (o ++ _) := .of_rule .expr (ho.append hm)
        refine .congr ?_ (repeating_of_some (progressive_tighter hi.takes bound) hround left _)
        refine Ends.bind (Q := fun us => ∃ v, us = v ++ rest ∧ Tail v) ?_ fun e us hrun hus => ?_
        · exact (hi.expr _ _ rest hexpr hr).bind fun right us _ hus => .of_ok rfl hus
        · obtain ⟨v, rfl, hv⟩ := hus
          have := (takes_tighter hi.takes hround left).length_of_ok hrun
          simp only [List.append_eq, List.length_append, List.length_cons] at this hn
          exact ih v.length (by omega) e hv rfl

theorem ends_climb (bound : Precedence) (hw : Derives [.expr] w) (hr : AfterExpr rest) :
    Ends (climb inner bound) (w ++ rest) fun us => ∃ v, us = v ++ rest ∧ Tail v := by
  obtain ⟨_, ⟨⟩, hw⟩ := hw.exists_rule (by decide)
  obtain ⟨o, m, rfl, ho, hm⟩ := Derives.cons_iff.1 hw
  rw [List.append_assoc]
  refine (ends_operand hi ho hm hr).bind fun left us _ hus => ?_
  obtain ⟨v, rfl, hv⟩ := hus
  exact ends_tighter hi bound left hv hr

/-- With nothing to bind, an expression is read to its end. -/
theorem accepts_climb : Accepts (climb inner .lowest) [.expr] AfterExpr := by
  intro w rest hw hr
  have hends := ends_climb hi .lowest hw hr
  unfold Ends at hends ⊢
  cases hrun : climb inner .lowest (w ++ rest) with
  | error e => rwa [hrun] at hends
  | ok r =>
    rw [hrun] at hends
    obtain ⟨v, hus, hv⟩ := hends
    cases hv with
    | stop hv =>
      cases hv
      exact hus
    | again hu hm =>
      obtain ⟨t, o, rfl, ht, _⟩ := Derives.one_iff.1 hu
      obtain ⟨op, hop⟩ := Terminal.binaryOp_iff.1 ht
      obtain ⟨e, us⟩ := r
      cases hus
      have := ofToken?_of_tighter?_lowest (climb_stops hi.takes hrun)
      rw [hop] at this
      cases this

/-! ## Statements -/

theorem accepts_namedFunction : Accepts (namedFunction inner) [.kw "function", .name, .functionBody] F := by
  unfold namedFunction
  exact (accepts_keyword _).bind fun _ => accepts_name.bind fun _ => (accepts_functionBody hi).bind fun _ => accepts_pure _

theorem accepts_functionStmt : Accepts (functionStmt inner) [.kw "function", .name, .functionBody] F := by
  unfold functionStmt definition
  exact ((accepts_namedFunction hi).append (g := []) (G := F) (fun _ => accepts_pure _) (by rintro _ rest ⟨⟩ h; exact h)).map

theorem accepts_localFunction : Accepts (localStmt inner) [.kw "local", .kw "function", .name, .functionBody] F := by
  rw [localStmt, localFunction_eq]
  refine (accepts_keyword _).bind fun _ w rest hw hr => ?_
  refine (((accepts_namedFunction hi).append (g := []) (G := F) (fun _ => accepts_pure _)
    (by rintro _ rest ⟨⟩ h; exact h)) w rest hw hr).congr (check_true ?_)
  obtain ⟨t, v, rfl, ht, _⟩ := Derives.one_iff.1 hw
  simp [Terminal.keyword_iff.1 ht]

theorem accepts_localVar : Accepts (localStmt inner) [.kw "local", .name, .option [.op "=", .expr]] AfterStmt := by
  rw [localStmt, localFunction_eq]
  refine (accepts_keyword _).bind fun _ w rest hw hr => ?_
  have hvar : Accepts (name >>= fun name => check (·.isOperator "=") >>= fun b =>
      if b then next >>= fun _ => inner.expr .lowest >>= fun init => pure (Stmt.localVar name (some init))
      else pure (.localVar name none)) [.name, .option [.op "=", .expr]] AfterStmt := by
    refine accepts_name.bind fun name => .option ?_ (accepts_pure _) (fun t => Terminal.operator_iff.1) fun rest hr => ?_
    · exact (accepts_next _).bind fun _ => hi.whole.bind_of (fun _ => accepts_pure _) (leads_nil fun _ h => AfterStmt.afterExpr h)
    · exact hr.any_eq_false fun t ht => ht.isOperator_eq_false _
  refine (hvar w rest hw hr).congr (check_false ?_)
  obtain ⟨t, v, rfl, ht, _⟩ := Derives.one_iff.1 hw
  simp [Token.isKeyword, Token.is, show t.kind = .identifier from ht]

theorem accepts_assignment : Accepts (assignment inner) [.name, .op "=", .expr] AfterStmt := by
  unfold assignment
  exact accepts_name.bind fun _ => (accepts_operator _).bind fun _ => hi.whole.bind_of (fun _ => accepts_pure _)
    (leads_nil fun _ h => AfterStmt.afterExpr h)

theorem accepts_returnStmt : Accepts (returnStmt inner) (.kw "return" :: Item.separated [.expr]) AfterStmt := by
  unfold returnStmt
  refine (accepts_keyword _).bind fun _ w rest hw hr => ?_
  have hlist := accepts_separated (hi.takes.expr .lowest) hi.whole (fun t => continuesExpr_symbol (by decide))
    (F := AfterStmt) fun rest h => h.mono fun t ht => ⟨ht.continuesExpr_eq_false, ht.isSymbol_eq_false _⟩
  refine ((hlist w rest hw hr).bind fun values us _ hus => .of_ok rfl hus).congr (check_true ?_)
  obtain ⟨x, y, rfl, hx, _⟩ := Derives.cons_iff.1 hw
  obtain ⟨t, z, rfl, ht⟩ := expr_start hx
  simp [ht.closesBlock_eq_false]

omit hi in
theorem accepts_bareReturn : Accepts (returnStmt inner) [.kw "return"] EndsBlock := by
  unfold returnStmt
  refine (accepts_keyword _).bind fun _ w rest hw hr => ?_
  cases hw
  exact .congr (.of_ok rfl rfl) (check_false (endsBlock_iff.1 hr))

theorem accepts_guarded : Accepts (guarded inner) [.expr, .kw "then", .block] EndsBlock := by
  unfold guarded
  exact hi.whole.bind_of (fun _ => (accepts_keyword _).bind fun _ => hi.block.bind_of (fun _ => accepts_pure _)
    (leads_nil fun _ h => h)) (leads_one fun t => continuesExpr_keyword rfl)

theorem accepts_branch : Accepts (branch inner) [.kw "elseif", .expr, .kw "then", .block] EndsBlock := by
  unfold branch
  exact (accepts_next _).bind fun _ => (accepts_guarded hi).append (g := []) (fun _ => accepts_pure _)
    (by rintro _ rest ⟨⟩ h; exact h)

theorem accepts_otherwise : Accepts (otherwise inner) [.option [.kw "else", .block]] (Ahead (Terminal.keyword "end").Matches) := by
  refine .option ((accepts_next _).bind fun _ w rest hw hr => ?_) (accepts_pure _) (fun t => Terminal.keyword_iff.1)
    fun rest hr => hr.any_eq_false fun t ht => ?_
  · exact hi.block w rest hw (hr.mono fun t => closesBlock_of_keyword (by decide))
  · simp [Token.isKeyword, Token.is, ht.2]

theorem accepts_ifStmt : Accepts (ifStmt inner) [.kw "if", .expr, .kw "then", .block,
    .many [.kw "elseif", .expr, .kw "then", .block], .option [.kw "else", .block], .kw "end"] F := by
  -- What comes after the arms, and is no arm.
  let Rest := Ahead fun t => (Terminal.keyword "else").Matches t ∨ (Terminal.keyword "end").Matches t
  have hclose : ∀ rest, Rest rest → EndsBlock rest := fun rest hr => hr.mono fun t ht =>
    ht.elim (closesBlock_of_keyword (by decide)) (closesBlock_of_keyword (by decide))
  have harms : Accepts (many (·.isKeyword "elseif") (branch inner)) [.many [.kw "elseif", .expr, .kw "then", .block]] Rest := by
    refine accepts_many ((takes_branch hi.takes).of_le (Nat.le_refl 1) (Nat.zero_le _)) (accepts_branch hi)
      (fun t => Terminal.keyword_iff.1) (fun rest hr => hr.any_eq_false fun t ht => ?_)
      (leads_many (fun t => closesBlock_of_keyword (by decide)) (leads_nil hclose))
    rcases ht with ht | ht <;> simp [Token.isKeyword, Token.is, ht.2]
  unfold ifStmt
  refine (accepts_keyword _).bind fun _ => (accepts_guarded hi).append (fun arm => harms.bind_of (fun elseifs =>
    (accepts_otherwise hi).bind_of (fun rest => (accepts_keyword _).bind fun _ => accepts_pure _) ?_) ?_) ?_
  · exact leads_one fun t ht => ht
  · exact leads_option (fun t ht => .inl ht) (leads_one fun t ht => .inr ht)
  · exact leads_many (fun t => closesBlock_of_keyword (by decide)) (leads_option (fun t =>
      closesBlock_of_keyword (by decide)) (leads_one fun t => closesBlock_of_keyword (by decide)))

theorem accepts_loopBody : Accepts (loopBody inner) [.loopBody] F := by
  unfold loopBody
  refine .of_rule ((accepts_keyword _).bind fun _ => hi.block.bind_of (fun _ => (accepts_keyword _).bind fun _ =>
    accepts_pure _) ?_) (fun _ => by rintro ⟨⟩; rfl) (by decide)
  exact leads_one fun t => closesBlock_of_keyword (by decide)

theorem accepts_whileStmt : Accepts (whileStmt inner) [.kw "while", .expr, .loopBody] F := by
  unfold whileStmt
  exact (accepts_keyword _).bind fun _ => hi.whole.bind_of (fun _ => (accepts_loopBody hi).bind fun _ => accepts_pure _)
    (leads_loopBody fun t => continuesExpr_keyword rfl)

theorem accepts_repeatStmt : Accepts (repeatStmt inner) [.kw "repeat", .block, .kw "until", .expr] AfterStmt := by
  unfold repeatStmt
  exact (accepts_keyword _).bind fun _ => hi.block.bind_of (fun _ => (accepts_keyword _).bind fun _ =>
    hi.whole.bind_of (fun _ => accepts_pure _) (leads_nil fun _ h => AfterStmt.afterExpr h))
    (leads_one fun t => closesBlock_of_keyword (by decide))

theorem accepts_step : Accepts (step inner) [.option [.sym ",", .expr]] (Ahead (Terminal.keyword "do").Matches) := by
  refine .option ((accepts_next _).bind fun _ => hi.whole.bind_of (fun _ => accepts_pure _) ?_) (accepts_pure _)
    (fun t => Terminal.symbol_iff.1) fun rest hr => hr.any_eq_false fun t ht => ?_
  · exact leads_nil fun rest hr => hr.mono fun t => continuesExpr_keyword rfl
  · simp [Token.isSymbol, Token.is, ht.1]

theorem accepts_forRange : Accepts (forStmt inner)
    [.kw "for", .name, .op "=", .expr, .sym ",", .expr, .option [.sym ",", .expr], .loopBody] F := by
  unfold forStmt
  refine (accepts_keyword _).bind fun _ => accepts_name.bind fun x w rest hw hr => ?_
  have hrange : Accepts (forRange inner x) [.op "=", .expr, .sym ",", .expr, .option [.sym ",", .expr], .loopBody] F := by
    unfold forRange
    refine (accepts_next _).bind fun _ => hi.whole.bind_of (fun _ => (accepts_symbol _).bind fun _ =>
      hi.whole.bind_of (fun _ => (accepts_step hi).bind_of (fun _ => (accepts_loopBody hi).bind fun _ => accepts_pure _) ?_)
      ?_) ?_
    · exact leads_loopBody fun t ht => ht
    · exact leads_option (fun t => continuesExpr_symbol (by decide)) (leads_loopBody fun t => continuesExpr_keyword rfl)
    · exact leads_one fun t => continuesExpr_symbol (by decide)
  refine (hrange w rest hw hr).congr (check_true ?_)
  obtain ⟨t, v, rfl, ht, _⟩ := Derives.one_iff.1 hw
  simp [Terminal.operator_iff.1 ht]

omit hi in
theorem accepts_valueName : Accepts valueName [.option [.sym ",", .name]] (fun ts => ∃ t us, ts = t :: us ∧
    (Terminal.keyword "in").Matches t) := by
  unfold valueName
  refine fun w rest hw hr => ?_
  obtain ⟨t, us, rfl, ht⟩ := hr
  rcases Derives.option_iff.1 hw with rfl | hw
  · refine .of_ok (a := none) (r := t :: us) ?_ rfl
    rw [List.nil_append, check_false (by simp [Token.isSymbol, Token.is, ht.1]),
      check_true (by simp [Terminal.keyword_iff.1 ht])]
    rfl
  · have hvalue : Accepts (next >>= fun _ => name >>= fun name => pure (some name)) [.sym ",", .name] fun _ => True :=
      (accepts_next _).bind fun _ => accepts_name.bind fun _ => accepts_pure _
    refine (hvalue w (t :: us) hw trivial).congr (check_true ?_)
    obtain ⟨u, v, rfl, hu, _⟩ := Derives.one_iff.1 hw
    simp [Terminal.symbol_iff.1 hu]

theorem accepts_forIn : Accepts (forStmt inner) [.kw "for", .name, .option [.sym ",", .name], .kw "in", .expr, .loopBody] F := by
  unfold forStmt
  refine (accepts_keyword _).bind fun _ => accepts_name.bind fun x w rest hw hr => ?_
  have hin : Accepts (Parser.forIn inner x) [.option [.sym ",", .name], .kw "in", .expr, .loopBody] F := by
    unfold Parser.forIn
    refine accepts_valueName.bind_of (fun _ => (accepts_keyword _).bind fun _ => hi.whole.bind_of (fun _ =>
      (accepts_loopBody hi).bind fun _ => accepts_pure _) (leads_loopBody fun t => continuesExpr_keyword rfl)) ?_
    intro w rest hw hr
    obtain ⟨t, v, rfl, ht, _⟩ := Derives.one_iff.1 hw
    exact ⟨t, v ++ rest, rfl, ht⟩
  refine (hin w rest hw hr).congr (check_false ?_)
  have := leads_option (P := fun t => t.isOperator "=" = false) (fun t ht => ?_) (leads_one fun t ht => ?_) w rest hw hr
  · exact this.any_eq_false fun t ht => ht
  · simp [Token.isOperator, Token.is, ht.1]
  · simp [Token.isOperator, Token.is, ht.1]

omit hi in
/-- A statement that starts with a word is read by the production of the word. -/
theorem accepts_headed (head : StmtHead) {word : String} (hw : StmtHead.ofText? word = some head)
    (h : Accepts (headed inner head) (.kw word :: f) F) : Accepts (stmt inner) (.kw word :: f) F := by
  intro w rest hd hr
  refine (h w rest hd hr).congr ?_
  obtain ⟨t, v, rfl, ht, _⟩ := Derives.one_iff.1 hd
  exact stmt_of_keyword (Terminal.keyword_iff.1 ht) hw _

theorem accepts_stmt : Accepts (stmt inner) [.stmt] AfterStmt := by
  intro w rest hw hr
  rcases hw.stmt_cases with ⟨g, hrule, hw⟩ | ⟨t, u, v, rfl, ht, hu, hw⟩
  · cases hrule with
    | assign =>
      refine (accepts_assignment hi w rest hw hr).congr ?_
      obtain ⟨t, _, rfl, ht, hw⟩ := Derives.one_iff.1 hw
      obtain ⟨u, v, rfl, hu, _⟩ := Derives.one_iff.1 hw
      exact (stmt_of_name ht _).trans (nameStmt_of_equals (Terminal.operator_iff.1 hu))
    | function => exact accepts_headed .function rfl (accepts_functionStmt hi) w rest hw hr
    | localVar => exact accepts_headed .localVar rfl (accepts_localVar hi) w rest hw hr
    | localFunction => exact accepts_headed .localVar rfl (accepts_localFunction hi) w rest hw hr
    | ret => exact accepts_headed .ret rfl (accepts_returnStmt hi) w rest hw hr
    | ifThen => exact accepts_headed .ifThen rfl (accepts_ifStmt hi) w rest hw hr
    | whileLoop => exact accepts_headed .whileLoop rfl (accepts_whileStmt hi) w rest hw hr
    | repeatLoop => exact accepts_headed .repeatLoop rfl (accepts_repeatStmt hi) w rest hw hr
    | forRange => exact accepts_headed .forLoop rfl (accepts_forRange hi) w rest hw hr
    | forIn => exact accepts_headed .forLoop rfl (accepts_forIn hi) w rest hw hr
  · exact (hi.whole _ rest hw hr.afterExpr).map.congr
      ((stmt_of_name ht _).trans (nameStmt_of_continues (continues_iff.1 hu)))

/-- Statements are read up to where their block ends. -/
theorem accepts_stmts {test : Token → Bool} (ht : ∀ t, t.closesBlock = false → test t = true)
    (hF : ∀ rest, F rest → EndsBlock rest ∧ rest.head?.any test = false) : Accepts (many test (stmt inner)) [.block] F := by
  refine .of_rule (fun w rest hw hr => ?_) (fun _ => by rintro ⟨⟩; rfl) (by decide)
  obtain ⟨hend, htest⟩ := hF rest hr
  have htakes := takes_stmt hi.takes
  have hstop : ∀ stmts, Ends (repeating (fun t => if test t then some fun stmts => (· :: stmts) <$> stmt inner else none) stmts)
      rest (· = rest) := by
    intro stmts
    cases rest with
    | nil => exact .of_ok rfl rfl
    | cons t us =>
      have : test t = false := by simpa using htest
      exact .of_ok (repeating_of_none (by simp [this]) stmts us) rfl
  unfold many
  refine Ends.bind (Q := (· = rest)) ?_ fun stmts us _ hus => .of_ok rfl hus
  obtain ⟨s, o, rfl, hs, ho⟩ := Derives.cons_iff.1 hw
  obtain ⟨ws, rfl, hws⟩ := Derives.many_iff.1 hs
  clear hw hs
  generalize ([] : List Stmt) = stmts
  induction ws generalizing stmts with
  | nil =>
    rcases Derives.option_iff.1 ho with rfl | ho
    · exact hstop stmts
    · have hbare : Accepts (headed inner .ret) [.kw "return"] EndsBlock := accepts_bareReturn
      have hret := accepts_headed .ret rfl hbare o rest ho hend
      obtain ⟨t, _, rfl, hk, ⟨⟩⟩ := Derives.one_iff.1 ho
      exact ends_many_cons htakes (ht t (by simp [Token.closesBlock, hk.2])) hret
        (fun stmts us hus => hus ▸ hstop stmts) stmts
  | cons u ws ih =>
    have htail : ∀ v ∈ ws, Derives [.stmt] v := fun v hv => hws v (by simp [hv])
    have hafter : AfterStmt (ws.flatten ++ (o ++ rest)) := by
      rw [← List.append_assoc]
      exact block_lead _ rest ((Derives.many_iff.2 ⟨ws, rfl, htail⟩).append ho) hend
    have hu := hws u (by simp)
    have hone := accepts_stmt hi u _ hu hafter
    obtain ⟨t, v, rfl, _, hc⟩ := stmt_start hu
    rw [List.flatten_cons, List.append_assoc, List.append_assoc]
    refine ends_many_cons htakes (ht t hc) hone (fun stmts us hus => ?_) stmts
    subst hus
    simpa using ih htail stmts

end

/-! ## Levels -/

theorem Ends.nested (h : Ends p ts Q) : Ends (nested p) ts Q := by
  unfold Ends Parser.nested at *
  cases hp : p ts <;> rwa [hp] at h

theorem accepts_argument {p : Parser Expr} (h : Accepts p [.expr] AfterExpr) : Accepts (argument p) [.expr] AfterExpr := by
  intro w rest hw hr
  cases hl : startsLone (w ++ rest) with
  | false => exact (h w rest hw hr).congr (if_neg (by simp [hl]))
  | true =>
    obtain ⟨t, rfl⟩ := eq_singleton_of_startsLone hw hl
    obtain ⟨e, he⟩ := primary_of_startsLone hl
    exact .congr (.of_ok he rfl) (if_pos hl)

theorem NestedAccepts.of {expr : Precedence → Parser Expr} {block : Parser (List Stmt)} (ht : (Inner.of expr block).Takes 0)
    (he : ∀ bound w rest, Derives [.expr] w → AfterExpr rest →
      Ends (expr bound) (w ++ rest) fun us => ∃ v, us = v ++ rest ∧ Tail v)
    (hw : Accepts (expr .lowest) [.expr] AfterExpr) (hb : Accepts block [.block] EndsBlock) :
    NestedAccepts (.of expr block) where
  takes := ht
  expr := he
  whole := hw
  argument := accepts_argument hw
  block := hb

theorem ofLevels_accepts (n : Nat) : NestedAccepts (.ofLevels n) := by
  induction n with
  | zero =>
    refine .of (Inner.ofLevels_takes 0).zero (fun _ w rest _ _ => ?_) (fun w rest _ _ => ?_) fun w rest _ _ => ?_
    · exact rfl
    · exact rfl
    · exact rfl
  | succ n ih =>
    refine .of (Inner.ofLevels_takes (n + 1)).zero (fun bound w rest hw hr => (ends_climb ih bound hw hr).nested)
      (fun w rest hw hr => (accepts_climb ih w rest hw hr).nested) fun w rest hw hr => ?_
    refine (accepts_stmts ih (fun t ht => by simp [ht]) (fun rest hr => ?_) w rest hw hr).nested
    exact ⟨hr, endsBlock_iff.1 hr⟩

/-- A program is accepted, unless levels run out. -/
theorem ends_program (n : Nat) (h : Derives [.block] ts) : Ends (program (.ofLevels n)) ts (· = []) := by
  rw [← List.append_nil ts]
  refine accepts_stmts (ofLevels_accepts n) (F := (· = [])) (fun _ _ => rfl) ?_ ts [] h rfl
  rintro _ rfl
  exact ⟨ahead_nil, rfl⟩

/-! ## Programs -/

/-- Where nesting is not too deep, just the sequences of the grammar are accepted. -/
theorem parse_isOk_iff_derives (ts : List Token) (file : String)
    (h : ∀ e, parse ts file = .error e → e.cause ≠ .nestingTooDeep maxNesting) :
    (∃ stmts, parse ts file = .ok stmts) ↔ Derives [.block] ts := by
  constructor
  · rintro ⟨stmts, hp⟩
    obtain ⟨rest, hp⟩ := parseWithin_eq_ok.1 hp
    exact derives_of_program hp
  · intro hd
    have hends := ends_program maxNesting hd
    unfold Ends at hends
    cases hp : program (.ofLevels maxNesting) ts with
    | ok r => exact ⟨r.1, parseWithin_eq_ok.2 ⟨r.2, hp⟩⟩
    | error e =>
      rw [hp] at hends
      exact absurd (Failure.error_cause_of_tooDeep hends) (h _ (parseWithin_eq_error.2 ⟨e, hp, rfl⟩))

set_option maxRecDepth 4000 in
/-- `while not (a.b(-1, {x = 2}) .. "s") do if a == b then return f:g(function(p) return p end) else local y = 3 end end`
is read and so it is in the grammar; a name alone is not read and so it is not. -/
theorem parse_isOk_iff_derives_while :
    let ts : List Token := [.plain .keyword "while", .plain .keyword "not", .plain .symbol "(", .plain .identifier "a",
      .plain .symbol ".", .plain .identifier "b", .plain .symbol "(", .plain .operator "-", .plain .number "1",
      .plain .symbol ",", .plain .symbol "\x7b", .plain .identifier "x", .plain .operator "=", .plain .number "2",
      .plain .symbol "\x7d", .plain .symbol ")", .plain .operator "..", .plain .string "s", .plain .symbol ")",
      .plain .keyword "do", .plain .keyword "if", .plain .identifier "a", .plain .operator "==", .plain .identifier "b",
      .plain .keyword "then", .plain .keyword "return", .plain .identifier "f", .plain .symbol ":", .plain .identifier "g",
      .plain .symbol "(", .plain .keyword "function", .plain .symbol "(", .plain .identifier "p", .plain .symbol ")",
      .plain .keyword "return", .plain .identifier "p", .plain .keyword "end", .plain .symbol ")", .plain .keyword "else",
      .plain .keyword "local", .plain .identifier "y", .plain .operator "=", .plain .number "3", .plain .keyword "end",
      .plain .keyword "end"]
    (∀ e, parse ts "f" = .error e → e.cause ≠ .nestingTooDeep maxNesting) ∧ (∃ stmts, parse ts "f" = .ok stmts) ∧
      Derives [.block] ts ∧ ¬ Derives [.block] [.plain .identifier "x"] := by
  intro ts
  have hok : ∃ stmts, parse ts "f" = .ok stmts := ⟨_, rfl⟩
  have hread : ∀ e, parse ts "f" = .error e → e.cause ≠ .nestingTooDeep maxNesting := by
    intro e he
    obtain ⟨stmts, hp⟩ := hok
    cases hp.symm.trans he
  have hname : ∃ e, parse [.plain .identifier "x"] "f" = .error e ∧ e.cause = .unexpectedEnd "'=' or a call" := ⟨_, rfl, rfl⟩
  refine ⟨hread, hok, (parse_isOk_iff_derives ts "f" hread).1 hok, fun hd => ?_⟩
  obtain ⟨e, he, hcause⟩ := hname
  have hread' : ∀ e, parse [.plain .identifier "x"] "f" = .error e → e.cause ≠ .nestingTooDeep maxNesting := by
    intro e' he'
    cases he.symm.trans he'
    rw [hcause]
    nofun
  obtain ⟨stmts, hp⟩ := (parse_isOk_iff_derives [.plain .identifier "x"] "f" hread').2 hd
  cases hp.symm.trans he

end MiniLua.Syntax
