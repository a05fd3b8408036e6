import MiniLua.Grammar.Program
/-!
# What a parser takes

Every production leaves an end of the tokens it was given, and all but a block
take at least one of them. A production that is given `n` levels and runs out of
them has taken at least `n` tokens by then: each level is opened behind a token
of its own, except that an expression may open a statement and so share the token
of the block around it. `Takes` says both at once, and each production keeps it.

From this come two things. A loop whose rounds take tokens stops only where no
round begins (`repeating_cons`, `repeating_stops`), and with more levels than tokens
nothing runs out of levels (`ofLevels_takes`).
-/

namespace MiniLua.Parser

variable {α β : Type} {p : Parser α} {f : α → Parser β} {c d k l n : Nat} {ts rest : List Token}

/-- What is left is an end of what was given. A success took `c` tokens or more, a
failure for want of levels `k` or more. -/
def Takes (c k : Nat) (p : Parser α) : Prop :=
  ∀ ts, match p ts with
    | .ok (_, rest) => rest <:+ ts ∧ rest.length + c ≤ ts.length
    | .error e => e.rest <:+ ts ∧ (e.fault = .tooDeep → e.rest.length + k ≤ ts.length)

namespace Takes

theorem suffix_of_ok (h : p.Takes c k) {a : α} (hp : p ts = .ok (a, rest)) : rest <:+ ts := by
  have := h ts
  rw [hp] at this
  exact this.1

theorem length_of_ok (h : p.Takes c k) {a : α} (hp : p ts = .ok (a, rest)) : rest.length + c ≤ ts.length := by
  have := h ts
  rw [hp] at this
  exact this.2

/-- What takes a token does not end where it started. -/
theorem ne_ok_self (h : p.Takes 1 k) (a : α) : p ts ≠ .ok (a, ts) := by
  intro hp
  have := h.length_of_ok hp
  omega

theorem suffix_of_error (h : p.Takes c k) {e : Failure} (hp : p ts = .error e) : e.rest <:+ ts := by
  have := h ts
  rw [hp] at this
  exact this.1

theorem length_of_tooDeep (h : p.Takes c k) {e : Failure} (hp : p ts = .error e) (he : e.fault = .tooDeep) :
    e.rest.length + k ≤ ts.length := by
  have := h ts
  rw [hp] at this
  exact this.2 he

theorem of_le (h : p.Takes c k) (hc : d ≤ c) (hk : l ≤ k) : p.Takes d l := by
  intro ts
  have := h ts
  cases hp : p ts with
  | ok r =>
    rw [hp] at this
    exact ⟨this.1, by have := this.2; omega⟩
  | error e =>
    rw [hp] at this
    exact ⟨this.1, fun he => by have := this.2 he; omega⟩

/-! ## Combinators -/

theorem bind (hp : p.Takes c k) (hf : ∀ a, (f a).Takes d (k - c)) : (p >>= f).Takes (c + d) k := by
  intro ts
  rw [bind_run]
  cases h : p ts with
  | error e => exact ⟨hp.suffix_of_error h, hp.length_of_tooDeep h⟩
  | ok r =>
    obtain ⟨a, us⟩ := r
    have hs := hp.suffix_of_ok h
    have hl := hp.length_of_ok h
    simp only
    cases h' : f a us with
    | error e =>
      refine ⟨((hf a).suffix_of_error h').trans hs, fun he => ?_⟩
      have := (hf a).length_of_tooDeep h' he
      omega
    | ok r =>
      refine ⟨((hf a).suffix_of_ok h').trans hs, ?_⟩
      have := (hf a).length_of_ok h'
      omega

theorem map {g : α → β} (hp : p.Takes c k) : (g <$> p).Takes c k := by
  intro ts
  have := hp ts
  rw [map_eq_pure_bind, bind_run]
  cases h : p ts with
  | error e => rwa [h] at this
  | ok r => rwa [h] at this

theorem ite {b : Prop} [Decidable b] {q : Parser α} (hp : p.Takes c k) (hq : q.Takes c k) :
    (if b then p else q).Takes c k := by
  split
  · exact hp
  · exact hq

/-- A parser that chooses between two by looking ahead. -/
theorem choice {test : List Token → Bool} {q : Parser α} (hp : p.Takes c k) (hq : q.Takes c k) :
    Parser.Takes c k fun ts => if test ts then p ts else q ts := by
  intro ts
  cases h : test ts with
  | true => simpa [h] using hp ts
  | false => simpa [h] using hq ts

theorem nested (hp : p.Takes c k) : (Parser.nested p).Takes c k := by
  intro ts
  have := hp ts
  unfold Parser.nested
  cases h : p ts <;> rwa [h] at this

theorem look {w : Expectation} {go : Token → Parser α} (h : ∀ t, (go t).Takes c k) :
    (Parser.look w go).Takes c k := by
  intro ts
  cases ts with
  | nil => exact ⟨List.suffix_refl _, nofun⟩
  | cons t ts => exact h t (t :: ts)

end Takes

theorem takes_pure (a : α) : (pure a : Parser α).Takes 0 k :=
  fun _ => ⟨List.suffix_refl _, Nat.le_refl _⟩

theorem takes_fail {fault : Fault} (h : fault ≠ .tooDeep) : (fail fault : Parser α).Takes c k :=
  fun _ => ⟨List.suffix_refl _, fun he => absurd he h⟩

theorem takes_next : next.Takes 1 k := by
  intro ts
  cases ts with
  | nil => exact ⟨List.suffix_refl _, nofun⟩
  | cons t ts => exact ⟨List.suffix_cons t ts, Nat.le_refl _⟩

theorem takes_satisfy (w : Expectation) (test : Token → Bool) : (satisfy w test).Takes 1 k := by
  intro ts
  have hfault : Fault.expected w ≠ .tooDeep := nofun
  cases ts with
  | nil => exact ⟨List.suffix_refl _, fun he => absurd he hfault⟩
  | cons t ts =>
    by_cases ht : test t = true
    · rw [satisfy, if_pos ht]
      exact ⟨List.suffix_cons t ts, Nat.le_refl _⟩
    · rw [satisfy, if_neg ht]
      exact ⟨List.suffix_refl _, fun he => absurd he hfault⟩

theorem takes_keyword (word : String) : (keyword word).Takes 1 k := takes_satisfy _ _

theorem takes_symbol (text : String) : (symbol text).Takes 1 k := takes_satisfy _ _

theorem takes_operator (text : String) : (operator text).Takes 1 k := takes_satisfy _ _

theorem takes_name : name.Takes 1 k := (takes_satisfy _ _).map

theorem takes_check (test : Token → Bool) : (check test).Takes 0 k :=
  fun _ => ⟨List.suffix_refl _, Nat.le_refl _⟩

/-! ## Loops -/

section Loops
variable {round? : Token → Option (α → Parser α)} {item : Parser α}

/-- Whenever there is a round, it takes a token. -/
def Progressive (round? : Token → Option (α → Parser α)) : Prop :=
  ∀ t round, round? t = some round → ∀ a, (round a).Takes 1 0

theorem takes_rounds (h : ∀ t round, round? t = some round → ∀ a, (round a).Takes c k) :
    ∀ (bound : List Token) (a : α), (rounds round? bound a).Takes 0 k := by
  intro bound
  induction bound with
  | nil => exact fun a => takes_pure a
  | cons b bound ih =>
    intro a ts
    cases ts with
    | nil => exact ⟨List.suffix_refl _, Nat.le_refl _⟩
    | cons t ts =>
      rw [rounds]
      cases hr : round? t with
      | none => exact ⟨List.suffix_refl _, Nat.le_refl _⟩
      | some round =>
        have := (((h t round hr a).of_le (Nat.zero_le _) (Nat.le_refl k)).bind fun b => ih b) (t :: ts)
        rw [bind_run] at this
        simp only
        cases h' : round a (t :: ts) with
        | ok r => rwa [h'] at this
        | error e => rwa [h'] at this

theorem Takes.repeating (h : ∀ t round, round? t = some round → ∀ a, (round a).Takes c k) (a : α) :
    (Parser.repeating round? a).Takes 0 k :=
  fun ts => takes_rounds h ts a ts

/-- Rounds that take tokens are over before a bound as long as the input is. -/
theorem rounds_of_length_le (h : Progressive round?) :
    ∀ (bound bound' : List Token) (a : α) (ts : List Token), ts.length ≤ bound.length →
      ts.length ≤ bound'.length → rounds round? bound a ts = rounds round? bound' a ts := by
  intro bound
  induction bound with
  | nil =>
    intro bound' a ts hb hb'
    obtain rfl := List.eq_nil_of_length_eq_zero (Nat.le_zero.1 hb)
    cases bound' <;> rfl
  | cons b bound ih =>
    intro bound' a ts hb hb'
    cases ts with
    | nil => cases bound' <;> rfl
    | cons t ts =>
      cases bound' with
      | nil => cases hb'
      | cons b' bound' =>
        rw [rounds, rounds]
        cases hr : round? t with
        | none => rfl
        | some round =>
          simp only
          cases h' : round a (t :: ts) with
          | error e => rfl
          | ok r =>
            -- The round has taken a token, so both bounds still suffice.
            have := (h t round hr a).length_of_ok h'
            simp only [List.length_cons] at this hb hb'
            exact ih bound' r.1 r.2 (by omega) (by omega)

@[simp] theorem repeating_nil (a : α) : Parser.repeating round? a [] = .ok (a, []) := rfl

theorem repeating_of_none {t : Token} (h : round? t = none) (a : α) (ts : List Token) :
    Parser.repeating round? a (t :: ts) = .ok (a, t :: ts) := by
  simp [Parser.repeating, rounds, h]

/-- A round, and then the loop goes on with what it made. -/
theorem repeating_of_some (h : Progressive round?) {t : Token} {round : α → Parser α} (hr : round? t = some round)
    (a : α) (ts : List Token) :
    Parser.repeating round? a (t :: ts) = (round a >>= Parser.repeating round?) (t :: ts) := by
  rw [Parser.repeating, rounds, hr, bind_run]
  simp only
  cases h' : round a (t :: ts) with
  | error e => rfl
  | ok r =>
    have := (h t round hr a).length_of_ok h'
    simp only [List.length_cons] at this
    exact rounds_of_length_le h ts r.2 r.1 r.2 (by omega) (Nat.le_refl _)

/-- Induction along the rounds of a loop: what holds where it stops, and in front of a round if behind it, holds for all. -/
@[elab_as_elim]
theorem Progressive.induction (h : Progressive round?) {motive : α → List Token → Prop} (nil : ∀ a, motive a [])
    (stop : ∀ a t ts, round? t = none → motive a (t :: ts))
    (round : ∀ a t ts round, round? t = some round → (∀ b us, round a (t :: ts) = .ok (b, us) → motive b us) →
      motive a (t :: ts))
    (a : α) (ts : List Token) : motive a ts := by
  induction hn : ts.length using Nat.strongRecOn generalizing a ts with
  | ind n ih =>
    cases ts with
    | nil => exact nil a
    | cons t ts =>
      cases hr : round? t with
      | none => exact stop a t ts hr
      | some go =>
        refine round a t ts go hr fun b us hb => ih us.length ?_ b us rfl
        have := (h t go hr a).length_of_ok hb
        omega

/-- The loop ends at the end of the input or at a token that gives no round. -/
theorem repeating_stops (h : Progressive round?) {a b : α} (hp : Parser.repeating round? a ts = .ok (b, rest)) :
    ∀ t us, rest = t :: us → round? t = none := by
  induction a, ts using h.induction with
  | nil a =>
    cases hp
    exact nofun
  | stop a u ts hr =>
    rw [repeating_of_none hr] at hp
    cases hp
    rintro t us ⟨⟩
    exact hr
  | round a u ts round hr ih =>
    rw [repeating_of_some h hr] at hp
    obtain ⟨c, vs, hc, hp⟩ := bind_eq_ok.1 hp
    exact ih c vs hc hp

theorem progressive_many (h : item.Takes 1 0) (test : Token → Bool) :
    Progressive fun t => if test t then some fun items : List α => (· :: items) <$> item else none := by
  intro t round hr items
  simp only at hr
  split at hr
  · cases hr
    exact h.map
  · cases hr

theorem many_stops (h : item.Takes 1 0) {test : Token → Bool} {items : List α} (hp : many test item ts = .ok (items, rest)) :
    ∀ t us, rest = t :: us → test t = false := by
  intro t us hrest
  obtain ⟨_, _, hr, he⟩ := bind_eq_ok.1 hp
  cases he
  have := repeating_stops (progressive_many h test) hr t us hrest
  simpa using this

theorem Takes.many (h : item.Takes c k) (test : Token → Bool) : (Parser.many test item).Takes 0 k := by
  unfold Parser.many
  refine Takes.bind (.repeating (c := c) ?_ []) fun _ => takes_pure _
  intro t round hr items
  split at hr
  · cases hr
    exact h.map
  · cases hr

theorem Takes.separated (h : item.Takes c k) : (Parser.separated item).Takes c k := by
  unfold Parser.separated
  refine (h.bind fun _ => Takes.bind (.many (takes_next.bind fun _ => h.of_le (Nat.le_refl c) ?_) _) fun _ =>
    takes_pure _).of_le ?_ (Nat.le_refl k)
  · omega
  · omega

theorem Takes.parenthesized (h : item.Takes 1 k) : (Parser.parenthesized item).Takes 2 (k + 1) := by
  unfold Parser.parenthesized
  refine ((takes_symbol "(").bind fun _ => (takes_check _).bind fun _ => .ite (c := 1) ?_ ?_).of_le
    (Nat.le_refl 2) (Nat.le_refl (k + 1))
  · exact takes_next.bind fun _ => takes_pure _
  · exact (h.separated.bind fun _ => (takes_symbol ")").bind fun _ => takes_pure _).of_le (by omega) (by omega)
end Loops
end MiniLua.Parser

namespace MiniLua

/-- What is nested takes tokens, with `n` levels left. -/
structure Inner.Takes (n : Nat) (inner : Inner) : Prop where
  expr : ∀ bound, (inner.expr bound).Takes 1 n
  argument : inner.argument.Takes 1 n
  block : inner.block.Takes 0 (n - 1)

namespace Parser

variable {inner : Inner} {k n : Nat} {ts rest : List Token}

/-! ## Expressions -/

theorem takes_primary : primary.Takes 1 k := by
  unfold primary
  refine .look fun t => ?_
  split
  · exact takes_next.bind fun _ => takes_pure _
  · exact .ite (takes_next.bind fun _ => takes_pure _) (takes_fail nofun)

section
variable (h : inner.Takes n)
include h

theorem takes_grouping : (grouping inner).Takes 1 (n + 1) := by
  unfold grouping
  exact ((takes_symbol _).bind fun _ => ((h.expr _).of_le (Nat.le_refl 1) (by omega)).bind fun _ =>
    (takes_symbol _).bind fun _ => takes_pure _).of_le (by omega) (Nat.le_refl _)

theorem takes_arguments : (arguments inner).Takes 2 (n + 1) := by
  unfold arguments
  exact h.argument.parenthesized

theorem takes_call (e : Expr) : (call inner e).Takes 1 (n + 1) := by
  unfold call
  exact ((takes_arguments h).bind fun _ => takes_pure _).of_le (by omega) (Nat.le_refl _)

theorem takes_member (e : Expr) : (member inner e).Takes 1 (n + 1) := by
  unfold member
  refine ((takes_symbol _).bind fun _ => takes_name.bind fun _ => (takes_check _).bind fun _ =>
    .ite (c := 0) ?_ (takes_pure _)).of_le (by omega) (Nat.le_refl _)
  exact ((takes_arguments h).bind fun _ => takes_pure _).of_le (by omega) (by omega)

theorem takes_methodCall (e : Expr) : (methodCall inner e).Takes 1 (n + 1) := by
  unfold methodCall
  exact ((takes_symbol _).bind fun _ => takes_name.bind fun _ =>
    ((takes_arguments h).of_le (Nat.le_refl 2) (by omega)).bind fun _ => takes_pure _).of_le (by omega) (Nat.le_refl _)

omit h in
/-- A link is one of three, by the symbol that it starts with. -/
theorem link?_eq_some {t : Token} {link : Expr → Parser Expr} (hl : link? inner t = some link) :
    (t.isSymbol "(" = true ∧ link = call inner) ∨ (t.isSymbol "." = true ∧ link = member inner) ∨
      (t.isSymbol ":" = true ∧ link = methodCall inner) := by
  unfold link? at hl
  split at hl
  · next ht => exact .inl ⟨ht, (Option.some.inj hl).symm⟩
  · split at hl
    · next ht => exact .inr (.inl ⟨ht, (Option.some.inj hl).symm⟩)
    · split at hl
      · next ht => exact .inr (.inr ⟨ht, (Option.some.inj hl).symm⟩)
      · cases hl

theorem takes_link {t : Token} {link : Expr → Parser Expr} (hl : link? inner t = some link) (e : Expr) :
    (link e).Takes 1 (n + 1) := by
  obtain ⟨-, rfl⟩ | ⟨-, rfl⟩ | ⟨-, rfl⟩ := link?_eq_some hl
  · exact takes_call h e
  · exact takes_member h e
  · exact takes_methodCall h e

theorem progressive_link : Progressive (link? inner) :=
  fun _ _ hl e => (takes_link h hl e).of_le (Nat.le_refl 1) (Nat.zero_le _)

theorem takes_links (e : Expr) : (links inner e).Takes 0 (n + 1) :=
  .repeating (fun _ _ hl => takes_link h hl) e

theorem takes_field (fields : List Expr × List Entry) : (field inner fields).Takes 1 n := by
  unfold field
  refine .choice ?_ ((h.expr _).bind fun _ => takes_pure _)
  exact (takes_next.bind fun _ => takes_next.bind fun _ => ((h.expr _).of_le (Nat.le_refl 1) (by omega)).bind fun _ =>
    takes_pure _).of_le (by omega) (Nat.le_refl n)

theorem takes_fieldOrEnd (fields : List Expr × List Entry) : (fieldOrEnd inner fields).Takes 0 n := by
  unfold fieldOrEnd
  exact (takes_check _).bind fun _ => .ite (takes_pure _) ((takes_field h fields).of_le (by omega) (by omega))

omit h in
/-- A round of the loop over fields is a comma and what may follow it. -/
theorem nextField?_eq_some {t : Token} {round : List Expr × List Entry → Parser (List Expr × List Entry)}
    (hr : nextField? inner t = some round) :
    t.isSymbol "," = true ∧ round = fun fields => next >>= fun _ => fieldOrEnd inner fields := by
  obtain ⟨ht, hround⟩ := Option.ite_none_right_eq_some.1 hr
  exact ⟨ht, (Option.some.inj hround).symm⟩

theorem takes_nextField {t : Token} {round : List Expr × List Entry → Parser (List Expr × List Entry)}
    (hr : nextField? inner t = some round) (fields : List Expr × List Entry) : (round fields).Takes 1 (n + 1) := by
  obtain ⟨-, rfl⟩ := nextField?_eq_some hr
  exact takes_next.bind fun _ => (takes_fieldOrEnd h fields).of_le (Nat.le_refl 0) (by omega)

theorem progressive_nextField : Progressive (nextField? inner) :=
  fun _ _ hr fields => (takes_nextField h hr fields).of_le (Nat.le_refl 1) (Nat.zero_le _)

theorem takes_table : (table inner).Takes 1 (n + 1) := by
  unfold table
  refine ((takes_symbol _).bind fun _ => ((takes_fieldOrEnd h _).of_le (Nat.le_refl 0) ?_).bind fun fields =>
    ((Takes.repeating (fun _ _ hn => takes_nextField h hn) fields).of_le (Nat.le_refl 0) ?_).bind fun _ =>
    (takes_symbol _).bind fun _ => takes_pure _).of_le ?_ (Nat.le_refl _) <;> omega

theorem takes_functionBody : (functionBody inner).Takes 1 (n + 1) := by
  unfold functionBody parameters
  refine ((takes_name.parenthesized (k := n)).bind fun _ => (h.block.of_le (Nat.le_refl 0) ?_).bind fun _ =>
    (takes_keyword _).bind fun _ => takes_pure _).of_le ?_ (Nat.le_refl _) <;> omega

theorem takes_function : (function inner).Takes 1 (n + 1) := by
  unfold function
  exact ((takes_keyword _).bind fun _ => ((takes_functionBody h).of_le (Nat.le_refl 1) (by omega)).bind fun _ =>
    takes_pure _).of_le (by omega) (Nat.le_refl _)

theorem takes_operand : (operand inner).Takes 1 (n + 1) := by
  unfold operand
  refine .look fun t => ?_
  split
  · exact (takes_next.bind fun _ => ((h.expr _).of_le (Nat.le_refl 1) (by omega)).bind fun _ =>
      takes_pure _).of_le (by omega) (Nat.le_refl _)
  · split
    · exact takes_primary
    · exact takes_primary
    · exact takes_primary
    · exact takes_primary
    · exact takes_next.bind fun _ => (takes_links h _).of_le (Nat.le_refl 0) (by omega)
    · refine .ite ?_ (.ite (takes_table h) (takes_fail nofun))
      exact (takes_grouping h).bind fun _ => (takes_links h _).of_le (Nat.le_refl 0) (by omega)
    · exact .ite (takes_function h) (takes_fail nofun)
    · exact takes_fail nofun

theorem takes_binary (left : Expr) (op : BinaryOp) (bound : Precedence) :
    (binary inner left op bound).Takes 1 (n + 1) := by
  unfold binary
  exact (takes_next.bind fun _ => ((h.expr _).of_le (Nat.le_refl 1) (by omega)).bind fun _ =>
    takes_pure _).of_le (by omega) (Nat.le_refl _)

omit h in
/-- A round of the loop over operators is one operator that binds tighter than the bound. -/
theorem tighter?_eq_some {bound : Precedence} {t : Token} {round : Expr → Parser Expr} (hr : tighter? inner bound t = some round) :
    ∃ op, BinaryOp.ofToken? t = some op ∧ ¬ op.precedence ≤ bound ∧ round = fun left => binary inner left op op.precedence := by
  unfold tighter? at hr
  split at hr
  · next op hop =>
    split at hr
    · cases hr
    · next hb =>
      cases hr
      exact ⟨op, hop, hb, rfl⟩
  · cases hr

theorem takes_tighter {bound : Precedence} {t : Token} {round : Expr → Parser Expr}
    (hr : tighter? inner bound t = some round) (left : Expr) : (round left).Takes 1 (n + 1) := by
  obtain ⟨op, -, -, rfl⟩ := tighter?_eq_some hr
  exact takes_binary h left _ _

theorem progressive_tighter (bound : Precedence) : Progressive (tighter? inner bound) :=
  fun _ _ hr left => (takes_tighter h hr left).of_le (Nat.le_refl 1) (Nat.zero_le _)

theorem takes_climb (bound : Precedence) : (climb inner bound).Takes 1 (n + 1) := by
  unfold climb
  exact (takes_operand h).bind fun _ => (Takes.repeating (fun _ _ hr => takes_tighter h hr) _).of_le
    (Nat.le_refl 0) (by omega)

/-! ## Statements -/

theorem takes_namedFunction : (namedFunction inner).Takes 1 (n + 1) := by
  unfold namedFunction
  exact ((takes_keyword _).bind fun _ => takes_name.bind fun _ => ((takes_functionBody h).of_le (Nat.le_refl 1)
    (by omega)).bind fun _ => takes_pure _).of_le (by omega) (Nat.le_refl _)

theorem takes_functionStmt : (functionStmt inner).Takes 1 (n + 1) := by
  unfold functionStmt definition
  exact .map ((takes_namedFunction h).bind fun _ => takes_pure _)

theorem takes_localStmt : (localStmt inner).Takes 1 (n + 1) := by
  rw [localStmt, localFunction_eq]
  refine ((takes_keyword _).bind fun _ => (takes_check _).bind fun _ => .ite (c := 1) ?_ ?_).of_le
    (by omega) (Nat.le_refl _)
  · exact ((takes_namedFunction h).of_le (Nat.le_refl 1) (by omega)).bind fun _ => takes_pure _
  · refine takes_name.bind fun _ => (takes_check _).bind fun _ => .ite (c := 0) ?_ (takes_pure _)
    exact (takes_next.bind fun _ => ((h.expr _).of_le (Nat.le_refl 1) (by omega)).bind fun _ =>
      takes_pure _).of_le (by omega) (Nat.le_refl _)

theorem takes_assignment : (assignment inner).Takes 1 (n + 1) := by
  unfold assignment
  exact (takes_name.bind fun _ => (takes_operator _).bind fun _ => ((h.expr _).of_le (Nat.le_refl 1)
    (by omega)).bind fun _ => takes_pure _).of_le (by omega) (Nat.le_refl _)

theorem takes_returnStmt : (returnStmt inner).Takes 1 (n + 1) := by
  unfold returnStmt
  refine ((takes_keyword _).bind fun _ => (takes_check _).bind fun _ => .ite (c := 0) ?_ (takes_pure _)).of_le
    (by omega) (Nat.le_refl _)
  exact (((h.expr _).of_le (Nat.le_refl 1) (by omega)).separated.bind fun _ => takes_pure _).of_le
    (by omega) (Nat.le_refl _)

theorem takes_guarded : (guarded inner).Takes 2 n := by
  unfold guarded
  exact ((h.expr _).bind fun _ => (takes_keyword _).bind fun _ => (h.block.of_le (Nat.le_refl 0) (by omega)).bind fun _ =>
    takes_pure _).of_le (by omega) (Nat.le_refl _)

theorem takes_branch : (branch inner).Takes 1 (n + 1) := by
  unfold branch
  exact (takes_next.bind fun _ => ((takes_guarded h).of_le (Nat.le_refl 2) (by omega)).bind fun _ =>
    takes_pure _).of_le (by omega) (Nat.le_refl _)

theorem takes_otherwise : (otherwise inner).Takes 0 n := by
  unfold otherwise
  refine (takes_check _).bind fun _ => .ite ?_ (takes_pure _)
  exact (takes_next.bind fun _ => h.block.of_le (Nat.le_refl 0) (by omega)).of_le (by omega) (Nat.le_refl _)

theorem takes_ifStmt : (ifStmt inner).Takes 1 (n + 1) := by
  unfold ifStmt
  refine ((takes_keyword _).bind fun _ => ((takes_guarded h).of_le (Nat.le_refl 2) ?_).bind fun _ =>
    ((takes_branch h).many _ |>.of_le (Nat.le_refl 0) ?_).bind fun _ =>
    ((takes_otherwise h).of_le (Nat.le_refl 0) ?_).bind fun _ =>
    (takes_keyword _).bind fun _ => takes_pure _).of_le ?_ (Nat.le_refl _) <;> omega

theorem takes_loopBody : (loopBody inner).Takes 1 n := by
  unfold loopBody
  exact ((takes_keyword _).bind fun _ => h.block.bind fun _ => (takes_keyword _).bind fun _ =>
    takes_pure _).of_le (by omega) (Nat.le_refl _)

theorem takes_whileStmt : (whileStmt inner).Takes 1 (n + 1) := by
  unfold whileStmt
  refine ((takes_keyword _).bind fun _ => ((h.expr _).of_le (Nat.le_refl 1) ?_).bind fun _ =>
    ((takes_loopBody h).of_le (Nat.le_refl 1) ?_).bind fun _ => takes_pure _).of_le ?_ (Nat.le_refl _) <;> omega

theorem takes_repeatStmt : (repeatStmt inner).Takes 1 n := by
  unfold repeatStmt
  refine ((takes_keyword _).bind fun _ => h.block.bind fun _ => (takes_keyword _).bind fun _ =>
    ((h.expr _).of_le (Nat.le_refl 1) ?_).bind fun _ => takes_pure _).of_le ?_ (Nat.le_refl _) <;> omega

theorem takes_step : (step inner).Takes 0 (n + 1) := by
  unfold step
  refine (takes_check _).bind fun _ => .ite ?_ (takes_pure _)
  exact (takes_next.bind fun _ => ((h.expr _).of_le (Nat.le_refl 1) (by omega)).bind fun _ =>
    takes_pure _).of_le (by omega) (Nat.le_refl _)

theorem takes_forRange (x : String) : (forRange inner x).Takes 1 (n + 1) := by
  unfold forRange
  refine (takes_next.bind fun _ => ((h.expr _).of_le (Nat.le_refl 1) ?_).bind fun _ => (takes_symbol _).bind fun _ =>
    ((h.expr _).of_le (Nat.le_refl 1) ?_).bind fun _ => ((takes_step h).of_le (Nat.le_refl 0) ?_).bind fun _ =>
    ((takes_loopBody h).of_le (Nat.le_refl 1) ?_).bind fun _ => takes_pure _).of_le ?_ (Nat.le_refl _) <;> omega

theorem takes_forIn (key : String) : (forIn inner key).Takes 1 (n + 1) := by
  have hv : valueName.Takes 0 (n + 1) := by
    unfold valueName
    refine (takes_check _).bind fun _ => .ite ?_ ((takes_check _).bind fun _ => .ite (takes_pure _) ?_)
    · exact (takes_next.bind fun _ => takes_name.bind fun _ => takes_pure _).of_le (by omega) (Nat.le_refl _)
    · exact takes_fail nofun
  unfold forIn
  refine (hv.bind fun _ => (takes_keyword _).bind fun _ => ((h.expr _).of_le (Nat.le_refl 1) ?_).bind fun _ =>
    ((takes_loopBody h).of_le (Nat.le_refl 1) ?_).bind fun _ => takes_pure _).of_le ?_ (Nat.le_refl _) <;> omega

theorem takes_forStmt : (forStmt inner).Takes 1 (n + 1) := by
  unfold forStmt
  refine ((takes_keyword _).bind fun _ => takes_name.bind fun _ => (takes_check _).bind fun _ =>
    .ite ((takes_forRange h _).of_le (Nat.le_refl 1) ?_) ((takes_forIn h _).of_le (Nat.le_refl 1) ?_)).of_le ?_
    (Nat.le_refl _) <;> omega

theorem takes_headed (head : StmtHead) : (headed inner head).Takes 1 n := by
  cases head
  case repeatLoop => exact takes_repeatStmt h
  case function => exact (takes_functionStmt h).of_le (Nat.le_refl 1) (Nat.le_succ n)
  case localVar => exact (takes_localStmt h).of_le (Nat.le_refl 1) (Nat.le_succ n)
  case ret => exact (takes_returnStmt h).of_le (Nat.le_refl 1) (Nat.le_succ n)
  case ifThen => exact (takes_ifStmt h).of_le (Nat.le_refl 1) (Nat.le_succ n)
  case forLoop => exact (takes_forStmt h).of_le (Nat.le_refl 1) (Nat.le_succ n)
  case whileLoop => exact (takes_whileStmt h).of_le (Nat.le_refl 1) (Nat.le_succ n)

theorem takes_nameStmt : (nameStmt inner).Takes 1 n := by
  intro ts
  match ts with
  | [] => exact ⟨List.suffix_refl _, nofun⟩
  | [t] => exact ⟨List.suffix_cons t [], nofun⟩
  | t :: u :: us =>
    rw [nameStmt]
    by_cases hu : u.isOperator "="
    · rw [if_pos hu]
      exact (takes_assignment h).of_le (Nat.le_refl 1) (Nat.le_succ n) (t :: u :: us)
    · rw [if_neg hu]
      by_cases hc : continuesExpr u
      · rw [if_pos hc]
        exact (h.expr _).map (t :: u :: us)
      · rw [if_neg hc]
        exact ⟨List.suffix_cons t _, nofun⟩

theorem takes_stmt : (stmt inner).Takes 1 n := by
  unfold stmt
  refine .look fun t => ?_
  split
  · split
    · exact takes_headed h _
    · exact takes_fail nofun
  · exact takes_nameStmt h
  · exact takes_fail nofun

theorem takes_block : (block inner).Takes 0 n := (takes_stmt h).many _

theorem takes_program : (program inner).Takes 0 n := (takes_stmt h).many _

/-- A program that is accepted has been read to the end. -/
theorem program_rest {stmts : List Stmt} (hp : program inner ts = .ok (stmts, rest)) : rest = [] := by
  cases rest with
  | nil => rfl
  | cons t us =>
    have := many_stops ((takes_stmt h).of_le (Nat.le_refl 1) (Nat.zero_le n)) hp t us rfl
    cases this

end
end Parser

/-! ## Levels -/

open MiniLua.Parser

theorem Inner.takes_of {n : Nat} {expr : Precedence → Parser Expr} {block : Parser (List Stmt)}
    (he : ∀ bound, (expr bound).Takes 1 n) (hb : block.Takes 0 (n - 1)) : (Inner.of expr block).Takes n where
  expr := he
  argument := .choice takes_primary (he _)
  block := hb

theorem Inner.ofLevels_takes (n : Nat) : (Inner.ofLevels n).Takes n := by
  induction n with
  | zero =>
    refine Inner.takes_of (fun _ ts => ?_) fun ts => ?_
    · exact ⟨List.suffix_refl _, fun _ => Nat.le_refl _⟩
    · exact ⟨List.suffix_refl _, fun _ => Nat.le_refl _⟩
  | succ n ih =>
    rw [Inner.ofLevels_succ]
    exact Inner.takes_of (fun bound => (takes_climb ih bound).nested) (takes_block ih).nested

end MiniLua
