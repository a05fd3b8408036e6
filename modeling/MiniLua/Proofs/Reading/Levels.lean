import MiniLua.Proofs.Reading.Relation
/-!
# More levels change nothing but a want of levels

A run with fewer levels ends as one with more, or for want of levels (`ofLevels_below`).
With more levels than tokens there is no such want, so there is a reading without any
limit (`Inner.unlimited`) that every run with one is below, and it satisfies the equations
of the grammar (`unlimited_expr`, `unlimited_block`).
-/

namespace MiniLua

open MiniLua.Parser

/-! ## Outcomes -/

/-- Both runs end alike, whatever levels a failure counts as open. If that is let pass, the
first may also end for want of levels. -/
def EndsAs {α : Type} (lax : Prop) (r r' : Except Failure (α × List Token)) : Prop :=
  match r with
  | .ok x => r' = .ok x
  | .error e => (lax ∧ e.fault = .tooDeep) ∨ ∃ e', r' = .error e' ∧ e'.fault = e.fault ∧ e'.rest = e.rest

namespace EndsAs

variable {α : Type} {lax : Prop} {r r' r'' : Except Failure (α × List Token)}

theorem refl (r : Except Failure (α × List Token)) : EndsAs lax r r := by
  cases r with
  | ok x => rfl
  | error e => exact .inr ⟨e, rfl, rfl, rfl⟩

theorem trans (h : EndsAs lax r r') (h' : EndsAs lax r' r'') : EndsAs lax r r'' := by
  cases r with
  | ok x =>
    obtain rfl : r' = .ok x := h
    exact h'
  | error e =>
    rcases h with h | ⟨e', rfl, hf, hr⟩
    · exact .inl h
    · rcases h' with ⟨hl, hd⟩ | ⟨e'', rfl, hf', hr'⟩
      · exact .inl ⟨hl, hf ▸ hd⟩
      · exact .inr ⟨e'', rfl, hf'.trans hf, hr'.trans hr⟩

theorem symm (h : EndsAs False r r') : EndsAs False r' r := by
  cases r with
  | ok x =>
    obtain rfl : r' = .ok x := h
    exact refl _
  | error e =>
    rcases h with h | ⟨e', rfl, hf, hr⟩
    · exact h.1.elim
    · exact .inr ⟨e, rfl, hf.symm, hr.symm⟩

theorem lax_of_strict (h : EndsAs False r r') : EndsAs lax r r' := by
  cases r with
  | ok x => exact h
  | error e => exact .inr (h.resolve_left fun h => h.1)

/-- Nothing was let pass where levels did not run out. -/
theorem strict (h : EndsAs lax r r') (hd : ∀ e, r = .error e → e.fault ≠ .tooDeep) : EndsAs False r r' := by
  cases r with
  | ok x => exact h
  | error e => exact .inr (h.resolve_left fun h => hd e rfl h.2)

/-- What ends as a success is one, or has run out of levels. -/
theorem ok_or_tooDeep {x : α × List Token} (h : EndsAs lax r (.ok x)) : r = .ok x ∨ ∃ e, r = .error e ∧ e.fault = .tooDeep := by
  cases r with
  | ok y =>
    cases h
    exact .inl rfl
  | error e =>
    obtain ⟨-, hfault⟩ | ⟨_, ⟨⟩, -⟩ := h
    exact .inr ⟨e, rfl, hfault⟩

theorem ok_iff (h : EndsAs False r r') {x : α × List Token} : r = .ok x ↔ r' = .ok x := by
  constructor
  · rintro rfl
    exact h
  · rintro rfl
    exact h.symm

end EndsAs

namespace Parser

variable {α β : Type} {lax : Prop} {inner inner' : Inner}

/-- On every input the first parser ends as the second. -/
def Below (lax : Prop) {α : Type} (p q : Parser α) : Prop := ∀ ts, EndsAs lax (p ts) (q ts)

theorem Below.refl (p : Parser α) : Below lax p p := fun _ => .refl _

theorem Below.ok {p q : Parser α} {ts : List Token} {r : α × List Token} (h : Below lax p q) (hp : p ts = .ok r) : q ts = .ok r := by
  have := h ts
  rwa [hp] at this

theorem Below.trans {p q r : Parser α} (h : Below lax p q) (h' : Below lax q r) : Below lax p r :=
  fun ts => (h ts).trans (h' ts)

theorem Below.bind {p p' : Parser α} {f f' : α → Parser β} (hp : Below lax p p') (hf : ∀ a, Below lax (f a) (f' a)) :
    Below lax (p >>= f) (p' >>= f') := by
  intro ts
  have h := hp ts
  rw [bind_run, bind_run]
  cases hr : p ts with
  | ok r =>
    rw [hr] at h
    rw [show p' ts = .ok r from h]
    exact hf r.1 r.2
  | error e =>
    rw [hr] at h
    rcases h with h | ⟨e', he, hf, hr⟩
    · exact .inl h
    · rw [he]
      exact .inr ⟨e', rfl, hf, hr⟩

theorem Below.rounds {round? round?' : Token → Option (α → Parser α)}
    (h : ∀ t, Option.Rel (fun r r' => ∀ a, Below lax (r a) (r' a)) (round? t) (round?' t)) :
    ∀ (bound : List Token) (a : α), Below lax (rounds round? bound a) (rounds round?' bound a) := by
  intro bound
  induction bound with
  | nil => exact fun a => .refl _
  | cons b bound ih =>
    intro a ts
    cases ts with
    | nil => exact .refl _
    | cons t ts =>
      have ht := h t
      rw [Parser.rounds, Parser.rounds]
      generalize round? t = r, round?' t = r' at ht
      cases ht with
      | none => exact .refl _
      | some ht => exact (ht a).bind (fun b => ih b) (t :: ts)

theorem Below.congruence (lax : Prop) : Congruence (@Below lax) where
  pure _ := .refl _
  bind := .bind
  fail _ _ := .refl _
  next := .refl _
  satisfy _ _ := .refl _
  check _ := .refl _
  look wanted go go' h ts := by
    cases ts with
    | nil => exact .refl _
    | cons t ts => exact h t (t :: ts)
  repeating _ _ h a ts := Below.rounds h ts a ts

theorem Below.choice {test : List Token → Bool} {p p' q q' : Parser α} (hp : Below lax p p') (hq : Below lax q q') :
    Below lax (fun ts => if test ts then p ts else q ts : Parser α) (fun ts => if test ts then p' ts else q' ts) := by
  intro ts
  simp only
  split
  · exact hp ts
  · exact hq ts

theorem Agree.of_below (ht : inner.Takes 0) (ht' : inner'.Takes 0)
    (he : ∀ bound, Below lax (inner.expr bound) (inner'.expr bound))
    (ha : Below lax inner.argument inner'.argument) (hb : Below lax inner.block inner'.block) :
    Agree (@Below lax) inner inner' where
  takes := ht
  takes' := ht'
  expr := he
  argument := ha
  block := hb
  field fields := by
    have hR := Below.congruence lax
    unfold Parser.field
    exact .choice (hR.bind hR.next fun _ => hR.bind hR.next fun _ => hR.bind (he _) fun _ => hR.pure _)
      (hR.bind (he _) fun _ => hR.pure _)

theorem Below.nameStmt (h : Agree (@Below lax) inner inner') : Below lax (nameStmt inner) (nameStmt inner') := by
  intro ts
  match ts with
  | [] => exact .refl _
  | [t] => exact .refl _
  | t :: u :: us =>
    rw [Parser.nameStmt, Parser.nameStmt]
    split
    · exact (Below.congruence lax).assignment h _
    · split
      · exact (Below.congruence lax).map _ (h.expr _) _
      · exact .refl _

theorem Below.block (h : Agree (@Below lax) inner inner') : Below lax (block inner) (block inner') :=
  (Below.congruence lax).block h ((Below.congruence lax).stmt h (.nameStmt h))

theorem Below.program (h : Agree (@Below lax) inner inner') : Below lax (program inner) (program inner') :=
  (Below.congruence lax).program h ((Below.congruence lax).stmt h (.nameStmt h))

/-- A level counted as open makes no difference. -/
theorem endsAs_nested (p : Parser α) (ts : List Token) : EndsAs False (nested p ts) (p ts) := by
  rw [nested]
  cases p ts with
  | ok r => rfl
  | error e => exact .inr ⟨e, rfl, rfl, rfl⟩

theorem Below.nested {p q : Parser α} (h : Below lax p q) : Below lax (nested p) (nested q) :=
  fun ts => (endsAs_nested p ts).lax_of_strict.trans ((h ts).trans (endsAs_nested q ts).symm.lax_of_strict)

/-- A want of levels is let pass. -/
theorem below_of_tooDeep (q : Parser α) : Below True (.fail .tooDeep) q := fun _ => .inl ⟨trivial, rfl⟩

end Parser

/-! ## Running out of levels -/

/-- A parser runs out of levels at the last tokens of an input. -/
def RunsOutAt {α : Type} (p : Parser α) (ts rest : List Token) : Prop := ∃ n, p ts = .error ⟨.tooDeep, rest, n⟩

namespace RunsOutAt

variable {α β : Type} {p : Parser α} {q : α → Parser β} {ts us rest : List Token}

theorem of_eq {p' : Parser α} {ts' : List Token} (heq : p ts = p' ts') (h : RunsOutAt p' ts' rest) : RunsOutAt p ts rest := by
  obtain ⟨n, h⟩ := h
  exact ⟨n, heq.trans h⟩

theorem fail (ts : List Token) : RunsOutAt (.fail .tooDeep : Parser α) ts ts := ⟨0, rfl⟩

theorem nested (h : RunsOutAt p ts rest) : RunsOutAt (nested p) ts rest := by
  obtain ⟨n, h⟩ := h
  exact ⟨n + 1, by rw [Parser.nested, h]⟩

theorem bind (h : RunsOutAt p ts rest) : RunsOutAt (p >>= q) ts rest := by
  obtain ⟨n, h⟩ := h
  exact ⟨n, bind_eq_error.2 (.inl h)⟩

/-- After a parser that succeeds. -/
theorem after {a : α} (hp : p ts = .ok (a, us)) (h : RunsOutAt (q a) us rest) : RunsOutAt (p >>= q) ts rest := by
  obtain ⟨n, h⟩ := h
  exact ⟨n, bind_eq_error.2 (.inr ⟨a, us, hp, h⟩)⟩

theorem map {g : α → β} (h : RunsOutAt p ts rest) : RunsOutAt (g <$> p) ts rest := by
  rw [map_eq_pure_bind]
  exact h.bind

/-- In the first round of a loop. -/
theorem repeating {round? : Token → Option (α → Parser α)} (hp : Progressive round?) {t : Token} {round : α → Parser α}
    (hr : round? t = some round) {a : α} (h : RunsOutAt (round a) (t :: ts) rest) :
    RunsOutAt (repeating round? a) (t :: ts) rest := by
  obtain ⟨n, h⟩ := h.bind (q := Parser.repeating round?)
  exact ⟨n, by rw [repeating_of_some hp hr, h]⟩

/-- In the first item of a program. -/
theorem many {item : Parser α} (hi : item.Takes 1 0) {test : Token → Bool} {t : Token} (ht : test t = true)
    (h : RunsOutAt item (t :: ts) rest) : RunsOutAt (many test item) (t :: ts) rest :=
  (RunsOutAt.repeating (progressive_many hi test) (if_pos ht) h.map).bind

end RunsOutAt

/-! ## With more levels -/

namespace Inner

variable {m n : Nat} {bound : Precedence} {ts : List Token} {e : Failure}

theorem Takes.zero {inner : Inner} (h : inner.Takes n) : inner.Takes 0 where
  expr bound := (h.expr bound).of_le (Nat.le_refl 1) (Nat.zero_le n)
  argument := h.argument.of_le (Nat.le_refl 1) (Nat.zero_le n)
  block := h.block.of_le (Nat.le_refl 0) (Nat.zero_le _)

theorem below_of {lax : Prop} {expr expr' : Precedence → Parser Expr} {block block' : Parser (List Stmt)}
    (ht : (Inner.of expr block).Takes 0) (ht' : (Inner.of expr' block').Takes 0)
    (he : ∀ bound, Below lax (expr bound) (expr' bound)) (hb : Below lax block block') :
    Agree (@Below lax) (.of expr block) (.of expr' block') :=
  .of_below ht ht' he (.choice (.refl _) (he _)) hb

theorem ofLevels_below_succ (n : Nat) : Agree (@Below True) (ofLevels n) (ofLevels (n + 1)) := by
  induction n with
  | zero =>
    apply below_of (ofLevels_takes 0).zero (ofLevels_takes 1).zero
    · exact fun bound => below_of_tooDeep _
    · exact below_of_tooDeep _
  | succ n ih =>
    apply below_of (ofLevels_takes (n + 1)).zero (ofLevels_takes (n + 2)).zero
    · exact fun bound => ((Below.congruence True).climb ih bound).nested
    · exact (Below.block ih).nested

/-- A run with fewer levels ends as one with more, or for want of levels. -/
theorem ofLevels_below (h : m ≤ n) : Agree (@Below True) (ofLevels m) (ofLevels n) := by
  induction h with
  | refl =>
    exact .of_below (ofLevels_takes m).zero (ofLevels_takes m).zero (fun _ => .refl _) (.refl _) (.refl _)
  | @step n _ ih =>
    have := ofLevels_below_succ n
    exact .of_below ih.takes this.takes' (fun bound => (ih.expr bound).trans (this.expr bound))
      (ih.argument.trans this.argument) (ih.block.trans this.block)

/-! ## Without a limit -/

theorem ofLevels_expr_fault (h : ts.length < n) (he : (ofLevels n).expr bound ts = .error e) : e.fault ≠ .tooDeep := by
  intro hd
  have := ((ofLevels_takes n).expr bound).length_of_tooDeep he hd
  omega

theorem ofLevels_block_fault (h : ts.length + 1 < n) (he : (ofLevels n).block ts = .error e) : e.fault ≠ .tooDeep := by
  intro hd
  have := (ofLevels_takes n).block.length_of_tooDeep he hd
  omega

/-- With more levels than the input has tokens, and so without a limit. -/
def unlimited : Inner :=
  .of (fun bound ts => (ofLevels (ts.length + 1)).expr bound ts) fun ts => (ofLevels (ts.length + 2)).block ts

theorem unlimited_takes : unlimited.Takes 0 :=
  takes_of (fun bound ts => (ofLevels_takes (ts.length + 1)).zero.expr bound ts)
    fun ts => (ofLevels_takes (ts.length + 2)).zero.block ts

theorem ofLevels_below_unlimited (n : Nat) : Agree (@Below True) (ofLevels n) unlimited := by
  have he : ∀ bound, Below True ((ofLevels n).expr bound) (unlimited.expr bound) := by
    intro bound ts
    rcases Nat.le_total n (ts.length + 1) with h | h
    · exact (ofLevels_below h).expr bound ts
    · exact (((ofLevels_below h).expr bound ts).strict fun e he => ofLevels_expr_fault (Nat.lt_succ_self _) he).symm.lax_of_strict
  have hb : Below True (ofLevels n).block unlimited.block := by
    intro ts
    rcases Nat.le_total n (ts.length + 2) with h | h
    · exact (ofLevels_below h).block ts
    · exact (((ofLevels_below h).block ts).strict fun e he => ofLevels_block_fault (Nat.lt_succ_self _) he).symm.lax_of_strict
  refine .of_below (ofLevels_takes n).zero unlimited_takes he ?_ hb
  cases n with
  | zero => exact .choice (.refl _) (he _)
  | succ n => exact .choice (.refl _) (he _)

theorem unlimited_expr (bound : Precedence) : Below False (unlimited.expr bound) (climb unlimited bound) := by
  intro ts
  have h : EndsAs True (unlimited.expr bound ts) (climb unlimited bound ts) :=
    (endsAs_nested _ ts).lax_of_strict.trans ((Below.congruence True).climb (ofLevels_below_unlimited ts.length) bound ts)
  exact h.strict fun e he => ofLevels_expr_fault (Nat.lt_succ_self _) he

theorem unlimited_block : Below False unlimited.block (Parser.block unlimited) := by
  intro ts
  have h : EndsAs True (unlimited.block ts) (Parser.block unlimited ts) :=
    (endsAs_nested _ ts).lax_of_strict.trans (Below.block (ofLevels_below_unlimited (ts.length + 1)) ts)
  exact h.strict fun e he => ofLevels_block_fault (Nat.lt_succ_self _) he

end Inner

/-! ## Programs -/

section
variable {limit : Nat} {ts : List Token} {file : String}

theorem parseWithin_eq_ok {stmts : List Stmt} :
    parseWithin limit ts file = .ok stmts ↔ ∃ rest, program (.ofLevels limit) ts = .ok (stmts, rest) := by
  unfold parseWithin
  cases program (.ofLevels limit) ts <;> simp [Prod.ext_iff]

theorem parseWithin_eq_error {e : ParseError} :
    parseWithin limit ts file = .error e ↔
      ∃ failure, program (.ofLevels limit) ts = .error failure ∧ failure.error limit ts file = e := by
  unfold parseWithin
  cases program (.ofLevels limit) ts <;> simp

theorem Failure.error_cause_of_tooDeep {e : Failure} (h : e.fault = .tooDeep) :
    (e.error limit ts file).cause = .nestingTooDeep limit := by
  simp [Failure.error, ParseError.atIndex, Fault.cause, h]

/-- What is made of the end of a run over the tokens of a program. -/
def outcome (limit : Nat) (ts : List Token) (file : String) :
    Except Failure (List Stmt × List Token) → Except ParseError (List Stmt)
  | .ok (stmts, _) => .ok stmts
  | .error e => .error (e.error limit ts file)

theorem parseWithin_eq_outcome : parseWithin limit ts file = outcome limit ts file (program (.ofLevels limit) ts) := rfl

/-- The limit shows in an error only if levels ran out. -/
theorem Failure.error_eq {e e' : Failure} (hf : e'.fault = e.fault) (hr : e'.rest = e.rest) (hd : e.fault ≠ .tooDeep)
    (limit limit' : Nat) : e'.error limit' ts file = e.error limit ts file := by
  have hcause : e.fault.cause limit' e.rest = e.fault.cause limit e.rest := by
    cases h : e.fault with
    | tooDeep => exact absurd h hd
    | _ => rfl
  rw [Failure.error, Failure.error, hf, hr, hcause]

/-- Runs that end alike have one outcome, whatever their limits, unless the first ran out of levels. -/
theorem EndsAs.outcome {r r' : Except Failure (List Stmt × List Token)} (h : EndsAs True r r') (limit limit' : Nat) :
    outcome limit ts file r = outcome limit' ts file r' ∨
      ∃ e, outcome limit ts file r = .error e ∧ e.cause = .nestingTooDeep limit := by
  cases r with
  | ok x =>
    obtain rfl : r' = .ok x := h
    exact .inl rfl
  | error e =>
    by_cases hd : e.fault = .tooDeep
    · exact .inr ⟨_, rfl, Failure.error_cause_of_tooDeep hd⟩
    · rcases h with h | ⟨e', rfl, hf, hr⟩
      · exact absurd h.2 hd
      · exact .inl (congrArg Except.error (Failure.error_eq hf hr hd limit limit').symm)

end

end MiniLua
