import MiniLua.Proofs.Calls.Depth
import MiniLua.Proofs.Calls.Replacing
/-!
# Calls that fail

Nothing is tried again where a call has failed: whoever made the call fails for the same fault at the same tokens
(`Routine.Calls.fails`), and so does the program in the end (`Routine.Made.fails`). So what a program never
fails for does not happen in any call that it makes.

That goes through the bodies of all routines once more (`Routine.body_failsBy`), and is simpler than the way in which
an answer is replaced, since nothing comes behind a failure.
-/

namespace MiniLua

open MiniLua.Parser

namespace Fueled

variable {α β : Type} {fault : Fault} {rest : List Token}

section
variable {f : Fueled α} {p : α → Fueled β} {ts : List Token}

theorem bind_of_ok {r : α × List Token} (h : f ts = some (.ok r)) : (f >>= p) ts = p r.1 r.2 := by
  simp only [Bind.bind, h]

theorem bind_of_error {e : Failure} (h : f ts = some (.error e)) : (f >>= p) ts = some (.error e) := by
  simp only [Bind.bind, h]

end

/-- Either both have the same result, or there is none and the other one is a failure for the fault. -/
inductive Fills (fault : Fault) (rest : List Token) :
    Option (Except Failure (α × List Token)) → Option (Except Failure (α × List Token)) → Prop
  | same (r : Except Failure (α × List Token)) : Fills fault rest (some r) (some r)
  | fails (k : Nat) : Fills fault rest none (some (.error ⟨fault, rest, k⟩))

/-- Where the one run has no result the other one fails for the fault, and elsewhere they have the same. -/
def FailsBy (fault : Fault) (rest : List Token) (f g : Fueled α) : Prop := ∀ ts, Fills fault rest (f ts) (g ts)

namespace FailsBy

variable {f g f' g' : Fueled α} {p q : α → Fueled β}

theorem free (p : Parser α) : FailsBy fault rest (free p) (free p) := fun ts => .same (p ts)

theorem pure (a : α) : FailsBy fault rest (Pure.pure a) (Pure.pure a) := free _

theorem bind (h : FailsBy fault rest f g) (hp : ∀ a, FailsBy fault rest (p a) (q a)) : FailsBy fault rest (f >>= p) (g >>= q) := by
  intro ts
  have hts := h ts
  generalize hf : f ts = x, hg : g ts = y at hts
  cases hts with
  | same r =>
    cases r with
    | error e =>
      rw [bind_of_error hf, bind_of_error hg]
      exact .same _
    | ok r =>
      rw [bind_of_ok hf, bind_of_ok hg]
      exact hp r.1 r.2
  | fails k =>
    rw [bind_eq_none.2 (.inl hf), bind_of_error hg]
    exact .fails k

theorem map (h : FailsBy fault rest f g) (c : α → β) : FailsBy fault rest (c <$> f) (c <$> g) := h.bind fun _ => .pure _

theorem ite {c : Prop} [Decidable c] (h : FailsBy fault rest f g) (h' : FailsBy fault rest f' g') :
    FailsBy fault rest (if c then f else f') (if c then g else g') := by
  split
  · exact h
  · exact h'

theorem choice (test : List Token → Bool) (h : FailsBy fault rest f g) (h' : FailsBy fault rest f' g') :
    FailsBy fault rest (fun ts => if test ts then f ts else f' ts) (fun ts => if test ts then g ts else g' ts) := by
  intro ts
  show Fills fault rest (if test ts then f ts else f' ts) (if test ts then g ts else g' ts)
  split
  · exact h ts
  · exact h' ts

theorem look {wanted : Expectation} {go go' : Token → Fueled α} (h : ∀ t, FailsBy fault rest (go t) (go' t)) :
    FailsBy fault rest (look wanted go) (look wanted go') := by
  intro ts
  cases ts with
  | nil => exact .same _
  | cons t ts => exact h t (t :: ts)

theorem nested (h : FailsBy fault rest f g) : FailsBy fault rest (nested f) (nested g) := by
  intro ts
  have hts := h ts
  rw [Fueled.nested, Fueled.nested]
  generalize f ts = x, g ts = y at hts
  cases hts with
  | same r => cases r <;> exact .same _
  | fails k => exact .fails (k + 1)

/-- A loop fails where one of its rounds does. -/
theorem repeating {round? round?' : Token → Option (α → Fueled α)}
    (h : ∀ t, Option.Rel (fun r r' => ∀ a, FailsBy fault rest (r a) (r' a)) (round? t) (round?' t)) (a : α) :
    FailsBy fault rest (repeating round? a) (repeating round?' a) := by
  have hrounds : ∀ bound a, FailsBy fault rest (rounds round? bound a) (rounds round?' bound a) := by
    intro bound
    induction bound with
    | nil => exact fun _ _ => .same _
    | cons b bound ih =>
      intro a ts
      cases ts with
      | nil => exact .same _
      | cons t ts =>
        have ht := h t
        rw [rounds, rounds]
        generalize round? t = r, round?' t = r' at ht
        cases ht with
        | none => exact .same _
        | some hr => exact (hr a).bind ih (t :: ts)
  exact fun ts => hrounds ts a ts

theorem many (test : Token → Bool) (h : FailsBy fault rest f g) : FailsBy fault rest (many test f) (many test g) := by
  refine (repeating (fun t => ?_) []).bind fun _ => .pure _
  split
  · exact .some fun _ => h.map _
  · exact .none

theorem separated (h : FailsBy fault rest f g) : FailsBy fault rest (separated f) (separated g) :=
  h.bind fun _ => (FailsBy.many _ ((free next).bind fun _ => h)).bind fun _ => .pure _

theorem parenthesized (h : FailsBy fault rest f g) : FailsBy fault rest (parenthesized f) (parenthesized g) :=
  (free _).bind fun _ => (free _).bind fun _ => .ite ((free _).bind fun _ => .pure _)
    (h.separated.bind fun _ => (free _).bind fun _ => .pure _)

end FailsBy
end Fueled

namespace Routine

open Fueled (FailsBy)

variable {α β : Type} {fault : Fault} {rest : List Token} {call call' : ∀ {β : Type}, Routine β → Fueled β}

section
variable (h : ∀ {β : Type} (q : Routine β), FailsBy fault rest (call q) (call' q)) (n : Nat) (t : Token)
include h

/-! ## Loops -/

theorem link?_failsBy :
    Option.Rel (fun r r' => ∀ base, FailsBy fault rest (r base) (r' base)) (link? call n t) (link? call' n t) := by
  unfold link?
  split
  · exact .some fun _ => h _
  · split
    · exact .some fun _ => h _
    · split
      · exact .some fun _ => h _
      · exact .none

theorem nextField?_failsBy :
    Option.Rel (fun r r' => ∀ fields, FailsBy fault rest (r fields) (r' fields)) (nextField? call n t) (nextField? call' n t) := by
  unfold nextField?
  split
  · exact .some fun _ => .bind (.free _) fun _ => h _
  · exact .none

theorem tighter?_failsBy (bound : Precedence) :
    Option.Rel (fun r r' => ∀ left, FailsBy fault rest (r left) (r' left)) (tighter? call n bound t) (tighter? call' n bound t) := by
  unfold tighter?
  cases BinaryOp.ofToken? t with
  | none => exact .none
  | some op =>
    simp only
    split
    · exact .none
    · exact .some fun _ => h _

end

/-! ## One routine -/

/-- A routine fails where a call that it makes does. -/
theorem body_failsBy (h : ∀ {β : Type} (q : Routine β), FailsBy fault rest (call q) (call' q)) (r : Routine α) :
    FailsBy fault rest (r.body call) (r.body call') := by
  cases r with
  | primary | parameters | valueName => exact .free _
  | argument n => exact .choice _ (h _) (h _)
  | grouping n => exact .bind (.free _) fun _ => .bind (h _) fun _ => .bind (.free _) fun _ => .pure _
  | arguments n => exact (h _).parenthesized
  | call n callee => exact (h _).bind fun _ => .pure _
  | member n object =>
    exact .bind (.free _) fun _ => .bind (.free _) fun _ => .bind (.free _) fun _ => .ite (.bind (h _) fun _ => .pure _) (.pure _)
  | methodCall n receiver =>
    exact .bind (.free _) fun _ => .bind (.free _) fun _ => .bind (h _) fun _ => .pure _
  | links n base => exact .repeating (link?_failsBy h n) base
  | field n fields =>
    exact .choice _ (.bind (.free _) fun _ => .bind (.free _) fun _ => .bind (h _) fun _ => .pure _)
      (.bind (h _) fun _ => .pure _)
  | fieldOrEnd n fields => exact .bind (.free _) fun _ => .ite (.pure _) (h _)
  | table n =>
    exact .bind (.free _) fun _ => .bind (h _) fun fields => .bind (.repeating (nextField?_failsBy h n) fields) fun _ =>
      .bind (.free _) fun _ => .pure _
  | functionBody n => exact .bind (h _) fun _ => .bind (h _) fun _ => .bind (.free _) fun _ => .pure _
  | function n => exact .bind (.free _) fun _ => .bind (h _) fun _ => .pure _
  | operand n =>
    refine .look fun t => ?_
    cases UnaryOp.ofToken? t with
    | some op => exact .bind (.free _) fun _ => .bind (h _) fun _ => .pure _
    | none =>
      cases t.kind with
      | identifier => exact .bind (.free _) fun _ => h _
      | symbol => exact .ite (.bind (h _) fun _ => h _) (.ite (h _) (.free _))
      | keyword => exact .ite (h _) (.free _)
      | operator => exact .free _
      | _ => exact h _
  | binary n left op bound => exact .bind (.free _) fun _ => .bind (h _) fun _ => .pure _
  | expr n bound =>
    cases n with
    | zero => exact .free _
    | succ n => exact .nested (.bind (h _) fun left => .repeating (fun t => tighter?_failsBy h n t bound) left)
  | namedFunction n => exact .bind (.free _) fun _ => .bind (.free _) fun _ => .bind (h _) fun _ => .pure _
  | definition n => exact .bind (h _) fun _ => .pure _
  | functionStmt n => exact (h _).map _
  | localStmt n =>
    refine .bind (.free _) fun _ => .bind (.free _) fun _ => .ite (.bind (h _) fun _ => .pure _) ?_
    exact .bind (.free _) fun _ => .bind (.free _) fun _ => .ite (.bind (.free _) fun _ => .bind (h _) fun _ => .pure _) (.pure _)
  | assignment n => exact .bind (.free _) fun _ => .bind (.free _) fun _ => .bind (h _) fun _ => .pure _
  | returnStmt n =>
    exact .bind (.free _) fun _ => .bind (.free _) fun _ => .ite (.bind (h _).separated fun _ => .pure _) (.pure _)
  | guarded n => exact .bind (h _) fun _ => .bind (.free _) fun _ => .bind (h _) fun _ => .pure _
  | branch n => exact .bind (.free _) fun _ => .bind (h _) fun _ => .pure _
  | otherwise n => exact .bind (.free _) fun _ => .ite (.bind (.free _) fun _ => h _) (.pure _)
  | ifStmt n =>
    exact .bind (.free _) fun _ => .bind (h _) fun _ => .bind ((h _).many _) fun _ => .bind (h _) fun _ =>
      .bind (.free _) fun _ => .pure _
  | loopBody n => exact .bind (.free _) fun _ => .bind (h _) fun _ => .bind (.free _) fun _ => .pure _
  | whileStmt n => exact .bind (.free _) fun _ => .bind (h _) fun _ => .bind (h _) fun _ => .pure _
  | repeatStmt n =>
    exact .bind (.free _) fun _ => .bind (h _) fun _ => .bind (.free _) fun _ => .bind (h _) fun _ => .pure _
  | step n => exact .bind (.free _) fun _ => .ite (.bind (.free _) fun _ => .bind (h _) fun _ => .pure _) (.pure _)
  | forRange n x =>
    exact .bind (.free _) fun _ => .bind (h _) fun _ => .bind (.free _) fun _ => .bind (h _) fun _ => .bind (h _) fun _ =>
      .bind (h _) fun _ => .pure _
  | forIn n x =>
    exact .bind (h _) fun _ => .bind (.free _) fun _ => .bind (h _) fun _ => .bind (h _) fun _ => .pure _
  | forStmt n => exact .bind (.free _) fun _ => .bind (.free _) fun _ => .bind (.free _) fun _ => .ite (h _) (h _)
  | nameStmt n =>
    intro ts
    match ts with
    | [] => exact .same _
    | [t] => exact .same _
    | t :: u :: us =>
      simp only [body]
      split
      · exact h (assignment n) _
      · split
        · exact (h (expr n .lowest)).map _ _
        · exact FailsBy.bind (.free _) (fun _ => .free _) _
  | stmt n =>
    refine .look fun t => ?_
    cases t.kind with
    | keyword =>
      simp only
      cases StmtHead.ofText? t.value with
      | none => exact .free _
      | some head => exact h _
    | identifier => exact h _
    | _ => exact .free _
  | block n =>
    cases n with
    | zero => exact .free _
    | succ n => exact .nested ((h _).many _)
  | program n => exact (h _).many _

/-- Calls that are all answered make a routine the parser that it is for. -/
theorem body_free (r : Routine α) : r.body (fun r => Fueled.free r.parser) = Fueled.free r.parser :=
  body_eq r fun _ _ => rfl

variable {ts us : List Token} {q : Routine β} {e : Failure} {limit : Nat}

/-- Where a call fails the routine that makes it fails at the same tokens, for the same fault. -/
theorem Calls.fails {r : Routine α} (hc : r.Calls ts q us) (he : q.parser us = .error e) :
    ∃ k, r.parser ts = .error ⟨e.fault, e.rest, k⟩ := by
  have hcall : ∀ {γ : Type} (r : Routine γ), FailsBy e.fault e.rest (withheld q us r) (Fueled.free r.parser) := by
    intro γ r ts
    unfold withheld
    split
    · next hsame =>
      obtain ⟨hq, rfl⟩ := hsame
      cases hq
      have hfails : Fueled.free q.parser ts = some (.error ⟨e.fault, e.rest, e.levels⟩) := congrArg some he
      rw [hfails]
      exact .fails e.levels
    · exact .same _
  have hends := body_failsBy hcall r ts
  rw [body_free] at hends
  generalize hx : r.body (withheld q us) ts = x, hy : Fueled.free r.parser ts = y at hends
  cases hends with
  | same => cases hx.symm.trans hc
  | fails k => exact ⟨k, Option.some.inj hy⟩

/-- The fault of a call that fails is that of the program. -/
theorem Made.fails (hm : Made limit ts q us) (he : q.parser us = .error e) :
    ∃ k, Parser.program (.ofLevels limit) ts = .error ⟨e.fault, e.rest, k⟩ := by
  induction hm generalizing e with
  | program => exact ⟨e.levels, he⟩
  | call _ hc ih =>
    obtain ⟨k, hk⟩ := hc.fails he
    obtain ⟨l, hl⟩ := ih hk
    exact ⟨l, hl⟩

end Routine

end MiniLua
