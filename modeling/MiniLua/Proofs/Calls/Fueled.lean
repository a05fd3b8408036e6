import MiniLua.Grammar.Parser
/-!
# Parsers on fuel

A parser on fuel may have no result, if the fuel was not enough. It is put together by the same
combinators as a parser without. Where no part of it needs fuel, it is the parser that its parts
would make without (`free_bind` and the lemmas after it).
-/

namespace MiniLua

open MiniLua.Parser

/-- Reads a value off the front of a list of tokens, or runs out of fuel. -/
def Fueled (α : Type) := List Token → Option (Except Failure (α × List Token))

namespace Fueled

variable {α β : Type}

instance : Monad Fueled where
  pure a := fun ts => some (.ok (a, ts))
  bind p f := fun ts =>
    match p ts with
    | some (.ok (a, rest)) => f a rest
    | some (.error e) => some (.error e)
    | none => none

/-- A parser that takes no fuel. -/
def free (p : Parser α) : Fueled α := fun ts => some (p ts)

section
variable {f : Fueled α} {g : α → Fueled β} {ts : List Token}

/-- Two parsers in a row lack fuel if one of them does. -/
theorem bind_eq_none : (f >>= g) ts = none ↔ f ts = none ∨ ∃ a rest, f ts = some (.ok (a, rest)) ∧ g a rest = none := by
  show (match f ts with
    | some (.ok (a, rest)) => g a rest
    | some (.error e) => some (.error e)
    | none => none) = none ↔ _
  rcases f ts with _ | ⟨e | ⟨a, rest⟩⟩ <;> simp [and_assoc]

/-- They end as the first one does where it fails, and else as the second one does. -/
theorem bind_eq_some {r : Except Failure (β × List Token)} : (f >>= g) ts = some r ↔
    (∃ e, f ts = some (.error e) ∧ r = .error e) ∨ ∃ a rest, f ts = some (.ok (a, rest)) ∧ g a rest = some r := by
  show (match f ts with
    | some (.ok (a, rest)) => g a rest
    | some (.error e) => some (.error e)
    | none => none) = some r ↔ _
  rcases f ts with _ | ⟨e | ⟨a, rest⟩⟩ <;> simp [and_assoc, eq_comm]

end

/-! ## Combinators -/

/-- Goes on as the next token says, which is left where it is. -/
def look (wanted : Expectation) (go : Token → Fueled α) : Fueled α
  | [] => some (.error ⟨.unexpected wanted, [], 0⟩)
  | t :: rest => go t (t :: rest)

/-- Counts one more level as open in a failure. -/
def nested (p : Fueled α) : Fueled α := fun ts =>
  match p ts with
  | some (.ok r) => some (.ok r)
  | some (.error e) => some (.error { e with levels := e.levels + 1 })
  | none => none

theorem nested_eq_none {p : Fueled α} {ts : List Token} : nested p ts = none ↔ p ts = none := by
  rw [nested]
  rcases p ts with _ | _ | _ <;> simp

/-- Rounds as long as the next token gives one, at most as many as the bound is long. -/
def rounds (round? : Token → Option (α → Fueled α)) : List Token → α → Fueled α
  | [], a, ts => some (.ok (a, ts))
  | _ :: bound, a, ts =>
    match ts with
    | [] => some (.ok (a, []))
    | t :: rest =>
      match round? t with
      | none => some (.ok (a, t :: rest))
      | some round => (round a >>= rounds round? bound) (t :: rest)

/-- A loop lacks fuel only in a round. -/
theorem rounds_eq_none {round? : Token → Option (α → Fueled α)} {bound : List Token} {a : α} {ts : List Token}
    (h : rounds round? bound a ts = none) : ∃ b bound' t us round, bound = b :: bound' ∧ ts = t :: us ∧ round? t = some round ∧
      (round a >>= rounds round? bound') ts = none := by
  rcases bound with _ | ⟨b, bound⟩
  · cases h
  · rcases ts with _ | ⟨t, us⟩
    · cases h
    · rw [rounds] at h
      cases hr : round? t with
      | none =>
        rw [hr] at h
        cases h
      | some round =>
        rw [hr] at h
        exact ⟨b, bound, t, us, round, rfl, rfl, hr, h⟩

/-- A loop, of which each round may take as much fuel as there is for the loop. -/
def repeating (round? : Token → Option (α → Fueled α)) (a : α) : Fueled α := fun ts =>
  rounds round? ts a ts

/-- Items as long as the next token passes a test. -/
def many (test : Token → Bool) (item : Fueled α) : Fueled (List α) := do
  let items ← repeating (fun t => if test t then some fun items => (· :: items) <$> item else none) []
  pure items.reverse

/-- One item or more with commas between them. -/
def separated (item : Fueled α) : Fueled (List α) := do
  let first ← item
  let more ← many (·.isSymbol ",") do
    let _ ← free next
    item
  pure (first :: more)

/-- Items with commas between them, or none, in parentheses. -/
def parenthesized (item : Fueled α) : Fueled (List α) := do
  let _ ← free (symbol "(")
  if ← free (check (·.isSymbol ")")) then
    let _ ← free next
    pure []
  else
    let items ← separated item
    let _ ← free (symbol ")")
    pure items

/-! ## Without need of fuel -/

theorem free_pure (a : α) : free (pure a) = pure a := rfl

theorem free_bind (p : Parser α) (f : α → Parser β) : free (p >>= f) = free p >>= fun a => free (f a) := by
  funext ts
  show some ((p >>= f) ts) = match some (p ts) with
    | some (.ok (a, rest)) => free (f a) rest
    | some (.error e) => some (.error e)
    | none => none
  rw [bind_run]
  cases p ts <;> rfl

theorem free_map (g : α → β) (p : Parser α) : free (g <$> p) = g <$> free p := by
  rw [map_eq_pure_bind, free_bind]
  rfl

theorem free_ite {c : Prop} [Decidable c] (p q : Parser α) : free (if c then p else q) = if c then free p else free q := by
  split <;> rfl

theorem free_choice (test : List Token → Bool) (p q : Parser α) :
    free (fun ts => if test ts then p ts else q ts) = fun ts => if test ts then free p ts else free q ts := by
  funext ts
  exact apply_ite some _ _ _

theorem free_look (wanted : Expectation) (go : Token → Parser α) :
    free (Parser.look wanted go) = look wanted fun t => free (go t) := by
  funext ts
  cases ts <;> rfl

theorem free_nested (p : Parser α) : free (Parser.nested p) = nested (free p) := by
  funext ts
  show some (Parser.nested p ts) = nested (free p) ts
  rw [Parser.nested, nested, free]
  cases p ts <;> rfl

/-- The rounds are those of a loop without fuel. -/
theorem free_repeating {round? : Token → Option (α → Parser α)} {round?' : Token → Option (α → Fueled α)}
    (h : ∀ t, round?' t = (round? t).map fun round a => free (round a)) (a : α) :
    free (Parser.repeating round? a) = repeating round?' a := by
  have hrounds : ∀ bound a ts, some (Parser.rounds round? bound a ts) = rounds round?' bound a ts := by
    intro bound
    induction bound with
    | nil => exact fun _ _ => rfl
    | cons _ bound ih =>
      intro a ts
      cases ts with
      | nil => rfl
      | cons t ts =>
        rw [Parser.rounds, rounds, h]
        cases round? t with
        | none => rfl
        | some round =>
          have hrest : rounds round?' bound = fun b => free (Parser.rounds round? bound b) := by
            funext b us
            exact (ih b us).symm
          simp only [Option.map_some]
          rw [hrest, ← free_bind]
          rfl
  funext ts
  exact hrounds ts a ts

theorem free_many (test : Token → Bool) (item : Parser α) : free (Parser.many test item) = many test (free item) := by
  rw [Parser.many, many, free_bind, free_repeating (fun t => ?_)]
  · rfl
  · split
    · simp only [free_map, Option.map_some]
    · rfl

theorem free_separated (item : Parser α) : free (Parser.separated item) = separated (free item) := by
  simp only [Parser.separated, separated, free_bind, free_many, free_pure]

theorem free_parenthesized (item : Parser α) : free (Parser.parenthesized item) = parenthesized (free item) := by
  simp only [Parser.parenthesized, parenthesized, free_bind, free_ite, free_separated, free_pure]

end Fueled

end MiniLua
