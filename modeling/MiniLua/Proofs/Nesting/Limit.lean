import MiniLua.Proofs.Reading.Levels
import MiniLua.Proofs.Reading.Lookahead
/-!
# The limit of nesting

The limit of nesting decides one thing only, whether an input is nested too deep. A result that
does not say so is the result with every greater limit (`Inner.ofLevels_below`). With a limit above
the number of tokens no result says so, since a run that lacks a level has taken a token for each
level that it had (`Takes.length_of_tooDeep`).
-/

namespace MiniLua

open MiniLua.Parser

variable {limit limit' : Nat} {ts : List Token} {file : String} {r r' : Except ParseError (List Stmt)}

/-- The result is that the input is nested too deep, for whatever limit. -/
def TooDeep (r : Except ParseError (List Stmt)) : Prop := ∃ e k, r = .error e ∧ e.cause = .nestingTooDeep k

/-- Only a want of levels makes an error say so. -/
theorem Failure.tooDeep_of_cause {e : Failure} {k : Nat} (h : (e.error limit ts file).cause = .nestingTooDeep k) :
    e.fault = .tooDeep := by
  rw [Failure.error, ParseError.atIndex] at h
  cases hf : e.fault with
  | tooDeep => rfl
  | unexpected wanted => cases hr : e.rest <;> simp [hf, hr, Fault.cause] at h
  | expected wanted => cases hr : e.rest <;> simp [hf, hr, Fault.cause] at h

/-- The limit only ever turns a result into an error of nesting, and never for an input with fewer
tokens than levels. -/
theorem parseWithin_limit (ts : List Token) (file : String) :
    (∀ limit limit', limit ≤ limit' → ¬ TooDeep (parseWithin limit ts file) →
      parseWithin limit' ts file = parseWithin limit ts file) ∧
    ∀ limit, ts.length < limit → ¬ TooDeep (parseWithin limit ts file) := by
  constructor
  · intro limit limit' hle hdeep
    have hends : parseWithin limit ts file = parseWithin limit' ts file ∨
        ∃ e, parseWithin limit ts file = .error e ∧ e.cause = .nestingTooDeep limit :=
      (Below.program (Inner.ofLevels_below hle) ts).outcome limit limit'
    rcases hends with h | ⟨e, he, hcause⟩
    · exact h.symm
    · exact absurd ⟨e, limit, he, hcause⟩ hdeep
  · rintro limit hlen ⟨e, k, he, hcause⟩
    obtain ⟨failure, hf, rfl⟩ := parseWithin_eq_error.1 he
    -- By the time levels run out a token was taken for each of them.
    have := (takes_program (Inner.ofLevels_takes limit)).length_of_tooDeep hf (Failure.tooDeep_of_cause hcause)
    omega

/-- The tokens `return ( x )`, in which two levels are open at most. -/
def groupedName : List Token :=
  [.plain .keyword "return", .plain .symbol "(", .plain .identifier "x", .plain .symbol ")"]

/-- One level is too few for them, and every number from two on gives their tree. -/
theorem parseWithin_limit_groupedName :
    TooDeep (parseWithin 1 groupedName "f") ∧
      parseWithin maxNesting groupedName "f" = parseWithin 2 groupedName "f" ∧
      ¬ TooDeep (parseWithin 5 groupedName "f") := by
  have htwo : parseWithin 2 groupedName "f" = .ok [.ret [.var "x"]] := parseWithin_eq_ok.2 ⟨[], rfl⟩
  refine ⟨⟨_, 1, rfl, rfl⟩, (parseWithin_limit groupedName "f").1 2 maxNesting (by decide) ?_,
    (parseWithin_limit groupedName "f").2 5 (by decide)⟩
  rintro ⟨e, k, he, -⟩
  rw [htwo] at he
  cases he

end MiniLua
