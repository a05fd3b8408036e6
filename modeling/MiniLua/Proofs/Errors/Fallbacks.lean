import MiniLua.Proofs.Calls.Failing
import MiniLua.Proofs.Errors.Description
/-!
# Fallbacks

Some productions say what to do in a case that their callers rule out: to skip a token or to start a statement at the
end of the input, to complain of a token that is not there, to declare a function whose name is missing. No program ever
gets there (`parse_fallbacks`): a call that did would fail, the program with it, and a program fails for no such reason.
-/

namespace MiniLua

open MiniLua.Parser

variable {limit n : Nat} {ts us rest : List Token} {e : Failure}

/-- What may be wanting at the end of the input is not called as what is not. -/
theorem Expectation.AtEnd.text_notMem {wanted : Expectation} (h : wanted.AtEnd) :
    wanted.text ∉ ["a token", "a statement", "a statement or expression"] := by
  intro hmem
  obtain ⟨other, hother, htext⟩ : ∃ other ∈ [token, statement, statementOrExpression], other.text = wanted.text :=
    List.mem_map.1 hmem
  exact h (text_injective htext ▸ hother)

/-- What is said to be wanting at the end of the input may be. -/
theorem Fault.HoldsAt.text_notMem {f : Fault} (hf : f.HoldsAt rest) {expected : String}
    (h : f.cause limit rest = .unexpectedEnd expected) :
    expected ∉ ["a token", "a statement", "a statement or expression"] := by
  obtain ⟨hdeep, rfl⟩ := Fault.cause_unexpectedEnd ⟨expected, h⟩
  cases f with
  | tooDeep => exact absurd rfl hdeep
  | unexpected wanted | expected wanted =>
    cases h
    exact Expectation.AtEnd.text_notMem hf

/-- No token is missing where one is skipped, and none where one is said to be unexpected. -/
theorem Fault.HoldsAt.guarded {f : Fault} (hf : f.HoldsAt rest) :
    f ≠ .expected .token ∧ (f = .unexpected .statement ∨ f = .unexpected .statementOrExpression → rest ≠ []) := by
  constructor
  · rintro rfl
    cases rest with
    | nil => exact absurd hf (by simp [HoldsAt, Expectation.AtEnd])
    | cons t us => exact hf
  · rintro (rfl | rfl) rfl <;> exact absurd hf (by simp [HoldsAt, Expectation.AtEnd])

/-- A call that fails does so for something that is so where it fails. -/
theorem Routine.Made.holdsAt {α : Type} {q : Routine α} (hm : Routine.Made limit ts q us) (he : q.parser us = .error e) :
    e.fault.HoldsAt e.rest := by
  obtain ⟨k, hp⟩ := hm.fails he
  exact program_holdsAt (e := ⟨e.fault, e.rest, k⟩) hp

/-- No statement is started at the end of the input. -/
theorem Routine.Made.stmt_ne_nil (hm : Routine.Made limit ts (.stmt n) us) : us ≠ [] := by
  rintro rfl
  have he : (Routine.stmt n).parser [] = .error ⟨.unexpected .statement, [], 0⟩ := rfl
  exact (hm.holdsAt he).guarded.2 (.inl rfl) rfl

/-- The fallbacks are never taken. No error has a token, a statement, or a statement or expression for what the input ends
without: no statement is started at the end of the input, no call fails to skip a token, and none complains of a token
where there is none. And a function that is read has a name behind its keyword, which is the one that is seen there
beforehand. -/
theorem parse_fallbacks (ts : List Token) (file : String) :
    (∀ e expected, parse ts file = .error e → e.cause = .unexpectedEnd expected →
      expected ∉ ["a token", "a statement", "a statement or expression"]) ∧
    (∀ n us, Routine.Made maxNesting ts (.stmt n) us → us ≠ []) ∧
    (∀ {α : Type} (q : Routine α) us e, Routine.Made maxNesting ts q us → q.parser us = .error e →
      e.fault ≠ .expected .token ∧ (e.fault = .unexpected .statementOrExpression → e.rest ≠ [])) ∧
    ∀ inner us f rest, definition inner us = .ok (f, rest) →
      ∃ t, us[1]? = some t ∧ t.kind = .identifier ∧ secondName us = t.value := by
  refine ⟨fun e expected hp hcause => ?_, fun n us hm => hm.stmt_ne_nil, fun q us e hm he => ?_, fun inner us f rest hf => ?_⟩
  · obtain ⟨failure, hrun, rfl⟩ := parseWithin_eq_error.1 hp
    exact (program_holdsAt hrun).text_notMem hcause
  · have hguarded := (hm.holdsAt he).guarded
    exact ⟨hguarded.1, fun hf => hguarded.2 (.inr hf)⟩
  · obtain ⟨_, _, hname, -⟩ := bind_eq_ok.1 hf
    obtain ⟨t, ht, hkind, -, hseen⟩ := namedFunction_name inner hname
    exact ⟨t, ht, hkind, hseen⟩

/-- A `return` before one symbol. -/
def returnBefore (symbol : String) : List Token := [.plain .keyword "return", .plain .symbol symbol]

/-- The definition of a function that has no text for a name. -/
def namelessFunction : List Token :=
  [.plain .keyword "function", .plain .identifier "", .plain .symbol "(", .plain .symbol ")", .plain .keyword "end"]

/-- `return (` ends where an expression is wanted, and `return )` has a token that none starts with. -/
theorem parse_fallbacks_return :
    (∃ e, parse (returnBefore "(") "f" = .error e ∧ e.cause = .unexpectedEnd "an expression" ∧
      "an expression" ∉ ["a token", "a statement", "a statement or expression"]) ∧
    (Routine.Made maxNesting (returnBefore ")") (.stmt maxNesting) (returnBefore ")") ∧ returnBefore ")" ≠ []) ∧
    (∃ e, (Routine.stmt maxNesting).parser (returnBefore ")") = .error e ∧ e.fault = .unexpected .statementOrExpression ∧
      e.fault ≠ .expected .token ∧ e.rest ≠ []) ∧
    ∃ f, definition (.ofLevels 1) namelessFunction = .ok (f, []) ∧
      ∃ t, namelessFunction[1]? = some t ∧ t.kind = .identifier ∧ secondName namelessFunction = t.value := by
  have hopen : program (.ofLevels maxNesting) (returnBefore "(") = .error ⟨.unexpected .expression, [], 2⟩ := rfl
  have hparse : parse (returnBefore "(") "f" = .error _ := parseWithin_eq_error.2 ⟨_, hopen, rfl⟩
  have hcall : (Routine.program maxNesting).Calls (returnBefore ")") (.stmt maxNesting) (returnBefore ")") :=
    Fueled.bind_eq_none.2 (.inl (Fueled.bind_eq_none.2 (.inl (Fueled.bind_eq_none.2 (.inl (Routine.withheld_self _ _))))))
  have hmade := Routine.Made.program.call hcall
  have hstray : (Routine.stmt maxNesting).parser (returnBefore ")") =
    .error ⟨.unexpected .statementOrExpression, [.plain .symbol ")"], 1⟩ := rfl
  have hnameless : definition (.ofLevels 1) namelessFunction = .ok (.definition "" [] [], []) := rfl
  obtain ⟨-, hstmt, hfails, hname⟩ := parse_fallbacks (returnBefore ")") "f"
  obtain ⟨hfault, hrest⟩ := hfails _ _ _ hmade hstray
  exact ⟨⟨_, hparse, rfl, (parse_fallbacks (returnBefore "(") "f").1 _ _ hparse rfl⟩, ⟨hmade, hstmt _ _ hmade⟩,
    ⟨_, hstray, rfl, hfault, hrest rfl⟩, _, hnameless, hname _ _ _ _ hnameless⟩

end MiniLua
