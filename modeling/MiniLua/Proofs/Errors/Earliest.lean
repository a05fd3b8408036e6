import MiniLua.Proofs.Errors.Local
import MiniLua.Proofs.Syntax.Complete
/-!
# Errors stand at the earliest token

`parse` reports an error at the first token with which no program can go on: no accepted
sequence has the same tokens up to and with that one, but some sequence of the grammar has
the same tokens in front of it. Where it finds the input ended too early, the input starts
a sequence of the grammar. What is in the grammar is accepted once levels do not run out
(`accepted_of_derives`).
-/

namespace MiniLua

open MiniLua.Parser MiniLua.Syntax

variable {ts w x : List Token} {file : String}

/-- Accepted if only enough levels may be open at a time. -/
def AcceptedUnlimited (ts : List Token) (file : String) : Prop :=
  ∀ limit, ts.length < limit → ∃ stmts, parseWithin limit ts file = .ok stmts

/-- Nothing of the grammar is rejected for any other reason than its nesting. -/
theorem accepted_of_derives (h : Derives [.block] ts) (file : String) : AcceptedUnlimited ts file := by
  intro limit hl
  have hends := ends_program limit h
  unfold Ends at hends
  cases hp : program (.ofLevels limit) ts with
  | ok r => exact ⟨r.1, parseWithin_eq_ok.2 ⟨r.2, hp⟩⟩
  | error e =>
    -- Levels do not run out before the tokens do.
    rw [hp] at hends
    have := (takes_program (Inner.ofLevels_takes limit)).length_of_tooDeep hp hends
    omega

/-- The tokens in front of a failure start a sequence that is accepted with enough levels. -/
theorem exists_accepted_of_failure {n : Nat} {e : Failure} (h : program (.ofLevels n) ts = .error e)
    (hf : e.fault ≠ .tooDeep) (file : String) : ∃ w x, ts = w ++ e.rest ∧ AcceptedUnlimited (w ++ x) file := by
  rcases (ofLevels_program_reads n ts).error h with h | ⟨w, x, hw, hd⟩
  · exact absurd h hf
  · exact ⟨w, x, hw, accepted_of_derives hd file⟩

/-- After a failure at a token, nothing that agrees up to and with that token is accepted. -/
theorem rejected_of_failure {n m : Nat} {f : Fault} {t : Token} {r r' : List Token}
    (h : program (.ofLevels n) (w ++ t :: r) = .error ⟨f, t :: r, m⟩) (hf : f ≠ .tooDeep) (stmts : List Stmt) :
    parseWithin n (w ++ t :: r') file ≠ .ok stmts := by
  intro hok
  obtain ⟨rest, hok⟩ := parseWithin_eq_ok.1 hok
  rw [((local_program n).localAt w).error h hf r'] at hok
  cases hok

/-! ## What the cause says -/

/-- A cause that names the token found comes from a failure before a token. -/
theorem Fault.cause_names_token {f : Fault} {limit : Nat} {rest : List Token}
    (h : (∃ found, f.cause limit rest = .unexpectedToken found) ∨ ∃ wanted found, f.cause limit rest = .expectedToken wanted found) :
    f ≠ .tooDeep ∧ ∃ t r, rest = t :: r := by
  cases f <;> cases rest <;> simp [Fault.cause] at h ⊢

theorem Fault.cause_unexpectedEnd {f : Fault} {limit : Nat} {rest : List Token}
    (h : ∃ wanted, f.cause limit rest = .unexpectedEnd wanted) : f ≠ .tooDeep ∧ rest = [] := by
  cases f <;> cases rest <;> simp [Fault.cause] at h ⊢

theorem Failure.error_index {limit : Nat} {f : Fault} {rest : List Token} {n : Nat} :
    (Failure.error limit (w ++ rest) file ⟨f, rest, n⟩).index = w.length := by
  simp [Failure.error, ParseError.atIndex]

/-- An error is reported at the earliest possible token. -/
theorem parse_error_earliest (ts : List Token) (file : String) (e : ParseError) (h : parse ts file = .error e) :
    ((∃ found, e.cause = .unexpectedToken found) ∨ (∃ wanted found, e.cause = .expectedToken wanted found) →
      (∀ us file' stmts, us.take (e.index + 1) = ts.take (e.index + 1) → parse us file' ≠ .ok stmts) ∧
      ∃ more, AcceptedUnlimited (ts.take e.index ++ more) file) ∧
    ((∃ wanted, e.cause = .unexpectedEnd wanted) → ∃ more, AcceptedUnlimited (ts ++ more) file) := by
  obtain ⟨⟨f, rest, n⟩, hp, rfl⟩ := parseWithin_eq_error.1 h
  constructor
  · intro hcause
    obtain ⟨hf, t, r, rfl⟩ := Fault.cause_names_token hcause
    obtain ⟨w, x, rfl, hx⟩ := exists_accepted_of_failure hp hf file
    rw [Failure.error_index]
    refine ⟨fun us file' stmts hus => ?_, x, ?_⟩
    · -- The other sequence has the same tokens up to and with the one where the failure stands.
      have hw : (w ++ t :: r).take (w.length + 1) = w ++ [t] := by
        simp [List.take_append, List.take_of_length_le]
      have hus : us = w ++ t :: us.drop (w.length + 1) := by
        refine (List.take_append_drop (w.length + 1) us).symm.trans ?_
        rw [hus, hw]
        simp
      rw [hus]
      exact rejected_of_failure hp hf stmts
    · rwa [List.take_left]
  · intro hcause
    obtain ⟨hf, rfl⟩ := Fault.cause_unexpectedEnd hcause
    obtain ⟨w, x, rfl, hx⟩ := exists_accepted_of_failure hp hf file
    exact ⟨x, by rwa [List.append_nil]⟩

/-- Of `x = )` the first two tokens can go on, the third cannot. -/
theorem parse_error_earliest_assignment :
    ∃ e, parse [.plain .identifier "x", .plain .operator "=", .plain .symbol ")"] "f" = .error e ∧
      e.cause = .unexpectedToken "SYMBOL )" ∧
      (∀ us file' stmts, us.take 3 = [.plain .identifier "x", .plain .operator "=", .plain .symbol ")"] →
        parse us file' ≠ .ok stmts) ∧
      ∃ more, AcceptedUnlimited ([.plain .identifier "x", .plain .operator "="] ++ more) "f" := by
  have hp : program (.ofLevels maxNesting) [.plain .identifier "x", .plain .operator "=", .plain .symbol ")"] =
      .error ⟨.unexpected .statementOrExpression, [.plain .symbol ")"], 1⟩ := rfl
  have h : parse [.plain .identifier "x", .plain .operator "=", .plain .symbol ")"] "f" = _ :=
    parseWithin_eq_error.2 ⟨_, hp, rfl⟩
  exact ⟨_, h, rfl, (parse_error_earliest _ "f" _ h).1 (.inl ⟨_, rfl⟩)⟩

end MiniLua
