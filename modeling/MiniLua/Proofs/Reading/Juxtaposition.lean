import MiniLua.Proofs.Errors.Local
import MiniLua.Proofs.Reading.Ending
/-!
# Programs in a row

Statements have no separator. What a statement has read up to the end of the input it reads
the same if another statement comes next (`Extends`), a `return` without values apart, which
would take the statement for a value. Statement by statement a program therefore is read as
before if a second one is put behind it, and leaves the second one to be read as if it were
alone: it has no part in the levels or the place of an error there (`parse_append`).
-/

namespace MiniLua

namespace Parser

open MiniLua.Syntax

variable {α β : Type} {p : Parser α} {n : Nat} {ts us b : List Token} {s : Stmt}

/-! ## Reading up to other tokens -/

/-- What a parser reads it reads the same if other tokens come behind. -/
structure Extends (b : List Token) (p : Parser α) : Prop where
  append : ∀ {ts us a}, p ts = .ok (a, us) → p (ts ++ b) = .ok (a, us ++ b)

namespace Extends

theorem pure (a : α) : Extends b (Pure.pure a : Parser α) where
  append h := by
    cases h
    rfl

theorem bind {q : α → Parser β} (hp : Extends b p) (hq : ∀ a, Extends b (q a)) : Extends b (p >>= q) where
  append h := by
    obtain ⟨a, vs, ha, hc⟩ := bind_eq_ok.1 h
    exact bind_eq_ok.2 ⟨a, _, hp.append ha, (hq a).append hc⟩

theorem map {g : α → β} (hp : Extends b p) : Extends b (g <$> p) := by
  rw [map_eq_pure_bind]
  exact hp.bind fun _ => .pure _

theorem nested (hp : Extends b p) : Extends b (nested p) where
  append {ts _ _} h := (endsAs_nested p _).ok_iff.2 (hp.append ((endsAs_nested p ts).ok_iff.1 h))

theorem satisfy (wanted : Expectation) (test : Token → Bool) : Extends b (satisfy wanted test) where
  append h := by
    obtain ⟨rfl, ht⟩ := satisfy_eq_ok.1 h
    exact satisfy_eq_ok.2 ⟨rfl, ht⟩

/-- What a local parser leaves is not nothing if a token is needed behind it. -/
theorem close {q : α → Parser β} (hp : Local p) (hend : ∀ a, FailsAtEnd (q a)) (hq : ∀ a, Extends b (q a)) :
    Extends b (p >>= q) where
  append {ts us c} h := by
    obtain ⟨a, vs, ha, hc⟩ := bind_eq_ok.1 h
    cases vs with
    | nil =>
      obtain ⟨e, he, _⟩ := hend a
      rw [he] at hc
      cases hc
    | cons v vs =>
      -- It has seen the token behind what it took, so more tokens change nothing.
      obtain ⟨w, rfl⟩ := hp.takes.suffix_of_ok ha
      refine bind_eq_ok.2 ⟨a, _, ?_, (hq a).append hc⟩
      rw [List.append_assoc]
      exact (hp.localAt w).ok ha (vs ++ b)

theorem repeating {round? : Token → Option (α → Parser α)} (hp : Progressive round?) (hb : Ahead (fun t => round? t = none) b)
    (h : ∀ t round, round? t = some round → ∀ a, Extends b (round a)) (a : α) : Extends b (repeating round? a) where
  append {ts us c} hc := by
    induction a, ts using hp.induction with
    | nil a =>
      cases hc
      -- The loop has stopped at the end of the input, and it stops at `b` as well.
      cases b with
      | nil => rfl
      | cons t b => exact repeating_of_none (ahead_cons.1 hb) _ b
    | stop a t ts hr =>
      rw [repeating_of_none hr] at hc
      cases hc
      exact repeating_of_none hr _ _
    | round a t ts round hr ih =>
      rw [repeating_of_some hp hr] at hc
      rw [List.cons_append, repeating_of_some hp hr]
      obtain ⟨d, vs, hd, hc⟩ := bind_eq_ok.1 hc
      exact bind_eq_ok.2 ⟨d, _, (h t round hr a).append hd, ih d vs hd hc⟩

/-- Where another statement may come next it is like the end of the input. -/
theorem ending (hb : AfterStmt b) : Ending (fun {α} (p _ : Parser α) => Local p) fun {α} (p _ : Parser α) => Extends b p where
  weak := Local.congruence
  pure := .pure
  bind := .bind
  fail _ _ := ⟨nofun⟩
  next := ⟨fun {ts _ _} h => by
    cases ts with
    | nil => cases h
    | cons t ts =>
      cases h
      rfl⟩
  satisfy := .satisfy
  check {test} ht := ⟨fun {ts _ _} h => by
    cases h
    cases ts with
    | nil => rw [List.nil_append, check, hb.any_eq_false ht]; rfl
    | cons t ts => rfl⟩
  look _ _ _ h := ⟨fun {ts _ _} ha => by
    cases ts with
    | nil => cases ha
    | cons t ts => exact (h t).append ha⟩
  repeating {_ _ round?'} hp _ hs h := by
    refine .repeating hp (hb.mono fun t ht => by simpa using hs t ht) fun t round hr => ?_
    have ht := h t
    rw [hr] at ht
    generalize round?' t = other at ht
    cases ht with
    | some h => exact h
  close hp hend hq := .close hp (fun a => (hend a).1) hq

end Extends

/-! ## Expressions and statements -/

theorem extends_expr (hb : AfterStmt b) (n : Nat) (bound : Precedence) : Extends b ((Inner.ofLevels n).expr bound) := by
  induction n generalizing bound with
  | zero => exact ⟨nofun⟩
  | succ n ih => exact ((Extends.ending hb).climb ⟨(ofLevels_local n).agree, ih⟩ bound).nested

theorem ofLevels_agreeToEnd (hb : AfterStmt b) (n : Nat) :
    AgreeToEnd (fun {α} (p _ : Parser α) => Local p) (fun {α} (p _ : Parser α) => Extends b p) (.ofLevels n) (.ofLevels n) :=
  ⟨(ofLevels_local n).agree, extends_expr hb n⟩

section
variable (hb : AfterStmt b)
include hb

/-- A `return` with a value has looked at what comes behind the word. -/
theorem returnStmt_append (h : returnStmt (.ofLevels n) ts = .ok (s, us)) (hs : s ≠ .ret []) :
    returnStmt (.ofLevels n) (ts ++ b) = .ok (s, us ++ b) := by
  have ht := (Inner.ofLevels_takes n).zero.expr .lowest
  have hvalues : Extends b (separated ((Inner.ofLevels n).expr .lowest) >>= fun values => pure (Stmt.ret values)) :=
    ((Extends.ending hb).separated ht ht (extends_expr hb n .lowest)).bind fun _ => .pure _
  obtain ⟨t, vs, hk, h⟩ := bind_eq_ok.1 h
  refine bind_eq_ok.2 ⟨t, vs ++ b, (Extends.satisfy _ _).append hk, ?_⟩
  cases vs with
  | nil =>
    cases h
    exact absurd rfl hs
  | cons v vs =>
    cases hc : v.closesBlock with
    | true =>
      rw [check_false (by simp [hc])] at h
      cases h
      exact absurd rfl hs
    | false =>
      -- The first value has begun, so the choice is the same with `b` behind it.
      rw [check_true (by simp [hc])] at h
      rw [check_true (by simp [hc])]
      exact hvalues.append h

/-- Two tokens decide how a statement that starts with a name goes on, and it is none with one. -/
theorem nameStmt_append (h : nameStmt (.ofLevels n) ts = .ok (s, us)) : nameStmt (.ofLevels n) (ts ++ b) = .ok (s, us ++ b) := by
  match ts with
  | [] => cases h
  | [t] => cases h
  | t :: u :: ts =>
    rcases nameStmt_dispatch (.ofLevels n) u with ⟨-, hrun⟩ | ⟨-, hrun⟩ | hrun
    · rw [hrun] at h
      exact (hrun t (ts ++ b)).trans (((Extends.ending hb).assignment (ofLevels_agreeToEnd hb n)).append h)
    · rw [hrun] at h
      exact (hrun t (ts ++ b)).trans ((extends_expr hb n .lowest).map.append h)
    · rw [hrun] at h
      cases h

theorem stmt_append (h : stmt (.ofLevels n) ts = .ok (s, us)) (hs : s ≠ .ret []) :
    stmt (.ofLevels n) (ts ++ b) = .ok (s, us ++ b) := by
  cases ts with
  | nil => cases h
  | cons t ts =>
    rcases stmt_dispatch (.ofLevels n) t with ⟨_, hrun⟩ | ⟨head, hrun⟩ | hrun
    · rw [hrun] at h
      exact (hrun _).trans (nameStmt_append hb h)
    · rw [hrun] at h
      refine (hrun _).trans ?_
      by_cases hr : head = .ret
      · subst hr
        exact returnStmt_append hb h hs
      · exact ((Extends.ending hb).headed (ofLevels_agreeToEnd hb n) fun h => absurd h hr).append h
    · rw [hrun] at h
      cases h

end

/-! ## Statement by statement -/

/-- The loop of `many`, which holds the items last one first. -/
theorem repeating_items {item : Parser α} (hi : item.Takes 1 0) (test : Token → Bool) (items : List α) (ts : List Token) :
    repeating (fun t => if test t then some fun items => (· :: items) <$> item else none) items ts =
      ((fun more => more.reverse ++ items) <$> many test item) ts := by
  have hp := progressive_many hi test
  rw [many, map_eq_pure_bind, bind_assoc]
  simp only [pure_bind, List.reverse_reverse]
  -- On what is left, for any items: after a round both loops hold one more.
  generalize hR : (fun t => if test t then some fun items => (· :: items) <$> item else none) = round? at hp
  induction hn : ts.length using Nat.strongRecOn generalizing items ts with
  | ind n ih =>
    cases ts with
    | nil => rfl
    | cons t ts =>
      by_cases ht : test t
      · have hround : ∀ items, repeating round? items (t :: ts) = (item >>= fun a => repeating round? (a :: items)) (t :: ts) := by
          intro items
          rw [repeating_of_some hp (by rw [← hR]; exact if_pos ht), bind_map_left]
        rw [hround, bind_run, bind_run, hround, bind_run]
        cases hitem : item (t :: ts) with
        | error e => rfl
        | ok r =>
          have := hi.length_of_ok hitem
          simp only
          rw [ih r.2.length (by omega) (r.1 :: items) r.2 rfl, ih r.2.length (by omega) [r.1] r.2 rfl, bind_run, bind_run]
          cases repeating round? [] r.2 with
          | error e => rfl
          | ok r' => simp
      · have hnone : round? t = none := by rw [← hR]; exact if_neg ht
        rw [bind_run, repeating_of_none hnone, repeating_of_none hnone]
        rfl

/-- The statements that a program is read into, last one first, are there before those behind it. -/
theorem statements_append (hb : AfterStmt b) {items items' : List Stmt} {test : Token → Bool}
    (h : repeating (fun t => if test t then some fun items => (· :: items) <$> stmt (.ofLevels n) else none) items ts = .ok (items', []))
    (hs : items'.head? ≠ some (.ret [])) :
    repeating (fun t => if test t then some fun items => (· :: items) <$> stmt (.ofLevels n) else none) items (ts ++ b) =
      repeating (fun t => if test t then some fun items => (· :: items) <$> stmt (.ofLevels n) else none) items' b := by
  have hi := takes_stmt (Inner.ofLevels_takes n).zero
  have hp := progressive_many hi test
  induction items, ts using hp.induction with
  | nil items =>
    cases h
    rfl
  | stop items t ts hr =>
    rw [repeating_of_none hr] at h
    cases h
  | round items t ts round hr ih =>
    obtain ⟨-, hround⟩ := Option.ite_none_right_eq_some.1 hr
    cases hround
    rw [repeating_of_some hp hr, bind_map_left] at h
    obtain ⟨s, us, hstmt, h⟩ := bind_eq_ok.1 h
    have hnext : stmt (.ofLevels n) (t :: ts ++ b) = .ok (s, us ++ b) := by
      cases us with
      | nil =>
        -- The last statement, which is no bare `return`.
        cases h
        exact stmt_append hb hstmt fun hr => hs (congrArg some hr)
      | cons u us =>
        obtain ⟨w, hw⟩ := hi.suffix_of_ok hstmt
        rw [← hw] at hstmt ⊢
        rw [List.append_assoc]
        exact ((local_stmt (ofLevels_local n)).localAt w).ok hstmt (us ++ b)
    rw [List.cons_append] at hnext ⊢
    rw [repeating_of_some hp hr, bind_map_left, bind_run, hnext]
    exact ih (s :: items) us (bind_eq_ok.2 ⟨s, us, hstmt, rfl⟩) h

/-- Behind a program that does not end with a bare `return` another one is read as if it were alone. -/
theorem program_append (hb : AfterStmt b) {ss : List Stmt} (h : program (.ofLevels n) ts = .ok (ss, []))
    (hs : ss.getLast? ≠ some (.ret [])) : program (.ofLevels n) (ts ++ b) = ((ss ++ ·) <$> program (.ofLevels n)) b := by
  have hi := takes_stmt (Inner.ofLevels_takes n).zero
  obtain ⟨items, _, hloop, he⟩ := bind_eq_ok.1 h
  cases he
  rw [List.getLast?_reverse] at hs
  conv =>
    lhs
    rw [program, many, bind_run, statements_append hb hloop hs, repeating_items hi, map_eq_pure_bind, bind_run]
  rw [map_eq_pure_bind, bind_run, program]
  cases many (fun _ => true) (stmt (.ofLevels n)) b with
  | error e => rfl
  | ok r => simp

end Parser

/-! ## Programs -/

open MiniLua.Parser MiniLua.Syntax

/-- A name, or a keyword that a statement starts with. -/
def StartsStmt (t : Token) : Prop := t.kind = .identifier ∨ (t.kind = .keyword ∧ (StmtHead.ofText? t.value).isSome)

theorem StartsStmt.separates {t : Token} (h : StartsStmt t) : Separates t := by
  refine h.imp_right fun ⟨hk, hv⟩ => ⟨hk, ?_⟩
  generalize t.value = text at hv
  unfold StmtHead.ofText? at hv
  split at hv <;> first | rfl | cases hv

/-- A program and one behind it are read as the statements of both, or fail as the second does
alone. The first one must not end with a bare `return`, and the second one start a statement. -/
theorem parse_append {a b : List Token} {p : List Stmt} {file : String} (ha : parse a file = .ok p)
    (hp : p.getLast? ≠ some (.ret [])) (hb : ∀ t, b.head? = some t → StartsStmt t) (file' file'' : String) :
    (∀ q, parse b file' = .ok q → parse (a ++ b) file'' = .ok (p ++ q)) ∧
    ∀ e, parse b file' = .error e →
      ∃ e', parse (a ++ b) file'' = .error e' ∧ e'.cause = e.cause ∧ e'.index = a.length + e.index := by
  obtain ⟨rest, hrun⟩ := parseWithin_eq_ok.1 ha
  obtain rfl := program_rest (Inner.ofLevels_takes maxNesting).zero hrun
  have hafter : AfterStmt b := by
    rintro t us rfl
    exact (hb t rfl).separates
  have happend := program_append hafter hrun hp
  rw [map_eq_pure_bind, bind_run] at happend
  constructor
  · intro q hq
    obtain ⟨rest, hq⟩ := parseWithin_eq_ok.1 hq
    rw [hq] at happend
    exact parseWithin_eq_ok.2 ⟨rest, happend⟩
  · intro e he
    obtain ⟨failure, hf, rfl⟩ := parseWithin_eq_error.1 he
    -- An index is counted from what is left, so what is left must not be longer than `b`.
    have hle := ((takes_program (Inner.ofLevels_takes maxNesting)).suffix_of_error hf).length_le
    rw [hf] at happend
    refine ⟨_, parseWithin_eq_error.2 ⟨failure, happend, rfl⟩, rfl, ?_⟩
    simp only [Failure.error, ParseError.atIndex, List.length_append]
    omega

/-- Behind `local x`, of which a value could follow, `y = )` fails at its third token. -/
theorem parse_append_local :
    ∃ e, parse ([.plain .keyword "local", .plain .identifier "x"] ++
        [.plain .identifier "y", .plain .operator "=", .plain .symbol ")"]) "f" = .error e ∧
      e.cause = .unexpectedToken "SYMBOL )" ∧ e.index = 2 + 2 := by
  have ha : parse [.plain .keyword "local", .plain .identifier "x"] "f" = .ok [.localVar "x" none] :=
    parseWithin_eq_ok.2 ⟨[], rfl⟩
  have hrun : program (.ofLevels maxNesting) [.plain .identifier "y", .plain .operator "=", .plain .symbol ")"] =
      .error ⟨.unexpected .statementOrExpression, [.plain .symbol ")"], 1⟩ := rfl
  have hb : parse [.plain .identifier "y", .plain .operator "=", .plain .symbol ")"] "f" = _ :=
    parseWithin_eq_error.2 ⟨_, hrun, rfl⟩
  exact (parse_append ha (by simp) (by rintro t ⟨⟩; exact .inl rfl) "f" "f").2 _ hb

end MiniLua
