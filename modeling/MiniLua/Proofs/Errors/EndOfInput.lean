import MiniLua.Proofs.Errors.Earliest
import MiniLua.Proofs.Reading.Ending
/-!
# Errors at the end of the input

An error stands behind the last token exactly if the input ended too early, but for one case:
where an expression or a block would begin there and no level is left for it, `parse` says so
instead. That the input ends too early in this case as well shows once more levels are allowed:
wherever a run with fewer levels runs out of them at the end of the input, one with more
levels fails there too (`Follows`).

A block may end with the input, so for blocks it is only true that the run with more levels gets
to the end. In every statement with a block something has to come behind it.
-/

namespace MiniLua

namespace Parser

variable {α β : Type} {lax : Prop} {p q : Parser α} {inner inner' : Inner} {m n : Nat} {ts : List Token}

/-! ## Runs to the end -/

/-- A run has got to the end of the input. Unless that is let pass, it fails there. -/
def AtEnd (lax : Prop) : Except Failure (α × List Token) → Prop
  | .ok (_, rest) => lax ∧ rest = []
  | .error e => e.rest = []

theorem AtEnd.mono {lax' : Prop} {r : Except Failure (α × List Token)} (h : AtEnd lax r) (hl : lax → lax') : AtEnd lax' r := by
  cases r with
  | ok r => exact h.imp_left hl
  | error e => exact h

/-- At the end of the input a parser stays there. -/
theorem Takes.atEnd {c k : Nat} (h : q.Takes c k) : AtEnd True (q []) := by
  cases hq : q [] with
  | ok r => exact ⟨trivial, List.suffix_nil.1 (h.suffix_of_ok hq)⟩
  | error e => exact List.suffix_nil.1 (h.suffix_of_error hq)

theorem FailsAtEnd.atEnd (h : FailsAtEnd q) : AtEnd lax (q []) := by
  obtain ⟨e, hq, he⟩ := h
  rw [hq]
  exact he

theorem AtEnd.bind {lax' : Prop} {g : α → Parser β} (h : AtEnd lax' (q ts)) (hg : lax' → ∀ a, AtEnd lax (g a [])) :
    AtEnd lax ((q >>= g) ts) := by
  rw [bind_run]
  cases hq : q ts with
  | ok r =>
    rw [hq] at h
    obtain ⟨hl, hr⟩ := h
    simp only [hr]
    exact hg hl r.1
  | error e => rwa [hq] at h

/-- Below another parser, which gets to the end of the input where this one runs out of levels there. -/
structure Follows (lax : Prop) {α : Type} (p q : Parser α) : Prop where
  below : Below True p q
  takes : q.Takes 0 0
  atEnd : ∀ {ts}, RunsOutAt p ts [] → AtEnd lax (q ts)

namespace Follows

theorem weaken (h : Follows False p q) : Follows True p q :=
  ⟨h.below, h.takes, fun hrun => (h.atEnd hrun).mono False.elim⟩

/-- What nests nothing runs out of nothing. -/
theorem refl (h : ∀ k, p.Takes 0 k) : Follows lax p p where
  below := .refl p
  takes := h 0
  atEnd {ts} hr := by
    obtain ⟨n, hr⟩ := hr
    have := (h (ts.length + 1)).length_of_tooDeep hr rfl
    simp only [List.length_nil] at this
    omega

/-- Where the first parser does not run out of levels itself, the second one has to follow. -/
theorem bind_of {p' : Parser α} {f f' : α → Parser β} (hp : Below True p p') (ht : p'.Takes 0 0)
    (hf : ∀ a, Follows lax (f a) (f' a)) (hends : ∀ {ts}, RunsOutAt p ts [] → AtEnd lax ((p' >>= f') ts)) :
    Follows lax (p >>= f) (p' >>= f') where
  below := hp.bind fun a => (hf a).below
  takes := ht.bind fun a => (hf a).takes
  atEnd {ts} hrun := by
    obtain ⟨n, hrun⟩ := hrun
    rcases bind_eq_error.1 hrun with hrun | ⟨a, us, ha, hrun⟩
    · exact hends ⟨n, hrun⟩
    · rw [bind_run, hp.ok ha]
      exact (hf a).atEnd ⟨n, hrun⟩

theorem bind {p' : Parser α} {f f' : α → Parser β} (hp : Follows lax p p') (hf : ∀ a, Follows lax (f a) (f' a)) :
    Follows lax (p >>= f) (p' >>= f') := by
  apply bind_of hp.below hp.takes hf
  intro ts hrun
  -- If the second parser comes to run at all, it is at the end and stays there.
  exact (hp.atEnd hrun).bind fun hl a => (hf a).takes.atEnd.mono fun _ => hl

/-- What should come behind a block is missing at the end of the input. -/
theorem close {p' : Parser α} {f f' : α → Parser β} (hp : Follows True p p') (hend : ∀ a, FailsAtEnd (f' a))
    (hf : ∀ a, Follows False (f a) (f' a)) : Follows False (p >>= f) (p' >>= f') := by
  apply bind_of hp.below hp.takes hf
  intro ts hrun
  exact (hp.atEnd hrun).bind fun _ a => (hend a).atEnd

theorem look {wanted : Expectation} {go go' : Token → Parser α} (h : ∀ t, Follows lax (go t) (go' t)) :
    Follows lax (look wanted go) (look wanted go') where
  below := (Below.congruence True).look wanted fun t => (h t).below
  takes := .look fun t => (h t).takes
  atEnd {ts} hrun := by
    cases ts with
    | nil =>
      obtain ⟨n, hrun⟩ := hrun
      cases hrun
    | cons t ts => exact (h t).atEnd hrun

theorem repeating {round? round?' : Token → Option (α → Parser α)} (hp : Progressive round?) (hp' : Progressive round?')
    (h : ∀ t, Option.Rel (fun r r' => ∀ a, Follows lax (r a) (r' a)) (round? t) (round?' t)) (a : α) :
    Follows lax (Parser.repeating round? a) (Parser.repeating round?' a) where
  below := by
    refine (Below.congruence True).repeating hp hp' (fun t => ?_) a
    have ht := h t
    generalize round? t = r, round?' t = r' at ht
    cases ht with
    | some ht => exact .some fun a => (ht a).below
    | none => exact .none
  takes := .repeating (c := 1) hp' a
  atEnd {ts} hrun := by
    obtain ⟨n, hrun⟩ := hrun
    induction a, ts using hp.induction with
    | nil a => cases hrun
    | stop a t ts hr =>
      rw [repeating_of_none hr] at hrun
      cases hrun
    | round a t ts round hr ih =>
      have ht := h t
      rw [hr] at ht
      generalize hr' : round?' t = r' at ht
      cases ht with
      | some ht =>
        rw [repeating_of_some hp hr] at hrun
        rw [repeating_of_some hp' hr']
        rcases bind_eq_error.1 hrun with hrun | ⟨b, us, hb, hrun⟩
        · -- This round is at the end, and so is the loop if the round is over.
          exact ((ht a).atEnd ⟨n, hrun⟩).bind fun hlax b => ⟨hlax, rfl⟩
        · rw [bind_run, (ht a).below.ok hb]
          exact ih b us hb hrun

theorem choice {test : List Token → Bool} {p' q' : Parser α} (hp : Follows lax p p') (hq : Follows lax q q') :
    Follows lax (fun ts => if test ts then p ts else q ts) (fun ts => if test ts then p' ts else q' ts) where
  below := .choice hp.below hq.below
  takes := .choice hp.takes hq.takes
  atEnd {ts} hrun := by
    simp only [RunsOutAt] at hrun
    cases ht : test ts with
    | true =>
      rw [ht, if_pos rfl] at hrun
      exact hp.atEnd hrun
    | false =>
      rw [ht, if_neg nofun] at hrun
      simpa using hq.atEnd hrun

theorem nested (h : Follows lax p q) : Follows lax (nested p) (nested q) where
  below := h.below.nested
  takes := h.takes.nested
  atEnd {ts} hrun := by
    obtain ⟨n, hrun⟩ := hrun
    have hp : RunsOutAt p ts [] := by
      unfold Parser.nested at hrun
      cases hp : p ts with
      | ok r =>
        rw [hp] at hrun
        cases hrun
      | error e =>
        rw [hp] at hrun
        obtain ⟨f, rest, levels⟩ := e
        cases hrun
        exact ⟨levels, hp⟩
    have hq := h.atEnd hp
    unfold Parser.nested
    cases hq' : q ts <;> rwa [hq'] at hq

theorem congruence (lax : Prop) : Congruence (@Follows lax) where
  pure a := .refl fun _ => takes_pure a
  bind := .bind
  fail _ hf := .refl fun _ => takes_fail hf
  next := .refl fun _ => takes_next.of_le (Nat.zero_le 1) (Nat.le_refl _)
  satisfy wanted test := .refl fun _ => (takes_satisfy wanted test).of_le (Nat.zero_le 1) (Nat.le_refl _)
  check test := .refl fun _ => takes_check test
  look _ _ _ := .look
  repeating := .repeating

theorem ending : Ending (@Follows True) (@Follows False) where
  weak := congruence True
  pure := (congruence False).pure
  bind := .bind
  fail := (congruence False).fail
  next := (congruence False).next
  satisfy := (congruence False).satisfy
  check _ := (congruence False).check _
  look _ _ _ := .look
  repeating hp hp' _ := .repeating hp hp'
  close hp hend hf := .close hp (fun a => (hend a).2) hf

end Follows

/-! ## Expressions and statements -/

theorem Follows.agree (ht : inner.Takes 0) (ht' : inner'.Takes 0)
    (he : ∀ bound, Follows True (inner.expr bound) (inner'.expr bound)) (ha : Follows True inner.argument inner'.argument)
    (hb : Follows True inner.block inner'.block) : Agree (@Follows True) inner inner' where
  takes := ht
  takes' := ht'
  expr := he
  argument := ha
  block := hb
  field fields := by
    have hR := Follows.congruence True
    unfold Parser.field
    apply Follows.choice
    · exact hR.bind hR.next fun _ => hR.bind hR.next fun _ => hR.bind (he _) fun _ => hR.pure _
    · exact hR.bind (he _) fun _ => hR.pure _

theorem Follows.nameStmt (h : Agree (@Below True) inner inner')
    (he : Follows lax (inner.expr .lowest) (inner'.expr .lowest)) : Follows lax (nameStmt inner) (nameStmt inner') where
  below := Below.nameStmt h
  takes := (takes_nameStmt h.takes').of_le (Nat.zero_le 1) (Nat.le_refl 0)
  atEnd {ts} hrun := by
    have hR := Follows.congruence lax
    have hassign : Follows lax (assignment inner) (assignment inner') :=
      hR.bind hR.name fun _ => hR.bind (hR.operator _) fun _ => hR.bind he fun _ => hR.pure _
    obtain ⟨n, hrun⟩ := hrun
    match ts with
    | [] => cases hrun
    | [t] => cases hrun
    | t :: u :: us =>
      -- The second token decides, and it is the same one for both.
      rw [Parser.nameStmt] at hrun ⊢
      split
      · next hu =>
        rw [if_pos hu] at hrun
        exact hassign.atEnd ⟨n, hrun⟩
      · next hu =>
        rw [if_neg hu] at hrun
        split
        · next hc =>
          rw [if_pos hc] at hrun
          exact (hR.map _ he).atEnd ⟨n, hrun⟩
        · next hc =>
          rw [if_neg hc] at hrun
          cases hrun

theorem Follows.stmt (h : AgreeToEnd (@Follows True) (@Follows False) inner inner') :
    Follows False (stmt inner) (stmt inner') := by
  have hR := Follows.congruence False
  have hbelow : Agree (@Below True) inner inner' := .of_below h.weak.takes h.weak.takes' (fun bound => (h.expr bound).below)
    h.weak.argument.below h.weak.block.below
  refine Follows.ending.stmt h ?_ (.nameStmt hbelow (h.expr _))
  unfold returnStmt
  refine hR.bind (hR.keyword _) fun _ => hR.bind (hR.check _) fun _ => hR.ite ?_ (hR.pure _)
  exact hR.bind (hR.separated (h.weak.takes.expr _) (h.weak.takes'.expr _) (h.expr _)) fun _ => hR.pure _

/-! ## Levels -/

/-- Without a level left, levels run out at the end of the input only for what begins there. -/
theorem follows_tooDeep (ht : q.Takes 0 0) (hend : AtEnd lax (q [])) : Follows lax (fail .tooDeep) q where
  below := below_of_tooDeep q
  takes := ht
  atEnd {ts} hrun := by
    obtain ⟨n, hrun⟩ := hrun
    cases hrun
    exact hend

theorem ofLevels_follows (h : n ≤ m) : AgreeToEnd (@Follows True) (@Follows False) (.ofLevels n) (.ofLevels m) := by
  have hof : ∀ {n m}, (∀ bound, Follows False ((Inner.ofLevels n).expr bound) ((Inner.ofLevels m).expr bound)) →
      Follows True (Inner.ofLevels n).block (Inner.ofLevels m).block →
      AgreeToEnd (@Follows True) (@Follows False) (.ofLevels n) (.ofLevels m) := by
    intro n m he hb
    have hprimary : Follows True primary primary := .refl fun _ => takes_primary.of_le (Nat.zero_le 1) (Nat.le_refl _)
    have hargument : Follows True (argument ((Inner.ofLevels n).expr .lowest)) (argument ((Inner.ofLevels m).expr .lowest)) :=
      .choice hprimary (he .lowest).weaken
    refine ⟨Follows.agree (Inner.ofLevels_takes n).zero (Inner.ofLevels_takes m).zero (fun bound => (he bound).weaken) ?_ hb, he⟩
    cases n <;> cases m <;> exact hargument
  induction n generalizing m with
  | zero =>
    have ht := (Inner.ofLevels_takes m).zero
    apply hof
    · -- An expression needs a token, which is missing.
      intro bound
      apply follows_tooDeep ((ht.expr bound).of_le (Nat.zero_le 1) (Nat.le_refl 0))
      exact (ht.expr bound).failsAtEnd.atEnd
    · -- A block does not.
      exact follows_tooDeep ht.block ht.block.atEnd
  | succ n ih =>
    obtain ⟨m, rfl⟩ := Nat.exists_eq_add_one_of_ne_zero (Nat.ne_zero_of_lt h)
    have hinner := ih (Nat.le_of_succ_le_succ h)
    apply hof
    · intro bound
      exact (Follows.ending.climb hinner bound).nested
    · have hblock := (Follows.congruence True).block hinner.weak (Follows.stmt hinner).weaken
      exact hblock.nested

/-- A program that lacks an expression or the end of a block where levels run out at the end of
the input lacks it with more levels as well. -/
theorem program_follows (h : n ≤ m) : Follows False (program (.ofLevels n)) (program (.ofLevels m)) := by
  apply (Follows.congruence False).many
  · exact takes_stmt (Inner.ofLevels_takes n).zero
  · exact takes_stmt (Inner.ofLevels_takes m).zero
  · exact Follows.stmt (ofLevels_follows h)

end Parser

open MiniLua.Parser

variable {ts : List Token} {n limit : Nat}

/-! ## Programs -/

theorem Fault.cause_nil {f : Fault} (hf : f ≠ .tooDeep) (limit : Nat) : ∃ wanted, f.cause limit [] = .unexpectedEnd wanted := by
  cases f with
  | tooDeep => exact absurd rfl hf
  | _ => exact ⟨_, rfl⟩

theorem length_of_runsOutAt (h : RunsOutAt (program (.ofLevels n)) ts []) : n ≤ ts.length := by
  obtain ⟨k, h⟩ := h
  simpa using (takes_program (Inner.ofLevels_takes n)).length_of_tooDeep h rfl

/-- What runs out of levels at the end of the input ends too early, as shows with more levels. -/
theorem unexpectedEnd_of_runsOutAt (h : RunsOutAt (program (.ofLevels n)) ts []) (hl : ts.length < limit) (file : String) :
    ∃ e wanted, parseWithin limit ts file = .error e ∧ e.cause = .unexpectedEnd wanted ∧ e.index = ts.length := by
  have hle : n ≤ limit := Nat.le_of_lt (Nat.lt_of_le_of_lt (length_of_runsOutAt h) hl)
  have hend := (program_follows hle).atEnd h
  cases hp : program (.ofLevels limit) ts with
  | ok r =>
    rw [hp] at hend
    exact hend.1.elim
  | error e =>
    rw [hp] at hend
    obtain ⟨f, rest, k⟩ := e
    obtain rfl : rest = [] := hend
    -- With more levels than there are tokens they do not run out.
    have hf : f ≠ .tooDeep := by
      rintro rfl
      have := length_of_runsOutAt ⟨k, hp⟩
      omega
    obtain ⟨wanted, hw⟩ := Fault.cause_nil hf limit
    exact ⟨_, wanted, parseWithin_eq_error.2 ⟨_, hp, rfl⟩, hw, rfl⟩

/-- An error past the last token says that the input ended too early, unless the nesting is too
deep there. Then too the input ended too early, as is reported if nothing limits the nesting. -/
theorem parse_error_past_end (ts : List Token) (file : String) (e : ParseError) (h : parse ts file = .error e) :
    ((∃ wanted, e.cause = .unexpectedEnd wanted) → e.index = ts.length) ∧
    (e.index = ts.length → (∃ wanted, e.cause = .unexpectedEnd wanted) ∨
      (e.cause = .nestingTooDeep maxNesting ∧ maxNesting ≤ ts.length ∧ ∀ limit, ts.length < limit →
        ∃ e' wanted, parseWithin limit ts file = .error e' ∧ e'.cause = .unexpectedEnd wanted ∧ e'.index = ts.length)) := by
  obtain ⟨⟨f, rest, k⟩, hp, rfl⟩ := parseWithin_eq_error.1 h
  obtain ⟨w, rfl⟩ := (takes_program (Inner.ofLevels_takes maxNesting)).suffix_of_error hp
  rw [Failure.error_index]
  constructor
  · intro hcause
    obtain ⟨-, rfl⟩ := Fault.cause_unexpectedEnd hcause
    rw [List.append_nil]
  · intro hindex
    obtain rfl : rest = [] := by simpa using hindex
    by_cases hf : f = .tooDeep
    · subst hf
      have hrun : RunsOutAt (program (.ofLevels maxNesting)) (w ++ []) [] := ⟨k, hp⟩
      exact .inr ⟨rfl, length_of_runsOutAt hrun, fun limit hl => unexpectedEnd_of_runsOutAt hrun hl file⟩
    · exact .inl (Fault.cause_nil hf maxNesting)

/-- Behind `return (` an expression is missing. -/
theorem parse_error_past_end_group :
    ∃ e, parse [.plain .keyword "return", .plain .symbol "("] "f" = .error e ∧ e.index = 2 ∧
      e.cause = .unexpectedEnd "an expression" := by
  have hp : program (.ofLevels maxNesting) [.plain .keyword "return", .plain .symbol "("] =
      .error ⟨.unexpected .expression, [], 2⟩ := rfl
  have h : parse [.plain .keyword "return", .plain .symbol "("] "f" = _ := parseWithin_eq_error.2 ⟨_, hp, rfl⟩
  exact ⟨_, h, (parse_error_past_end _ "f" _ h).1 ⟨_, rfl⟩, rfl⟩

/-! ## Where both are missing -/

theorem expr_groups (n : Nat) : RunsOutAt ((Inner.ofLevels n).expr .lowest) (List.replicate n (.plain .symbol "(")) [] := by
  induction n with
  | zero => exact .fail []
  | succ n ih =>
    rw [List.replicate_succ]
    apply RunsOutAt.nested
    apply RunsOutAt.bind
    refine .of_eq (operand_group rfl _) ?_
    apply RunsOutAt.bind
    exact .after (symbol_eq_ok.2 ⟨rfl, rfl⟩) ih.bind

/-- After as many parentheses as there are levels both a level and an expression are missing. -/
theorem program_groups (n : Nat) :
    RunsOutAt (program (.ofLevels (n + 1))) (.plain .keyword "return" :: List.replicate (n + 1) (.plain .symbol "(")) [] := by
  refine .many (takes_stmt (Inner.ofLevels_takes (n + 1)).zero) rfl (.of_eq (stmt_of_keyword (isKeyword_iff.2 ⟨rfl, rfl⟩) rfl _) ?_)
  refine .after (keyword_eq_ok.2 ⟨rfl, rfl⟩) (.of_eq (check_true rfl) ?_)
  exact (RunsOutAt.bind (expr_groups (n + 1))).bind

theorem parseWithin_groups (n : Nat) (file : String) :
    ∃ e, parseWithin (n + 1) (.plain .keyword "return" :: List.replicate (n + 1) (.plain .symbol "(")) file = .error e ∧
      e.index = n + 2 ∧ e.cause = .nestingTooDeep (n + 1) := by
  obtain ⟨k, h⟩ := program_groups n
  refine ⟨_, parseWithin_eq_error.2 ⟨_, h, rfl⟩, ?_, rfl⟩
  simp [Failure.error, ParseError.atIndex]

/-- The error is at the end of the input, but is said to be one of nesting. -/
theorem parse_groups :
    ∃ e, parse (.plain .keyword "return" :: List.replicate maxNesting (.plain .symbol "(")) "f" = .error e ∧
      e.index = (.plain .keyword "return" :: List.replicate maxNesting (.plain .symbol "(") : List Token).length ∧
      ¬ ∃ wanted, e.cause = .unexpectedEnd wanted := by
  obtain ⟨e, he, hindex, hcause⟩ := parseWithin_groups 127 "f"
  refine ⟨e, he, ?_, ?_⟩
  · rw [hindex, List.length_cons, List.length_replicate, maxNesting]
  · rintro ⟨wanted, hw⟩
    rw [hcause] at hw
    cases hw

end MiniLua
