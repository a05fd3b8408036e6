import MiniLua.Proofs.Reading.Levels
import MiniLua.Proofs.Reading.Lookahead
/-!
# Nothing behind the next token matters

A production that stops before a token has not looked behind it: whatever comes there,
it stops at the same place in the same way (`Local`). An argument, a field and a statement
that starts with a name do look at a second token, but only if the first is one that they
take in any case.

The exception are failures for want of levels: an expression may open a level at a name
that a second look would have read without.
-/

namespace MiniLua.Parser

variable {α β : Type} {p : Parser α} {q : α → Parser β} {w ts : List Token} {t : Token}

/-- After `w`, an end before a token is the same whatever comes behind the token. -/
structure LocalAt (p : Parser α) (w : List Token) : Prop where
  ok : ∀ {t r a}, p (w ++ t :: r) = .ok (a, t :: r) → ∀ r', p (w ++ t :: r') = .ok (a, t :: r')
  error : ∀ {t r f n}, p (w ++ t :: r) = .error ⟨f, t :: r, n⟩ → f ≠ .tooDeep →
    ∀ r', p (w ++ t :: r') = .error ⟨f, t :: r', n⟩

structure Local (p : Parser α) : Prop where
  takes : p.Takes 0 0
  localAt : ∀ w, LocalAt p w

/-- What the parser does for each token behind `w` may be what another one does, by the token. -/
theorem LocalAt.of_eq (h : ∀ t, ∃ p', LocalAt p' w ∧ ∀ r, p (w ++ t :: r) = p' (w ++ t :: r)) : LocalAt p w where
  ok {t r a} hok r' := by
    obtain ⟨p', hp', heq⟩ := h t
    rw [heq] at hok ⊢
    exact hp'.ok hok r'
  error {t r f n} herr hf r' := by
    obtain ⟨p', hp', heq⟩ := h t
    rw [heq] at herr ⊢
    exact hp'.error herr hf r'

/-- The same by the first token of all, which is one of `w` or the one behind it. -/
theorem LocalAt.of_head (h : ∀ u, ∃ p', LocalAt p' w ∧ ∀ us, p (u :: us) = p' (u :: us)) : LocalAt p w := by
  refine .of_eq fun t => ?_
  cases w with
  | nil => exact h t
  | cons u w => exact (h u).imp fun p' hp' => ⟨hp'.1, fun r => hp'.2 _⟩

/-! ## Combinators -/

/-- An end further to the front is the same as well. -/
theorem Local.ok_append (hp : Local p) {w₁ w₂ r : List Token} {a : α} (h : p (w₁ ++ w₂ ++ t :: r) = .ok (a, w₂ ++ t :: r))
    (r' : List Token) : p (w₁ ++ w₂ ++ t :: r') = .ok (a, w₂ ++ t :: r') := by
  cases w₂ with
  | nil =>
    rw [List.append_nil] at h ⊢
    exact (hp.localAt w₁).ok h r'
  | cons u w₂ =>
    rw [List.append_assoc] at h ⊢
    exact (hp.localAt w₁).ok h (w₂ ++ t :: r')

/-- Two ends of one list, the shorter of which is left. -/
theorem exists_split_of_suffix {us r : List Token} (h : us <:+ w ++ r) (h' : r <:+ us) :
    ∃ w₁ w₂, w = w₁ ++ w₂ ∧ us = w₂ ++ r := by
  obtain ⟨w₁, hw⟩ := h
  obtain ⟨w₂, rfl⟩ := h'
  rw [← List.append_assoc] at hw
  exact ⟨w₁, w₂, (List.append_cancel_right hw).symm, rfl⟩

theorem LocalAt.bind (hp : Local p) (ht : ∀ a, (q a).Takes 0 0)
    (hq : ∀ a w₁ w₂ t r, w = w₁ ++ w₂ → p (w ++ t :: r) = .ok (a, w₂ ++ t :: r) → LocalAt (q a) w₂) :
    LocalAt (p >>= q) w where
  ok {t r b} h r' := by
    obtain ⟨a, us, ha, hb⟩ := bind_eq_ok.1 h
    obtain ⟨w₁, w₂, rfl, rfl⟩ := exists_split_of_suffix (hp.takes.suffix_of_ok ha) ((ht a).suffix_of_ok hb)
    exact bind_eq_ok.2 ⟨a, _, hp.ok_append ha r', (hq a w₁ w₂ t r rfl ha).ok hb r'⟩
  error {t r f n} h hf r' := by
    rcases bind_eq_error.1 h with h | ⟨a, us, ha, hb⟩
    · exact bind_eq_error.2 (.inl ((hp.localAt w).error h hf r'))
    · obtain ⟨w₁, w₂, rfl, rfl⟩ := exists_split_of_suffix (hp.takes.suffix_of_ok ha) ((ht a).suffix_of_error hb)
      exact bind_eq_error.2 (.inr ⟨a, _, hp.ok_append ha r', (hq a w₁ w₂ t r rfl ha).error hb hf r'⟩)

theorem Local.bind (hp : Local p) (hq : ∀ a, Local (q a)) : Local (p >>= q) where
  takes := hp.takes.bind fun a => (hq a).takes
  localAt _ := .bind hp (fun a => (hq a).takes) fun a _ w₂ _ _ _ _ => (hq a).localAt w₂

theorem local_pure (a : α) : Local (pure a : Parser α) where
  takes := takes_pure a
  localAt w := by
    refine ⟨fun {t r b} h r' => ?_, nofun⟩
    obtain ⟨rfl, hw⟩ := Prod.mk.inj (Except.ok.inj h)
    obtain rfl : w = [] := by simpa using hw
    rfl

theorem local_fail (fault : Fault) (hf : fault ≠ .tooDeep) : Local (fail fault : Parser α) where
  takes := takes_fail hf
  localAt w := by
    refine ⟨nofun, fun {t r f n} h _ r' => ?_⟩
    injection h with h
    injection h with hf hw hn
    obtain rfl : w = [] := by simpa using hw
    rw [← hf, ← hn]
    rfl

theorem local_next : Local next where
  takes := takes_next.of_le (Nat.zero_le _) (Nat.le_refl _)
  localAt w := by
    cases w with
    | nil =>
      refine ⟨fun {t r a} h => ?_, fun {t r f n} h => ?_⟩
      · exact absurd h ((takes_next (k := 0)).ne_ok_self a)
      · cases h
    | cons u w =>
      refine ⟨fun {t r a} h r' => ?_, nofun⟩
      obtain ⟨rfl, hw⟩ := Prod.mk.inj (Except.ok.inj h)
      obtain rfl : w = [] := by simpa using hw
      rfl

theorem local_satisfy (wanted : Expectation) (test : Token → Bool) : Local (satisfy wanted test) where
  takes := (takes_satisfy wanted test).of_le (Nat.zero_le _) (Nat.le_refl _)
  localAt w := by
    refine .of_head fun u => ?_
    by_cases hu : test u
    · exact ⟨next, local_next.localAt w, fun us => if_pos hu⟩
    · exact ⟨fail (.expected wanted), (local_fail (.expected wanted) nofun).localAt w, fun us => if_neg hu⟩

theorem local_check (test : Token → Bool) : Local (check test) where
  takes := takes_check test
  localAt w := .of_head fun u => ⟨pure (test u), (local_pure _).localAt w, fun _ => rfl⟩

theorem local_look {wanted : Expectation} {go : Token → Parser α} (h : ∀ t, Local (go t)) : Local (look wanted go) where
  takes := .look fun t => (h t).takes
  localAt w := .of_head fun u => ⟨go u, (h u).localAt w, fun _ => rfl⟩

theorem local_repeating {round? : Token → Option (α → Parser α)} (hp : Progressive round?)
    (h : ∀ t round, round? t = some round → ∀ a, Local (round a)) (a : α) : Local (repeating round? a) where
  takes := .repeating (c := 1) hp a
  localAt w := by
    have ht : ∀ a, (repeating round? a).Takes 0 0 := fun a => .repeating (c := 1) hp a
    induction hn : w.length using Nat.strongRecOn generalizing w a with
    | ind n ih =>
      -- The first token decides whether there is a round.
      refine .of_head fun u => ?_
      cases hr : round? u with
      | none => exact ⟨pure a, (local_pure a).localAt w, fun us => repeating_of_none hr a us⟩
      | some round =>
        -- The round is local, and behind it less than `w` is left.
        refine ⟨round a >>= repeating round?, ?_, fun us => repeating_of_some hp hr a us⟩
        refine .bind (h u round hr a) ht fun b w₁ w₂ t r hw hb => ih w₂.length ?_ b w₂ rfl
        have := (hp u round hr a).length_of_ok hb
        simp only [List.length_append, List.length_cons] at this
        omega

theorem Local.congruence : Congruence fun {α} (p _ : Parser α) => Local p where
  pure := local_pure
  bind := .bind
  fail := local_fail
  next := local_next
  satisfy := local_satisfy
  check := local_check
  look _ := local_look
  repeating {_ _ round?'} hp _ h := by
    refine local_repeating hp fun t round hr => ?_
    have ht := h t
    rw [hr] at ht
    generalize round?' t = other at ht
    cases ht with
    | some h => exact h

theorem Local.nested (hp : Local p) : Local (nested p) where
  takes := hp.takes.nested
  localAt w := by
    refine ⟨fun {t r a} h r' => ?_, fun {t r f n} h hf r' => ?_⟩
    · unfold Parser.nested at h ⊢
      split at h
      · next hr =>
        cases h
        rw [(hp.localAt w).ok hr r']
      · cases h
    · unfold Parser.nested at h ⊢
      split at h
      · cases h
      · next e hr =>
        obtain ⟨f, us, n⟩ := e
        cases h
        rw [(hp.localAt w).error hr hf r']

theorem Local.map {c : α → β} (hp : Local p) : Local (c <$> p) := by
  rw [map_eq_pure_bind]
  exact hp.bind fun _ => local_pure _

/-! ## A second look -/

/-- A parser may choose by the first two tokens, if either choice takes the first where it matters. -/
theorem Local.choice {test : List Token → Bool} {p' : Parser α} (hp : Local p) (hp' : Local p')
    (ht : p.Takes 1 0) (ht' : p'.Takes 1 0) (htest : ∀ t u r r', test (t :: u :: r) = test (t :: u :: r'))
    (h : ∀ {t r e}, test (t :: r) = true → p (t :: r) = .error e → e.fault ≠ .tooDeep → e.rest.length ≤ r.length)
    (h' : ∀ {t r r' e}, test (t :: r) = true → p' (t :: r') = .error e → e.fault ≠ .tooDeep →
      e.rest.length ≤ r'.length) :
    Local fun ts => if test ts then p ts else p' ts where
  takes := (Takes.choice ht ht').of_le (Nat.zero_le _) (Nat.le_refl _)
  localAt w := by
    cases w with
    | nil =>
      refine ⟨fun {t r a} h => ?_, fun {t r f n} herr hf r' => ?_⟩
      · have hch : Takes 1 0 fun ts => if test ts then p ts else p' ts := .choice ht ht'
        exact absurd h (hch.ne_ok_self a)
      · -- Neither choice fails at the first token where the test holds for it.
        simp only [List.nil_append] at herr ⊢
        cases hr : test (t :: r) with
        | true =>
          rw [hr, if_pos rfl] at herr
          have := h hr herr hf
          simp only [List.length_cons] at this
          omega
        | false =>
          rw [hr, if_neg nofun] at herr
          have herr' := (hp'.localAt []).error herr hf r'
          cases hr' : test (t :: r') with
          | false => simpa using herr'
          | true =>
            have := h' hr' herr hf
            simp only [List.length_cons] at this
            omega
    | cons u w =>
      have hsame : ∀ t r r', test (u :: w ++ t :: r) = test (u :: w ++ t :: r') := by
        intro t r r'
        cases w with
        | nil => exact htest u t r r'
        | cons v w => exact htest u v _ _
      refine .of_eq fun t => ?_
      cases ht : test (u :: w ++ [t]) with
      | true => exact ⟨p, hp.localAt _, fun r => if_pos ((hsame t r []).trans ht)⟩
      | false => exact ⟨p', hp'.localAt _, fun r => if_neg (Bool.eq_false_iff.1 ((hsame t r []).trans ht))⟩

/-- A number, a string or a name is taken, if levels do not run out. -/
def TakesLone (p : Parser α) : Prop :=
  ∀ {t r e}, (t.kind = .number ∨ t.kind = .string ∨ t.kind = .identifier) → p (t :: r) = .error e →
    e.fault ≠ .tooDeep → e.rest.length ≤ r.length

theorem TakesLone.nested (h : TakesLone p) : TakesLone (nested p) := by
  intro t r e ht he hf
  unfold Parser.nested at he
  split at he
  · cases he
  · next hr =>
    cases he
    have := h ht hr hf
    exact this

variable {inner : Inner}

theorem takesLone_climb (hi : inner.Takes 0) (bound : Precedence) : TakesLone (climb inner bound) := by
  intro t r e ht he _
  have hloop : ∀ left us, repeating (tighter? inner bound) left us = .error e → e.rest.length ≤ us.length :=
    fun left us h => ((Takes.repeating (fun _ _ hr => takes_tighter hi hr) left).suffix_of_error h).length_le
  unfold climb at he
  rcases ht with ht | ht | ht
  · rw [bind_run, operand_literal (v := .number t.value) (by simp [Literal.ofToken?, ht])] at he
    exact hloop _ _ he
  · rw [bind_run, operand_literal (v := .string t.value) (by simp [Literal.ofToken?, ht])] at he
    exact hloop _ _ he
  · rcases bind_eq_error.1 he with he | ⟨left, us, hl, he⟩
    · rw [operand_name ht] at he
      exact ((takes_links hi _).suffix_of_error he).length_le
    · rw [operand_name ht] at hl
      exact Nat.le_trans (hloop left us he) ((takes_links hi _).suffix_of_ok hl).length_le

/-! ## Productions -/

/-- What is nested is local, and takes a token that could stand alone. -/
structure LocalInner (inner : Inner) : Prop where
  takes : inner.Takes 0
  expr : ∀ bound, Local (inner.expr bound)
  lone : ∀ bound, TakesLone (inner.expr bound)
  argument : Local inner.argument
  block : Local inner.block

theorem local_argument {p : Parser Expr} (hp : Local p) (ht : p.Takes 1 0) (hl : TakesLone p) : Local (argument p) := by
  have hlone : ∀ {t : Token} {r}, startsLone (t :: r) = true → t.kind = .number ∨ t.kind = .string ∨ t.kind = .identifier := by
    intro t r h
    cases r with
    | nil => cases h
    | cons u r =>
      simp only [startsLone, Bool.and_eq_true, Bool.or_eq_true, decide_eq_true_eq, or_assoc] at h
      exact h.1
  refine Local.choice (Local.congruence.primary) hp takes_primary ht (fun _ _ _ _ => rfl) (fun h he _ => ?_)
    fun h he hf => hl (hlone h) he hf
  obtain ⟨e, hok⟩ := primary_of_startsLone h
  rw [hok] at he
  cases he

theorem local_field (hi : LocalInner inner) (fields : List Expr × List Entry) : Local (field inner fields) := by
  have hR := Local.congruence
  have hname : ∀ {t : Token} {r}, startsNamed (t :: r) = true → t.kind = .identifier := by
    intro t r h
    cases r with
    | nil => cases h
    | cons u r => simp_all [startsNamed]
  have hvalue := hi.takes.expr .lowest
  have hnamed : ∀ t : Token, Takes 1 0 (next >>= fun _ => inner.expr .lowest >>= fun value =>
      (pure (fields.1, Entry.insert t.value value fields.2) : Parser (List Expr × List Entry))) := fun t =>
    (takes_next.bind fun _ => hvalue.bind fun _ => takes_pure _).of_le (by omega) (Nat.le_refl 0)
  unfold field
  refine Local.choice ?_ ?_ ?_ ?_ (fun _ _ _ _ => rfl) (fun {t r e} _ he _ => ?_) fun {t r r' e} h he hf => ?_
  · exact local_next.bind fun _ => local_next.bind fun _ => (hi.expr _).bind fun _ => local_pure _
  · exact (hi.expr _).bind fun _ => local_pure _
  · exact (takes_next.bind fun t => hnamed t).of_le (by omega) (Nat.le_refl 0)
  · exact hvalue.bind fun _ => takes_pure _
  · rcases bind_eq_error.1 he with he | ⟨_, _, ht, he⟩
    · cases he
    · cases ht
      exact ((hnamed t).suffix_of_error he).length_le
  · rcases bind_eq_error.1 he with he | ⟨_, _, _, he⟩
    · exact hi.lone _ (.inr (.inr (hname h))) he hf
    · cases he

theorem LocalInner.agree (hi : LocalInner inner) : Agree (fun {α} (p _ : Parser α) => Local p) inner inner where
  takes := hi.takes
  takes' := hi.takes
  expr := hi.expr
  argument := hi.argument
  block := hi.block
  field := local_field hi

/-- What the second token of a statement decides is not changed by the third. -/
theorem localAt_nameStmt (hi : LocalInner inner) (u : Token) (w : List Token) : LocalAt (nameStmt inner) (u :: w) := by
  have hsecond : ∀ v, ∃ p, Local p ∧ ∀ us, nameStmt inner (u :: v :: us) = p (u :: v :: us) := by
    intro v
    rcases nameStmt_dispatch inner v with ⟨-, hrun⟩ | ⟨-, hrun⟩ | hrun
    · exact ⟨_, Local.congruence.assignment hi.agree, hrun u⟩
    · exact ⟨_, (hi.expr _).map, hrun u⟩
    · have hfail : Local (next >>= fun _ => (unexpectedToken : Parser Stmt)) := local_next.bind fun _ => local_fail _ nofun
      exact ⟨_, hfail, hrun u⟩
  refine .of_eq fun t => ?_
  cases w with
  | nil =>
    obtain ⟨p, hp, heq⟩ := hsecond t
    exact ⟨p, hp.localAt [u], heq⟩
  | cons v w =>
    obtain ⟨p, hp, heq⟩ := hsecond v
    exact ⟨p, hp.localAt (u :: v :: w), fun r => heq _⟩

theorem takesName_nameStmt (hi : LocalInner inner) {r : List Token} {e : Failure} (ht : t.kind = .identifier)
    (he : nameStmt inner (t :: r) = .error e) (hf : e.fault ≠ .tooDeep) : e.rest.length ≤ r.length := by
  cases r with
  | nil =>
    cases he
    exact Nat.le_refl _
  | cons u us =>
    rcases nameStmt_dispatch inner u with ⟨-, hrun⟩ | ⟨-, hrun⟩ | hrun
    · rw [hrun] at he
      rcases bind_eq_error.1 he with he | ⟨x, vs, hx, he⟩
      · simp [name, ofKind, satisfy, map_eq_pure_bind, bind_run, ht] at he
      · have hname := (takes_name (k := 0)).length_of_ok hx
        have hrest := ((takes_operator "=" (k := 0)).bind fun _ => (hi.takes.expr .lowest).bind fun value =>
          takes_pure (Stmt.assign x value)).suffix_of_error he
        simp only [List.length_cons] at hname ⊢
        exact Nat.le_trans hrest.length_le (by omega)
    · rw [hrun, map_eq_pure_bind] at he
      rcases bind_eq_error.1 he with he | ⟨_, _, _, he⟩
      · exact hi.lone _ (.inr (.inr ht)) he hf
      · cases he
    · rw [hrun] at he
      cases he
      exact Nat.le_refl _

theorem local_stmt (hi : LocalInner inner) : Local (stmt inner) where
  takes := (takes_stmt hi.takes).of_le (Nat.zero_le _) (Nat.le_refl _)
  localAt w := by
    -- Where the first token is no name, it decides alone.
    have hfirst : ∀ t, (t.kind = .identifier ∧ ∀ us, stmt inner (t :: us) = nameStmt inner (t :: us)) ∨
        ∃ p, Local p ∧ ∀ us, stmt inner (t :: us) = p (t :: us) := by
      intro t
      rcases stmt_dispatch inner t with h | ⟨head, hrun⟩ | hrun
      · exact .inl h
      · exact .inr ⟨_, Local.congruence.headed hi.agree head, hrun⟩
      · exact .inr ⟨_, local_fail (.unexpected .statementOrExpression) nofun, hrun⟩
    cases w with
    | nil =>
      refine ⟨fun {t r a} h => ?_, fun {t r f n} h hf r' => ?_⟩
      · exact absurd h ((takes_stmt hi.takes).ne_ok_self a)
      · rcases hfirst t with ⟨ht, hrun⟩ | ⟨p, hp, hrun⟩
        · have := takesName_nameStmt hi ht ((hrun r).symm.trans h) hf
          simp only [List.length_cons] at this
          omega
        · exact (hrun r').trans ((hp.localAt []).error ((hrun r).symm.trans h) hf r')
    | cons u w =>
      refine .of_eq fun t => ?_
      rcases hfirst u with ⟨_, hrun⟩ | ⟨p, hp, hrun⟩
      · exact ⟨_, localAt_nameStmt hi u w, fun r => hrun _⟩
      · exact ⟨p, hp.localAt (u :: w), fun r => hrun _⟩

/-! ## Levels -/

theorem LocalInner.of {expr : Precedence → Parser Expr} {block : Parser (List Stmt)} (ht : (Inner.of expr block).Takes 0)
    (he : ∀ bound, Local (expr bound)) (hl : ∀ bound, TakesLone (expr bound)) (hb : Local block) :
    LocalInner (.of expr block) where
  takes := ht
  expr := he
  lone := hl
  argument := local_argument (he _) (ht.expr _) (hl _)
  block := hb

theorem ofLevels_local (n : Nat) : LocalInner (.ofLevels n) := by
  induction n with
  | zero =>
    have hdeep : ∀ {α : Type}, Local (fail .tooDeep : Parser α) := fun {α} =>
      ⟨fun _ => ⟨List.suffix_refl _, fun _ => Nat.le_refl _⟩, fun w => ⟨nofun, fun h hf =>
        absurd (congrArg Failure.fault (Except.error.inj h)).symm hf⟩⟩
    exact .of (Inner.ofLevels_takes 0).zero (fun _ => hdeep) (fun _ _ _ _ _ h hf => by cases h; exact absurd rfl hf) hdeep
  | succ n ih =>
    exact .of (Inner.ofLevels_takes (n + 1)).zero (fun bound => (Local.congruence.climb ih.agree bound).nested)
      (fun bound => TakesLone.nested (takesLone_climb ih.takes bound)) (Local.congruence.block ih.agree (local_stmt ih)).nested

theorem local_program (n : Nat) : Local (program (.ofLevels n)) :=
  Local.congruence.program (ofLevels_local n).agree (local_stmt (ofLevels_local n))

end MiniLua.Parser
