import MiniLua.Proofs.Reading.Lookahead
/-!
# Spans have no part in reading

Over two sequences of tokens that differ in nothing but their spans every production ends alike: with
the same value or for the same fault, and before tokens that again differ in their spans only
(`Blind`). With it goes that a fault is one of the token it is reported at (`Fault.HoldsAt`), since
both are seen where the fault arises and kept on the way up from there.

Of what comes first some productions are sure, because whoever calls them has looked. This is what
`BlindIf` is for. It is needed where a production would have nothing to say at the end of the
input, and where what was wanted includes what has been looked for before.
-/

namespace MiniLua

/-- Kind and text. -/
def Token.word (t : Token) : Token.Kind × String := (t.kind, t.value)

/-- Tokens that differ in their spans only. -/
def Alike (ts us : List Token) : Prop := ts.map Token.word = us.map Token.word

namespace Alike

variable {t : Token} {ts us : List Token}

theorem refl (ts : List Token) : Alike ts ts := rfl

theorem length (h : Alike ts us) : us.length = ts.length := by
  simpa using congrArg List.length h.symm

theorem eq_nil (h : Alike [] us) : us = [] := List.map_eq_nil_iff.1 h.symm

theorem exists_cons (h : Alike (t :: ts) us) : ∃ u vs, us = u :: vs ∧ u.word = t.word ∧ Alike ts vs := by
  obtain ⟨u, vs, rfl, hu, hvs⟩ := List.map_eq_cons_iff.1 h.symm
  exact ⟨u, vs, rfl, hu, hvs.symm⟩

end Alike

/-! ## Reasons for a fault -/

/-- A token is not what was wanted. -/
def Expectation.Unmet : Expectation → Token → Prop
  | .kind k, t => t.kind ≠ k
  | .exact k text, t => ¬ (t.kind = k ∧ t.value = text)
  | .loopHeader, t =>
    ¬ (t.kind = .operator ∧ t.value = "=") ∧ ¬ (t.kind = .symbol ∧ t.value = ",") ∧ ¬ (t.kind = .keyword ∧ t.value = "in")
  | _, _ => False

/-- What may be found wanting at the end of the input. -/
def Expectation.AtEnd (wanted : Expectation) : Prop := wanted ∉ [.token, .statement, .statementOrExpression]

/-- A fault is so of the tokens from where it arose on: the token there is not the one that was wanted,
and at the end of the input something is named that could be wanted there. -/
def Fault.HoldsAt : Fault → List Token → Prop
  | .expected wanted, t :: _ => wanted.Unmet t
  | .expected wanted, [] | .unexpected wanted, [] => wanted.AtEnd
  | _, _ => True

namespace Parser

variable {α β : Type} {pre : List Token → Prop} {p q : Parser α} {wanted : Expectation} {test : Token → Bool}

/-- Two runs end alike, for a fault that holds if they fail. -/
def EndsAlike : Except Failure (α × List Token) → Except Failure (α × List Token) → Prop
  | .ok (a, rest), .ok (b, rest') => b = a ∧ Alike rest rest'
  | .error e, .error e' => e'.fault = e.fault ∧ Alike e.rest e'.rest ∧ e.fault.HoldsAt e.rest
  | _, _ => False

/-- Over tokens that start in some way a parser does not see spans, and its faults hold. -/
def BlindIf (pre : List Token → Prop) (p : Parser α) : Prop :=
  ∀ ts us, Alike ts us → pre ts → EndsAlike (p ts) (p us)

/-- Whatever the tokens are. -/
abbrev Blind (p : Parser α) : Prop := BlindIf (fun _ => True) p

/-- A function of tokens that does not see spans. -/
def Spanless (f : Token → β) : Prop := ∀ kind value s s', f ⟨kind, value, s⟩ = f ⟨kind, value, s'⟩

theorem Spanless.eq {f : Token → β} (h : Spanless f) {t u : Token} (htu : u.word = t.word) : f u = f t := by
  obtain ⟨k, v, s⟩ := t
  obtain ⟨k', v', s'⟩ := u
  obtain ⟨rfl, rfl⟩ := Prod.mk.inj htu
  exact h _ _ _ _

/-! ## Combinators -/

theorem BlindIf.imp {pre' : List Token → Prop} (h : BlindIf pre p) (hpre : ∀ ts, pre' ts → pre ts) : BlindIf pre' p :=
  fun ts us halike hts => h ts us halike (hpre ts hts)

theorem BlindIf.of_blind (h : Blind p) : BlindIf pre p := h.imp fun _ _ => trivial

theorem blind_pure (a : α) : BlindIf pre (pure a) := fun _ _ h _ => ⟨rfl, h⟩

theorem BlindIf.bind {f : α → Parser β} (hp : BlindIf pre p) (hf : ∀ a, Blind (f a)) : BlindIf pre (p >>= f) := by
  intro ts us h hts
  have hends := hp ts us h hts
  rw [bind_run, bind_run]
  cases hr : p ts <;> cases hr' : p us <;> rw [hr, hr'] at hends
  · exact hends
  · exact hends.elim
  · exact hends.elim
  · obtain ⟨ha, hrest⟩ := hends
    simp only [ha]
    exact hf _ _ _ hrest trivial

theorem BlindIf.map {g : α → β} (hp : BlindIf pre p) : BlindIf pre (g <$> p) := by
  rw [map_eq_pure_bind]
  exact hp.bind fun _ => blind_pure _

theorem BlindIf.ite {c : Prop} [Decidable c] (hp : BlindIf pre p) (hq : BlindIf pre q) : BlindIf pre (if c then p else q) := by
  split
  · exact hp
  · exact hq

/-- A parser that chooses between two by looking ahead. -/
theorem BlindIf.choice {ahead : List Token → Bool} (hahead : ∀ ts us, Alike ts us → ahead us = ahead ts)
    (hp : BlindIf (fun ts => ahead ts) p) (hq : Blind q) : BlindIf pre fun ts => if ahead ts then p ts else q ts := by
  intro ts us h _
  simp only [hahead ts us h]
  split
  · next ht => exact hp ts us h ht
  · exact hq ts us h trivial

theorem BlindIf.nested (h : BlindIf pre p) : BlindIf pre (nested p) := by
  intro ts us halike hts
  have hends := h ts us halike hts
  rw [Parser.nested, Parser.nested]
  cases hr : p ts <;> cases hr' : p us <;> rw [hr, hr'] at hends <;> exact hends

theorem blind_tooDeep : BlindIf pre (fail .tooDeep : Parser α) := fun _ _ h _ => ⟨rfl, h, trivial⟩

/-- Before a token anything may be unexpected. -/
theorem blind_unexpected : BlindIf (· ≠ []) (fail (.unexpected wanted) : Parser α) := by
  intro ts us h hts
  cases ts with
  | nil => exact absurd rfl hts
  | cons t ts => exact ⟨rfl, h, trivial⟩

/-- There is a token to skip. -/
theorem blind_next (hq : Blind q) : BlindIf (· ≠ []) (next >>= fun _ => q) := by
  intro ts us h hts
  cases ts with
  | nil => exact absurd rfl hts
  | cons t ts =>
    obtain ⟨u, us, rfl, -, hus⟩ := h.exists_cons
    exact hq ts us hus trivial

/-- A token that is wanted, for what of it does not see its span. -/
theorem blind_satisfy {f : Token → Parser α} (htest : Spanless test) (hf : Spanless f) (hend : wanted.AtEnd)
    (hunmet : ∀ t, test t = false → wanted.Unmet t) (h : ∀ t, Blind (f t)) : BlindIf pre (satisfy wanted test >>= f) := by
  intro ts us halike _
  rw [bind_run, bind_run]
  cases ts with
  | nil =>
    rw [halike.eq_nil]
    exact ⟨rfl, .refl [], hend⟩
  | cons t ts =>
    obtain ⟨u, us, rfl, hu, hus⟩ := halike.exists_cons
    simp only [satisfy, htest.eq hu]
    cases ht : test t with
    | true =>
      simp only [if_true, hf.eq hu]
      exact h t ts us hus trivial
    | false => exact ⟨rfl, halike, hunmet t ht⟩

theorem blind_exact {kind : Token.Kind} {text : String} (hq : Blind q) : BlindIf pre (exact kind text >>= fun _ => q) := by
  refine blind_satisfy (fun _ _ _ _ => rfl) (fun _ _ _ _ => rfl) (by simp [Expectation.AtEnd]) (fun t ht => ?_) fun _ => hq
  exact fun h => absurd (Token.is_iff.2 h) (by simp [ht])

theorem blind_name : BlindIf pre name := by
  rw [name, map_eq_pure_bind]
  refine blind_satisfy (fun _ _ _ _ => rfl) (fun _ _ _ _ => rfl) (by simp [Expectation.AtEnd]) (fun t ht => ?_)
    fun _ => blind_pure _
  exact of_decide_eq_false ht

theorem any_head?_eq (htest : Spanless test) {ts us : List Token} (h : Alike ts us) : us.head?.any test = ts.head?.any test := by
  cases ts with
  | nil => rw [h.eq_nil]
  | cons t ts =>
    obtain ⟨u, us, rfl, hu, -⟩ := h.exists_cons
    exact htest.eq hu

/-- The next token is looked for, and is there in the one case and not that one in the other. -/
theorem blind_check (htest : Spanless test) (hp : BlindIf (· ≠ []) p)
    (hq : BlindIf (fun ts => pre ts ∧ ts.head?.any test = false) q) :
    BlindIf pre (check test >>= fun b => if b then p else q) := by
  intro ts us h hts
  have hsame := any_head?_eq htest h
  cases ht : ts.head?.any test with
  | true =>
    rw [check_true ht, check_true (hsame.trans ht)]
    refine hp ts us h ?_
    rintro rfl
    cases ht
  | false =>
    rw [check_false ht, check_false (hsame.trans ht)]
    exact hq ts us h ⟨hts, ht⟩

theorem blind_look_cons {go : Token → Parser α} (hgo : Spanless go) (h : ∀ t, BlindIf (· ≠ []) (go t)) :
    BlindIf (· ≠ []) (look wanted go) := by
  intro ts us halike hts
  cases ts with
  | nil => exact absurd rfl hts
  | cons t ts =>
    obtain ⟨u, us, rfl, hu, -⟩ := halike.exists_cons
    rw [look, look, hgo.eq hu]
    exact h t _ _ halike hts

theorem blind_look {go : Token → Parser α} (hend : wanted.AtEnd) (hgo : Spanless go) (h : ∀ t, BlindIf (· ≠ []) (go t)) :
    BlindIf pre (look wanted go) := by
  intro ts us halike _
  cases ts with
  | nil =>
    rw [halike.eq_nil]
    exact ⟨rfl, .refl [], hend⟩
  | cons t ts => exact blind_look_cons hgo h _ _ halike (List.cons_ne_nil _ _)

/-! ## Loops -/

section
variable {round? : Token → Option (α → Parser α)}

theorem endsAlike_rounds (hround : Spanless round?)
    (h : ∀ t round, round? t = some round → ∀ a, BlindIf (· ≠ []) (round a)) :
    ∀ (bound bound' : List Token), bound'.length = bound.length → ∀ (a : α) (ts us : List Token), Alike ts us →
      EndsAlike (rounds round? bound a ts) (rounds round? bound' a us) := by
  intro bound
  induction bound with
  | nil =>
    intro bound' hlen a ts us halike
    rw [List.eq_nil_of_length_eq_zero hlen]
    exact ⟨rfl, halike⟩
  | cons b bound ih =>
    intro bound' hlen a ts us halike
    obtain ⟨b', bound', rfl⟩ := List.exists_cons_of_length_eq_add_one hlen
    cases ts with
    | nil =>
      rw [halike.eq_nil]
      exact ⟨rfl, .refl []⟩
    | cons t ts =>
      obtain ⟨u, us, rfl, hu, -⟩ := halike.exists_cons
      rw [rounds, rounds, hround.eq hu]
      cases hr : round? t with
      | none => exact ⟨rfl, halike⟩
      | some round =>
        have hends := h t round hr a _ _ halike (List.cons_ne_nil _ _)
        simp only
        cases hrun : round a (t :: ts) <;> cases hrun' : round a (u :: us) <;> rw [hrun, hrun'] at hends
        · exact hends
        · exact hends.elim
        · exact hends.elim
        · -- Both go on with the same value over tokens that are alike.
          obtain ⟨hb, hrest⟩ := hends
          simp only [hb]
          exact ih bound' (Nat.succ.inj hlen) _ _ _ hrest

theorem blind_repeating (hround : Spanless round?)
    (h : ∀ t round, round? t = some round → ∀ a, BlindIf (· ≠ []) (round a))
    (a : α) : BlindIf pre (repeating round? a) :=
  fun ts us halike _ => endsAlike_rounds hround h ts us halike.length a ts us halike

theorem blind_many {item : Parser α} (htest : Spanless test) (h : BlindIf (· ≠ []) item) : BlindIf pre (many test item) := by
  unfold many
  refine (blind_repeating (fun kind value s s' => ?_) (fun t round hr items => ?_) []).bind fun _ => blind_pure _
  · simp only [htest kind value s s']
  · split at hr
    · cases hr
      exact h.map
    · cases hr

theorem blind_separated {item : Parser α} (h : Blind item) : BlindIf pre (separated item) := by
  unfold separated
  refine (BlindIf.of_blind h).bind fun _ => BlindIf.bind (blind_many (fun _ _ _ _ => rfl) ?_) fun _ => blind_pure _
  exact blind_next h

theorem blind_parenthesized {item : Parser α} (h : Blind item) : BlindIf pre (parenthesized item) := by
  unfold parenthesized
  refine blind_exact (blind_check (fun _ _ _ _ => rfl) ?_ ?_)
  · exact blind_next (blind_pure _)
  · exact (blind_separated h).bind fun _ => blind_exact (blind_pure _)

end

/-! ## Expressions -/

theorem blind_primary : BlindIf pre primary := by
  refine blind_look (by simp [Expectation.AtEnd]) (fun _ _ _ _ => rfl) fun t => ?_
  split
  · exact blind_next (blind_pure _)
  · exact .ite (blind_next (blind_pure _)) blind_unexpected

/-- A choice by two tokens is the same one over tokens that are alike. -/
theorem ahead_eq {ahead : List Token → Bool} (f : Token → Token → Bool)
    (hahead : ∀ ts, ahead ts = match ts with | t :: u :: _ => f t u | _ => false)
    (hf : ∀ u, Spanless fun t => f t u) (hf' : ∀ t, Spanless (f t)) (ts us : List Token) (h : Alike ts us) :
    ahead us = ahead ts := by
  rw [hahead, hahead]
  match ts with
  | [] => rw [h.eq_nil]
  | [t] =>
    obtain ⟨u, us, rfl, -, hus⟩ := h.exists_cons
    rw [hus.eq_nil]
  | t :: t' :: ts =>
    obtain ⟨u, us, rfl, hu, hus⟩ := h.exists_cons
    obtain ⟨u', us, rfl, hu', -⟩ := hus.exists_cons
    exact ((hf u').eq hu).trans ((hf' t).eq hu')

theorem blind_argument {expr : Parser Expr} (h : Blind expr) : BlindIf pre (argument expr) :=
  .choice (ahead_eq _ (fun _ => rfl) (fun _ _ _ _ _ => rfl) fun _ _ _ _ _ => rfl) blind_primary h

end Parser

/-- What is nested in a production does not see spans. -/
structure Inner.Blind (inner : Inner) : Prop where
  expr : ∀ bound, Parser.Blind (inner.expr bound)
  argument : Parser.Blind inner.argument
  block : Parser.Blind inner.block

namespace Parser

variable {pre : List Token → Prop} {inner : Inner}

section
variable (h : inner.Blind)
include h

theorem blind_grouping : BlindIf pre (grouping inner) := by
  unfold grouping
  exact blind_exact ((h.expr _).bind fun _ => blind_exact (blind_pure _))

theorem blind_arguments : BlindIf pre (arguments inner) := blind_parenthesized h.argument

theorem blind_call (e : Expr) : BlindIf pre (call inner e) := by
  unfold call
  exact (blind_arguments h).bind fun _ => blind_pure _

theorem blind_member (e : Expr) : BlindIf pre (member inner e) := by
  unfold member
  refine blind_exact (blind_name.bind fun _ => blind_check (fun _ _ _ _ => rfl) ?_ (blind_pure _))
  exact (blind_arguments h).bind fun _ => blind_pure _

theorem blind_methodCall (e : Expr) : BlindIf pre (methodCall inner e) := by
  unfold methodCall
  exact blind_exact (blind_name.bind fun _ => (blind_arguments h).bind fun _ => blind_pure _)

theorem blind_links (e : Expr) : BlindIf pre (links inner e) := by
  refine blind_repeating (fun _ _ _ _ => rfl) (fun t round hr e => ?_) e
  obtain ⟨-, rfl⟩ | ⟨-, rfl⟩ | ⟨-, rfl⟩ := link?_eq_some hr
  · exact blind_call h e
  · exact blind_member h e
  · exact blind_methodCall h e

theorem blind_field (fields : List Expr × List Entry) : BlindIf pre (field inner fields) := by
  unfold field
  refine .choice (ahead_eq _ (fun _ => rfl) (fun _ _ _ _ _ => rfl) fun _ _ _ _ _ => rfl) ?_ ((h.expr _).bind fun _ => blind_pure _)
  -- The name is kept, but not its span.
  intro ts us halike hts
  match ts, hts with
  | t :: t' :: ts, _ =>
    obtain ⟨u, us, rfl, hu, hus⟩ := halike.exists_cons
    obtain ⟨u', us, rfl, -, hus⟩ := hus.exists_cons
    obtain ⟨_, key, _⟩ := u
    obtain ⟨_, _, _⟩ := t
    obtain ⟨rfl, rfl⟩ := Prod.mk.inj hu
    exact ((h.expr .lowest).bind fun value => blind_pure (fields.1, Entry.insert key value fields.2)) ts us hus trivial

theorem blind_fieldOrEnd (fields : List Expr × List Entry) : BlindIf pre (fieldOrEnd inner fields) := by
  unfold fieldOrEnd
  exact blind_check (fun _ _ _ _ => rfl) (blind_pure _) (blind_field h fields)

theorem blind_table : BlindIf pre (table inner) := by
  unfold table
  refine blind_exact ((blind_fieldOrEnd h _).bind fun fields => BlindIf.bind ?_ fun _ => blind_exact (blind_pure _))
  refine blind_repeating (fun _ _ _ _ => rfl) (fun t round hr fields => ?_) fields
  obtain ⟨-, rfl⟩ := nextField?_eq_some hr
  exact blind_next (blind_fieldOrEnd h fields)

theorem blind_functionBody : BlindIf pre (functionBody inner) := by
  unfold functionBody parameters
  exact (blind_parenthesized blind_name).bind fun _ => h.block.bind fun _ => blind_exact (blind_pure _)

theorem blind_function : BlindIf pre (function inner) := by
  unfold function
  exact blind_exact ((blind_functionBody h).bind fun _ => blind_pure _)

theorem blind_operand : BlindIf pre (operand inner) := by
  refine blind_look (by simp [Expectation.AtEnd]) (fun _ _ _ _ => rfl) fun t => ?_
  split
  · exact blind_next ((h.expr _).bind fun _ => blind_pure _)
  split
  · exact blind_primary
  · exact blind_primary
  · exact blind_primary
  · exact blind_primary
  · exact blind_next (blind_links h _)
  · exact .ite ((blind_grouping h).bind fun _ => blind_links h _) (.ite (blind_table h) blind_unexpected)
  · exact .ite (blind_function h) blind_unexpected
  · exact blind_unexpected

theorem blind_climb (bound : Precedence) : BlindIf pre (climb inner bound) := by
  unfold climb
  refine (blind_operand h).bind fun left => blind_repeating (fun _ _ _ _ => rfl) (fun t round hr left => ?_) left
  obtain ⟨op, -, -, rfl⟩ := tighter?_eq_some hr
  exact blind_next ((h.expr _).bind fun _ => blind_pure _)

/-! ## Statements -/

theorem blind_namedFunction : BlindIf pre (namedFunction inner) := by
  unfold namedFunction
  exact blind_exact (blind_name.bind fun _ => (blind_functionBody h).bind fun _ => blind_pure _)

theorem blind_localStmt : BlindIf pre (localStmt inner) := by
  rw [localStmt, localFunction_eq]
  refine blind_exact (blind_check (fun _ _ _ _ => rfl) ?_ ?_)
  · exact (blind_namedFunction h).bind fun _ => blind_pure _
  · refine blind_name.bind fun _ => blind_check (fun _ _ _ _ => rfl) ?_ (blind_pure _)
    exact blind_next ((h.expr _).bind fun _ => blind_pure _)

theorem blind_assignment : BlindIf pre (assignment inner) := by
  unfold assignment
  exact blind_name.bind fun _ => blind_exact ((h.expr _).bind fun _ => blind_pure _)

theorem blind_returnStmt : BlindIf pre (returnStmt inner) := by
  unfold returnStmt
  refine blind_exact (blind_check (fun _ _ _ _ => rfl) ?_ (blind_pure _))
  exact (blind_separated (h.expr _)).bind fun _ => blind_pure _

theorem blind_guarded : BlindIf pre (guarded inner) := by
  unfold guarded
  exact BlindIf.of_blind ((h.expr _).bind fun _ => blind_exact (h.block.bind fun _ => blind_pure _))

theorem blind_ifStmt : BlindIf pre (ifStmt inner) := by
  unfold ifStmt branch otherwise
  refine blind_exact ((blind_guarded h).bind fun _ => BlindIf.bind ?_ fun _ => BlindIf.bind ?_ fun _ => blind_exact (blind_pure _))
  · exact blind_many (fun _ _ _ _ => rfl) (blind_next ((blind_guarded h).bind fun _ => blind_pure _))
  · exact blind_check (fun _ _ _ _ => rfl) (blind_next h.block) (blind_pure _)

theorem blind_loopBody : BlindIf pre (loopBody inner) := by
  unfold loopBody
  exact blind_exact (h.block.bind fun _ => blind_exact (blind_pure _))

theorem blind_whileStmt : BlindIf pre (whileStmt inner) := by
  unfold whileStmt
  exact blind_exact ((h.expr _).bind fun _ => (blind_loopBody h).bind fun _ => blind_pure _)

theorem blind_repeatStmt : BlindIf pre (repeatStmt inner) := by
  unfold repeatStmt
  exact blind_exact (h.block.bind fun _ => blind_exact ((h.expr _).bind fun _ => blind_pure _))

theorem blind_forRange (x : String) : BlindIf (· ≠ []) (forRange inner x) := by
  unfold forRange step
  refine blind_next ((h.expr _).bind fun _ => blind_exact ((h.expr _).bind fun _ => BlindIf.bind ?_ fun _ =>
    (blind_loopBody h).bind fun _ => blind_pure _))
  exact blind_check (fun _ _ _ _ => rfl) (blind_next ((h.expr _).bind fun _ => blind_pure _)) (blind_pure _)

/-- Behind the first variable there is neither a comma nor an `in`, nor the `=` that has been looked for. -/
theorem blind_forIn (key : String) : BlindIf (fun ts => ts.head?.any (·.isOperator "=") = false) (forIn inner key) := by
  unfold forIn valueName
  refine BlindIf.bind (blind_check (fun _ _ _ _ => rfl) ?_ ?_) fun _ => blind_exact ((h.expr _).bind fun _ =>
    (blind_loopBody h).bind fun _ => blind_pure _)
  · exact blind_next (blind_name.bind fun _ => blind_pure _)
  · refine blind_check (fun _ _ _ _ => rfl) (blind_pure _) ?_
    rintro ts us halike ⟨⟨hequals, hcomma⟩, hin⟩
    refine ⟨rfl, halike, ?_⟩
    cases ts with
    | nil => simp [Fault.HoldsAt, Expectation.AtEnd]
    | cons t ts =>
      simpa [Fault.HoldsAt, Expectation.Unmet, Token.isOperator, Token.isSymbol, Token.isKeyword, Token.is]
        using And.intro hequals (And.intro hcomma hin)

theorem blind_forStmt : BlindIf pre (forStmt inner) := by
  unfold forStmt
  exact blind_exact (blind_name.bind fun _ => blind_check (fun _ _ _ _ => rfl) (blind_forRange h _)
    ((blind_forIn h _).imp fun _ hts => hts.2))

theorem blind_headed (head : StmtHead) : BlindIf pre (headed inner head) := by
  cases head with
  | function => exact ((blind_namedFunction h).bind fun _ => blind_pure _).map
  | localVar => exact blind_localStmt h
  | ret => exact blind_returnStmt h
  | ifThen => exact blind_ifStmt h
  | forLoop => exact blind_forStmt h
  | whileLoop => exact blind_whileStmt h
  | repeatLoop => exact blind_repeatStmt h

theorem blind_nameStmt : BlindIf (· ≠ []) (nameStmt inner) := by
  intro ts us halike hts
  match ts with
  | [] => exact absurd rfl hts
  | [t] =>
    obtain ⟨u, us, rfl, -, hus⟩ := halike.exists_cons
    rw [hus.eq_nil]
    exact ⟨rfl, .refl [], by simp [Fault.HoldsAt, Expectation.AtEnd]⟩
  | t :: t' :: ts =>
    obtain ⟨u, us, rfl, -, hus⟩ := id halike.exists_cons
    obtain ⟨u', us, rfl, hu', -⟩ := id hus.exists_cons
    have hequals : Spanless fun t => t.isOperator "=" := fun _ _ _ _ => rfl
    have hcontinues : Spanless continuesExpr := fun _ _ _ _ => rfl
    rw [nameStmt, nameStmt, hequals.eq hu', hcontinues.eq hu']
    split
    · exact (blind_assignment h : Blind _) _ _ halike trivial
    split
    · exact (h.expr .lowest).map _ _ halike trivial
    · exact ⟨rfl, hus, trivial⟩

theorem blind_stmt : BlindIf (· ≠ []) (stmt inner) := by
  refine blind_look_cons (fun _ _ _ _ => rfl) fun t => ?_
  split
  · split
    · exact blind_headed h _
    · exact blind_unexpected
  · exact blind_nameStmt h
  · exact blind_unexpected

theorem blind_block : BlindIf pre (block inner) := blind_many (fun _ _ _ _ => rfl) (blind_stmt h)

theorem blind_program : Blind (program inner) := blind_many (fun _ _ _ _ => rfl) (blind_stmt h)

end
end Parser

/-! ## Levels -/

theorem Inner.ofLevels_blind (n : Nat) : (Inner.ofLevels n).Blind := by
  have hof : ∀ {expr : Precedence → Parser Expr} {block : Parser (List Stmt)}, (∀ bound, Parser.Blind (expr bound)) →
      Parser.Blind block → (Inner.of expr block).Blind :=
    fun he hb => ⟨he, Parser.blind_argument (he _), hb⟩
  induction n with
  | zero => exact hof (fun _ => Parser.blind_tooDeep) Parser.blind_tooDeep
  | succ n ih => exact hof (fun bound => (Parser.blind_climb ih bound).nested) (Parser.blind_block ih).nested

/-- A program fails for something that is so. -/
theorem Parser.program_holdsAt {limit : Nat} {ts : List Token} {e : Failure} (h : program (.ofLevels limit) ts = .error e) :
    e.fault.HoldsAt e.rest := by
  have hends := blind_program (Inner.ofLevels_blind limit) ts ts (.refl ts) trivial
  rw [h] at hends
  exact hends.2.2

end MiniLua
