import MiniLua.Proofs.Reading.Levels
import MiniLua.Proofs.Reading.Lookahead
/-!
# Where failures arise

A production fails in itself, at once and for something that the grammar wants there
(`Expectation.wants`), or because of what is nested in it, and then with the very failure of that
(`Arises`). So what holds of the failures of a production follows from what holds of these two, and
one induction over the levels of nesting gives it for all (`Inner.ofLevels_fails`). In particular an error
names nothing but what the grammar wants (`parseWithin_error_wants`).
-/

namespace MiniLua

/-- All that the grammar wants anywhere. -/
def Expectation.wants : List Expectation :=
  [.token, .kind .identifier, .expression, .statement, .statementOrExpression, .assignmentOrCall, .loopHeader, .exact .operator "="] ++
    ["(", ")", ".", ":", ",", "\x7b", "\x7d"].map (.exact .symbol) ++
    ["function", "end", "local", "return", "if", "then", "while", "do", "repeat", "until", "for", "in"].map (.exact .keyword)

/-- A fault for something that the grammar wants. -/
def Fault.Plain : Fault → Prop
  | .unexpected wanted | .expected wanted => wanted ∈ Expectation.wants
  | .tooDeep => False

/-- A failure of a production itself, or of what is nested in it. -/
inductive Arises (inner : Inner) : Failure → Prop
  | here {fault : Fault} {ts : List Token} (h : fault.Plain) : Arises inner ⟨fault, ts, 0⟩
  | expr {bound : Precedence} {ts : List Token} {e : Failure} (h : inner.expr bound ts = .error e) : Arises inner e
  | argument {ts : List Token} {e : Failure} (h : inner.argument ts = .error e) : Arises inner e
  | block {ts : List Token} {e : Failure} (h : inner.block ts = .error e) : Arises inner e

namespace Parser

variable {α β : Type} {inner : Inner} {p q : Parser α} {wanted : Expectation} {text : String}

/-- A parser fails only in itself or in what is nested. -/
def FailsIn (inner : Inner) (p : Parser α) : Prop := ∀ ts e, p ts = .error e → Arises inner e

/-! ## Combinators -/

theorem failsIn_pure (a : α) : FailsIn inner (pure a) := nofun

theorem failsIn_unexpected (h : wanted ∈ Expectation.wants) : FailsIn inner (fail (.unexpected wanted) : Parser α) := by
  rintro ts _ ⟨⟩
  exact .here h

theorem failsIn_next : FailsIn inner next := by
  intro ts e h
  cases ts with
  | nil =>
    cases h
    exact .here (by decide : Expectation.token ∈ Expectation.wants)
  | cons t ts => cases h

theorem failsIn_satisfy {test : Token → Bool} (h : wanted ∈ Expectation.wants) : FailsIn inner (satisfy wanted test) := by
  intro ts e he
  cases ts with
  | nil =>
    cases he
    exact .here h
  | cons t ts =>
    rw [satisfy] at he
    split at he
    · cases he
    · cases he
      exact .here h

theorem failsIn_symbol (h : .exact .symbol text ∈ Expectation.wants) : FailsIn inner (symbol text) := failsIn_satisfy h

theorem failsIn_keyword (h : .exact .keyword text ∈ Expectation.wants) : FailsIn inner (keyword text) := failsIn_satisfy h

theorem failsIn_operator (h : .exact .operator text ∈ Expectation.wants) : FailsIn inner (operator text) := failsIn_satisfy h

theorem failsIn_check (test : Token → Bool) : FailsIn inner (check test) := nofun

theorem failsIn_expr (bound : Precedence) : FailsIn inner (inner.expr bound) := fun _ _ h => .expr h

theorem failsIn_block : FailsIn inner inner.block := fun _ _ h => .block h

theorem FailsIn.bind {f : α → Parser β} (hp : FailsIn inner p) (hf : ∀ a, FailsIn inner (f a)) : FailsIn inner (p >>= f) := by
  intro ts e h
  rcases bind_eq_error.1 h with h | ⟨a, rest, -, h⟩
  · exact hp _ _ h
  · exact hf a _ _ h

theorem FailsIn.map {g : α → β} (hp : FailsIn inner p) : FailsIn inner (g <$> p) := by
  rw [map_eq_pure_bind]
  exact hp.bind fun _ => failsIn_pure _

theorem failsIn_name : FailsIn inner name := (failsIn_satisfy (by decide)).map

theorem FailsIn.ite {c : Prop} [Decidable c] (hp : FailsIn inner p) (hq : FailsIn inner q) :
    FailsIn inner (if c then p else q) := by
  split
  · exact hp
  · exact hq

/-- A parser that chooses between two by looking ahead. -/
theorem FailsIn.choice {test : List Token → Bool} (hp : FailsIn inner p) (hq : FailsIn inner q) :
    FailsIn inner fun ts => if test ts then p ts else q ts := by
  intro ts e h
  dsimp only at h
  split at h
  · exact hp _ _ h
  · exact hq _ _ h

theorem failsIn_look {go : Token → Parser α} (hw : wanted ∈ Expectation.wants) (h : ∀ t, FailsIn inner (go t)) :
    FailsIn inner (look wanted go) := by
  intro ts e he
  cases ts with
  | nil =>
    cases he
    exact .here hw
  | cons t ts => exact h t _ _ he

/-- A loop fails in one of its rounds. -/
theorem failsIn_repeating {round? : Token → Option (α → Parser α)}
    (h : ∀ t round, round? t = some round → ∀ a, FailsIn inner (round a)) (a : α) : FailsIn inner (repeating round? a) := by
  have hrounds : ∀ (bound : List Token) (a : α), FailsIn inner (rounds round? bound a) := by
    intro bound
    induction bound with
    | nil => exact fun _ => nofun
    | cons b bound ih =>
      intro a ts e he
      cases ts with
      | nil => cases he
      | cons t ts =>
        rw [rounds] at he
        cases hr : round? t with
        | none => simp [hr] at he
        | some round =>
          simp only [hr] at he
          exact (h t round hr a).bind ih (t :: ts) e he
  exact fun ts => hrounds ts a ts

theorem failsIn_many {test : Token → Bool} (hp : FailsIn inner p) : FailsIn inner (many test p) := by
  unfold many
  refine (failsIn_repeating (fun t round hr items => ?_) []).bind fun _ => failsIn_pure _
  split at hr
  · cases hr
    exact hp.map
  · cases hr

theorem failsIn_separated (hp : FailsIn inner p) : FailsIn inner (separated p) := by
  unfold separated
  exact hp.bind fun _ => (failsIn_many (failsIn_next.bind fun _ => hp)).bind fun _ => failsIn_pure _

theorem failsIn_parenthesized (hp : FailsIn inner p) : FailsIn inner (parenthesized p) := by
  unfold parenthesized
  refine (failsIn_symbol (by decide)).bind fun _ => (failsIn_check _).bind fun _ => .ite ?_ ?_
  · exact failsIn_next.bind fun _ => failsIn_pure _
  · exact (failsIn_separated hp).bind fun _ => (failsIn_symbol (by decide)).bind fun _ => failsIn_pure _

/-! ## Expressions -/

section
variable (inner)

theorem failsIn_primary : FailsIn inner primary := by
  refine failsIn_look (by decide) fun t => ?_
  split
  · exact failsIn_next.bind fun _ => failsIn_pure _
  · exact .ite (failsIn_next.bind fun _ => failsIn_pure _) (failsIn_unexpected (by decide))

theorem failsIn_grouping : FailsIn inner (grouping inner) := by
  unfold grouping
  exact (failsIn_symbol (by decide)).bind fun _ => (failsIn_expr _).bind fun _ =>
    (failsIn_symbol (by decide)).bind fun _ => failsIn_pure _

theorem failsIn_arguments : FailsIn inner (arguments inner) := failsIn_parenthesized fun _ _ h => .argument h

theorem failsIn_call (callee : Expr) : FailsIn inner (call inner callee) := by
  unfold call
  exact (failsIn_arguments inner).bind fun _ => failsIn_pure _

theorem failsIn_member (object : Expr) : FailsIn inner (member inner object) := by
  unfold member
  refine (failsIn_symbol (by decide)).bind fun _ => failsIn_name.bind fun _ => (failsIn_check _).bind fun _ =>
    .ite ?_ (failsIn_pure _)
  exact (failsIn_arguments inner).bind fun _ => failsIn_pure _

theorem failsIn_methodCall (receiver : Expr) : FailsIn inner (methodCall inner receiver) := by
  unfold methodCall
  exact (failsIn_symbol (by decide)).bind fun _ => failsIn_name.bind fun _ => (failsIn_arguments inner).bind fun _ =>
    failsIn_pure _

theorem failsIn_links (base : Expr) : FailsIn inner (links inner base) := by
  refine failsIn_repeating (fun t round hr e => ?_) base
  obtain ⟨-, rfl⟩ | ⟨-, rfl⟩ | ⟨-, rfl⟩ := link?_eq_some hr
  · exact failsIn_call inner e
  · exact failsIn_member inner e
  · exact failsIn_methodCall inner e

theorem failsIn_field (fields : List Expr × List Entry) : FailsIn inner (field inner fields) := by
  unfold field
  refine .choice ?_ ((failsIn_expr _).bind fun _ => failsIn_pure _)
  exact failsIn_next.bind fun _ => failsIn_next.bind fun _ => (failsIn_expr _).bind fun _ => failsIn_pure _

theorem failsIn_fieldOrEnd (fields : List Expr × List Entry) : FailsIn inner (fieldOrEnd inner fields) := by
  unfold fieldOrEnd
  exact (failsIn_check _).bind fun _ => .ite (failsIn_pure _) (failsIn_field inner fields)

theorem failsIn_table : FailsIn inner (table inner) := by
  unfold table
  refine (failsIn_symbol (by decide)).bind fun _ => (failsIn_fieldOrEnd inner _).bind fun fields =>
    (failsIn_repeating (fun t round hr fields => ?_) fields).bind fun _ =>
      (failsIn_symbol (by decide)).bind fun _ => failsIn_pure _
  obtain ⟨-, rfl⟩ := nextField?_eq_some hr
  exact failsIn_next.bind fun _ => failsIn_fieldOrEnd inner fields

theorem failsIn_parameters : FailsIn inner parameters := failsIn_parenthesized failsIn_name

theorem failsIn_functionBody : FailsIn inner (functionBody inner) := by
  unfold functionBody
  exact (failsIn_parameters inner).bind fun _ => failsIn_block.bind fun _ => (failsIn_keyword (by decide)).bind fun _ =>
    failsIn_pure _

theorem failsIn_function : FailsIn inner (function inner) := by
  unfold function
  exact (failsIn_keyword (by decide)).bind fun _ => (failsIn_functionBody inner).bind fun _ => failsIn_pure _

theorem failsIn_operand : FailsIn inner (operand inner) := by
  refine failsIn_look (by decide) fun t => ?_
  split
  · exact failsIn_next.bind fun _ => (failsIn_expr _).bind fun _ => failsIn_pure _
  split
  · exact failsIn_primary inner
  · exact failsIn_primary inner
  · exact failsIn_primary inner
  · exact failsIn_primary inner
  · exact failsIn_next.bind fun _ => failsIn_links inner _
  · exact .ite ((failsIn_grouping inner).bind fun _ => failsIn_links inner _)
      (.ite (failsIn_table inner) (failsIn_unexpected (by decide)))
  · exact .ite (failsIn_function inner) (failsIn_unexpected (by decide))
  · exact failsIn_unexpected (by decide)

theorem failsIn_binary (left : Expr) (op : BinaryOp) (bound : Precedence) : FailsIn inner (binary inner left op bound) := by
  unfold binary
  exact failsIn_next.bind fun _ => (failsIn_expr _).bind fun _ => failsIn_pure _

theorem failsIn_climb (bound : Precedence) : FailsIn inner (climb inner bound) := by
  unfold climb
  refine (failsIn_operand inner).bind fun left => failsIn_repeating (fun t round hr left => ?_) left
  obtain ⟨op, -, -, rfl⟩ := tighter?_eq_some hr
  exact failsIn_binary inner left op _

/-! ## Statements -/

theorem failsIn_namedFunction : FailsIn inner (namedFunction inner) := by
  unfold namedFunction
  exact (failsIn_keyword (by decide)).bind fun _ => failsIn_name.bind fun _ => (failsIn_functionBody inner).bind fun _ =>
    failsIn_pure _

theorem failsIn_definition : FailsIn inner (definition inner) := by
  unfold definition
  exact (failsIn_namedFunction inner).bind fun _ => failsIn_pure _

theorem failsIn_localStmt : FailsIn inner (localStmt inner) := by
  rw [localStmt, localFunction_eq]
  refine (failsIn_keyword (by decide)).bind fun _ => (failsIn_check _).bind fun _ => .ite ?_ ?_
  · exact (failsIn_namedFunction inner).bind fun _ => failsIn_pure _
  · refine failsIn_name.bind fun _ => (failsIn_check _).bind fun _ => .ite ?_ (failsIn_pure _)
    exact failsIn_next.bind fun _ => (failsIn_expr _).bind fun _ => failsIn_pure _

theorem failsIn_assignment : FailsIn inner (assignment inner) := by
  unfold assignment
  exact failsIn_name.bind fun _ => (failsIn_operator (by decide)).bind fun _ => (failsIn_expr _).bind fun _ => failsIn_pure _

theorem failsIn_returnStmt : FailsIn inner (returnStmt inner) := by
  unfold returnStmt
  refine (failsIn_keyword (by decide)).bind fun _ => (failsIn_check _).bind fun _ => .ite ?_ (failsIn_pure _)
  exact (failsIn_separated (failsIn_expr _)).bind fun _ => failsIn_pure _

theorem failsIn_guarded : FailsIn inner (guarded inner) := by
  unfold guarded
  exact (failsIn_expr _).bind fun _ => (failsIn_keyword (by decide)).bind fun _ => failsIn_block.bind fun _ => failsIn_pure _

theorem failsIn_ifStmt : FailsIn inner (ifStmt inner) := by
  unfold ifStmt branch otherwise
  refine (failsIn_keyword (by decide)).bind fun _ => (failsIn_guarded inner).bind fun _ => (failsIn_many ?_).bind fun _ =>
    FailsIn.bind ?_ fun _ => (failsIn_keyword (by decide)).bind fun _ => failsIn_pure _
  · exact failsIn_next.bind fun _ => (failsIn_guarded inner).bind fun _ => failsIn_pure _
  · exact (failsIn_check _).bind fun _ => .ite (failsIn_next.bind fun _ => failsIn_block) (failsIn_pure _)

theorem failsIn_loopBody : FailsIn inner (loopBody inner) := by
  unfold loopBody
  exact (failsIn_keyword (by decide)).bind fun _ => failsIn_block.bind fun _ => (failsIn_keyword (by decide)).bind fun _ =>
    failsIn_pure _

theorem failsIn_whileStmt : FailsIn inner (whileStmt inner) := by
  unfold whileStmt
  exact (failsIn_keyword (by decide)).bind fun _ => (failsIn_expr _).bind fun _ => (failsIn_loopBody inner).bind fun _ =>
    failsIn_pure _

theorem failsIn_repeatStmt : FailsIn inner (repeatStmt inner) := by
  unfold repeatStmt
  exact (failsIn_keyword (by decide)).bind fun _ => failsIn_block.bind fun _ => (failsIn_keyword (by decide)).bind fun _ =>
    (failsIn_expr _).bind fun _ => failsIn_pure _

theorem failsIn_forRange (x : String) : FailsIn inner (forRange inner x) := by
  unfold forRange step
  refine failsIn_next.bind fun _ => (failsIn_expr _).bind fun _ => (failsIn_symbol (by decide)).bind fun _ =>
    (failsIn_expr _).bind fun _ => FailsIn.bind ?_ fun _ => (failsIn_loopBody inner).bind fun _ => failsIn_pure _
  refine (failsIn_check _).bind fun _ => .ite ?_ (failsIn_pure _)
  exact failsIn_next.bind fun _ => (failsIn_expr _).bind fun _ => failsIn_pure _

theorem failsIn_valueName : FailsIn inner valueName := by
  unfold valueName
  refine (failsIn_check _).bind fun _ => .ite ?_ ((failsIn_check _).bind fun _ => .ite (failsIn_pure _) ?_)
  · exact failsIn_next.bind fun _ => failsIn_name.bind fun _ => failsIn_pure _
  · rintro ts _ ⟨⟩
    exact .here (by decide : Expectation.loopHeader ∈ Expectation.wants)

theorem failsIn_forStmt : FailsIn inner (forStmt inner) := by
  unfold forStmt forIn
  refine (failsIn_keyword (by decide)).bind fun _ => failsIn_name.bind fun _ => (failsIn_check _).bind fun _ =>
    .ite (failsIn_forRange inner _) ?_
  exact (failsIn_valueName inner).bind fun _ => (failsIn_keyword (by decide)).bind fun _ => (failsIn_expr _).bind fun _ =>
    (failsIn_loopBody inner).bind fun _ => failsIn_pure _

theorem failsIn_headed (head : StmtHead) : FailsIn inner (headed inner head) := by
  cases head with
  | function => exact (failsIn_definition inner).map
  | localVar => exact failsIn_localStmt inner
  | ret => exact failsIn_returnStmt inner
  | ifThen => exact failsIn_ifStmt inner
  | forLoop => exact failsIn_forStmt inner
  | whileLoop => exact failsIn_whileStmt inner
  | repeatLoop => exact failsIn_repeatStmt inner

theorem failsIn_nameStmt : FailsIn inner (nameStmt inner) := by
  have hend : FailsIn inner (next >>= fun _ => (fail (.unexpected .assignmentOrCall) : Parser Stmt)) :=
    failsIn_next.bind fun _ => failsIn_unexpected (by decide)
  intro ts e h
  match ts with
  | [] => exact hend _ _ h
  | [t] => exact hend _ _ h
  | t :: u :: us =>
    rcases nameStmt_dispatch inner u with ⟨-, hrun⟩ | ⟨-, hrun⟩ | hrun
    · exact failsIn_assignment inner _ _ ((hrun t us).symm.trans h)
    · exact (failsIn_expr _).map _ _ ((hrun t us).symm.trans h)
    · exact failsIn_unexpected (by decide : Expectation.statementOrExpression ∈ _) _ _ ((hrun t us).symm.trans h)

theorem failsIn_stmt : FailsIn inner (stmt inner) := by
  refine failsIn_look (by decide) fun t => ?_
  split
  · split
    · exact failsIn_headed inner _
    · exact failsIn_unexpected (by decide)
  · exact failsIn_nameStmt inner
  · exact failsIn_unexpected (by decide)

theorem failsIn_stmts (test : Token → Bool) : FailsIn inner (many test (stmt inner)) := failsIn_many (failsIn_stmt inner)

end
end Parser

/-! ## Levels -/

open MiniLua.Parser

/-- All failures of what is nested are of some sort. -/
structure Inner.Fails (P : Failure → Prop) (inner : Inner) : Prop where
  expr : ∀ bound ts e, inner.expr bound ts = .error e → P e
  argument : ∀ ts e, inner.argument ts = .error e → P e
  block : ∀ ts e, inner.block ts = .error e → P e

theorem Arises.of_fails {P : Failure → Prop} {inner : Inner} {e : Failure} (h : Arises inner e) (hi : inner.Fails P)
    (here : ∀ fault ts, fault.Plain → P ⟨fault, ts, 0⟩) : P e := by
  cases h with
  | here h => exact here _ _ h
  | expr h => exact hi.expr _ _ _ h
  | argument h => exact hi.argument _ _ h
  | block h => exact hi.block _ _ h

/-- An argument fails only as the expression that it would be. -/
theorem argument_eq_error {expr : Parser Expr} {ts : List Token} {e : Failure} (h : argument expr ts = .error e) :
    expr ts = .error e := by
  unfold argument at h
  split at h
  · next hlone =>
    cases ts with
    | nil => cases hlone
    | cons t ts =>
      obtain ⟨x, hx⟩ := primary_of_startsLone hlone
      rw [hx] at h
      cases h
  · exact h

/-- What holds of a want of levels, of the productions' own failures, and one level further out of
whatever it holds of, holds of all failures. -/
theorem Inner.ofLevels_fails {P : Nat → Failure → Prop} (tooDeep : ∀ ts, P 0 ⟨.tooDeep, ts, 0⟩)
    (here : ∀ n fault ts, fault.Plain → P n ⟨fault, ts, 0⟩)
    (nested : ∀ n e, P n e → P (n + 1) { e with levels := e.levels + 1 }) (n : Nat) : (ofLevels n).Fails (P n) := by
  have hof : ∀ {n : Nat} {expr : Precedence → Parser Expr} {block : Parser (List Stmt)},
      (∀ bound ts e, expr bound ts = .error e → P n e) → (∀ ts e, block ts = .error e → P n e) →
      (Inner.of expr block).Fails (P n) :=
    fun hexpr hblock => ⟨hexpr, fun ts e h => hexpr _ ts e (argument_eq_error h), hblock⟩
  induction n with
  | zero =>
    refine hof ?_ ?_
    · rintro bound ts _ ⟨⟩
      exact tooDeep ts
    · rintro ts _ ⟨⟩
      exact tooDeep ts
  | succ n ih =>
    have hnested : ∀ {α : Type} {p : Parser α}, FailsIn (ofLevels n) p → ∀ ts e, Parser.nested p ts = .error e → P (n + 1) e := by
      intro α p hp ts e h
      unfold Parser.nested at h
      split at h
      · cases h
      · next hrun =>
        cases h
        exact nested n _ ((hp _ _ hrun).of_fails ih (here n))
    exact hof (fun bound => hnested (failsIn_climb _ bound)) (hnested (failsIn_stmts _ _))

/-- A program fails where levels run out, or for something that the grammar wants. -/
theorem program_fails {limit : Nat} {ts : List Token} {e : Failure} (h : program (.ofLevels limit) ts = .error e) :
    e.fault = .tooDeep ∨ e.fault.Plain := by
  have hfails : (Inner.ofLevels limit).Fails fun e => e.fault = .tooDeep ∨ e.fault.Plain :=
    Inner.ofLevels_fails (P := fun _ e => e.fault = .tooDeep ∨ e.fault.Plain) (fun _ => .inl rfl) (fun _ _ _ h => .inr h)
      (fun _ _ h => h) limit
  exact (failsIn_stmts _ _ _ _ h).of_fails hfails fun _ _ h => .inr h

/-- What a cause says was wanted is something that the grammar wants, and the limit it names is the one set. -/
def ParseError.Cause.Wants (limit : Nat) : ParseError.Cause → Prop
  | unexpectedToken _ => True
  | expectedToken expected _ | unexpectedEnd expected => ∃ wanted ∈ Expectation.wants, wanted.text = expected
  | nestingTooDeep n => n = limit

theorem Fault.cause_wants {fault : Fault} (h : fault = .tooDeep ∨ fault.Plain) (limit : Nat) (rest : List Token) :
    (fault.cause limit rest).Wants limit := by
  rcases h with rfl | h
  · rfl
  · cases fault with
    | unexpected wanted =>
      cases rest with
      | nil => exact ⟨wanted, h, rfl⟩
      | cons t rest => trivial
    | expected wanted => cases rest <;> exact ⟨wanted, h, rfl⟩
    | tooDeep => exact h.elim

theorem parseWithin_error_wants {limit : Nat} {ts : List Token} {file : String} {e : ParseError}
    (h : parseWithin limit ts file = .error e) : e.cause.Wants limit := by
  obtain ⟨failure, hfailure, rfl⟩ := parseWithin_eq_error.1 h
  exact Fault.cause_wants (program_fails hfailure) limit failure.rest

end MiniLua
