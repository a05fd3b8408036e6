import MiniLua.Proofs.Reading.Relation
import MiniLua.Proofs.Syntax.First
/-!
# Where an input may end

Some facts hold of a production only if it does not end with what is nested in a block, since
at the end of the input a block is over and what comes after it would be another statement.
For these there are two relations between parsers: a weak one that every production keeps, and
a strong one for productions that the end of the input leaves complete. What is only weakly
related becomes strongly related once a token has to come behind it (`Ending.close`). So blocks
need to be weakly related only, and every statement but a `return` is strongly related.

A test of the next token is strongly related if no token passes it with which a statement
starts: then it makes no difference whether the input ends or another statement begins.
-/

namespace MiniLua.Parser

open MiniLua.Syntax

variable {W S : {α : Type} → Parser α → Parser α → Prop} {inner inner' : Inner}

/-! ## Parsers that need a token -/

/-- At the end of the input a parser fails there. -/
def FailsAtEnd {α : Type} (p : Parser α) : Prop := ∃ e, p [] = .error e ∧ e.rest = []

theorem Takes.failsAtEnd {α : Type} {p : Parser α} {k : Nat} (h : p.Takes 1 k) : FailsAtEnd p := by
  cases hp : p [] with
  | ok r =>
    have := h.length_of_ok hp
    simp only [List.length_nil] at this
    omega
  | error e => exact ⟨e, hp, List.suffix_nil.1 (h.suffix_of_error hp)⟩

/-- As running it there shows. -/
theorem FailsAtEnd.of_run {α : Type} {p : Parser α} {fault : Fault} (h : p [] = .error ⟨fault, [], 0⟩) : FailsAtEnd p :=
  ⟨_, h, rfl⟩

/-- No statement starts with a token that passes the test, and no operator or link either way. -/
def Settled (test : Token → Bool) : Prop := ∀ t, Separates t → test t = false

theorem settled_symbol (text : String) : Settled (·.isSymbol text) := fun _ ht => ht.isSymbol_eq_false text

theorem settled_operator (text : String) : Settled (·.isOperator text) := fun _ ht => ht.isOperator_eq_false text

theorem settled_link (inner : Inner) : Settled fun t => (link? inner t).isSome := by
  intro t ht
  simp only [((continuesExpr_eq_false_iff inner).1 ht.continuesExpr_eq_false).1, Option.isSome_none]

theorem settled_tighter (inner : Inner) (bound : Precedence) : Settled fun t => (tighter? inner bound t).isSome := by
  intro t ht
  have hop := ((continuesExpr_eq_false_iff inner).1 ht.continuesExpr_eq_false).2
  have hnone : tighter? inner bound t = none := tighter?_eq_none_iff.2 (by simp [hop])
  simp only [hnone, Option.isSome_none]

/-! ## The two relations -/

/-- The combinators keep a strong relation, which a weak one becomes before a token. -/
structure Ending (W S : {α : Type} → Parser α → Parser α → Prop) : Prop where
  weak : Congruence @W
  pure : ∀ {α : Type} (a : α), S (Pure.pure a) (Pure.pure a)
  bind : ∀ {α β : Type} {p p' : Parser α} {f f' : α → Parser β}, S p p' → (∀ a, S (f a) (f' a)) →
    S (p >>= f) (p' >>= f')
  fail : ∀ {α : Type} (fault : Fault), fault ≠ .tooDeep → S (Parser.fail fault : Parser α) (Parser.fail fault)
  next : S Parser.next Parser.next
  satisfy : ∀ (wanted : Expectation) (test : Token → Bool),
    S (Parser.satisfy wanted test) (Parser.satisfy wanted test)
  check : ∀ {test : Token → Bool}, Settled test → S (Parser.check test) (Parser.check test)
  look : ∀ {α : Type} (wanted : Expectation) {go go' : Token → Parser α}, (∀ t, S (go t) (go' t)) →
    S (Parser.look wanted go) (Parser.look wanted go')
  repeating : ∀ {α : Type} {round? round?' : Token → Option (α → Parser α)},
    Progressive round? → Progressive round?' → Settled (fun t => (round? t).isSome) →
    (∀ t, Option.Rel (fun r r' => ∀ a, S (r a) (r' a)) (round? t) (round?' t)) →
    ∀ a, S (Parser.repeating round? a) (Parser.repeating round?' a)
  close : ∀ {α β : Type} {p p' : Parser α} {f f' : α → Parser β}, W p p' →
    (∀ a, FailsAtEnd (f a) ∧ FailsAtEnd (f' a)) → (∀ a, S (f a) (f' a)) → S (p >>= f) (p' >>= f')

/-- What is nested in two productions is weakly related, expressions strongly. -/
structure AgreeToEnd (W S : {α : Type} → Parser α → Parser α → Prop) (inner inner' : Inner) : Prop where
  weak : Agree @W inner inner'
  expr : ∀ bound, S (inner.expr bound) (inner'.expr bound)

namespace Ending

variable (hS : Ending @W @S)
include hS

/-! ## More combinators -/

section
variable {α β : Type} {p p' : Parser α}

theorem map (g : α → β) (hp : S p p') : S (g <$> p) (g <$> p') := by
  rw [map_eq_pure_bind, map_eq_pure_bind]
  exact hS.bind hp fun a => hS.pure _

set_option linter.unusedSectionVars false in
theorem ite {b : Prop} [Decidable b] {q q' : Parser α} (hp : S p p') (hq : S q q') :
    S (if b then p else q) (if b then p' else q') := by
  split
  · exact hp
  · exact hq

theorem keyword (word : String) : S (Parser.keyword word) (Parser.keyword word) := hS.satisfy _ _

theorem symbol (text : String) : S (Parser.symbol text) (Parser.symbol text) := hS.satisfy _ _

theorem operator (text : String) : S (Parser.operator text) (Parser.operator text) := hS.satisfy _ _

theorem name : S Parser.name Parser.name := hS.map _ (hS.satisfy _ _)

theorem many {test : Token → Bool} (htest : Settled test) (ht : p.Takes 1 0) (ht' : p'.Takes 1 0) (hp : S p p') :
    S (Parser.many test p) (Parser.many test p') := by
  unfold Parser.many
  refine hS.bind (hS.repeating (progressive_many ht test) (progressive_many ht' test) ?_ (fun t => ?_) []) fun _ => hS.pure _
  · intro t hsep
    simp [htest t hsep]
  · split
    · exact .some fun _ => hS.map _ hp
    · exact .none

theorem separated (ht : p.Takes 1 0) (ht' : p'.Takes 1 0) (hp : S p p') :
    S (Parser.separated p) (Parser.separated p') := by
  unfold Parser.separated
  refine hS.bind hp fun _ => hS.bind (hS.many (settled_symbol ",") ?_ ?_ (hS.bind hS.next fun _ => hp)) fun _ => hS.pure _
  · exact (takes_next.bind fun _ => ht).of_le (by omega) (Nat.le_refl 0)
  · exact (takes_next.bind fun _ => ht').of_le (by omega) (Nat.le_refl 0)

/-- The parenthesis comes behind the items. -/
theorem parenthesized (ht : p.Takes 1 0) (ht' : p'.Takes 1 0) (hp : W p p') :
    S (Parser.parenthesized p) (Parser.parenthesized p') := by
  unfold Parser.parenthesized
  refine hS.bind (hS.symbol _) fun _ => hS.bind (hS.check (settled_symbol ")")) fun _ => hS.ite ?_ ?_
  · exact hS.bind hS.next fun _ => hS.pure _
  · exact hS.close (hS.weak.separated ht ht' hp) (fun _ => ⟨.of_run rfl, .of_run rfl⟩) fun _ => hS.bind (hS.symbol _) fun _ => hS.pure _
end

/-! ## Expressions -/

theorem primary : S Parser.primary Parser.primary := by
  unfold Parser.primary
  refine hS.look _ fun t => ?_
  split
  · exact hS.bind hS.next fun _ => hS.pure _
  · exact hS.ite (hS.bind hS.next fun _ => hS.pure _) (hS.fail _ nofun)

variable (h : AgreeToEnd @W @S inner inner')
include h

theorem grouping : S (grouping inner) (Parser.grouping inner') := by
  unfold Parser.grouping
  exact hS.bind (hS.symbol _) fun _ => hS.bind (h.expr _) fun _ => hS.bind (hS.symbol _) fun _ => hS.pure _

theorem arguments : S (arguments inner) (Parser.arguments inner') :=
  hS.parenthesized h.weak.takes.argument h.weak.takes'.argument h.weak.argument

theorem call (e : Expr) : S (call inner e) (Parser.call inner' e) := by
  unfold Parser.call
  exact hS.bind (hS.arguments h) fun _ => hS.pure _

theorem member (e : Expr) : S (member inner e) (Parser.member inner' e) := by
  unfold Parser.member
  refine hS.bind (hS.symbol _) fun _ => hS.bind hS.name fun _ => hS.bind (hS.check (settled_symbol "(")) fun _ =>
    hS.ite ?_ (hS.pure _)
  exact hS.bind (hS.arguments h) fun _ => hS.pure _

theorem methodCall (e : Expr) : S (methodCall inner e) (Parser.methodCall inner' e) := by
  unfold Parser.methodCall
  exact hS.bind (hS.symbol _) fun _ => hS.bind hS.name fun _ => hS.bind (hS.arguments h) fun _ => hS.pure _

theorem links (e : Expr) : S (links inner e) (Parser.links inner' e) := by
  refine hS.repeating (progressive_link h.weak.takes) (progressive_link h.weak.takes') (settled_link inner) (fun t => ?_) e
  unfold link?
  split
  · exact .some (hS.call h)
  · split
    · exact .some (hS.member h)
    · split
      · exact .some (hS.methodCall h)
      · exact .none

theorem table : S (table inner) (Parser.table inner') := by
  unfold Parser.table
  exact hS.bind (hS.symbol _) fun _ => hS.close (hS.weak.fieldOrEnd h.weak _) (fun _ => ⟨.of_run rfl, .of_run rfl⟩) fun fields =>
    hS.close (hS.weak.nextFields h.weak fields) (fun _ => ⟨.of_run rfl, .of_run rfl⟩) fun _ =>
    hS.bind (hS.symbol _) fun _ => hS.pure _

theorem functionBody : S (functionBody inner) (Parser.functionBody inner') := by
  unfold Parser.functionBody parameters
  exact hS.bind (hS.parenthesized takes_name takes_name hS.weak.name) fun _ =>
    hS.close h.weak.block (fun _ => ⟨.of_run rfl, .of_run rfl⟩) fun _ => hS.bind (hS.keyword _) fun _ => hS.pure _

theorem function : S (function inner) (Parser.function inner') := by
  unfold Parser.function
  exact hS.bind (hS.keyword _) fun _ => hS.bind (hS.functionBody h) fun _ => hS.pure _

theorem operand : S (operand inner) (Parser.operand inner') := by
  unfold Parser.operand
  refine hS.look _ fun t => ?_
  split
  · exact hS.bind hS.next fun _ => hS.bind (h.expr _) fun _ => hS.pure _
  · split
    · exact hS.primary
    · exact hS.primary
    · exact hS.primary
    · exact hS.primary
    · exact hS.bind hS.next fun _ => hS.links h _
    · exact hS.ite (hS.bind (hS.grouping h) fun _ => hS.links h _) (hS.ite (hS.table h) (hS.fail _ nofun))
    · exact hS.ite (hS.function h) (hS.fail _ nofun)
    · exact hS.fail _ nofun

theorem binary (left : Expr) (op : BinaryOp) (bound : Precedence) :
    S (binary inner left op bound) (Parser.binary inner' left op bound) := by
  unfold Parser.binary
  exact hS.bind hS.next fun _ => hS.bind (h.expr _) fun _ => hS.pure _

theorem climb (bound : Precedence) : S (climb inner bound) (Parser.climb inner' bound) := by
  unfold Parser.climb
  refine hS.bind (hS.operand h) fun left => hS.repeating (progressive_tighter h.weak.takes bound)
    (progressive_tighter h.weak.takes' bound) (settled_tighter inner bound) (fun t => ?_) left
  unfold tighter?
  split
  · split
    · exact .none
    · exact .some fun _ => hS.binary h _ _ _
  · exact .none

/-! ## Statements -/

theorem namedFunction : S (namedFunction inner) (Parser.namedFunction inner') := by
  unfold Parser.namedFunction
  exact hS.bind (hS.keyword _) fun _ => hS.bind hS.name fun _ => hS.bind (hS.functionBody h) fun _ => hS.pure _

/-- Behind `local` something has to come, so what `function` stands for there is settled. -/
theorem localStmt : S (localStmt inner) (Parser.localStmt inner') := by
  rw [Parser.localStmt, Parser.localStmt, localFunction_eq, localFunction_eq]
  refine hS.bind (hS.keyword _) fun _ => hS.close (hS.weak.check _) (fun b => ?_) fun _ => hS.ite ?_ ?_
  · cases b <;> exact ⟨.of_run rfl, .of_run rfl⟩
  · exact hS.bind (hS.namedFunction h) fun _ => hS.pure _
  · refine hS.bind hS.name fun _ => hS.bind (hS.check (settled_operator "=")) fun _ => hS.ite ?_ (hS.pure _)
    exact hS.bind hS.next fun _ => hS.bind (h.expr _) fun _ => hS.pure _

theorem assignment : S (assignment inner) (Parser.assignment inner') := by
  unfold Parser.assignment
  exact hS.bind hS.name fun _ => hS.bind (hS.operator _) fun _ => hS.bind (h.expr _) fun _ => hS.pure _

theorem ifStmt : S (ifStmt inner) (Parser.ifStmt inner') := by
  unfold Parser.ifStmt
  refine hS.bind (hS.keyword _) fun _ => hS.close (hS.weak.guarded h.weak) (fun _ => ⟨.of_run rfl, .of_run rfl⟩) fun _ =>
    hS.close (hS.weak.branches h.weak) (fun _ => ⟨.of_run rfl, .of_run rfl⟩) fun _ =>
    hS.close (hS.weak.otherwise h.weak) (fun _ => ⟨.of_run rfl, .of_run rfl⟩) fun _ => hS.bind (hS.keyword _) fun _ => hS.pure _

theorem loopBody : S (loopBody inner) (Parser.loopBody inner') := by
  unfold Parser.loopBody
  exact hS.bind (hS.keyword _) fun _ => hS.close h.weak.block (fun _ => ⟨.of_run rfl, .of_run rfl⟩) fun _ =>
    hS.bind (hS.keyword _) fun _ => hS.pure _

theorem whileStmt : S (whileStmt inner) (Parser.whileStmt inner') := by
  unfold Parser.whileStmt
  exact hS.bind (hS.keyword _) fun _ => hS.bind (h.expr _) fun _ => hS.bind (hS.loopBody h) fun _ => hS.pure _

theorem repeatStmt : S (repeatStmt inner) (Parser.repeatStmt inner') := by
  unfold Parser.repeatStmt
  exact hS.bind (hS.keyword _) fun _ => hS.close h.weak.block (fun _ => ⟨.of_run rfl, .of_run rfl⟩) fun _ =>
    hS.bind (hS.keyword _) fun _ => hS.bind (h.expr _) fun _ => hS.pure _

theorem forRange (x : String) : S (forRange inner x) (Parser.forRange inner' x) := by
  unfold Parser.forRange step
  refine hS.bind hS.next fun _ => hS.bind (h.expr _) fun _ => hS.bind (hS.symbol _) fun _ => hS.bind (h.expr _) fun _ =>
    hS.bind (hS.bind (hS.check (settled_symbol ",")) fun _ => hS.ite ?_ (hS.pure _)) fun _ =>
    hS.bind (hS.loopBody h) fun _ => hS.pure _
  exact hS.bind hS.next fun _ => hS.bind (h.expr _) fun _ => hS.pure _

theorem forIn (key : String) : S (forIn inner key) (Parser.forIn inner' key) := by
  unfold Parser.forIn
  exact hS.close hS.weak.valueName (fun _ => ⟨.of_run rfl, .of_run rfl⟩) fun _ => hS.bind (hS.keyword _) fun _ =>
    hS.bind (h.expr _) fun _ => hS.bind (hS.loopBody h) fun _ => hS.pure _

theorem forStmt : S (forStmt inner) (Parser.forStmt inner') := by
  unfold Parser.forStmt
  exact hS.bind (hS.keyword _) fun _ => hS.bind hS.name fun _ => hS.bind (hS.check (settled_operator "=")) fun _ =>
    hS.ite (hS.forRange h _) (hS.forIn h _)

/-- A `return` is left out, since without values it is complete only at the end of its block. -/
theorem headed {head : StmtHead} (hr : head = .ret → S (returnStmt inner) (returnStmt inner')) :
    S (headed inner head) (Parser.headed inner' head) := by
  cases head with
  | function => exact hS.map _ (hS.bind (hS.namedFunction h) fun _ => hS.pure _)
  | localVar => exact hS.localStmt h
  | ret => exact hr rfl
  | ifThen => exact hS.ifStmt h
  | forLoop => exact hS.forStmt h
  | whileLoop => exact hS.whileStmt h
  | repeatLoop => exact hS.repeatStmt h

theorem stmt (hr : S (returnStmt inner) (returnStmt inner')) (hn : S (nameStmt inner) (nameStmt inner')) :
    S (stmt inner) (Parser.stmt inner') := by
  unfold Parser.stmt
  refine hS.look _ fun t => ?_
  split
  · split
    · exact hS.headed h fun _ => hr
    · exact hS.fail _ nofun
  · exact hn
  · exact hS.fail _ nofun

end Ending

end MiniLua.Parser
