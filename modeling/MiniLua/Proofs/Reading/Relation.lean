import MiniLua.Proofs.Reading.Progress
/-!
# Relations between readings

Many facts compare two runs of one production: with more levels or fewer, on inputs
that differ past a place. What they have in common is proved once. A relation between
parsers that the combinators keep (`Congruence`) is kept by every production, if
what is nested is related (`Agree`).

Two productions look two tokens ahead, a field of a table and a statement that starts
with a name. No combinator covers that, so whoever has a relation shows it for these
himself: for fields in `Agree`, for statements as a hypothesis of `block` and `program`.
-/

namespace MiniLua.Parser

/-- The combinators keep a relation between parsers. The rounds of a loop may be taken to
make progress. -/
structure Congruence (R : {α : Type} → Parser α → Parser α → Prop) : Prop where
  pure : ∀ {α : Type} (a : α), R (Pure.pure a) (Pure.pure a)
  bind : ∀ {α β : Type} {p p' : Parser α} {f f' : α → Parser β}, R p p' → (∀ a, R (f a) (f' a)) →
    R (p >>= f) (p' >>= f')
  fail : ∀ {α : Type} (fault : Fault), fault ≠ .tooDeep → R (Parser.fail fault : Parser α) (Parser.fail fault)
  next : R Parser.next Parser.next
  satisfy : ∀ (wanted : Expectation) (test : Token → Bool),
    R (Parser.satisfy wanted test) (Parser.satisfy wanted test)
  check : ∀ test : Token → Bool, R (Parser.check test) (Parser.check test)
  look : ∀ {α : Type} (wanted : Expectation) {go go' : Token → Parser α}, (∀ t, R (go t) (go' t)) →
    R (Parser.look wanted go) (Parser.look wanted go')
  repeating : ∀ {α : Type} {round? round?' : Token → Option (α → Parser α)},
    Progressive round? → Progressive round?' →
    (∀ t, Option.Rel (fun r r' => ∀ a, R (r a) (r' a)) (round? t) (round?' t)) →
    ∀ a, R (Parser.repeating round? a) (Parser.repeating round?' a)

/-- What is nested in two productions is related, and so are the fields of their tables. -/
structure Agree (R : {α : Type} → Parser α → Parser α → Prop) (inner inner' : Inner) : Prop where
  takes : inner.Takes 0
  takes' : inner'.Takes 0
  expr : ∀ bound, R (inner.expr bound) (inner'.expr bound)
  argument : R inner.argument inner'.argument
  block : R inner.block inner'.block
  field : ∀ fields, R (field inner fields) (field inner' fields)

namespace Congruence

variable {R : {α : Type} → Parser α → Parser α → Prop} (hR : Congruence @R) {inner inner' : Inner}
include hR

/-! ## More combinators -/

section
variable {α β : Type} {p p' : Parser α}

theorem map (g : α → β) (hp : R p p') : R (g <$> p) (g <$> p') := by
  rw [map_eq_pure_bind, map_eq_pure_bind]
  exact hR.bind hp fun a => hR.pure _

set_option linter.unusedSectionVars false in
theorem ite {b : Prop} [Decidable b] {q q' : Parser α} (hp : R p p') (hq : R q q') :
    R (if b then p else q) (if b then p' else q') := by
  split
  · exact hp
  · exact hq

theorem keyword (word : String) : R (Parser.keyword word) (Parser.keyword word) := hR.satisfy _ _

theorem symbol (text : String) : R (Parser.symbol text) (Parser.symbol text) := hR.satisfy _ _

theorem operator (text : String) : R (Parser.operator text) (Parser.operator text) := hR.satisfy _ _

theorem name : R Parser.name Parser.name := hR.map _ (hR.satisfy _ _)

theorem many (test : Token → Bool) (ht : p.Takes 1 0) (ht' : p'.Takes 1 0) (hp : R p p') :
    R (Parser.many test p) (Parser.many test p') := by
  unfold Parser.many
  refine hR.bind (hR.repeating (progressive_many ht test) (progressive_many ht' test) (fun t => ?_) []) fun _ => hR.pure _
  split
  · exact .some fun _ => hR.map _ hp
  · exact .none

theorem separated (ht : p.Takes 1 0) (ht' : p'.Takes 1 0) (hp : R p p') :
    R (Parser.separated p) (Parser.separated p') := by
  unfold Parser.separated
  refine hR.bind hp fun _ => hR.bind (hR.many _ ?_ ?_ (hR.bind hR.next fun _ => hp)) fun _ => hR.pure _
  · exact (takes_next.bind fun _ => ht).of_le (by omega) (Nat.le_refl 0)
  · exact (takes_next.bind fun _ => ht').of_le (by omega) (Nat.le_refl 0)

theorem parenthesized (ht : p.Takes 1 0) (ht' : p'.Takes 1 0) (hp : R p p') :
    R (Parser.parenthesized p) (Parser.parenthesized p') := by
  unfold Parser.parenthesized
  refine hR.bind (hR.symbol _) fun _ => hR.bind (hR.check _) fun _ => hR.ite ?_ ?_
  · exact hR.bind hR.next fun _ => hR.pure _
  · exact hR.bind (hR.separated ht ht' hp) fun _ => hR.bind (hR.symbol _) fun _ => hR.pure _
end

/-! ## Expressions -/

theorem primary : R Parser.primary Parser.primary := by
  unfold Parser.primary
  refine hR.look _ fun t => ?_
  split
  · exact hR.bind hR.next fun _ => hR.pure _
  · exact hR.ite (hR.bind hR.next fun _ => hR.pure _) (hR.fail _ nofun)

theorem valueName : R Parser.valueName Parser.valueName := by
  unfold Parser.valueName
  refine hR.bind (hR.check _) fun _ => hR.ite ?_ ?_
  · exact hR.bind hR.next fun _ => hR.bind hR.name fun _ => hR.pure _
  · exact hR.bind (hR.check _) fun _ => hR.ite (hR.pure _) (hR.fail _ nofun)

variable (h : Agree @R inner inner')
include h

theorem grouping : R (grouping inner) (Parser.grouping inner') := by
  unfold Parser.grouping
  exact hR.bind (hR.symbol _) fun _ => hR.bind (h.expr _) fun _ => hR.bind (hR.symbol _) fun _ => hR.pure _

theorem arguments : R (arguments inner) (Parser.arguments inner') :=
  hR.parenthesized h.takes.argument h.takes'.argument h.argument

theorem call (e : Expr) : R (call inner e) (Parser.call inner' e) := by
  unfold Parser.call
  exact hR.bind (hR.arguments h) fun _ => hR.pure _

theorem member (e : Expr) : R (member inner e) (Parser.member inner' e) := by
  unfold Parser.member
  refine hR.bind (hR.symbol _) fun _ => hR.bind hR.name fun _ => hR.bind (hR.check _) fun _ => hR.ite ?_ (hR.pure _)
  exact hR.bind (hR.arguments h) fun _ => hR.pure _

theorem methodCall (e : Expr) : R (methodCall inner e) (Parser.methodCall inner' e) := by
  unfold Parser.methodCall
  exact hR.bind (hR.symbol _) fun _ => hR.bind hR.name fun _ => hR.bind (hR.arguments h) fun _ => hR.pure _

theorem links (e : Expr) : R (links inner e) (Parser.links inner' e) := by
  refine hR.repeating (progressive_link h.takes) (progressive_link h.takes') (fun t => ?_) e
  unfold link?
  split
  · exact .some (hR.call h)
  · split
    · exact .some (hR.member h)
    · split
      · exact .some (hR.methodCall h)
      · exact .none

theorem fieldOrEnd (fields : List Expr × List Entry) : R (fieldOrEnd inner fields) (Parser.fieldOrEnd inner' fields) := by
  unfold Parser.fieldOrEnd
  exact hR.bind (hR.check _) fun _ => hR.ite (hR.pure _) (h.field _)

theorem nextFields (fields : List Expr × List Entry) :
    R (Parser.repeating (nextField? inner) fields) (Parser.repeating (nextField? inner') fields) := by
  refine hR.repeating (progressive_nextField h.takes) (progressive_nextField h.takes') (fun t => ?_) fields
  unfold nextField?
  split
  · exact .some fun _ => hR.bind hR.next fun _ => hR.fieldOrEnd h _
  · exact .none

theorem table : R (table inner) (Parser.table inner') := by
  unfold Parser.table
  exact hR.bind (hR.symbol _) fun _ => hR.bind (hR.fieldOrEnd h _) fun fields => hR.bind (hR.nextFields h fields) fun _ =>
    hR.bind (hR.symbol _) fun _ => hR.pure _

theorem functionBody : R (functionBody inner) (Parser.functionBody inner') := by
  unfold Parser.functionBody parameters
  exact hR.bind (hR.parenthesized takes_name takes_name hR.name) fun _ => hR.bind h.block fun _ =>
    hR.bind (hR.keyword _) fun _ => hR.pure _

theorem function : R (function inner) (Parser.function inner') := by
  unfold Parser.function
  exact hR.bind (hR.keyword _) fun _ => hR.bind (hR.functionBody h) fun _ => hR.pure _

theorem operand : R (operand inner) (Parser.operand inner') := by
  unfold Parser.operand
  refine hR.look _ fun t => ?_
  split
  · exact hR.bind hR.next fun _ => hR.bind (h.expr _) fun _ => hR.pure _
  · split
    · exact hR.primary
    · exact hR.primary
    · exact hR.primary
    · exact hR.primary
    · exact hR.bind hR.next fun _ => hR.links h _
    · exact hR.ite (hR.bind (hR.grouping h) fun _ => hR.links h _) (hR.ite (hR.table h) (hR.fail _ nofun))
    · exact hR.ite (hR.function h) (hR.fail _ nofun)
    · exact hR.fail _ nofun

theorem binary (left : Expr) (op : BinaryOp) (bound : Precedence) :
    R (binary inner left op bound) (Parser.binary inner' left op bound) := by
  unfold Parser.binary
  exact hR.bind hR.next fun _ => hR.bind (h.expr _) fun _ => hR.pure _

theorem climb (bound : Precedence) : R (climb inner bound) (Parser.climb inner' bound) := by
  unfold Parser.climb
  refine hR.bind (hR.operand h) fun left =>
    hR.repeating (progressive_tighter h.takes bound) (progressive_tighter h.takes' bound) (fun t => ?_) left
  unfold tighter?
  split
  · split
    · exact .none
    · exact .some fun _ => hR.binary h _ _ _
  · exact .none

/-! ## Statements -/

theorem namedFunction : R (namedFunction inner) (Parser.namedFunction inner') := by
  unfold Parser.namedFunction
  exact hR.bind (hR.keyword _) fun _ => hR.bind hR.name fun _ => hR.bind (hR.functionBody h) fun _ => hR.pure _

theorem localStmt : R (localStmt inner) (Parser.localStmt inner') := by
  rw [Parser.localStmt, Parser.localStmt, localFunction_eq, localFunction_eq]
  refine hR.bind (hR.keyword _) fun _ => hR.bind (hR.check _) fun _ => hR.ite ?_ ?_
  · exact hR.bind (hR.namedFunction h) fun _ => hR.pure _
  · refine hR.bind hR.name fun _ => hR.bind (hR.check _) fun _ => hR.ite ?_ (hR.pure _)
    exact hR.bind hR.next fun _ => hR.bind (h.expr _) fun _ => hR.pure _

theorem assignment : R (assignment inner) (Parser.assignment inner') := by
  unfold Parser.assignment
  exact hR.bind hR.name fun _ => hR.bind (hR.operator _) fun _ => hR.bind (h.expr _) fun _ => hR.pure _

theorem returnStmt : R (returnStmt inner) (Parser.returnStmt inner') := by
  unfold Parser.returnStmt
  refine hR.bind (hR.keyword _) fun _ => hR.bind (hR.check _) fun _ => hR.ite ?_ (hR.pure _)
  exact hR.bind (hR.separated (h.takes.expr _) (h.takes'.expr _) (h.expr _)) fun _ => hR.pure _

theorem guarded : R (guarded inner) (Parser.guarded inner') := by
  unfold Parser.guarded
  exact hR.bind (h.expr _) fun _ => hR.bind (hR.keyword _) fun _ => hR.bind h.block fun _ => hR.pure _

theorem branch : R (branch inner) (Parser.branch inner') := by
  unfold Parser.branch
  exact hR.bind hR.next fun _ => hR.bind (hR.guarded h) fun _ => hR.pure _

theorem branches :
    R (Parser.many (·.isKeyword "elseif") (Parser.branch inner)) (Parser.many (·.isKeyword "elseif") (Parser.branch inner')) :=
  hR.many _ ((takes_branch h.takes).of_le (Nat.le_refl 1) (Nat.zero_le _))
    ((takes_branch h.takes').of_le (Nat.le_refl 1) (Nat.zero_le _)) (hR.branch h)

theorem otherwise : R (otherwise inner) (Parser.otherwise inner') := by
  unfold Parser.otherwise
  exact hR.bind (hR.check _) fun _ => hR.ite (hR.bind hR.next fun _ => h.block) (hR.pure _)

theorem ifStmt : R (ifStmt inner) (Parser.ifStmt inner') := by
  unfold Parser.ifStmt
  exact hR.bind (hR.keyword _) fun _ => hR.bind (hR.guarded h) fun _ => hR.bind (hR.branches h) fun _ =>
    hR.bind (hR.otherwise h) fun _ => hR.bind (hR.keyword _) fun _ => hR.pure _

theorem loopBody : R (loopBody inner) (Parser.loopBody inner') := by
  unfold Parser.loopBody
  exact hR.bind (hR.keyword _) fun _ => hR.bind h.block fun _ => hR.bind (hR.keyword _) fun _ => hR.pure _

theorem whileStmt : R (whileStmt inner) (Parser.whileStmt inner') := by
  unfold Parser.whileStmt
  exact hR.bind (hR.keyword _) fun _ => hR.bind (h.expr _) fun _ => hR.bind (hR.loopBody h) fun _ => hR.pure _

theorem repeatStmt : R (repeatStmt inner) (Parser.repeatStmt inner') := by
  unfold Parser.repeatStmt
  exact hR.bind (hR.keyword _) fun _ => hR.bind h.block fun _ => hR.bind (hR.keyword _) fun _ =>
    hR.bind (h.expr _) fun _ => hR.pure _

theorem forRange (x : String) : R (forRange inner x) (Parser.forRange inner' x) := by
  unfold Parser.forRange step
  refine hR.bind hR.next fun _ => hR.bind (h.expr _) fun _ => hR.bind (hR.symbol _) fun _ => hR.bind (h.expr _) fun _ =>
    hR.bind (hR.bind (hR.check _) fun _ => hR.ite ?_ (hR.pure _)) fun _ => hR.bind (hR.loopBody h) fun _ => hR.pure _
  exact hR.bind hR.next fun _ => hR.bind (h.expr _) fun _ => hR.pure _

theorem forIn (key : String) : R (forIn inner key) (Parser.forIn inner' key) := by
  unfold Parser.forIn
  exact hR.bind hR.valueName fun _ => hR.bind (hR.keyword _) fun _ => hR.bind (h.expr _) fun _ =>
    hR.bind (hR.loopBody h) fun _ => hR.pure _

theorem forStmt : R (forStmt inner) (Parser.forStmt inner') := by
  unfold Parser.forStmt
  exact hR.bind (hR.keyword _) fun _ => hR.bind hR.name fun _ => hR.bind (hR.check _) fun _ =>
    hR.ite (hR.forRange h _) (hR.forIn h _)

theorem headed (head : StmtHead) : R (headed inner head) (Parser.headed inner' head) := by
  cases head with
  | function => exact hR.map _ (hR.bind (hR.namedFunction h) fun _ => hR.pure _)
  | localVar => exact hR.localStmt h
  | ret => exact hR.returnStmt h
  | ifThen => exact hR.ifStmt h
  | forLoop => exact hR.forStmt h
  | whileLoop => exact hR.whileStmt h
  | repeatLoop => exact hR.repeatStmt h

theorem stmt (hn : R (nameStmt inner) (nameStmt inner')) : R (stmt inner) (Parser.stmt inner') := by
  unfold Parser.stmt
  refine hR.look _ fun t => ?_
  split
  · split
    · exact hR.headed h _
    · exact hR.fail _ nofun
  · exact hn
  · exact hR.fail _ nofun

theorem block (hs : R (Parser.stmt inner) (Parser.stmt inner')) : R (block inner) (Parser.block inner') :=
  hR.many _ (takes_stmt h.takes) (takes_stmt h.takes') hs

theorem program (hs : R (Parser.stmt inner) (Parser.stmt inner')) : R (program inner) (Parser.program inner') :=
  hR.many _ (takes_stmt h.takes) (takes_stmt h.takes') hs

end Congruence
end MiniLua.Parser
