import MiniLua.Proofs.Cursors.Following
/-!
# Every walk follows its parser

Walks and parsers are made of the same parts, so a walk over a production follows the parser of it as soon
as the walks over what is nested in it do (`Nests`). Expressions and blocks follow with no level left, where
both fail at once, and with one level more than what is nested in them needs (`nests`). So each walk ends,
from any place and with any number of levels open, as its parser does.
-/

namespace MiniLua.Walk

open MiniLua.Parser

variable {n : Nat} {inner : Nested}

/-- With `n` levels left, what is nested is read as by the parsers for it. -/
structure Nests (inner : Nested) (n : Nat) : Prop where
  expr : ∀ bound, Follows n (inner.expr bound) ((Inner.ofLevels n).expr bound)
  block : Follows n inner.block (Inner.ofLevels n).block

theorem takes_cons_stmt (n : Nat) (done : List Stmt) : ((· :: done) <$> Parser.stmt (.ofLevels n)).Takes 1 0 :=
  (takes_stmt (Inner.ofLevels_takes n).zero).map.of_le (Nat.le_refl 1) (Nat.le_refl _)

/-! ## Constants, names and lists of them -/

theorem primary_follows : Follows n Walk.primary .primary := by
  refine .look rfl fun t => ?_
  cases hv : Literal.ofToken? t with
  | some v =>
    simp only [hv]
    exact .bind .advance fun _ => .pure _
  | none =>
    simp only [hv]
    exact .ite (.bind .advance fun _ => .pure _) .unexpectedToken

/-- The items a loop adds stand in front of those it started with. -/
theorem repeating_append {α : Type} (test : Token → Bool) {item : Parser α} (hi : item.Takes 1 0) (items done : List α) :
    repeating (fun t => if test t then some fun items => (· :: items) <$> item else none) (items ++ done) =
      (· ++ done) <$> repeating (fun t => if test t then some fun items => (· :: items) <$> item else none) items := by
  have hp := progressive_many hi test
  funext ts
  rw [map_eq_pure_bind, bind_run]
  induction items, ts using hp.induction with
  | nil items => rfl
  | stop items t ts hr =>
    rw [repeating_of_none hr, repeating_of_none hr]
    rfl
  | round items t ts round hr ih =>
    have hround := hr
    obtain ⟨-, ⟨⟩⟩ := Option.ite_none_right_eq_some.1 hr
    rw [repeating_of_some hp hround, repeating_of_some hp hround, map_eq_pure_bind, map_eq_pure_bind, bind_assoc, bind_assoc,
      bind_run, bind_run]
    cases ha : item (t :: ts) with
    | error e => rfl
    | ok r =>
      refine ih (r.1 :: items) r.2 ?_
      simp only [map_eq_pure_bind]
      exact bind_eq_ok.2 ⟨r.1, r.2, ha, rfl⟩

/-- Items with commas between them, held last one first, are those held in order. -/
theorem separated_bind {α β : Type} {item : Parser α} (hi : item.Takes 1 0) (q : List α → Parser β) :
    separated item >>= q = (item >>= fun a => pure [a]) >>= fun done =>
      repeating (afterComma fun done => item >>= fun a => pure (a :: done)) done >>= fun done => q done.reverse := by
  have hround : afterComma (fun done => item >>= fun a => pure (a :: done)) = fun t =>
      if t.isSymbol "," then some fun items => (· :: items) <$> (next >>= fun _ => item) else none := by
    funext t
    simp only [afterComma, map_eq_pure_bind, bind_assoc]
  have hi' : (next >>= fun _ => item).Takes 1 0 := takes_next.bind (d := 0) fun _ => hi.of_le (Nat.zero_le 1) (Nat.le_refl 0)
  simp only [separated, many, hround, bind_assoc]
  congr
  funext a
  have happend := repeating_append (·.isSymbol ",") hi' [] [a]
  rw [List.nil_append] at happend
  rw [pure_bind, happend, map_eq_pure_bind, bind_assoc]
  simp only [pure_bind, List.reverse_append, List.reverse_singleton, List.singleton_append]

/-- A loop over items up to the parenthesis, behind an opening one. -/
theorem parenthesized_follows {α : Type} {w : Walk (List α)} {item : Walk α} {p : Parser α}
    {round : List α → Walk (ForInStep (List α))} (hp : p.Takes 1 0) (hitem : Follows n item p)
    (hw : w = Walk.symbol "(" >>= fun _ => Walk.check (·.isSymbol ")") >>= fun closes =>
      if closes then Walk.advance >>= fun _ => pure [] else loop round [])
    (hround : ∀ done, round done = item >>= fun a => Walk.check (·.isSymbol ",") >>= fun more =>
      if more then Walk.advance >>= fun _ => pure (.yield (a :: done))
      else Walk.symbol ")" >>= fun _ => pure (.done (a :: done).reverse)) :
    Follows n w (parenthesized p) := by
  have hstart : ∀ done, Follows n (item >>= fun a => pure (a :: done)) (p >>= fun a => pure (a :: done)) := fun done =>
    .bind hitem fun _ => .pure _
  have hall : Follows n (loop round []) (separated p >>= fun items => Parser.symbol ")" >>= fun _ => pure items) := by
    rw [separated_bind hp]
    refine Follows.commas hstart (fun done => .bind (.symbol ")") fun _ => .pure done.reverse) (fun done c => ?_) []
    rw [hround, LawfulMonad.bind_assoc]
    simp only [pure_bind, LawfulMonad.bind_assoc]
  rw [hw]
  exact .bind (.symbol "(") fun _ => .bind (.check _) fun _ => .ite (.bind .advance fun _ => .pure _) hall

theorem parameters_follows : Follows n Walk.parameters .parameters :=
  parenthesized_follows takes_name .name rfl fun _ => rfl

theorem peekName_follows : Follows n Walk.peekName .peekName where
  takes _ := ⟨List.suffix_refl _, Nat.le_refl _⟩
  walk c hindex _ := by
    rw [Cursor.run_of_stays (p := fun _ => Parser.peekName) hindex rfl]
    rfl

theorem valueName_follows : Follows n Walk.valueName .valueName :=
  .bind (.check _) fun _ => .ite (.bind .advance fun _ => .bind .name fun _ => .pure _)
    (.bind (.check _) fun _ => .ite (.pure _) (.fail nofun fun c => c.expectedToken_eq .loopHeader))

/-! ## Expressions -/

section
variable (h : Nests inner n)
include h

theorem binary_follows (left : Expr) (op : BinaryOp) (bound : Precedence) :
    Follows n (Walk.binary inner left op bound) (Parser.binary (.ofLevels n) left op bound) := by
  rw [Walk.binary]
  exact .bind .advance fun _ => .bind (h.expr _) fun _ => .pure _

theorem operators_follows (bound : Precedence) (left : Expr) :
    Follows n (Walk.operators inner bound left) (repeating (tighter? (.ofLevels n) bound) left) := by
  refine .repeating (progressive_tighter (Inner.ofLevels_takes n).zero bound) (fun a c hc => ?_)
    (fun a c t us round hrest hr => ?_) left
  · rw [Cursor.walk_bind, Cursor.walk_peek?, Cursor.peek?_eq_head?]
    cases hrest : c.rest with
    | nil => rfl
    | cons t us =>
      have hle := tighter?_eq_none_iff.1 (hc t us hrest)
      cases ho : BinaryOp.ofToken? t with
      | none => simp [ho]
      | some op => simp [ho, hle op ho]
  · obtain ⟨op, ho, hle, rfl⟩ := tighter?_eq_some hr
    refine ⟨_, binary_follows h a op op.precedence, ?_⟩
    rw [Cursor.walk_bind, Cursor.walk_peek?, Cursor.peek?_eq_head?, hrest]
    simp [ho, hle]

theorem grouping_follows : Follows n (Walk.grouping inner) (Parser.grouping (.ofLevels n)) := by
  rw [Walk.grouping]
  exact .bind (.symbol "(") fun _ => .bind (h.expr _) fun _ => .bind (.symbol ")") fun _ => .pure _

theorem argument_follows : Follows n (Walk.argument inner) (Inner.ofLevels n).argument := by
  have hchoice : (Inner.ofLevels n).argument = Parser.argument ((Inner.ofLevels n).expr .lowest) := by cases n <;> rfl
  rw [Walk.argument, hchoice]
  exact .choice primary_follows (h.expr _)

theorem arguments_follows : Follows n (Walk.arguments inner) (Parser.arguments (.ofLevels n)) :=
  parenthesized_follows ((Inner.ofLevels_takes n).argument.of_le (Nat.le_refl 1) (Nat.zero_le n)) (argument_follows h)
    rfl fun _ => rfl

theorem call_follows (callee : Expr) : Follows n (Walk.call inner callee) (Parser.call (.ofLevels n) callee) := by
  rw [Walk.call]
  exact .bind (arguments_follows h) fun _ => .pure _

theorem member_follows (object : Expr) : Follows n (Walk.member inner object) (Parser.member (.ofLevels n) object) := by
  rw [Walk.member]
  exact .bind (.symbol ".") fun _ => .bind .name fun _ => .bind (.check _) fun _ =>
    .ite (.bind (arguments_follows h) fun _ => .pure _) (.pure _)

theorem methodCall_follows (receiver : Expr) :
    Follows n (Walk.methodCall inner receiver) (Parser.methodCall (.ofLevels n) receiver) := by
  rw [Walk.methodCall]
  exact .bind (.symbol ":") fun _ => .bind .name fun _ => .bind (arguments_follows h) fun _ => .pure _

theorem links_follows (base : Expr) : Follows n (Walk.links inner base) (Parser.links (.ofLevels n) base) := by
  refine .repeating (progressive_link (Inner.ofLevels_takes n).zero) (fun a c hc => ?_) (fun a c t us round hrest hr => ?_) base
  · cases hrest : c.rest with
    | nil => simp [Cursor.walk_bind, Cursor.check_of_nil hrest]
    | cons t us =>
      obtain ⟨hcall, hmember, hmethod⟩ := link?_eq_none_iff.1 (hc t us hrest)
      simp [Cursor.walk_bind, Cursor.check_of_cons hrest, hcall, hmember, hmethod]
  · rcases link?_eq_some hr with ⟨ht, rfl⟩ | ⟨ht, rfl⟩ | ⟨ht, rfl⟩
    · refine ⟨_, call_follows h a, ?_⟩
      simp [Cursor.walk_bind, Cursor.check_of_cons hrest, ht]
    · refine ⟨_, member_follows h a, ?_⟩
      obtain ⟨hkind, hvalue⟩ := isSymbol_iff.1 ht
      simp [Cursor.walk_bind, Cursor.check_of_cons hrest, Token.isSymbol, Token.is, hkind, hvalue]
    · refine ⟨_, methodCall_follows h a, ?_⟩
      obtain ⟨hkind, hvalue⟩ := isSymbol_iff.1 ht
      simp [Cursor.walk_bind, Cursor.check_of_cons hrest, Token.isSymbol, Token.is, hkind, hvalue]

/-! ## Tables and functions -/

theorem field_follows (done : List Expr × List Entry) : Follows n (Walk.field inner done) (Parser.field (.ofLevels n) done) := by
  rw [Walk.field]
  refine .choice ?_ (.bind (h.expr _) fun _ => .pure _)
  exact .bind .advance fun _ => .bind .advance fun _ => .bind (h.expr _) fun _ => .pure _

theorem fields_follows (done : List Expr × List Entry) :
    Follows n (Walk.fields inner done) (fieldOrEnd (.ofLevels n) done >>= repeating (nextField? (.ofLevels n))) := by
  have hstart : ∀ done, Follows n (Walk.check (·.isSymbol "\x7d") >>= fun closes => if closes then pure done else Walk.field inner done)
      (fieldOrEnd (.ofLevels n) done) := fun done =>
    .bind (.check _) fun _ => .ite (.pure done) (field_follows h done)
  have hpure : repeating (nextField? (.ofLevels n)) = fun done =>
      repeating (afterComma (fieldOrEnd (.ofLevels n))) done >>= pure := by
    funext done
    exact (bind_pure _).symm
  rw [hpure]
  refine .commas hstart (fun done => .pure done) (fun done c => ?_) done
  · -- No comma can follow where the table is closed, so it makes no difference that one is looked for.
    by_cases hcloses : c.check (·.isSymbol "\x7d") = true
    · have hmore : c.check (·.isSymbol ",") = false := by
        cases hrest : c.rest with
        | nil => exact Cursor.check_of_nil hrest _
        | cons t us =>
          rw [Cursor.check_of_cons hrest] at hcloses ⊢
          obtain ⟨hkind, hvalue⟩ := isSymbol_iff.1 hcloses
          simp [Token.isSymbol, Token.is, hvalue]
      simp [Cursor.walk_bind, hcloses, hmore]
    · simp [Cursor.walk_bind, hcloses]

theorem table_follows : Follows n (Walk.table inner) (Parser.table (.ofLevels n)) := by
  have hfields : Parser.table (.ofLevels n) = Parser.symbol "\x7b" >>= fun _ =>
      (fieldOrEnd (.ofLevels n) ([], []) >>= repeating (nextField? (.ofLevels n))) >>= fun done =>
        Parser.symbol "\x7d" >>= fun _ => pure (.table done.1.reverse done.2) := by
    rw [Parser.table]
    simp only [bind_assoc]
  rw [Walk.table, hfields]
  exact .bind (.symbol _) fun _ => .bind (fields_follows h _) fun _ => .bind (.symbol _) fun _ => .pure _

theorem function_follows : Follows n (Walk.function inner) (Parser.function (.ofLevels n)) := by
  rw [Walk.function, Parser.function, functionBody]
  simp only [bind_assoc, pure_bind]
  exact .bind (.keyword _) fun _ => .bind parameters_follows fun _ => .bind h.block fun _ => .bind (.keyword _) fun _ => .pure _

theorem operand_follows : Follows n (Walk.operand inner) (Parser.operand (.ofLevels n)) := by
  rw [Walk.operand]
  refine .look rfl fun t => ?_
  cases ho : UnaryOp.ofToken? t with
  | some op =>
    simp only [ho]
    exact .bind .advance fun _ => .bind (h.expr _) fun _ => .pure _
  | none =>
    simp only [ho]
    cases hk : t.kind with
    | number | string | boolean | nil => exact primary_follows
    | identifier => exact .bind .advance fun _ => links_follows h _
    | symbol => exact .ite (.bind (grouping_follows h) fun _ => links_follows h _) (.ite (table_follows h) .unexpectedToken)
    | keyword => exact .ite (function_follows h) .unexpectedToken
    | operator => exact .unexpectedToken

/-! ## Statements -/

theorem assignment_follows : Follows n (Walk.assignment inner) (Parser.assignment (.ofLevels n)) := by
  rw [Walk.assignment]
  exact .bind .name fun _ => .bind (.operator _) fun _ => .bind (h.expr _) fun _ => .pure _

theorem definition_follows : Follows n (Walk.definition inner) (Parser.definition (.ofLevels n)) := by
  rw [Walk.definition, Parser.definition, namedFunction, functionBody]
  simp only [bind_assoc, pure_bind]
  exact .bind (.keyword _) fun _ => .bind .name fun _ => .bind parameters_follows fun _ => .bind h.block fun _ =>
    .bind (.keyword _) fun _ => .pure _

theorem functionStmt_follows : Follows n (Walk.functionStmt inner) (Parser.functionStmt (.ofLevels n)) := by
  rw [Walk.functionStmt, Parser.functionStmt, map_eq_pure_bind]
  exact .bind (definition_follows h) fun _ => .pure _

theorem localStmt_follows : Follows n (Walk.localStmt inner) (Parser.localStmt (.ofLevels n)) := by
  rw [Walk.localStmt]
  refine .bind (.keyword _) fun _ => .bind (.check _) fun _ => .ite ?_ ?_
  · exact .bind peekName_follows fun _ => .bind (definition_follows h) fun _ => .pure _
  · exact .bind .name fun _ => .bind (.check _) fun _ => .ite
      (.bind .advance fun _ => .bind (h.expr _) fun _ => .pure _) (.pure _)

theorem moreValues_follows (done : List Expr) : Follows n (Walk.moreValues inner done)
    (repeating (afterComma fun done => (Inner.ofLevels n).expr .lowest >>= fun value => pure (value :: done)) done) := by
  have hround : ∀ done, Follows n (Walk.advance >>= fun _ => inner.expr .lowest >>= fun value => pure (value :: done))
      (next >>= fun _ => (Inner.ofLevels n).expr .lowest >>= fun value => pure (value :: done)) := fun done =>
    .bind .advance fun _ => .bind (h.expr _) fun _ => .pure _
  refine .repeating_check (fun done => takes_next.bind (d := 0) fun _ => ?_) hround (fun done c => ?_) done
  · exact (((Inner.ofLevels_takes n).expr _).of_le (Nat.zero_le 1) (Nat.zero_le n)).bind fun _ => takes_pure _
  · simp only [LawfulMonad.bind_assoc, LawfulMonad.pure_bind]

theorem returnStmt_follows : Follows n (Walk.returnStmt inner) (Parser.returnStmt (.ofLevels n)) := by
  have hitem : ((Inner.ofLevels n).expr .lowest).Takes 1 0 := ((Inner.ofLevels_takes n).expr _).of_le (Nat.le_refl 1) (Nat.zero_le n)
  rw [Walk.returnStmt, Parser.returnStmt]
  refine .bind (.keyword _) fun _ => .bind (.check _) fun _ => .ite ?_ (.pure _)
  rw [separated_bind hitem]
  simp only [bind_assoc, pure_bind]
  exact .bind (h.expr _) fun _ => .bind (moreValues_follows h _) fun _ => .pure _

theorem branches_follows (done : List Branch) : Follows n (Walk.branches inner done)
    (repeating (fun t => if t.isKeyword "elseif" then some fun items => (· :: items) <$> branch (.ofLevels n) else none) done) := by
  have hround : ∀ done, Follows n (Walk.advance >>= fun _ => inner.expr .lowest >>= fun condition => Walk.keyword "then" >>= fun _ =>
      inner.block >>= fun body => pure (.mk condition body :: done)) ((· :: done) <$> branch (.ofLevels n)) := by
    intro done
    rw [map_eq_pure_bind, branch, guarded]
    simp only [bind_assoc, pure_bind]
    exact .bind .advance fun _ => .bind (h.expr _) fun _ => .bind (.keyword _) fun _ => .bind h.block fun _ => .pure _
  refine .repeating_check (fun done => (takes_branch (Inner.ofLevels_takes n).zero).map.of_le (Nat.le_refl 1) (Nat.zero_le _)) hround
    (fun done c => ?_) done
  simp only [LawfulMonad.bind_assoc, LawfulMonad.pure_bind]

theorem otherwise_follows : Follows n (Walk.otherwise inner) (Parser.otherwise (.ofLevels n)) := by
  rw [Walk.otherwise]
  exact .bind (.check _) fun _ => .ite (.bind .advance fun _ => h.block) (.pure _)

theorem ifStmt_follows : Follows n (Walk.ifStmt inner) (Parser.ifStmt (.ofLevels n)) := by
  rw [Walk.ifStmt, Parser.ifStmt, guarded, many]
  simp only [bind_assoc, pure_bind]
  exact .bind (.keyword _) fun _ => .bind (h.expr _) fun _ => .bind (.keyword _) fun _ => .bind h.block fun _ =>
    .bind (branches_follows h _) fun _ => .bind (otherwise_follows h) fun _ => .bind (.keyword _) fun _ => .pure _

theorem loopBody_follows : Follows n (Walk.loopBody inner) (Parser.loopBody (.ofLevels n)) := by
  rw [Walk.loopBody]
  exact .bind (.keyword _) fun _ => .bind h.block fun _ => .bind (.keyword _) fun _ => .pure _

theorem whileStmt_follows : Follows n (Walk.whileStmt inner) (Parser.whileStmt (.ofLevels n)) := by
  rw [Walk.whileStmt]
  exact .bind (.keyword _) fun _ => .bind (h.expr _) fun _ => .bind (loopBody_follows h) fun _ => .pure _

theorem repeatStmt_follows : Follows n (Walk.repeatStmt inner) (Parser.repeatStmt (.ofLevels n)) := by
  rw [Walk.repeatStmt]
  exact .bind (.keyword _) fun _ => .bind h.block fun _ => .bind (.keyword _) fun _ => .bind (h.expr _) fun _ => .pure _

theorem step_follows : Follows n (Walk.step inner) (Parser.step (.ofLevels n)) := by
  rw [Walk.step]
  exact .bind (.check _) fun _ => .ite (.bind .advance fun _ => .bind (h.expr _) fun _ => .pure _) (.pure _)

theorem forStmt_follows : Follows n (Walk.forStmt inner) (Parser.forStmt (.ofLevels n)) := by
  rw [Walk.forStmt]
  refine .bind (.keyword _) fun _ => .bind .name fun _ => .bind (.check _) fun _ => .ite ?_ ?_
  · exact .bind .advance fun _ => .bind (h.expr _) fun _ => .bind (.symbol _) fun _ => .bind (h.expr _) fun _ =>
      .bind (step_follows h) fun _ => .bind (loopBody_follows h) fun _ => .pure _
  · exact .bind valueName_follows fun _ => .bind (.keyword _) fun _ => .bind (h.expr _) fun _ =>
      .bind (loopBody_follows h) fun _ => .pure _

theorem headed_follows (head : StmtHead) : Follows n (Walk.headed inner head) (Parser.headed (.ofLevels n) head) := by
  cases head with
  | function => rw [Walk.headed.eq_1]; exact functionStmt_follows h
  | localVar => rw [Walk.headed.eq_2]; exact localStmt_follows h
  | ret => rw [Walk.headed.eq_3]; exact returnStmt_follows h
  | ifThen => rw [Walk.headed.eq_4]; exact ifStmt_follows h
  | forLoop => rw [Walk.headed.eq_5]; exact forStmt_follows h
  | whileLoop => rw [Walk.headed.eq_6]; exact whileStmt_follows h
  | repeatLoop => rw [Walk.headed.eq_7]; exact repeatStmt_follows h

theorem nameStmt_follows : Follows n (Walk.nameStmt inner) (Parser.nameStmt (.ofLevels n)) where
  takes := (takes_nameStmt (Inner.ofLevels_takes n)).of_le (Nat.zero_le 1) (Nat.zero_le n)
  walk c hindex hdepth := by
    rw [Walk.nameStmt, Cursor.walk_bind, Cursor.walk_peek?, Cursor.peek?_eq]
    rcases hrest : c.rest with _ | ⟨t, _ | ⟨u, us⟩⟩
    · rw [Cursor.run_congr (q := fun _ => .fail (.expected .token)) (by rw [hrest]; rfl), Cursor.run_fail hindex, hrest]
      simp only [List.getElem?_nil, Cursor.walk_bind, Cursor.walk_advance_of_nil hrest]
      rfl
    · have hend := Cursor.rest_of_suffix (c := c) List.nil_suffix c.depth
      rw [Cursor.run_congr (q := fun _ => next >>= fun _ => .fail (.unexpected .assignmentOrCall)) (by rw [hrest]; rfl),
        Cursor.run_bind (p := fun _ => next) (takes_next.of_le (Nat.zero_le 1) (Nat.le_refl 0)),
        Cursor.run_of_ok (p := fun _ => next) (by rw [hrest]; rfl)]
      simp only [List.getElem?_cons_succ, List.getElem?_nil, Cursor.walk_bind, Cursor.walk_advance_of_cons hrest]
      rw [Cursor.walk_fail, Cursor.run_fail (Nat.sub_le _ _), hend]
      rfl
    · -- Two tokens decide the rest.
      have hnext : ∀ {w : Walk Stmt} {p : Parser Stmt}, Follows n w p → Parser.nameStmt (.ofLevels n) c.rest = p c.rest →
          c.walk w = some (c.run fun _ => Parser.nameStmt (.ofLevels n)) := by
        intro w p hw hp
        rw [hw.walk c hindex hdepth, Cursor.run_congr (p := fun _ => Parser.nameStmt (.ofLevels n)) (q := fun _ => p) hp]
      simp only [List.getElem?_cons_succ, List.getElem?_cons_zero]
      rw [hrest, Parser.nameStmt] at hnext
      split
      · next hassign => exact hnext (assignment_follows h) (if_pos hassign)
      · next hassign =>
        rw [if_neg hassign] at hnext
        split
        · next hcontinues =>
          rw [if_pos hcontinues, map_eq_pure_bind] at hnext
          exact hnext (.bind (h.expr _) fun _ => .pure _) rfl
        · next hcontinues =>
          rw [if_neg hcontinues] at hnext
          exact hnext (.bind .advance fun _ => .unexpectedToken) rfl

theorem stmt_follows : Follows n (Walk.stmt inner) (Parser.stmt (.ofLevels n)) := by
  rw [Walk.stmt]
  refine .look rfl fun t => ?_
  cases hk : t.kind with
  | keyword =>
    simp only [hk]
    cases StmtHead.ofText? t.value with
    | some head => exact headed_follows h head
    | none => exact .unexpectedToken
  | identifier =>
    simp only [hk]
    exact nameStmt_follows h
  | _ =>
    simp only [hk]
    exact .unexpectedToken

theorem cons_stmt_follows (done : List Stmt) :
    Follows n (Walk.stmt inner >>= fun s => pure (s :: done)) ((· :: done) <$> Parser.stmt (.ofLevels n)) := by
  rw [map_eq_pure_bind]
  exact .bind (stmt_follows h) fun _ => .pure _

theorem statements_follows (done : List Stmt) : Follows n (Walk.statements inner done)
    (repeating (fun t => if !t.closesBlock then some fun items => (· :: items) <$> Parser.stmt (.ofLevels n) else none) done) := by
  refine .repeating_check (takes_cons_stmt n) (cons_stmt_follows h) (fun done c => ?_) done
  simp only [Cursor.walk_bind, Cursor.walk_peek?, Cursor.peek?_eq_head?, Cursor.walk_check]
  cases hrest : c.rest with
  | nil => simp [Cursor.check_of_nil hrest]
  | cons t us => cases ht : t.closesBlock <;> simp [Cursor.check_of_cons hrest, ht]

theorem program_follows : Follows n (Walk.program inner) (Parser.program (.ofLevels n)) := by
  have hall : Follows n (Walk.allStatements inner [])
      (repeating (fun _ => if true then some fun items => (· :: items) <$> Parser.stmt (.ofLevels n) else none) []) := by
    refine .repeating_check (takes_cons_stmt n) (cons_stmt_follows h) (fun done c => ?_) []
    have htokens : c.check (fun _ => true) = c.hasTokens := by
      rw [Cursor.check, Cursor.current?, Cursor.peek?, Cursor.hasTokens, Nat.add_zero]
      by_cases hlt : c.index < c.tokens.length <;> simp [hlt]
    simp only [Cursor.walk_bind, Cursor.walk_get, Cursor.walk_check, htokens]
    cases c.hasTokens <;> simp
  exact .bind hall fun _ => .pure _

end

/-! ## All levels -/

/-- An expression and a block open a level around what they are made of, so they may be entered once more than there are
levels left. -/
theorem nests {m : Nat} (h : n < m) : Nests (.times m) n := by
  induction m generalizing n with
  | zero => exact absurd h (Nat.not_lt_zero n)
  | succ m ih =>
    cases n with
    | zero => exact ⟨fun _ => .tooDeep, .tooDeep⟩
    | succ n =>
      have hm := ih (Nat.lt_of_succ_lt_succ h)
      refine ⟨fun bound => ?_, (statements_follows hm []).level List.reverse⟩
      have hclimb : Follows n (Walk.operand (.times m) >>= Walk.operators (.times m) bound) (climb (.ofLevels n) bound) :=
        .bind (operand_follows hm) fun left => operators_follows hm bound left
      have hlevel := hclimb.level id
      simp only [id, bind_pure] at hlevel
      rw [LawfulMonad.bind_assoc] at hlevel
      exact hlevel

theorem nests_all (h : n ≤ maxNesting) : Nests .all n := nests (Nat.lt_succ_of_le h)

/-- The walk over a program, from the first token on, comes to what `parse` does. -/
theorem walk_program (tokens : List Token) (file : String) :
    ∃ c, (Cursor.ofTokens tokens file).walk (Walk.program .all) = some (parse tokens file, c) := by
  have hprogram := program_follows (nests_all (Nat.le_refl maxNesting))
  rw [hprogram.walk (.ofTokens tokens file) (Nat.zero_le _) (Nat.zero_add _), parse, parseWithin]
  cases hp : Parser.program (.ofLevels maxNesting) tokens with
  | ok r => exact ⟨_, congrArg some (Cursor.run_of_ok (p := fun _ => Parser.program (.ofLevels maxNesting)) hp)⟩
  | error e => exact ⟨_, congrArg some (Cursor.run_of_error (p := fun _ => Parser.program (.ofLevels maxNesting)) hp)⟩

end MiniLua.Walk
