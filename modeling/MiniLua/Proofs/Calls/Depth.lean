import MiniLua.Proofs.Calls.Routine
import MiniLua.Proofs.Reading.Levels
/-!
# How deep calls go

How much fuel a routine needs is said by the levels of nesting that are left, whatever the tokens
(`Routine.need`): a routine calls only such as need less, and of those that it may come back to,
an expression and a block need six less with every level that they open. With that fuel a routine
is the parser that it is for (`Routine.run_eq`), and so a multiple of the limit of nesting is
enough for every program (`parseFueled_eq`).
-/

namespace MiniLua

open MiniLua.Parser

namespace Routine

open Fueled (free free_pure free_bind free_map free_ite free_choice free_look free_nested free_repeating free_many
  free_separated free_parenthesized)

/-! ## Fuel -/

/-- How much fuel a routine needs. -/
def need {α : Type} : Routine α → Nat
  | primary | parameters | valueName => 1
  | expr n _ | block n => 6 * n + 1
  | argument n | grouping n | field n _ | functionBody n | binary n _ _ _ | assignment n | returnStmt n | guarded n
  | otherwise n | loopBody n | repeatStmt n | step n => 6 * n + 2
  | arguments n | fieldOrEnd n _ | function n | namedFunction n | branch n | whileStmt n | forRange n _ | forIn n _
  | nameStmt n => 6 * n + 3
  | call n _ | member n _ | methodCall n _ | table n | definition n | localStmt n | ifStmt n | forStmt n => 6 * n + 4
  | links n _ | functionStmt n => 6 * n + 5
  | operand n | stmt n => 6 * n + 6
  | program n => 6 * n + 7

theorem need_pos {α : Type} (r : Routine α) : 0 < r.need := by
  cases r <;> exact Nat.succ_pos _

theorem need_headed (n : Nat) (head : StmtHead) : (headed n head).need < (stmt n).need := by
  cases head <;> simp +arith [headed, need]

/-- What a call gives is what its routine is for, if that needs less fuel than a bound. -/
def Answers (call : ∀ {β : Type}, Routine β → Fueled β) (bound : Nat) : Prop :=
  ∀ {β : Type} (r : Routine β), r.need < bound → call r = free r.parser

theorem Answers.eq {call : ∀ {β : Type}, Routine β → Fueled β} {bound : Nat} (h : Answers call bound) {β : Type}
    (r : Routine β) (hr : r.need < bound) : call r = free r.parser := h r hr

/-! ## One routine -/

section
variable {call : ∀ {β : Type}, Routine β → Fueled β} {n : Nat}

theorem link?_eq {base : Expr} (h : Answers call (links n base).need) (t : Token) :
    link? call n t = (Parser.link? (.ofLevels n) t).map fun round a => free (round a) := by
  simp (disch := (simp only [need]; omega)) only [link?, Parser.link?, h.eq, parser, apply_ite (Option.map _),
    Option.map_some, Option.map_none]

theorem nextField?_eq (h : Answers call (table n).need) (t : Token) :
    nextField? call n t = (Parser.nextField? (.ofLevels n) t).map fun round a => free (round a) := by
  simp (disch := (simp only [need]; omega)) only [nextField?, Parser.nextField?, h.eq, parser, apply_ite (Option.map _),
    Option.map_some, Option.map_none, free_bind]

theorem tighter?_eq {bound : Precedence} (h : Answers call (expr (n + 1) bound).need) (t : Token) :
    tighter? call n bound t = (Parser.tighter? (.ofLevels n) bound t).map fun round a => free (round a) := by
  rw [tighter?, Parser.tighter?]
  cases BinaryOp.ofToken? t with
  | none => rfl
  | some op =>
    simp (disch := (simp only [need]; omega)) only [h.eq, parser, apply_ite (Option.map _), Option.map_some, Option.map_none]

theorem call_headed (h : Answers call (stmt n).need) (head : StmtHead) :
    call (headed n head) = free (Parser.headed (.ofLevels n) head) := by
  rw [h.eq _ (need_headed n head)]
  cases head <;> rfl

/-- A routine is the parser that it is for if its calls give what those with less need are for. -/
theorem body_eq {α : Type} (r : Routine α) (h : Answers call r.need) : r.body call = free r.parser := by
  cases r with
  | primary | parameters | valueName => rfl
  -- calls and tokens in a row, with no choice but by `check`: first those of expressions
  | grouping | arguments | call | member | methodCall | fieldOrEnd | functionBody | function | binary =>
    simp (disch := (simp only [need]; omega)) only [body, h.eq, parser, Parser.grouping, Parser.arguments, Parser.call,
      Parser.member, Parser.methodCall, Parser.fieldOrEnd, Parser.functionBody, Parser.function, Parser.binary,
      free_parenthesized, free_bind, free_ite, free_pure]
  -- and those of statements
  | namedFunction | definition | functionStmt | localStmt | assignment | returnStmt | guarded | branch | otherwise | ifStmt
  | loopBody | whileStmt | repeatStmt | step | forRange | forIn | forStmt =>
    simp (disch := (simp only [need]; omega)) only [body, h.eq, parser, Parser.namedFunction, Parser.definition,
      Parser.functionStmt, Parser.localStmt, localFunction_eq, Parser.assignment, Parser.returnStmt, Parser.guarded, Parser.branch,
      Parser.otherwise, Parser.ifStmt, Parser.loopBody, Parser.whileStmt, Parser.repeatStmt, Parser.step, Parser.forRange,
      Parser.forIn, Parser.forStmt, free_many, free_separated, free_map, free_bind, free_ite, free_pure]
  | argument n =>
    simp (disch := (simp only [need]; omega)) only [body, h.eq]
    cases n <;> exact (free_choice startsLone _ _).symm
  | field n fields =>
    simp (disch := (simp only [need]; omega)) only [body, h.eq, parser]
    unfold Parser.field
    simp only [free_choice, free_bind, free_pure]
    rfl
  | links n base =>
    rw [body, parser, Parser.links, free_repeating (link?_eq h)]
  | table n =>
    simp (disch := (simp only [need]; omega)) only [body, h.eq, parser, Parser.table, free_bind,
      free_repeating (nextField?_eq h), free_pure]
  | operand n =>
    simp (disch := (simp only [need]; omega)) only [body, h.eq, parser, Parser.operand, free_look]
    congr
    funext t
    cases UnaryOp.ofToken? t with
    | some op => simp only [free_bind, free_pure]
    | none => cases t.kind <;> simp only [free_bind, free_ite]
  -- the two that take a level
  | expr n bound =>
    cases n with
    | zero => rfl
    | succ n =>
      show _ = free (Parser.nested (Parser.climb (.ofLevels n) bound))
      simp (disch := (simp only [need]; omega)) only [body, h.eq, parser, Parser.climb, free_nested, free_bind,
        free_repeating (tighter?_eq h)]
  | block n =>
    cases n with
    | zero => rfl
    | succ n =>
      show _ = free (Parser.nested (Parser.block (.ofLevels n)))
      simp (disch := (simp only [need]; omega)) only [body, h.eq, parser, Parser.block, free_nested, free_many]
  | nameStmt n =>
    funext ts
    rcases ts with _ | ⟨t, _ | ⟨u, ts⟩⟩
    · rfl
    · rfl
    · simp (disch := (simp only [need]; omega)) only [body, h.eq, parser, ← free_map, ← free_bind]
      simp only [free, Parser.nameStmt, apply_ite some]
  | stmt n =>
    simp (disch := (simp only [need]; omega)) only [body, h.eq, call_headed h, parser, Parser.stmt, free_look]
    congr
    funext t
    cases t.kind with
    | keyword =>
      simp only
      cases StmtHead.ofText? t.value <;> rfl
    | _ => rfl
  | program =>
    simp (disch := (simp only [need]; omega)) only [body, h.eq, parser, Parser.program, free_many]

end

/-! ## Runs -/

/-- With the fuel that it needs a routine is the parser that it is for, on all tokens. -/
theorem run_eq (fuel : Nat) {α : Type} (r : Routine α) (h : r.need ≤ fuel) : r.run fuel = free r.parser := by
  induction fuel generalizing α with
  | zero => exact absurd r.need_pos (Nat.not_lt.2 h)
  | succ fuel ih => exact body_eq r fun r' hr' => ih r' (Nat.le_of_lt_succ (Nat.lt_of_lt_of_le hr' h))

end Routine

/-! ## Programs -/

/-- The program of a list of tokens by calls of routines on fuel, if there is enough. -/
def parseFueled (fuel limit : Nat) (tokens : List Token) (file : String) : Option (Except ParseError (List Stmt)) :=
  ((Routine.program limit).run fuel tokens).map (outcome limit tokens file)

theorem parseFueled_within {fuel limit : Nat} (h : (Routine.program limit).need ≤ fuel) (ts : List Token) (file : String) :
    parseFueled fuel limit ts file = some (parseWithin limit ts file) := by
  rw [parseFueled, Routine.run_eq fuel _ h]
  rfl

/-- Seven calls for each level that may be open are as deep as calls go, however long the tokens are. -/
theorem parseFueled_eq (ts : List Token) (file : String) :
    parseFueled (7 * maxNesting) maxNesting ts file = some (parse ts file) :=
  parseFueled_within (by decide) ts file

end MiniLua
