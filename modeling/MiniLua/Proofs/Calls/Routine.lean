import MiniLua.Grammar.Program
import MiniLua.Proofs.Calls.Fueled
/-!
# Productions that call each other

Each production of the grammar as a routine that calls others for what is part of it. `body` says
what a routine does and through which calls, `run` runs it on fuel, of which each call has one
less than its caller. A loop calls with the same fuel in each of its rounds. The numbers are
levels of nesting that are left; only an expression and a block open one.
-/

namespace MiniLua

open MiniLua.Parser

/-- The productions, by what they read. -/
inductive Routine : Type → Type 1
  | primary : Routine Expr
  | argument (n : Nat) : Routine Expr
  | grouping (n : Nat) : Routine Expr
  | arguments (n : Nat) : Routine (List Expr)
  | call (n : Nat) (callee : Expr) : Routine Expr
  | member (n : Nat) (object : Expr) : Routine Expr
  | methodCall (n : Nat) (receiver : Expr) : Routine Expr
  | links (n : Nat) (base : Expr) : Routine Expr
  | field (n : Nat) (fields : List Expr × List Entry) : Routine (List Expr × List Entry)
  | fieldOrEnd (n : Nat) (fields : List Expr × List Entry) : Routine (List Expr × List Entry)
  | table (n : Nat) : Routine Expr
  | parameters : Routine (List String)
  | functionBody (n : Nat) : Routine (List String × List Stmt)
  | function (n : Nat) : Routine Expr
  | operand (n : Nat) : Routine Expr
  | binary (n : Nat) (left : Expr) (op : BinaryOp) (bound : Precedence) : Routine Expr
  | expr (n : Nat) (bound : Precedence) : Routine Expr
  | namedFunction (n : Nat) : Routine (String × List String × List Stmt)
  | definition (n : Nat) : Routine Expr
  | functionStmt (n : Nat) : Routine Stmt
  | localStmt (n : Nat) : Routine Stmt
  | assignment (n : Nat) : Routine Stmt
  | returnStmt (n : Nat) : Routine Stmt
  | guarded (n : Nat) : Routine (Expr × List Stmt)
  | branch (n : Nat) : Routine Branch
  | otherwise (n : Nat) : Routine (List Stmt)
  | ifStmt (n : Nat) : Routine Stmt
  | loopBody (n : Nat) : Routine (List Stmt)
  | whileStmt (n : Nat) : Routine Stmt
  | repeatStmt (n : Nat) : Routine Stmt
  | step (n : Nat) : Routine (Option Expr)
  | forRange (n : Nat) (name : String) : Routine Stmt
  | valueName : Routine (Option String)
  | forIn (n : Nat) (key : String) : Routine Stmt
  | forStmt (n : Nat) : Routine Stmt
  | nameStmt (n : Nat) : Routine Stmt
  | stmt (n : Nat) : Routine Stmt
  | block (n : Nat) : Routine (List Stmt)
  | program (n : Nat) : Routine (List Stmt)

namespace Routine

/-- The routine for the statement of a head. -/
def headed (n : Nat) : StmtHead → Routine Stmt
  | .function => functionStmt n
  | .localVar => localStmt n
  | .ret => returnStmt n
  | .ifThen => ifStmt n
  | .forLoop => forStmt n
  | .whileLoop => whileStmt n
  | .repeatLoop => repeatStmt n

/-- The parser that a routine is for. -/
def parser {α : Type} : Routine α → Parser α
  | primary => Parser.primary
  | argument n => (Inner.ofLevels n).argument
  | grouping n => Parser.grouping (.ofLevels n)
  | arguments n => Parser.arguments (.ofLevels n)
  | call n callee => Parser.call (.ofLevels n) callee
  | member n object => Parser.member (.ofLevels n) object
  | methodCall n receiver => Parser.methodCall (.ofLevels n) receiver
  | links n base => Parser.links (.ofLevels n) base
  | field n fields => Parser.field (.ofLevels n) fields
  | fieldOrEnd n fields => Parser.fieldOrEnd (.ofLevels n) fields
  | table n => Parser.table (.ofLevels n)
  | parameters => Parser.parameters
  | functionBody n => Parser.functionBody (.ofLevels n)
  | function n => Parser.function (.ofLevels n)
  | operand n => Parser.operand (.ofLevels n)
  | binary n left op bound => Parser.binary (.ofLevels n) left op bound
  | expr n bound => (Inner.ofLevels n).expr bound
  | namedFunction n => Parser.namedFunction (.ofLevels n)
  | definition n => Parser.definition (.ofLevels n)
  | functionStmt n => Parser.functionStmt (.ofLevels n)
  | localStmt n => Parser.localStmt (.ofLevels n)
  | assignment n => Parser.assignment (.ofLevels n)
  | returnStmt n => Parser.returnStmt (.ofLevels n)
  | guarded n => Parser.guarded (.ofLevels n)
  | branch n => Parser.branch (.ofLevels n)
  | otherwise n => Parser.otherwise (.ofLevels n)
  | ifStmt n => Parser.ifStmt (.ofLevels n)
  | loopBody n => Parser.loopBody (.ofLevels n)
  | whileStmt n => Parser.whileStmt (.ofLevels n)
  | repeatStmt n => Parser.repeatStmt (.ofLevels n)
  | step n => Parser.step (.ofLevels n)
  | forRange n name => Parser.forRange (.ofLevels n) name
  | valueName => Parser.valueName
  | forIn n key => Parser.forIn (.ofLevels n) key
  | forStmt n => Parser.forStmt (.ofLevels n)
  | nameStmt n => Parser.nameStmt (.ofLevels n)
  | stmt n => Parser.stmt (.ofLevels n)
  | block n => (Inner.ofLevels n).block
  | program n => Parser.program (.ofLevels n)

/-! ## What a routine does -/

open Fueled (free)

/-- The links that a token may start. -/
def link? (call : ∀ {β : Type}, Routine β → Fueled β) (n : Nat) (t : Token) : Option (Expr → Fueled Expr) :=
  if t.isSymbol "(" then some fun e => call (.call n e)
  else if t.isSymbol "." then some fun e => call (.member n e)
  else if t.isSymbol ":" then some fun e => call (.methodCall n e)
  else none

/-- A comma and what may follow it in a table. -/
def nextField? (call : ∀ {β : Type}, Routine β → Fueled β) (n : Nat) (t : Token) :
    Option (List Expr × List Entry → Fueled (List Expr × List Entry)) :=
  if t.isSymbol "," then
    some fun fields => do
      let _ ← free next
      call (.fieldOrEnd n fields)
  else none

/-- The operator that a token stands for, if it binds tighter than a bound. -/
def tighter? (call : ∀ {β : Type}, Routine β → Fueled β) (n : Nat) (bound : Precedence) (t : Token) :
    Option (Expr → Fueled Expr) :=
  match BinaryOp.ofToken? t with
  | some op => if op.precedence ≤ bound then none else some fun left => call (.binary n left op op.precedence)
  | none => none

/-- What a routine does by itself, and which others it calls for the rest. -/
def body (call : ∀ {β : Type}, Routine β → Fueled β) {α : Type} : Routine α → Fueled α
  | primary => free Parser.primary
  | argument n => fun ts => if startsLone ts then call primary ts else call (expr n .lowest) ts
  | grouping n => do
    let _ ← free (symbol "(")
    let e ← call (expr n .lowest)
    let _ ← free (symbol ")")
    pure e
  | arguments n => .parenthesized (call (argument n))
  | .call n callee => do
    let args ← call (arguments n)
    pure (callee.applyTo args)
  | member n object => do
    let _ ← free (symbol ".")
    let name ← free name
    if ← free (check (·.isSymbol "(")) then
      let args ← call (arguments n)
      pure (.methodCall object name args false)
    else pure (.member object name)
  | methodCall n receiver => do
    let _ ← free (symbol ":")
    let name ← free name
    let args ← call (arguments n)
    pure (.methodCall receiver name (receiver :: args) true)
  | links n base => .repeating (link? call n) base
  | field n fields => fun ts =>
    if startsNamed ts then
      (do
        let key ← free next
        let _ ← free next
        let value ← call (expr n .lowest)
        pure (fields.1, Entry.insert key.value value fields.2)) ts
    else
      (do
        let value ← call (expr n .lowest)
        pure (value :: fields.1, fields.2)) ts
  | fieldOrEnd n fields => do
    if ← free (check (·.isSymbol "\x7d")) then pure fields
    else call (field n fields)
  | table n => do
    let _ ← free (symbol "\x7b")
    let fields ← call (fieldOrEnd n ([], []))
    let fields ← .repeating (nextField? call n) fields
    let _ ← free (symbol "\x7d")
    pure (.table fields.1.reverse fields.2)
  | parameters => free Parser.parameters
  | functionBody n => do
    let params ← call parameters
    let body ← call (block n)
    let _ ← free (keyword "end")
    pure (params, body)
  | function n => do
    let _ ← free (keyword "function")
    let body ← call (functionBody n)
    pure (.function body.1 body.2)
  | operand n => .look .expression fun t =>
    match UnaryOp.ofToken? t with
    | some op => do
      let _ ← free next
      let e ← call (expr n .unary)
      pure (.unary op e)
    | none =>
      match t.kind with
      | .number | .string | .boolean | .nil => call primary
      | .identifier => do
        let _ ← free next
        call (links n (.var t.value))
      | .symbol =>
        if t.value = "(" then do
          let e ← call (grouping n)
          call (links n e)
        else if t.value = "\x7b" then call (table n)
        else free unexpectedToken
      | .keyword => if t.value = "function" then call (function n) else free unexpectedToken
      | .operator => free unexpectedToken
  | binary n left op bound => do
    let _ ← free next
    let right ← call (expr n (rightBound op bound))
    pure (.binary left op right)
  | expr 0 _ => free (fail .tooDeep)
  | expr (n + 1) bound => .nested do
    let left ← call (operand n)
    .repeating (tighter? call n bound) left
  | namedFunction n => do
    let _ ← free (keyword "function")
    let name ← free name
    let body ← call (functionBody n)
    pure (name, body)
  | definition n => do
    let f ← call (namedFunction n)
    pure (.definition f.1 f.2.1 f.2.2)
  | functionStmt n => Stmt.expr <$> call (definition n)
  | localStmt n => do
    let _ ← free (keyword "local")
    if ← free (check (·.isKeyword "function")) then
      let f ← call (namedFunction n)
      pure (.localVar f.1 (some (.definition f.1 f.2.1 f.2.2)))
    else
      let name ← free name
      if ← free (check (·.isOperator "=")) then
        let _ ← free next
        let init ← call (expr n .lowest)
        pure (.localVar name (some init))
      else pure (.localVar name none)
  | assignment n => do
    let target ← free name
    let _ ← free (operator "=")
    let value ← call (expr n .lowest)
    pure (.assign target value)
  | returnStmt n => do
    let _ ← free (keyword "return")
    if ← free (check (!·.closesBlock)) then
      let values ← .separated (call (expr n .lowest))
      pure (.ret values)
    else pure (.ret [])
  | guarded n => do
    let condition ← call (expr n .lowest)
    let _ ← free (keyword "then")
    let body ← call (block n)
    pure (condition, body)
  | branch n => do
    let _ ← free next
    let arm ← call (guarded n)
    pure (.mk arm.1 arm.2)
  | otherwise n => do
    if ← free (check (·.isKeyword "else")) then
      let _ ← free next
      call (block n)
    else pure []
  | ifStmt n => do
    let _ ← free (keyword "if")
    let arm ← call (guarded n)
    let elseifs ← .many (·.isKeyword "elseif") (call (branch n))
    let rest ← call (otherwise n)
    let _ ← free (keyword "end")
    pure (.ifThen arm.1 arm.2 elseifs rest)
  | loopBody n => do
    let _ ← free (keyword "do")
    let body ← call (block n)
    let _ ← free (keyword "end")
    pure body
  | whileStmt n => do
    let _ ← free (keyword "while")
    let condition ← call (expr n .lowest)
    let body ← call (loopBody n)
    pure (.whileLoop condition body)
  | repeatStmt n => do
    let _ ← free (keyword "repeat")
    let body ← call (block n)
    let _ ← free (keyword "until")
    let condition ← call (expr n .lowest)
    pure (.repeatLoop body condition)
  | step n => do
    if ← free (check (·.isSymbol ",")) then
      let _ ← free next
      let e ← call (expr n .lowest)
      pure (some e)
    else pure none
  | forRange n name => do
    let _ ← free next
    let start ← call (expr n .lowest)
    let _ ← free (symbol ",")
    let limit ← call (expr n .lowest)
    let step ← call (step n)
    let body ← call (loopBody n)
    pure (.forRange name start limit step body)
  | valueName => free Parser.valueName
  | forIn n key => do
    let value ← call valueName
    let _ ← free (keyword "in")
    let iterator ← call (expr n .lowest)
    let body ← call (loopBody n)
    pure (.forIn key value iterator body)
  | forStmt n => do
    let _ ← free (keyword "for")
    let name ← free name
    if ← free (check (·.isOperator "=")) then call (forRange n name)
    else call (forIn n name)
  | nameStmt n => fun
    | t :: u :: rest =>
      if u.isOperator "=" then call (assignment n) (t :: u :: rest)
      else if continuesExpr u then (Stmt.expr <$> call (expr n .lowest)) (t :: u :: rest)
      else (do
        let _ ← free next
        free unexpectedToken) (t :: u :: rest)
    | ts =>
      (do
        let _ ← free next
        free (fail (.unexpected .assignmentOrCall))) ts
  | stmt n => .look .statement fun t =>
    match t.kind with
    | .keyword =>
      match StmtHead.ofText? t.value with
      | some head => call (headed n head)
      | none => free unexpectedToken
    | .identifier => call (nameStmt n)
    | _ => free unexpectedToken
  | block 0 => free (fail .tooDeep)
  | block (n + 1) => .nested (.many (!·.closesBlock) (call (stmt n)))
  | program n => .many (fun _ => true) (call (stmt n))

/-- A routine on fuel, of which each call has one less than its caller. -/
def run : Nat → {α : Type} → Routine α → Fueled α
  | 0, _, _ => fun _ => none
  | fuel + 1, _, r => r.body fun r => run fuel r

end Routine

end MiniLua
