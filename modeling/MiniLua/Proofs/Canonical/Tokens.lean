import MiniLua.Proofs.Reading.Lookahead
/-!
# Canonical tokens

The one list of tokens that a tree is written as. Parentheses stand only where the
operators around an operand would otherwise take a part of it, and around what no link may
follow. A call with a colon leaves its receiver out of the arguments, a table has its named
entries behind its elements, and an `else` with no statements is not written.
-/

namespace MiniLua

/-! ## Tokens of leaves -/

def Literal.token : Literal → Token
  | number text => .plain .number text
  | string value => .plain .string value
  | boolean value => .plain .boolean (if value then "true" else "false")
  | nil => .plain .nil "nil"

def BinaryOp.token (op : BinaryOp) : Token :=
  .plain (if op = .and ∨ op = .or then .keyword else .operator) op.text

def UnaryOp.token (op : UnaryOp) : Token :=
  .plain (if op = .not then .keyword else .operator) op.text

@[simp] theorem Literal.ofToken?_token (v : Literal) : ofToken? v.token = some v := by
  cases v with
  | boolean value => cases value <;> rfl
  | _ => rfl

@[simp] theorem BinaryOp.ofToken?_token (op : BinaryOp) : ofToken? op.token = some op := by
  cases op <;> rfl

@[simp] theorem UnaryOp.ofToken?_token (op : UnaryOp) : ofToken? op.token = some op := by
  cases op <;> rfl

/-! ## Where parentheses are needed -/

namespace Expr

/-- On the left of an operator: around what binds looser, and on the left of `^`, which
groups to the right, also around another `^` and around a prefix operator. -/
def parensLeft (op : BinaryOp) : Expr → Bool
  | binary _ o _ => o.precedence.level < op.precedence.level || (o.precedence = op.precedence && op = .pow)
  | unary .. => op = .pow
  | _ => false

/-- On the right of an operator: around what binds looser, and around what binds alike
unless the operator is `^`. -/
def parensRight (op : BinaryOp) : Expr → Bool
  | binary _ o _ => o.precedence.level < op.precedence.level || (o.precedence = op.precedence && op ≠ .pow)
  | _ => false

/-- Behind a prefix operator: around every operator but `^`. -/
def parensUnary : Expr → Bool
  | binary _ o _ => o ≠ .pow
  | _ => false

/-- Before a link: around what is no name, call or member. -/
def parensBase : Expr → Bool
  | var _ | namedCall .. | call .. | methodCall .. | member .. => false
  | _ => true

/-- Before the arguments of a call: also around a member, since the call of a member
without parentheses is a method call. -/
def parensCallee : Expr → Bool
  | member .. => true
  | e => e.parensBase

/-- Whether an expression is a function with a name. -/
def isDefinition : Expr → Bool
  | definition .. => true
  | _ => false

end Expr

/-! ## Tokens of trees -/

/-- Tokens in parentheses if these are needed. -/
def parens (needed : Bool) (ts : List Token) : List Token :=
  if needed then .plain .symbol "(" :: (ts ++ [.plain .symbol ")"]) else ts

/-- What comes after the first of some items: each with a comma before it. -/
def moreTokens (items : List (List Token)) : List Token :=
  (items.map (.plain .symbol "," :: ·)).flatten

/-- Items with commas between them. -/
def commas : List (List Token) → List Token
  | [] => []
  | item :: items => item ++ moreTokens items

/-- Items with commas between them, in parentheses. -/
def listTokens (items : List (List Token)) : List Token :=
  .plain .symbol "(" :: (commas items ++ [.plain .symbol ")"])

/-- Parameters and the tokens of a body, up to the `end`. -/
def bodyTokens (params : List String) (body : List Token) : List Token :=
  listTokens (params.map fun x => [.plain .identifier x]) ++ (body ++ [.plain .keyword "end"])

/-- The tokens of a loop's body, between `do` and `end`. -/
def loopTokens (body : List Token) : List Token :=
  .plain .keyword "do" :: (body ++ [.plain .keyword "end"])

/-- A condition and the block that it guards. -/
def guardTokens (condition body : List Token) : List Token :=
  condition ++ .plain .keyword "then" :: body

/-- The second variable of a loop over an iterator. -/
def valueTokens : Option String → List Token
  | none => []
  | some x => [.plain .symbol ",", .plain .identifier x]

mutual

def Expr.tokens : Expr → List Token
  | .literal v => [v.token]
  | .binary l op r => parens (l.parensLeft op) l.tokens ++ op.token :: parens (r.parensRight op) r.tokens
  | .unary op e => op.token :: parens e.parensUnary e.tokens
  | .var x => [.plain .identifier x]
  | .namedCall f args => .plain .identifier f :: listTokens (eachTokens args)
  | .call e args => parens e.parensCallee e.tokens ++ listTokens (eachTokens args)
  | .methodCall e m args colon =>
    parens e.parensBase e.tokens ++ .plain .symbol (if colon then ":" else ".") :: .plain .identifier m ::
      listTokens (if colon then (eachTokens args).tail else eachTokens args)
  | .member e m => parens e.parensBase e.tokens ++ [.plain .symbol ".", .plain .identifier m]
  | .table elements entries =>
    .plain .symbol "\x7b" :: (commas (eachTokens elements ++ entriesTokens entries) ++ [.plain .symbol "\x7d"])
  | .definition f params body =>
    .plain .keyword "function" :: .plain .identifier f :: bodyTokens params (blockTokens body)
  | .function params body => .plain .keyword "function" :: bodyTokens params (blockTokens body)

def eachTokens : List Expr → List (List Token)
  | [] => []
  | e :: es => e.tokens :: eachTokens es

def Entry.tokens : Entry → List Token
  | .mk key value => .plain .identifier key :: .plain .operator "=" :: value.tokens

def entriesTokens : List Entry → List (List Token)
  | [] => []
  | e :: es => e.tokens :: entriesTokens es

/-- What follows `local`: a variable and its value if it has one, or a function. -/
def localTokens (x : String) : Option Expr → List Token
  | none => [.plain .identifier x]
  | some e => if e.isDefinition then e.tokens else .plain .identifier x :: .plain .operator "=" :: e.tokens

def stepTokens : Option Expr → List Token
  | none => []
  | some e => .plain .symbol "," :: e.tokens

def Stmt.tokens : Stmt → List Token
  | .expr e => e.tokens
  | .assign x e => .plain .identifier x :: .plain .operator "=" :: e.tokens
  | .localVar x init => .plain .keyword "local" :: localTokens x init
  | .ret values => .plain .keyword "return" :: commas (eachTokens values)
  | .ifThen e body elseifs otherwise =>
    .plain .keyword "if" :: (guardTokens e.tokens (blockTokens body) ++ (branchesTokens elseifs ++
      ((if otherwise.isEmpty then [] else .plain .keyword "else" :: blockTokens otherwise) ++ [.plain .keyword "end"])))
  | .whileLoop e body => .plain .keyword "while" :: (e.tokens ++ loopTokens (blockTokens body))
  | .repeatLoop body e => .plain .keyword "repeat" :: (blockTokens body ++ .plain .keyword "until" :: e.tokens)
  | .forRange x start limit step body =>
    .plain .keyword "for" :: .plain .identifier x :: .plain .operator "=" ::
      (start.tokens ++ .plain .symbol "," :: (limit.tokens ++ (stepTokens step ++ loopTokens (blockTokens body))))
  | .forIn key value e body =>
    .plain .keyword "for" :: .plain .identifier key ::
      (valueTokens value ++ .plain .keyword "in" :: (e.tokens ++ loopTokens (blockTokens body)))

/-- The tokens of a block, and of a whole program. -/
def blockTokens : List Stmt → List Token
  | [] => []
  | s :: ss => s.tokens ++ blockTokens ss

def Branch.tokens : Branch → List Token
  | .mk e body => .plain .keyword "elseif" :: guardTokens e.tokens (blockTokens body)

def branchesTokens : List Branch → List Token
  | [] => []
  | b :: bs => b.tokens ++ branchesTokens bs

end

theorem eachTokens_eq (es : List Expr) : eachTokens es = es.map Expr.tokens := by
  induction es with
  | nil => rfl
  | cons e es ih => rw [eachTokens, ih, List.map_cons]

theorem entriesTokens_eq (es : List Entry) : entriesTokens es = es.map Entry.tokens := by
  induction es with
  | nil => rfl
  | cons e es ih => rw [entriesTokens, ih, List.map_cons]

theorem blockTokens_eq (ss : List Stmt) : blockTokens ss = (ss.map Stmt.tokens).flatten := by
  induction ss with
  | nil => rfl
  | cons s ss ih => rw [blockTokens, ih, List.map_cons, List.flatten_cons]

theorem branchesTokens_eq (bs : List Branch) : branchesTokens bs = (bs.map Branch.tokens).flatten := by
  induction bs with
  | nil => rfl
  | cons b bs ih => rw [branchesTokens, ih, List.map_cons, List.flatten_cons]

end MiniLua
