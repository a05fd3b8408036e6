import MiniLua.Operator
/-!
# Syntax trees

A program is a list of statements. Expressions and statements contain each
other, since a function is an expression with a block for its body. A call
whose callee is a plain name has a constructor of its own (`namedCall`), and a
call with a colon holds its receiver twice, as receiver and as first argument.
-/

namespace MiniLua

/-- A constant; a number keeps the text it is written with. -/
inductive Literal
  | number (text : String)
  | string (value : String)
  | boolean (value : Bool)
  | nil
deriving DecidableEq, Repr

/-- The constant a token stands for. -/
def Literal.ofToken? (t : Token) : Option Literal :=
  match t.kind with
  | .number => some (number t.value)
  | .string => some (string t.value)
  | .boolean => some (boolean (t.value = "true"))
  | .nil => some nil
  | _ => none

mutual

inductive Expr
  | literal (value : Literal)
  | binary (left : Expr) (op : BinaryOp) (right : Expr)
  | unary (op : UnaryOp) (operand : Expr)
  | var (name : String)
  | namedCall (name : String) (args : List Expr)
  | call (callee : Expr) (args : List Expr)
  | methodCall (receiver : Expr) (method : String) (args : List Expr) (colon : Bool)
  | member (object : Expr) (name : String)
  | table (elements : List Expr) (entries : List Entry)
  | definition (name : String) (params : List String) (body : List Stmt)
  | function (params : List String) (body : List Stmt)

/-- A named entry of a table. -/
inductive Entry
  | mk (key : String) (value : Expr)

inductive Stmt
  | expr (value : Expr)
  | assign (target : String) (value : Expr)
  | localVar (name : String) (init : Option Expr)
  | ret (values : List Expr)
  | ifThen (condition : Expr) (body : List Stmt) (elseifs : List Branch) (otherwise : List Stmt)
  | whileLoop (condition : Expr) (body : List Stmt)
  | repeatLoop (body : List Stmt) (condition : Expr)
  | forRange (name : String) (start limit : Expr) (step : Option Expr) (body : List Stmt)
  | forIn (key : String) (value : Option String) (iterator : Expr) (body : List Stmt)

/-- One `elseif` arm. -/
inductive Branch
  | mk (condition : Expr) (body : List Stmt)

end

instance : Inhabited Expr := ⟨.literal .nil⟩

namespace Entry

def key : Entry → String
  | mk key _ => key

def value : Entry → Expr
  | mk _ value => value

@[simp] theorem key_mk (k : String) (v : Expr) : (mk k v).key = k := rfl

@[simp] theorem value_mk (k : String) (v : Expr) : (mk k v).value = v := rfl

end Entry

namespace Branch

def condition : Branch → Expr
  | mk condition _ => condition

def body : Branch → List Stmt
  | mk _ body => body

@[simp] theorem condition_mk (c : Expr) (b : List Stmt) : (mk c b).condition = c := rfl

@[simp] theorem body_mk (c : Expr) (b : List Stmt) : (mk c b).body = b := rfl

end Branch

namespace Expr

/-- Whether an expression is a call of any form. -/
def isCall : Expr → Bool
  | namedCall .. | call .. | methodCall .. => true
  | _ => false

/-- The call of an expression: by name if it is one. -/
def applyTo : Expr → List Expr → Expr
  | var name, args => namedCall name args
  | callee, args => call callee args

end Expr

namespace Stmt

/-- The `elseif` arms in source order, none for what is no `if`. -/
def elseifs : Stmt → List Branch
  | ifThen _ _ elseifs _ => elseifs
  | _ => []

def elseifConditions (s : Stmt) : List Expr := s.elseifs.map Branch.condition

def elseifBodies (s : Stmt) : List (List Stmt) := s.elseifs.map Branch.body

end Stmt

end MiniLua
