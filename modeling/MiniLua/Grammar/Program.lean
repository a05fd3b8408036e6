import MiniLua.Grammar.Stmt
/-!
# Programs

`Inner.ofLevels` ties the productions together: with no level left nothing can
be nested, and what is nested has one level less. `parse` reads a whole program
with `maxNesting` levels.
-/

namespace MiniLua

/-- Expressions and blocks by the given parsers, arguments with lone ones read directly. -/
def Inner.of (expr : Precedence → Parser Expr) (block : Parser (List Stmt)) : Inner :=
  ⟨expr, Parser.argument (expr .lowest), block⟩

/-- What may be nested with a number of levels left. -/
def Inner.ofLevels : Nat → Inner
  | 0 => .of (fun _ => .fail .tooDeep) (.fail .tooDeep)
  | n + 1 =>
    let inner := ofLevels n
    .of (fun bound => .nested (.climb inner bound)) (.nested (.block inner))

theorem Inner.ofLevels_succ (n : Nat) :
    Inner.ofLevels (n + 1) =
      .of (fun bound => .nested (.climb (ofLevels n) bound)) (.nested (.block (ofLevels n))) := rfl

/-- The error of a failure in a list of tokens. -/
def Failure.error (limit : Nat) (tokens : List Token) (file : String) (e : Failure) : ParseError :=
  .atIndex tokens file (tokens.length - e.rest.length) (e.fault.cause limit e.rest)

/-- The program of a list of tokens, in which no more than `limit` expressions and
blocks are open at a time. -/
def parseWithin (limit : Nat) (tokens : List Token) (file : String) : Except ParseError (List Stmt) :=
  match Parser.program (.ofLevels limit) tokens with
  | .ok (stmts, _) => .ok stmts
  | .error e => .error (e.error limit tokens file)

/-- How many expressions and blocks may be open at a time. -/
def maxNesting : Nat := 128

/-- The program of a list of tokens. -/
def parse (tokens : List Token) (file : String) : Except ParseError (List Stmt) :=
  parseWithin maxNesting tokens file

end MiniLua
