import MiniLua.Grammar.Program
/-!
# Cursors

A cursor is a place in a list of tokens and a depth of nesting. It can be looked
at and can run any production of the grammar from where it is. It then stands
after what the production took, or where the production failed, with the levels
that were open there still open.
-/

namespace MiniLua

/-- A place in a list of tokens. -/
structure Cursor where
  tokens : List Token
  file : String
  index : Nat
  depth : Nat
deriving DecidableEq, Repr

namespace Cursor

/-- At the first token, with nothing open. -/
def ofTokens (tokens : List Token) (file : String) : Cursor :=
  ⟨tokens, file, 0, 0⟩

/-! ## Looking -/

/-- The tokens from here on. -/
def rest (c : Cursor) : List Token := c.tokens.drop c.index

/-- The token `n` places further on. -/
def peek? (c : Cursor) (n : Nat) : Option Token := c.tokens[c.index + n]?

/-- The token here. -/
def current? (c : Cursor) : Option Token := c.peek? 0

def hasTokens (c : Cursor) : Bool := c.index < c.tokens.length

def position (c : Cursor) : Position := ParseError.positionAt c.tokens c.file c.index

def context (c : Cursor) : String := ParseError.contextAt c.tokens c.index

/-- Whether the token here passes a test. -/
def check (c : Cursor) (test : Token → Bool) : Bool := c.current?.any test

/-! ## Errors here -/

/-- The error of a cause here. -/
def errorOf (c : Cursor) (cause : ParseError.Cause) : ParseError :=
  .atIndex c.tokens c.file c.index cause

/-- The token here starts nothing that may stand here. -/
def unexpectedToken (c : Cursor) : ParseError :=
  c.errorOf ((Fault.unexpected .statementOrExpression).cause maxNesting c.rest)

/-- The input may not end here. -/
def unexpectedEnd (c : Cursor) (expected : String) : ParseError :=
  c.errorOf (.unexpectedEnd expected)

/-- Something else was wanted here. -/
def expectedToken (c : Cursor) (expected : String) : ParseError :=
  match c.current? with
  | some t => c.errorOf (.expectedToken expected t.text)
  | none => c.unexpectedEnd expected

/-! ## Moving -/

/-- Opens one more level. -/
def enter (c : Cursor) : Except ParseError Cursor :=
  if maxNesting ≤ c.depth then .error (c.errorOf (.nestingTooDeep maxNesting))
  else .ok { c with depth := c.depth + 1 }

/-- Opens levels, as many as asked for and possible: how many were opened, and what
stood against one more. -/
def enterMany : Nat → Cursor → Nat × Option ParseError × Cursor
  | 0, c => (0, none, c)
  | n + 1, c =>
    match c.enter with
    | .error e => (0, some e, c)
    | .ok c =>
      let r := enterMany n c
      (r.1 + 1, r.2.1, r.2.2)

/-- Closes levels, as many as asked for and open. -/
def exit (c : Cursor) (n : Nat) : Cursor := { c with depth := c.depth - n }

/-- What may be nested in a production that runs from here. -/
def inner (c : Cursor) : Inner := .ofLevels (maxNesting - c.depth)

/-- Runs a production from here: its value or error, and the cursor where a walk over it (`Walk`) ends. -/
def run {α : Type} (c : Cursor) (p : Inner → Parser α) : Except ParseError α × Cursor :=
  match p c.inner c.rest with
  | .ok (a, rest) => (.ok a, { c with index := c.tokens.length - rest.length })
  | .error e =>
    (.error (e.error maxNesting c.tokens c.file),
      { c with index := c.tokens.length - e.rest.length, depth := c.depth + e.levels })

end Cursor

end MiniLua
