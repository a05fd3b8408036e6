import MiniLua.Cursor
/-!
# Walks

A walk moves a cursor step by step: it looks at the tokens here, takes them, opens a level
of nesting and closes it, and has a value in the end or stops with an error. Either way the
cursor stands where the last step left it, so an error closes no level that is open. A walk has
no result if it goes on for more rounds or levels than it was given.
-/

namespace MiniLua

/-- Moves a cursor up to a value or an error, if it ends. -/
abbrev Walk := ExceptT ParseError (StateT Cursor Option)

namespace Walk

variable {α : Type}

/-- Stops with an error at the cursor as it stands. -/
def fail (error : Cursor → ParseError) : Walk α := do
  throw (error (← get))

/-! ## Looking -/

/-- The token `n` places further on. -/
def peek? (n : Nat) : Walk (Option Token) := return (← get).peek? n

/-- Whether the token here passes a test. -/
def check (test : Token → Bool) : Walk Bool := return (← get).check test

/-! ## Taking a token -/

/-- The token here, whatever it is. -/
def advance : Walk Token := do
  match ← peek? 0 with
  | some t =>
    modify fun c => { c with index := c.index + 1 }
    pure t
  | none => fail (·.unexpectedEnd "a token")

/-- A token of a kind. -/
def expect (kind : Token.Kind) : Walk Token := do
  match ← peek? 0 with
  | some t => if t.kind = kind then advance else fail (·.expectedToken kind.text)
  | none => fail (·.unexpectedEnd kind.text)

/-- A token of a kind and a text. -/
def expectValue (kind : Token.Kind) (text : String) : Walk Token := do
  match ← peek? 0 with
  | some t => if t.is kind text then advance else fail (·.expectedToken (kind.text ++ " '" ++ text ++ "'"))
  | none => fail (·.unexpectedEnd (kind.text ++ " '" ++ text ++ "'"))

def keyword (word : String) : Walk Token := expectValue .keyword word

def symbol (text : String) : Walk Token := expectValue .symbol text

def operator (text : String) : Walk Token := expectValue .operator text

/-- The text of an identifier. -/
def name : Walk String := return (← expect .identifier).value

/-! ## Nesting -/

/-- Opens one more level. -/
def enter : Walk Unit := do
  match (← get).enter with
  | .ok c => set c
  | .error e => throw e

/-- Closes a level. -/
def exit : Walk Unit := modify (·.exit 1)

/-! ## Loops -/

/-- A walk without a result. -/
def endless : Walk α := ExceptT.mk fun _ => none

/-- Rounds from a value on, up to one that is the last, but no more than a number of them. -/
def rounds (round : α → Walk (ForInStep α)) : Nat → α → Walk α
  | 0, _ => endless
  | n + 1, a => do
    match ← round a with
    | .yield a => rounds round n a
    | .done a => pure a

/-- A loop from a value on. Each round but the last takes a token, so the tokens here are rounds enough. -/
def loop (round : α → Walk (ForInStep α)) (a : α) : Walk α := do
  rounds round ((← get).rest.length + 1) a

end Walk

/-- What a walk comes to from here, and where it leaves the cursor. -/
def Cursor.walk {α : Type} (c : Cursor) (w : Walk α) : Option (Except ParseError α × Cursor) :=
  w.run.run c

end MiniLua
