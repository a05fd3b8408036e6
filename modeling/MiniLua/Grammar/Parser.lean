import MiniLua.Grammar.Expectation
/-!
# Parsers

A parser takes tokens from the front of a list and gives a value and the tokens
it left, or says why it failed and at which tokens. A failure also counts the
levels of nesting that were open where it arose.

`repeating` is the one loop of the grammar: the next token decides whether there
is another round, and each round takes at least one token.
-/

namespace MiniLua

/-- A fault, the tokens from where it arose on, and how many levels were open there. -/
structure Failure where
  fault : Fault
  rest : List Token
  levels : Nat
deriving DecidableEq, Repr

/-- Reads a value off the front of a list of tokens. -/
def Parser (α : Type) := List Token → Except Failure (α × List Token)

namespace Parser

variable {α β : Type}

/-! ## One parser after another -/

instance : Monad Parser where
  pure a := fun ts => .ok (a, ts)
  bind p f := fun ts =>
    match p ts with
    | .ok (a, rest) => f a rest
    | .error e => .error e

@[simp] theorem pure_run (a : α) (ts : List Token) : (pure a : Parser α) ts = .ok (a, ts) := rfl

theorem bind_run (p : Parser α) (f : α → Parser β) (ts : List Token) :
    (p >>= f) ts = match p ts with
      | .ok (a, rest) => f a rest
      | .error e => .error e := rfl

/-- Two parsers in a row succeed if both do. -/
theorem bind_eq_ok {p : Parser α} {f : α → Parser β} {ts : List Token} {r : β × List Token} :
    (p >>= f) ts = .ok r ↔ ∃ a rest, p ts = .ok (a, rest) ∧ f a rest = .ok r := by
  rw [bind_run]
  cases h : p ts with
  | error e => simp
  | ok x =>
    obtain ⟨a, rest⟩ := x
    simp [and_assoc]

/-- Two parsers in a row fail if one of them does. -/
theorem bind_eq_error {p : Parser α} {f : α → Parser β} {ts : List Token} {e : Failure} :
    (p >>= f) ts = .error e ↔
      p ts = .error e ∨ ∃ a rest, p ts = .ok (a, rest) ∧ f a rest = .error e := by
  rw [bind_run]
  cases h : p ts with
  | error e => simp
  | ok x =>
    obtain ⟨a, rest⟩ := x
    simp [and_assoc]

theorem id_map (p : Parser α) : id <$> p = p := by
  funext ts
  show (p >>= fun a => pure a) ts = p ts
  rw [bind_run]
  cases p ts <;> rfl

theorem bind_assoc {γ : Type} (p : Parser α) (f : α → Parser β) (g : β → Parser γ) :
    p >>= f >>= g = p >>= fun a => f a >>= g := by
  funext ts
  simp only [bind_run]
  cases p ts <;> rfl

instance : LawfulMonad Parser :=
  LawfulMonad.mk' Parser id_map (fun _ _ => rfl) bind_assoc

/-! ## One token -/

/-- Fails at the next token. -/
def fail (fault : Fault) : Parser α := fun ts => .error ⟨fault, ts, 0⟩

/-- Fails at a token that starts nothing of what may stand there. -/
def unexpectedToken : Parser α := fail (.unexpected .statementOrExpression)

/-- The next token, whatever it is. -/
def next : Parser Token
  | [] => .error ⟨.expected .token, [], 0⟩
  | t :: rest => .ok (t, rest)

/-- The next token if it passes a test. -/
def satisfy (wanted : Expectation) (test : Token → Bool) : Parser Token
  | [] => .error ⟨.expected wanted, [], 0⟩
  | t :: rest => if test t then .ok (t, rest) else .error ⟨.expected wanted, t :: rest, 0⟩

theorem satisfy_eq_ok {wanted : Expectation} {test : Token → Bool} {t : Token} {ts us : List Token} :
    satisfy wanted test ts = .ok (t, us) ↔ ts = t :: us ∧ test t = true := by
  cases ts with
  | nil => simp [satisfy]
  | cons u ts => by_cases hu : test u <;> simp [satisfy, hu] <;> grind

/-- A token of a kind. -/
def ofKind (kind : Token.Kind) : Parser Token :=
  satisfy (.kind kind) fun t => t.kind = kind

/-- A token of a kind and a text. -/
def exact (kind : Token.Kind) (text : String) : Parser Token :=
  satisfy (.exact kind text) fun t => t.is kind text

def keyword (word : String) : Parser Token := exact .keyword word

def symbol (text : String) : Parser Token := exact .symbol text

def operator (text : String) : Parser Token := exact .operator text

/-- The text of an identifier. -/
def name : Parser String := Token.value <$> ofKind .identifier

/-- Whether there is a next token and it passes a test. -/
def check (test : Token → Bool) : Parser Bool := fun ts => .ok (ts.head?.any test, ts)

/-- Goes on as the next token says, which is left where it is. -/
def look (wanted : Expectation) (go : Token → Parser α) : Parser α
  | [] => .error ⟨.unexpected wanted, [], 0⟩
  | t :: rest => go t (t :: rest)

/-! ## Nesting -/

/-- Counts one more level as open in a failure. -/
def nested (p : Parser α) : Parser α := fun ts =>
  match p ts with
  | .ok r => .ok r
  | .error e => .error { e with levels := e.levels + 1 }

/-! ## Loops -/

/-- Rounds as long as the next token gives one. A round takes a token, so there
are no more rounds than tokens. -/
def rounds (round? : Token → Option (α → Parser α)) : List Token → α → Parser α
  | [], a, ts => .ok (a, ts)
  | _ :: bound, a, ts =>
    match ts with
    | [] => .ok (a, [])
    | t :: rest =>
      match round? t with
      | none => .ok (a, t :: rest)
      | some round =>
        match round a (t :: rest) with
        | .ok (b, rest) => rounds round? bound b rest
        | .error e => .error e

/-- Starts from a value and has each round make the next one of it, as long as the
next token gives a round. -/
def repeating (round? : Token → Option (α → Parser α)) (a : α) : Parser α := fun ts =>
  rounds round? ts a ts

/-- Items as long as the next token passes a test. -/
def many (test : Token → Bool) (item : Parser α) : Parser (List α) := do
  let items ← repeating (fun t => if test t then some fun items => (· :: items) <$> item else none) []
  pure items.reverse

/-- One item or more with commas between them. -/
def separated (item : Parser α) : Parser (List α) := do
  let first ← item
  let more ← many (·.isSymbol ",") do
    let _ ← next
    item
  pure (first :: more)

/-- Items with commas between them, or none, in parentheses. -/
def parenthesized (item : Parser α) : Parser (List α) := do
  let _ ← symbol "("
  if ← check (·.isSymbol ")") then
    let _ ← next
    pure []
  else
    let items ← separated item
    let _ ← symbol ")"
    pure items

end Parser
end MiniLua
