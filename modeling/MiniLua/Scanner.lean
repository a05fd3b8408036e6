import MiniLua.Lexeme.Lemmas
/-!
# Scanning

`scan` reads one lexeme after another and keeps their tokens. A `Scanner` is a
place in a source with tokens already given; it can be moved, be given tokens,
and be run to the end of the source.
-/

namespace MiniLua

/-! ## From text to tokens -/

/-- The token of a lexeme that starts at an offset, if it has one. -/
def Lexeme.token? (file : String) (offset : Nat) (l : Lexeme) : Option Token :=
  l.token.map fun t => ⟨t.1, t.2, .ofNat file offset (Text.width l.written)⟩

/-- The tokens of a text that starts at an offset, after those already found,
which are held last one first. -/
def scan (file : String) (offset : Nat) (found : List Token) : List Char → Except LexError (List Token)
  | [] => .ok found.reverse
  | c :: s =>
    match h : Lexeme.first c s with
    | .error (cause, n) => .error ⟨cause, .ofNat file (offset + n)⟩
    | .ok l =>
      have := Lexeme.length_rest_lt h
      scan file (offset + Text.width l.written) ((l.token? file offset).toList ++ found) l.rest
termination_by s => s.length
decreasing_by assumption

@[simp] theorem scan_nil (file : String) (offset : Nat) (found : List Token) :
    scan file offset found [] = .ok found.reverse := by
  rw [scan]

theorem scan_of_error {file : String} {offset : Nat} {found : List Token} {c : Char} {s : List Char}
    {cause : LexError.Cause} {n : Nat} (h : Lexeme.first c s = .error (cause, n)) :
    scan file offset found (c :: s) = .error ⟨cause, .ofNat file (offset + n)⟩ := by
  rw [scan]
  split <;> simp_all

theorem scan_of_ok {file : String} {offset : Nat} {found : List Token} {c : Char} {s : List Char}
    {l : Lexeme} (h : Lexeme.first c s = .ok l) :
    scan file offset found (c :: s) =
      scan file (offset + Text.width l.written) ((l.token? file offset).toList ++ found) l.rest := by
  rw [scan]
  split <;> simp_all

/-- The tokens of a source unit. -/
def tokenize (source : String) (file : String) : Except LexError (List Token) :=
  scan file 0 [] source.toList

/-! ## Scanners -/

/-- A place in a source, with the tokens found so far. -/
structure Scanner where
  source : String
  file : String
  offset : Nat
  /-- Last one first. -/
  found : List Token
deriving DecidableEq, Repr

namespace Scanner

/-- At the start of a source. -/
def ofSource (source : String) (file : String) : Scanner :=
  ⟨source, file, 0, []⟩

/-- Moves on by a number of bytes. -/
def advance (s : Scanner) (n : Nat) : Scanner :=
  { s with offset := s.offset + n }

/-- Adds a token to those found. -/
def push (s : Scanner) (t : Token) : Scanner :=
  { s with found := t :: s.found }

/-- The rest of the source. -/
def remainder (s : Scanner) : List Char :=
  Text.dropBytes s.offset s.source.toList

/-- The next character. -/
def peek? (s : Scanner) : Option Char :=
  s.remainder.head?

/-- At the end of the source or past it. -/
def atEnd (s : Scanner) : Bool :=
  s.source.utf8ByteSize ≤ s.offset

def position (s : Scanner) : Position :=
  .ofNat s.file s.offset

/-- The span of the next `len` bytes. -/
def spanOf (s : Scanner) (len : Nat) : Span :=
  .ofNat s.file s.offset len

/-- The tokens found so far and those of the rest of the source. -/
def tokens (s : Scanner) : Except LexError (List Token) :=
  scan s.file s.offset s.found s.remainder

end Scanner

theorem tokens_ofSource (source file : String) :
    (Scanner.ofSource source file).tokens = tokenize source file := by
  simp [Scanner.ofSource, Scanner.tokens, Scanner.remainder, tokenize]

end MiniLua
