/-!
# Numerals

A numeral is delimited before it is judged. `numberRun` takes everything that
could belong to one, with stray dots, signs and markers, and `isNumeral` says
whether what was taken is one: digits, an optional fraction, an optional exponent.
-/

namespace MiniLua.Lexeme

def isExponentMark (c : Char) : Bool := c = 'e' || c = 'E'

/-- An optional sign, and what follows it. -/
def signRun : List Char → List Char × List Char
  | [] => ([], [])
  | c :: s => if c = '+' || c = '-' then ([c], s) else ([], c :: s)

theorem signRun_append (s : List Char) : (signRun s).1 ++ (signRun s).2 = s := by
  cases s with
  | nil => rfl
  | cons c s => rw [signRun]; split <;> rfl

/-- Digits and dots. -/
def isMantissaPart (c : Char) : Bool := c.isDigit || c = '.'

/-- Digits, dots and markers. -/
def isExponentPart (c : Char) : Bool := c.isDigit || c = '.' || isExponentMark c

/-- A marker, an optional sign, and digits, dots and markers; nothing if no marker
comes first. -/
def exponentRun : List Char → List Char × List Char
  | [] => ([], [])
  | c :: s =>
    if isExponentMark c then
      let signed := signRun s
      (c :: (signed.1 ++ signed.2.takeWhile isExponentPart), signed.2.dropWhile isExponentPart)
    else ([], c :: s)

theorem exponentRun_append (s : List Char) : (exponentRun s).1 ++ (exponentRun s).2 = s := by
  cases s with
  | nil => rfl
  | cons c s =>
    rw [exponentRun]
    split
    · simp [List.takeWhile_append_dropWhile, signRun_append]
    · rfl

/-- All that may belong to a numeral at the front of a text, and what follows it. -/
def numberRun (s : List Char) : List Char × List Char :=
  let tail := exponentRun (s.dropWhile isMantissaPart)
  (s.takeWhile isMantissaPart ++ tail.1, tail.2)

theorem numberRun_append (s : List Char) : (numberRun s).1 ++ (numberRun s).2 = s := by
  simp [numberRun, exponentRun_append, List.takeWhile_append_dropWhile]

/-- One digit or more and nothing else. -/
def isDigits (s : List Char) : Bool := !s.isEmpty && s.all Char.isDigit

/-- Nothing, or a marker, an optional sign and digits. -/
def isExponent : List Char → Bool
  | [] => true
  | c :: s => isExponentMark c && isDigits (signRun s).2

/-- Nothing, or a dot and digits, and then an exponent. -/
def isFraction : List Char → Bool
  | '.' :: s => isDigits (s.takeWhile Char.isDigit) && isExponent (s.dropWhile Char.isDigit)
  | s => isExponent s

/-- Digits, an optional fraction and an optional exponent. -/
def isNumeral (s : List Char) : Bool :=
  isDigits (s.takeWhile Char.isDigit) && isFraction (s.dropWhile Char.isDigit)

end MiniLua.Lexeme
