import MiniLua.Error
import MiniLua.Grammar.Program
import MiniLua.Scanner
import MiniLua.Tree.Equality
/-!
# Source units

A source unit becomes a program by scanning and then parsing. The first error of
either is the error of the unit.
-/

namespace MiniLua

/-- The program of a source unit. -/
def parseSource (source : String) (file : String) : Except Error (List Stmt) :=
  match tokenize source file with
  | .error e => .error (.lex e)
  | .ok tokens =>
    match parse tokens file with
    | .error e => .error (.parse e)
    | .ok program => .ok program

/-- Whether two readings end alike: in the same program or in the same error. -/
def sameOutcome : Except Error (List Stmt) → Except Error (List Stmt) → Bool
  | .ok p, .ok q => p = q
  | .error e, .error f => e = f
  | _, _ => false

theorem sameOutcome_iff {a b : Except Error (List Stmt)} : sameOutcome a b ↔ a = b := by
  cases a <;> cases b <;> simp [sameOutcome]

end MiniLua
