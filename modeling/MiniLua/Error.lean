import MiniLua.LexError
import MiniLua.ParseError
/-!
# Errors

Why a source unit is no program: it has no tokens, or its tokens are no program.
Either way there is a name, a place, a message and mostly a tip.
-/

namespace MiniLua

/-- Why a source unit is no program. -/
inductive Error
  | lex (error : LexError)
  | parse (error : ParseError)
deriving DecidableEq, Repr

namespace Error

def name : Error → String
  | lex e => e.cause.name
  | parse e => e.cause.name

def position : Error → Position
  | lex e => e.position
  | parse e => e.position

def message : Error → String
  | lex e => e.message
  | parse e => e.message

/-- Advice to whoever wrote the source. -/
def tip? : Error → Option String
  | lex e => some e.cause.tip
  | parse e => e.cause.tip?

end Error

end MiniLua
