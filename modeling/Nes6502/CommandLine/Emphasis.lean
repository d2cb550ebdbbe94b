import Nes6502.CommandLine.ControlSequence

/-!
# Emphasised text

A message is made of pieces, some of which stand out where a terminal shows it. The emphasis is
written with control sequences around a piece; where no terminal reads the message, they are taken
away again, together with those that came from outside.
-/

set_option autoImplicit false

namespace Nes6502.CommandLine

/-- A piece of a message. -/
inductive Piece where
  | plain (text : String)
  | emphasised (text : String)
  deriving DecidableEq, Repr

namespace Piece

/-- A piece as a terminal gets it. -/
def written : Piece → String
  | .plain text => text
  | .emphasised text => "\x1b[1m" ++ text ++ "\x1b[0m"

/-- What is shown of a message without a terminal. -/
def unadorned (pieces : List Piece) : String := visible (String.join (pieces.map written))

end Piece

end Nes6502.CommandLine
