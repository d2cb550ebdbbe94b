import Nes6502.CommandLine.FileError
import Nes6502.Fault
import Nes6502.Hex

/-!
# Failures of a session

Why a session that was asked for correctly did not succeed. A failure is reported with what was
being done and, set apart from it, the cause.
-/

set_option autoImplicit false

namespace Nes6502.CommandLine

inductive Failure where
  | unreadable (path : String) (cause : FileError)
  | notLoaded (path : String) (origin : UInt16) (cause : Fault)
  | emulation (cause : Fault)
  deriving DecidableEq, Repr

namespace Failure

/-- What was being done. -/
def context : Failure → String
  | .unreadable path _ => s!"failed to read {path}"
  | .notLoaded path origin _ =>
    let origin := Hex.wordText origin
    s!"cannot load {path} at ${origin}"
  | .emulation _ => "emulation error"

/-- The cause in words. -/
def cause : Failure → String
  | .unreadable _ cause => cause.message
  | .notLoaded _ _ cause => cause.message
  | .emulation cause => cause.message

/-- The failure as it is reported, line by line. -/
def lines (failure : Failure) : List String :=
  let context := failure.context
  let cause := failure.cause
  [s!"Error: {context}", "", "Caused by:", s!"    {cause}"]

end Failure

end Nes6502.CommandLine
