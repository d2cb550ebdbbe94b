import Nes6502.CommandLine.Quoted
import Nes6502.Fault
import Nes6502.Hex
import Nes6502.Log.Record

/-!
# Notices of the command line

What the command line has to tell about a session, beside what the processor tells.
-/

set_option autoImplicit false

namespace Nes6502.CommandLine

inductive Notice where
  /-- The program file was read. -/
  | programRead (path : String) (length : Nat)
  | starting
  | breakpointHit (pc : UInt16)
  /-- The run ended without a fault. -/
  | executed (count : Nat)
  /-- The run ended with a fault. -/
  | stopped (fault : Fault)
  deriving DecidableEq, Repr

open Log in
/-- The log record of a notice. -/
def Notice.record : Notice → Record
  | .programRead path length =>
    let path := String.ofList (Quoted.encode path.toList)
    ⟨.info, .commandLine, s!"Loaded program: {path} ({length} bytes)"⟩
  | .starting => ⟨.info, .commandLine, "Starting execution..."⟩
  | .breakpointHit pc =>
    let pc := Hex.wordText pc
    ⟨.info, .commandLine, s!"Breakpoint hit at ${pc}"⟩
  | .executed count => ⟨.info, .commandLine, s!"Executed {count} instructions"⟩
  | .stopped fault =>
    let cause := fault.message
    ⟨.error, .commandLine, s!"Execution stopped: {cause}"⟩

end Nes6502.CommandLine
