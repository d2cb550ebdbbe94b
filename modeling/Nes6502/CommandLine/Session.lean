import Nes6502.CommandLine.Failure
import Nes6502.CommandLine.Notice
import Nes6502.CommandLine.Options
import Nes6502.CommandLine.StateText
import Nes6502.Cpu.Run
import Nes6502.Program

/-!
# Sessions

A session loads one program into zeroed memory, resets the processor, runs it and writes the state
it ends in. The run ends at the breakpoint, when the budget of instructions is spent, or with a
fault; the state is written in each of these cases. Reaching the breakpoint comes before spending
the budget.

A session keeps everything that was said in it; what is shown of that is the log filter's business.

A timeout is a request to halt that comes from outside, at a moment of real time. A session is one
that no such request reaches.
-/

set_option autoImplicit false

namespace Nes6502.CommandLine

/-- What a session leaves behind. -/
structure Session where
  /-- What was said, in order. -/
  records : List Log.Record
  /-- The state it ended in, as text; empty if the program was never started. -/
  output : String
  failure : Option Failure

namespace Options

/-- The number of instructions that may be executed if none is given: more than a run can count. -/
def unlimited : Nat := 0xFFFFFFFFFFFFFFFF

def budget (o : Options) : Nat := o.maxInstructions.getD unlimited

def origin (o : Options) : UInt16 := o.loadAddress.getD Program.defaultOrigin

def policy (o : Options) : UndefinedPolicy := if o.illegalAsNop then .nop else .halt

def format (o : Options) : StateFormat := ⟨o.json, o.dumpZeroPage⟩

/-- Whether the processor is at the breakpoint. -/
def atBreakpoint (o : Options) (c : Cpu Ram) : Bool := o.breakpoint = some c.regs.pc

/-- Stops a run at the breakpoint, or after the budget. -/
def watcher (o : Options) : Watcher Nat Ram :=
  .counting fun executed c => ⟨o.atBreakpoint c || decide (o.budget ≤ executed), false⟩

/-- Runs a loaded program. The last round executes nothing, so there is one more than the budget. -/
def run (o : Options) (tracing : Bool) (c : Cpu Ram) : RunReport Nat Ram :=
  c.runUntil tracing (o.budget + 1) o.watcher 0

/-- What is said at the end of a run. -/
def closingNotices (o : Options) (report : RunReport Nat Ram) : List Notice :=
  match report.result with
  | .finished executed =>
    (if o.atBreakpoint report.cpu then [.breakpointHit report.cpu.regs.pc] else []) ++
      [.executed executed]
  | .failed fault => [.stopped fault]
  | .unfinished => []

/-- The failure of a run, if it failed. -/
def runFailure (report : RunReport Nat Ram) : Option Failure :=
  match report.result with
  | .failed fault => some (.emulation fault)
  | .finished _ | .unfinished => none

/-- A session with a program that was loaded. -/
def sessionOf (o : Options) (tracing : Bool) (length : Nat) (loaded : Cpu Ram) : Session :=
  let start := loaded.reset
  let report := o.run tracing start
  { records :=
      [(Event.loaded length o.origin).record, (Event.reset start.regs.pc).record,
        Notice.starting.record] ++
      report.events.toList.map Event.record ++ (o.closingNotices report).map Notice.record
    output := o.format.render report.cpu
    failure := runFailure report }

/-- The session with a program, given its bytes. -/
def session (o : Options) (tracing : Bool) (program : List UInt8) : Session :=
  let opening := (Notice.programRead o.program program.length).record
  match (Cpu.powerOn Ram.zeroed o.policy).transact (Program.loadAt o.origin program) with
  | (.error fault, _) => ⟨[opening], "", some (.notLoaded o.program o.origin fault)⟩
  | (.ok (), loaded) =>
    let session := o.sessionOf tracing program.length loaded
    { session with records := opening :: session.records }

end Options

end Nes6502.CommandLine
