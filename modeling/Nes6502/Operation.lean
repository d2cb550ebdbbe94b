import Nes6502.Cpu.Run
import Nes6502.Program

/-!
# Operations of the host

Everything that a host can do to a processor, as data. `Operation.apply` carries an operation out:
it gives the answer that the host sees, the processor afterwards, and what happened, in order.
`Operation.applyAll` carries out a sequence; an operation that is answered by a fault does not end
it.
-/

set_option autoImplicit false

namespace Nes6502

/-- What a host can do to a processor on a bus. -/
inductive Operation (β : Type) where
  | reset
  | step
  /-- Run for a number of rounds at most, or until the judge, who is told the number of instructions
  executed, ends the run. -/
  | runUntil (rounds : Nat) (judge : Nat → Cpu β → Verdict)
  | runFor (limit : Nat)
  | run (rounds : Nat)
  | halt
  /-- Ask to halt before the next instruction. -/
  | requestHalt
  | resume
  | triggerNmi
  | setIrq (asserted : Bool)
  | interrupt (kind : Interrupt)
  | setPolicy (policy : UndefinedPolicy)
  | load (origin : UInt16) (program : List UInt8)
  | readByte (address : UInt16)
  | writeByte (address : UInt16) (value : UInt8)
  | peekByte (address : UInt16)
  | readWord (address : UInt16)
  | readSplitWord (low high : UInt16)
  | writeWord (address word : UInt16)
  /-- The listing entry at an address. -/
  | list (address : UInt16)
  /-- The trace line of the next instruction. -/
  | traceLine

/-- What a host sees of an operation. -/
inductive Answer where
  | done
  | refused (fault : Fault)
  /-- A run has ended; the judge was asked so many times. -/
  | ran (result : RunResult) (asked : Nat)
  | byte (value : UInt8)
  | word (value : UInt16)
  | entry (entry : Listing.Entry)
  | line (text : List Char)
  deriving DecidableEq, Repr

/-- An operation carried out. -/
structure OperationReport (β : Type) where
  answer : Answer
  cpu : Cpu β
  /-- What happened, in order. -/
  events : List Event

namespace OperationReport

variable {β α : Type}

/-- An operation without an answer and with nothing to tell. -/
def silent (c : Cpu β) : OperationReport β := ⟨.done, c, []⟩

/-- An operation that is a transaction on the bus. -/
def ofTransaction (c : Cpu β) (t : Transaction β α) (answer : α → Answer) : OperationReport β :=
  let (value, c) := c.transact t
  ⟨answer value, c, []⟩

/-- An operation that is a run. -/
def ofRun (report : RunReport Nat β) : OperationReport β :=
  ⟨.ran report.result report.watcher, report.cpu, report.events.toList⟩

/-- The answer of something that either succeeds or meets a fault. -/
def answerOf : Except Fault Unit → Answer
  | .ok () => .done
  | .error fault => .refused fault

/-- What loading a program has to tell. -/
def loadEvents (length : Nat) (origin : UInt16) : Except Fault Unit → List Event
  | .ok () => [.loaded length origin]
  | .error _ => []

end OperationReport

namespace Operation

variable {β : Type} [Bus β]

open OperationReport in
/-- Carries out an operation. -/
def apply (tracing : Bool) (c : Cpu β) : Operation β → OperationReport β
  | .reset =>
    let c := c.reset
    ⟨.done, c, [.reset c.regs.pc]⟩
  | .step =>
    let report := c.step tracing
    ⟨answerOf report.result, report.cpu, report.events⟩
  | .runUntil rounds judge => ofRun (c.runUntil tracing rounds (.counting judge) 0)
  | .runFor limit => ofRun (c.runFor tracing limit)
  | .run rounds => ofRun (c.run tracing rounds)
  | .halt =>
    let c := c.halt
    ⟨.done, c, [.halted c.regs.pc]⟩
  | .requestHalt => silent c.requestHalt
  | .resume => silent c.resume
  | .triggerNmi => silent c.triggerNmi
  | .setIrq asserted => silent (c.setIrq asserted)
  | .interrupt kind =>
    let after := c.interrupt kind
    ⟨.done, after, [c.interruptEvent after kind]⟩
  | .setPolicy policy => silent (c.setPolicy policy)
  | .load origin program =>
    let (result, c) := c.transact (Program.loadAt origin program)
    ⟨answerOf result, c, loadEvents program.length origin result⟩
  | .readByte address => ofTransaction c (Bus.readByte address) .byte
  | .writeByte address value => ofTransaction c (Bus.writeByte address value) fun _ => .done
  | .peekByte address => ofTransaction c (Bus.peekByte address) .byte
  | .readWord address => ofTransaction c (Bus.readWord address) .word
  | .readSplitWord low high => ofTransaction c (Bus.readSplitWord low high) .word
  | .writeWord address word => ofTransaction c (Bus.writeWord address word) fun _ => .done
  | .list address => ofTransaction c (Listing.entryAt address) .entry
  | .traceLine =>
    let (text, c) := c.traceLine
    ⟨.line text, c, []⟩

/-- Carries out operations one after the other; the answers are in their order. -/
def applyAll (tracing : Bool) (c : Cpu β) : List (Operation β) → List Answer × Cpu β
  | [] => ([], c)
  | operation :: rest =>
    let report := operation.apply tracing c
    let (answers, last) := applyAll tracing report.cpu rest
    (report.answer :: answers, last)

end Operation

end Nes6502
