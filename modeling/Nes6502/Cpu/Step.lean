import Nes6502.Event
import Nes6502.Fault
import Nes6502.TraceLine

/-!
# Single steps

A step takes the interrupt that is due, fetches one opcode and executes its instruction. A halted
processor, and one that was asked to halt, refuses: nothing changes but that it is halted.

The answer of a step also lists what happened in it, in order. With tracing on, the trace line of
the instruction is among that; it is made after interrupts were taken and before the opcode is
fetched, and it only peeks at memory.
-/

set_option autoImplicit false

namespace Nes6502

/-- A step taken, or refused. -/
structure StepReport (β : Type) where
  result : Except Fault Unit
  cpu : Cpu β
  /-- What happened, in order. -/
  events : List Event

namespace Cpu

variable {β : Type} [Bus β]

/-- Whether the processor would refuse a step. -/
def refuses (c : Cpu β) : Bool := c.haltRequested || c.state == .halted

/-- Reads the byte at the program counter and moves past it. -/
def fetch (c : Cpu β) : UInt8 × Cpu β :=
  let (opcode, c) := c.read c.regs.pc
  (opcode, c.advance 1)

/-- What taking the due interrupt has to tell. -/
def pollEvents (before after : Cpu β) : List Event :=
  match before.dueInterrupt with
  | some kind => [.interrupted kind before.regs.pc after.regs.pc]
  | none => []

/-- What executing an instruction has to tell: a software interrupt, from the byte after its
padding byte. -/
def executeEvents (i : Instruction) (address : UInt16) (after : Cpu β) : List Event :=
  if i.mnemonic = .brk then [.interrupted .brk (address + 2) after.regs.pc] else []

/-- Deals with a byte that is no documented opcode. -/
def meetUndefined (c : Cpu β) (opcode : UInt8) (address : UInt16) : Except Fault Unit × Cpu β :=
  match c.policy with
  | .halt => (.error (.undefinedOpcode opcode address), (c.setPc address).setState .halted)
  | .nop => (.ok (), (c.spend 2).setState .fetching)

/-- The trace line, if there is to be one. -/
def traceEvents (tracing : Bool) (c : Cpu β) : List Event × Cpu β :=
  if tracing then
    let (line, c) := c.traceLine
    ([.traced line], c)
  else ([], c)

/-- Fetches and executes one instruction. -/
def executeNext (c : Cpu β) : StepReport β :=
  let address := c.regs.pc
  let (opcode, c) := c.fetch
  let c := c.setState .executing
  match decode opcode with
  | some i =>
    let c := (c.execute i).setState .fetching
    ⟨.ok (), c, executeEvents i address c⟩
  | none =>
    let (result, c) := c.meetUndefined opcode address
    ⟨result, c, [.undefined c.policy opcode address]⟩

/-- Takes the interrupt that is due and executes one instruction, unless halted. -/
def step (tracing : Bool) (c : Cpu β) : StepReport β :=
  if c.refuses then ⟨.error .halted, c.setState .halted, []⟩
  else
    let polled := c.pollInterrupts
    let (traced, ready) := traceEvents tracing polled
    let report := ready.executeNext
    { report with events := pollEvents c polled ++ traced ++ report.events }

end Cpu

end Nes6502
