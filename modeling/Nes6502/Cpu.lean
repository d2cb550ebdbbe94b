import Nes6502.Action
import Nes6502.Bus

/-!
# The processor

A `Cpu β` is the processor together with the bus it is wired to: its registers, whether it is
fetching or halted, and the lines that can interrupt or halt it. All access to the bus goes through
`Cpu.transact`, which also notes a request to halt. A request stands until the host takes it back;
an instruction that is under way is not affected by it.
-/

set_option autoImplicit false

namespace Nes6502

/-- The registers, as a debugger sees them. -/
structure Registers where
  a : UInt8
  x : UInt8
  y : UInt8
  sp : UInt8
  pc : UInt16
  status : Status
  /-- Cycles since the last reset, modulo `2 ^ 64`. -/
  cycles : UInt64
  deriving DecidableEq, Repr

namespace Registers

/-- The stack pointer after a reset. -/
def stackReset : UInt8 := 0xFD

/-- The registers at power-on. -/
def powerOn : Registers := ⟨0, 0, 0, stackReset, 0, Status.powerOn, 0⟩

def get (r : Registers) : Register → UInt8
  | .a => r.a
  | .x => r.x
  | .y => r.y
  | .sp => r.sp

def set (r : Registers) (name : Register) (value : UInt8) : Registers :=
  match name with
  | .a => { r with a := value }
  | .x => { r with x := value }
  | .y => { r with y := value }
  | .sp => { r with sp := value }

end Registers

inductive RunState where
  /-- Between two instructions. -/
  | fetching
  /-- Within an instruction. -/
  | executing
  | halted
  deriving DecidableEq, Repr

/-- What to do about a byte that is no documented opcode. -/
inductive UndefinedPolicy where
  /-- Stop and report it. -/
  | halt
  /-- Treat it as one byte of doing nothing, for two cycles. -/
  | nop
  deriving DecidableEq, Repr

/-- The processor and its bus. -/
structure Cpu (β : Type) where
  bus : β
  regs : Registers
  state : RunState
  policy : UndefinedPolicy
  /-- Whether somebody asked the processor to halt. -/
  haltRequested : Bool
  /-- Whether a non-maskable interrupt waits to be taken. -/
  nmiLatched : Bool
  /-- The level of the interrupt line. -/
  irqLine : Bool

namespace Cpu

variable {β α : Type}

/-- A processor at power-on. -/
def powerOn (bus : β) (policy : UndefinedPolicy) : Cpu β where
  bus := bus
  regs := .powerOn
  state := .halted
  policy := policy
  haltRequested := false
  nmiLatched := false
  irqLine := false

/-! ## Access to the bus -/

/-- Carries out a transaction on the bus. -/
def transact (c : Cpu β) (t : Transaction β α) : α × Cpu β :=
  let reply := t c.bus
  (reply.value,
    { c with bus := reply.bus, haltRequested := c.haltRequested || reply.haltRaised })

def read [Bus β] (c : Cpu β) (address : UInt16) : UInt8 × Cpu β :=
  c.transact (Bus.readByte address)

def write [Bus β] (c : Cpu β) (address : UInt16) (value : UInt8) : Cpu β :=
  (c.transact (Bus.writeByte address value)).2

/-! ## Single registers -/

def setRegister (c : Cpu β) (name : Register) (value : UInt8) : Cpu β :=
  { c with regs := c.regs.set name value }

def setPc (c : Cpu β) (pc : UInt16) : Cpu β := { c with regs := { c.regs with pc := pc } }

def setStatus (c : Cpu β) (p : Status) : Cpu β := { c with regs := { c.regs with status := p } }

def setState (c : Cpu β) (state : RunState) : Cpu β := { c with state := state }

/-- Skips bytes of the program. -/
def advance (c : Cpu β) (bytes : Nat) : Cpu β := c.setPc (c.regs.pc + UInt16.ofNat bytes)

/-- Lets cycles pass. -/
def spend (c : Cpu β) (cycles : Nat) : Cpu β :=
  { c with regs := { c.regs with cycles := c.regs.cycles + UInt64.ofNat cycles } }

/-- Puts a result into a register, with the Zero and Negative flags that go with it. -/
def setResult (c : Cpu β) (name : Register) (value : UInt8) : Cpu β :=
  (c.setRegister name value).setStatus (c.regs.status.updateZeroNegative value)

/-! ## The host's side -/

/-- Asks the processor to halt before its next instruction. -/
def requestHalt (c : Cpu β) : Cpu β := { c with haltRequested := true }

/-- Halts at once. -/
def halt (c : Cpu β) : Cpu β := c.requestHalt.setState .halted

/-- Takes back a request to halt, and continues from the current place if halted. -/
def resume (c : Cpu β) : Cpu β :=
  { c with
    haltRequested := false
    state := if c.state = .halted then .fetching else c.state }

/-- Latches a non-maskable interrupt; it is taken before the next instruction. -/
def triggerNmi (c : Cpu β) : Cpu β := { c with nmiLatched := true }

/-- Drives the interrupt line. -/
def setIrq (c : Cpu β) (asserted : Bool) : Cpu β := { c with irqLine := asserted }

def setPolicy (c : Cpu β) (policy : UndefinedPolicy) : Cpu β := { c with policy := policy }

end Cpu

end Nes6502
