import Nes6502.Cpu.Stack

/-!
# Reset and interrupts

An interrupt pushes the program counter and the status register, sets the interrupt mask and goes
on at the address that its vector holds. A non-maskable interrupt is latched and taken once; the
interrupt line is level-sensitive and counts only while the mask is clear. Reset is an interrupt
that pushes nothing and clears the latch, the line and any request to halt.
-/

set_option autoImplicit false

namespace Nes6502

inductive Interrupt where
  | nmi
  | reset
  | irq
  /-- Software asked for it. -/
  | brk
  deriving DecidableEq, Repr

namespace Interrupt

/-- The name under which an interrupt is reported. -/
def name : Interrupt → String
  | .nmi => "Nmi"
  | .reset => "Reset"
  | .irq => "Irq"
  | .brk => "Break"

/-- The place that holds the address of the handler. -/
def vector : Interrupt → UInt16
  | .nmi => nmiVector
  | .reset => resetVector
  | .irq | .brk => irqVector

/-- The cycles that entering a handler takes. -/
def entryCycles : Nat := 7

end Interrupt

namespace Cpu

variable {β : Type} [Bus β]

/-- Starts the processor at the address that the reset vector holds. -/
def reset (c : Cpu β) : Cpu β :=
  let (start, c) := c.transact (Bus.readWord resetVector)
  { c with
    regs := { Registers.powerOn with pc := start, cycles := UInt64.ofNat Interrupt.entryCycles }
    state := .fetching
    haltRequested := false
    nmiLatched := false
    irqLine := false }

/-- Enters the handler of an interrupt. A software interrupt is an instruction and is paid for as
one, so it takes no cycles here. -/
def enterHandler (c : Cpu β) (kind : Interrupt) : Cpu β :=
  let c := c.pushWord c.regs.pc
  let c := c.pushByte (c.regs.status.toStack (kind == .brk))
  let c := c.setStatus (c.regs.status.set .interruptDisable)
  let (handler, c) := c.transact (Bus.readWord kind.vector)
  (c.setPc handler).spend (if kind = .brk then 0 else Interrupt.entryCycles)

/-- Whether the interrupt mask keeps an interrupt out. -/
def masks (c : Cpu β) (kind : Interrupt) : Bool :=
  kind == .irq && c.regs.status.get .interruptDisable

/-- An interrupt at once, whatever is latched. -/
def interrupt (c : Cpu β) (kind : Interrupt) : Cpu β :=
  if kind = .reset then c.reset
  else if c.masks kind then c
  else c.enterHandler kind

/-- The interrupt that is due before the next instruction. -/
def dueInterrupt (c : Cpu β) : Option Interrupt :=
  if c.nmiLatched then some .nmi
  else if c.irqLine && !c.regs.status.get .interruptDisable then some .irq
  else none

/-- Takes the interrupt that is due, if any; at most one. -/
def pollInterrupts (c : Cpu β) : Cpu β :=
  match c.dueInterrupt with
  | some .nmi => { c with nmiLatched := false }.enterHandler .nmi
  | some kind => c.enterHandler kind
  | none => c

end Cpu

end Nes6502
