import Nes6502.Cpu.Interrupt
import Nes6502.Hex
import Nes6502.Log.Record

/-!
# Events

What the processor has to tell about its work, as data. `Event.record` puts an event into words.
-/

set_option autoImplicit false

namespace Nes6502

inductive Event where
  /-- The processor was reset and starts at an address. -/
  | reset (start : UInt16)
  /-- The host halted the processor. -/
  | halted (pc : UInt16)
  /-- A handler was entered. -/
  | interrupted (kind : Interrupt) (source handler : UInt16)
  /-- The interrupt mask kept an interrupt out. -/
  | masked (pc : UInt16)
  /-- An undefined opcode was met, and dealt with by the policy. -/
  | undefined (policy : UndefinedPolicy) (opcode : UInt8) (address : UInt16)
  /-- A run ended because of a request to halt. -/
  | stopped (executed : Nat)
  /-- The state before an instruction. -/
  | traced (line : List Char)
  /-- A program was loaded. -/
  | loaded (length : Nat) (origin : UInt16)
  deriving DecidableEq, Repr

open Log in
/-- The log record of an event. -/
def Event.record : Event → Record
  | .reset start =>
    let pc := Hex.wordText start
    ⟨.debug, .processor, s!"CPU reset, PC=${pc}"⟩
  | .halted pc =>
    let pc := Hex.wordText pc
    ⟨.debug, .processor, s!"CPU halted at PC=${pc}"⟩
  | .interrupted kind source handler =>
    let name := kind.name
    let source := Hex.wordText source
    let handler := Hex.wordText handler
    ⟨.debug, .processor, s!"{name} from ${source} to ${handler}"⟩
  | .masked pc =>
    let pc := Hex.wordText pc
    ⟨.trace, .processor, s!"IRQ masked at PC=${pc}"⟩
  | .undefined policy opcode address =>
    let opcode := Hex.byteText opcode
    let address := Hex.wordText address
    match policy with
    | .halt => ⟨.error, .processor, s!"Undefined opcode 0x{opcode} at PC: 0x{address}"⟩
    | .nop =>
      ⟨.warn, .processor, s!"Undefined opcode 0x{opcode} at PC: 0x{address} treated as NOP"⟩
  | .stopped executed =>
    ⟨.debug, .processor, s!"Run stopped after {executed} instructions"⟩
  | .traced line => ⟨.trace, .processor, String.ofList line⟩
  | .loaded length origin =>
    let origin := Hex.wordText origin
    ⟨.debug, .bus, s!"Loaded {length} byte program at ${origin}"⟩

namespace Cpu

variable {β : Type} [Bus β]

/-- What an interrupt at once has to tell. -/
def interruptEvent (before after : Cpu β) (kind : Interrupt) : Event :=
  if kind = .reset then .reset after.regs.pc
  else if before.masks kind then .masked before.regs.pc
  else .interrupted kind before.regs.pc after.regs.pc

end Cpu

end Nes6502
