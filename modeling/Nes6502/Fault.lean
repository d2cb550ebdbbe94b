import Nes6502.Hex

/-!
# Faults

What can go wrong between the processor and its host, and how it is put into words.
-/

set_option autoImplicit false

namespace Nes6502

inductive Fault where
  /-- The byte that was fetched is no documented opcode. -/
  | undefinedOpcode (opcode : UInt8) (address : UInt16)
  /-- The processor is halted, or has been asked to halt. -/
  | halted
  /-- A program of this many bytes would reach the interrupt vectors. -/
  | programTooLarge (length : Nat)
  deriving DecidableEq, Repr

/-- The fault as a sentence. -/
def Fault.message : Fault → String
  | .undefinedOpcode opcode address =>
    let byte := String.ofList (Hex.byte .lower opcode)
    let word := String.ofList (Hex.word .lower address)
    s!"Undefined opcode 0x{byte} at address 0x{word}"
  | .halted => "CPU is halted"
  | .programTooLarge length =>
    s!"Program of {length} bytes does not fit below the interrupt vectors"

end Nes6502
