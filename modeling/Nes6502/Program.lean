import Nes6502.Bus
import Nes6502.Fault

/-!
# Loading programs

A program image is copied through the bus to its origin, and the reset vector is pointed at it.
The image has to end below the interrupt vectors; one that does not is refused before the first
access to the bus.
-/

set_option autoImplicit false

namespace Nes6502

namespace Program

/-- Where a program goes unless told otherwise. -/
def defaultOrigin : UInt16 := 0x8000

variable {β : Type} [Bus β]

/-- Writes bytes to consecutive addresses, in order. -/
def writeBytes (origin : UInt16) (bytes : List UInt8) : Transaction β Unit := fun bus =>
  let start : Reply β UInt16 := ⟨origin, bus, false⟩
  let last := bytes.foldl
    (fun reply byte => reply.andThen fun address => do
      Bus.writeByte address byte
      return address + 1) start
  ⟨(), last.bus, last.haltRaised⟩

/-- Copies a program to its origin and points the reset vector at it. -/
def loadAt (origin : UInt16) (program : List UInt8) : Transaction β (Except Fault Unit) :=
  if origin.toNat + program.length > nmiVector.toNat then
    return .error (.programTooLarge program.length)
  else do
    writeBytes origin program
    Bus.writeWord resetVector origin
    return .ok ()

/-- Copies a program to the default origin and points the reset vector at it. -/
def load (program : List UInt8) : Transaction β (Except Fault Unit) := loadAt defaultOrigin program

end Program

end Nes6502
