import Nes6502.Bus

/-!
# A bus that keeps a record

`Recorded β` answers as `β` does and writes every byte access down, in order, with the value that
was read or written. Word accesses appear as the two byte accesses they consist of.
-/

set_option autoImplicit false

namespace Nes6502

/-- The three ways to touch a byte. -/
inductive AccessKind where
  | read
  | write
  | peek
  deriving DecidableEq, Repr

/-- One access to one byte. -/
structure Access where
  kind : AccessKind
  address : UInt16
  value : UInt8
  deriving DecidableEq, Repr

/-- A bus with the record of the accesses made to it, latest first. -/
structure Recorded (β : Type) where
  inner : β
  record : List Access

namespace Recorded

variable {β : Type}

/-- The accesses in the order in which they were made. -/
def accesses (bus : Recorded β) : List Access := bus.record.reverse

/-- The same bus with an empty record. -/
def cleared (bus : Recorded β) : Recorded β := { bus with record := [] }

/-- Makes an access to the bus underneath and writes it down. -/
def reading (kind : AccessKind) (address : UInt16) (t : Transaction β UInt8) :
    Transaction (Recorded β) UInt8 := fun bus =>
  let reply := t bus.inner
  ⟨reply.value, ⟨reply.bus, ⟨kind, address, reply.value⟩ :: bus.record⟩, reply.haltRaised⟩

instance [Bus β] : Bus (Recorded β) where
  readByte address := reading .read address (Bus.readByte address)
  writeByte address value := fun bus =>
    let reply := Bus.writeByte address value bus.inner
    ⟨(), ⟨reply.bus, ⟨.write, address, value⟩ :: bus.record⟩, reply.haltRaised⟩
  peekByte address := reading .peek address (Bus.peekByte address)

end Recorded

end Nes6502
