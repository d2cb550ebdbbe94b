import Nes6502.Bus

/-!
# A bus that asks to halt

`Watched β` answers as `β` does, and asks the processor to halt whenever a byte is written to one
of the addresses it watches.
-/

set_option autoImplicit false

namespace Nes6502

/-- A bus with addresses at which a write asks the processor to halt. -/
structure Watched (β : Type) where
  inner : β
  stops : List UInt16

namespace Watched

variable {β α : Type}

/-- Watches one address more. -/
def watch (bus : Watched β) (address : UInt16) : Watched β :=
  { bus with stops := address :: bus.stops }

/-- An access of the bus underneath. -/
def through (t : Transaction β α) : Transaction (Watched β) α := fun bus =>
  let reply := t bus.inner
  ⟨reply.value, { bus with inner := reply.bus }, reply.haltRaised⟩

instance [Bus β] : Bus (Watched β) where
  readByte address := through (Bus.readByte address)
  writeByte address value := fun bus =>
    let reply := through (Bus.writeByte address value) bus
    { reply with haltRaised := reply.haltRaised || bus.stops.contains address }
  peekByte address := through (Bus.peekByte address)

end Watched

end Nes6502
