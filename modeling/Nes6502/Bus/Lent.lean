import Nes6502.Bus

/-!
# A bus on loan

`Lent β` stands for a bus that belongs to somebody else. It passes on the accesses to single bytes;
a word is then always two of those, whatever word accesses the bus underneath defines.
-/

set_option autoImplicit false

namespace Nes6502

/-- A bus that belongs to somebody else. -/
structure Lent (β : Type) where
  owner : β

namespace Lent

variable {β α : Type}

/-- An access of the bus underneath. -/
def through (t : Transaction β α) : Transaction (Lent β) α := fun bus =>
  let reply := t bus.owner
  ⟨reply.value, ⟨reply.bus⟩, reply.haltRaised⟩

instance [Bus β] : Bus (Lent β) where
  readByte address := through (Bus.readByte address)
  writeByte address value := through (Bus.writeByte address value)
  peekByte address := through (Bus.peekByte address)

end Lent

end Nes6502
