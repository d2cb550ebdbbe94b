/-!
# The memory bus

The processor sees sixteen address lines and nothing of what lies behind them. A `Bus` is whatever
answers reads and writes there: plain memory, memory that keeps a record, or a device.

An access is a `Transaction`: it takes the bus and gives a `Reply`, which holds the value, the bus
afterwards, and whether the bus asked the processor to halt. A bus can raise that request and has
no way to take it back: transactions in sequence raise it if either of them does (`Reply.andThen`).

Word accesses have default definitions over byte accesses, low byte first, which a bus may replace.
-/

set_option autoImplicit false

namespace Nes6502

/-- What a bus gives back for one access. -/
structure Reply (β α : Type) where
  value : α
  bus : β
  /-- Whether the bus asked the processor to halt. -/
  haltRaised : Bool

/-- An access to a bus, or several in sequence. -/
def Transaction (β α : Type) : Type := β → Reply β α

variable {β α γ : Type}

/-- A second transaction after a first: a request to halt from either one stands. -/
def Reply.andThen (reply : Reply β α) (next : α → Transaction β γ) : Reply β γ :=
  let last := next reply.value reply.bus
  { last with haltRaised := reply.haltRaised || last.haltRaised }

namespace Transaction

/-- No access at all. -/
protected def pure (value : α) : Transaction β α := fun bus => ⟨value, bus, false⟩

protected def bind (t : Transaction β α) (next : α → Transaction β γ) : Transaction β γ :=
  fun bus => (t bus).andThen next

instance : Monad (Transaction β) where
  pure := Transaction.pure
  bind := Transaction.bind

end Transaction

/-- The little-endian word of two bytes. -/
def wordOfBytes (low high : UInt8) : UInt16 := low.toUInt16 ||| (high.toUInt16 <<< 8)

/-- The low byte of a word. -/
def lowByte (word : UInt16) : UInt8 := word.toUInt8

/-- The high byte of a word. -/
def highByte (word : UInt16) : UInt8 := (word >>> 8).toUInt8

/-- A device on the sixteen address lines. Every address can be read and written. -/
class Bus (β : Type) where
  readByte : UInt16 → Transaction β UInt8
  writeByte : UInt16 → UInt8 → Transaction β Unit
  /-- A debugger's look at a byte. A bus whose reads have effects replaces the default. -/
  peekByte : UInt16 → Transaction β UInt8 := readByte
  /-- The word whose low and high byte lie at two unrelated addresses. -/
  readSplitWord : UInt16 → UInt16 → Transaction β UInt16 := fun low high => do
    let l ← readByte low
    let h ← readByte high
    return wordOfBytes l h
  /-- The word at an address; its high byte lies at the next address, modulo `2 ^ 16`. -/
  readWord : UInt16 → Transaction β UInt16 := fun address => readSplitWord address (address + 1)
  writeWord : UInt16 → UInt16 → Transaction β Unit := fun address word => do
    writeByte address (lowByte word)
    writeByte (address + 1) (highByte word)

/-- The places that hold the addresses of the interrupt handlers. -/
def nmiVector : UInt16 := 0xFFFA
def resetVector : UInt16 := 0xFFFC
def irqVector : UInt16 := 0xFFFE

end Nes6502
