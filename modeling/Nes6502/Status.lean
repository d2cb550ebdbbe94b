import Nes6502.Hex

/-!
# The processor status register

Eight flags share one byte. Six of them are latches of the processor. Bit 5 has no latch and reads
as one everywhere; bit 4 exists only in the copies of the register that are pushed to the stack.

`Status` keeps the byte as it is stored. `Status.get` is the view through which the rest of the
library reads it: each operation changes the flags it names and leaves the others alone.
-/

set_option autoImplicit false

namespace Nes6502

/-- The flags, from the lowest bit of the register to the highest. -/
inductive Flag where
  | carry
  | zero
  | interruptDisable
  | decimal
  | brk
  | unused
  | overflow
  | negative
  deriving DecidableEq, Repr

namespace Flag

/-- The bit of the register that holds the flag. -/
def mask : Flag → UInt8
  | .carry => 0x01
  | .zero => 0x02
  | .interruptDisable => 0x04
  | .decimal => 0x08
  | .brk => 0x10
  | .unused => 0x20
  | .overflow => 0x40
  | .negative => 0x80

/-- The letter that stands for the flag when it is set, and when it is clear. -/
def letters : Flag → Char × Char
  | .carry => ('C', 'c')
  | .zero => ('Z', 'z')
  | .interruptDisable => ('I', 'i')
  | .decimal => ('D', 'd')
  | .brk => ('B', 'b')
  | .unused => ('-', '-')
  | .overflow => ('V', 'v')
  | .negative => ('N', 'n')

/-- All flags, from the highest bit to the lowest: the order in which a register is printed. -/
def all : List Flag :=
  [.negative, .overflow, .unused, .brk, .decimal, .interruptDisable, .zero, .carry]

end Flag

/-- The status register, as the byte that is stored. -/
structure Status where
  stored : UInt8
  deriving DecidableEq, Repr

namespace Status

/-- After power-on and reset the unused bit and the interrupt mask are set. -/
def powerOn : Status := ⟨0x24⟩

/-- A register with the given bits; the unused bit is forced on. -/
def ofBits (bits : UInt8) : Status := ⟨bits ||| Flag.unused.mask⟩

/-- The register as a byte; the unused bit reads as one. -/
def bits (p : Status) : UInt8 := p.stored ||| Flag.unused.mask

/-- Whether a flag is set; the unused flag always is. -/
def get (p : Status) (flag : Flag) : Bool :=
  p.stored &&& flag.mask != 0 || flag == .unused

/-- A flag as the number zero or one, for arithmetic with the carry. -/
def bit (p : Status) (flag : Flag) : UInt8 := if p.get flag then 1 else 0

def set (p : Status) (flag : Flag) : Status := ⟨p.stored ||| flag.mask⟩

/-- Clears a flag; the unused flag cannot be cleared. -/
def clear (p : Status) (flag : Flag) : Status :=
  if flag = .unused then p else ⟨p.stored &&& ~~~flag.mask⟩

/-- Gives a flag the value. -/
def assign (p : Status) (flag : Flag) (value : Bool) : Status :=
  if value then p.set flag else p.clear flag

def setAll (p : Status) (flags : List Flag) : Status := flags.foldl set p

def clearAll (p : Status) (flags : List Flag) : Status := flags.foldl clear p

/-- Zero and Negative as a result leaves them: Zero says that it is zero, Negative is its bit 7. -/
def updateZeroNegative (p : Status) (value : UInt8) : Status :=
  (p.assign .zero (value == 0)).assign .negative (value &&& 0x80 != 0)

/-- The byte that is pushed to the stack; Break says whether software asked for the push. -/
def toStack (p : Status) (software : Bool) : UInt8 :=
  if software then p.bits ||| Flag.brk.mask else p.bits &&& ~~~Flag.brk.mask

/-- The register that a pulled byte restores: Break is dropped, the unused bit is forced on. -/
def ofStack (byte : UInt8) : Status := ofBits (byte &&& ~~~Flag.brk.mask)

/-- One letter a flag from the highest bit down, in lower case where the flag is clear. -/
def letters (p : Status) : List Char :=
  Flag.all.map fun flag => if p.get flag then flag.letters.1 else flag.letters.2

/-- The register for a debugger: its byte and its letters. -/
def describe (p : Status) : String :=
  let byte := String.ofList (Hex.byte .lower p.bits)
  let letters := String.ofList p.letters
  s!"Status(0x{byte} {letters})"

end Status

end Nes6502
