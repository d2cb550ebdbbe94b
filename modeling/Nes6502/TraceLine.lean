import Nes6502.Listing

/-!
# Trace lines

One line for the state before an instruction: the program counter, the bytes of the instruction,
its text, and the registers, each part starting in a column of its own.
-/

set_option autoImplicit false

namespace Nes6502

namespace TraceLine

/-- A text filled up with blanks on the right to a width; a longer one is kept whole. -/
def padRight (width : Nat) (text : List Char) : List Char :=
  text ++ List.replicate (width - text.length) ' '

/-- The instruction bytes, separated by blanks. -/
def bytesText (bytes : List UInt8) : List Char :=
  [' '].intercalate (bytes.map (Hex.byte .upper))

/-- The registers, each after its name. -/
def registersText (r : Registers) : List Char :=
  ['A', ':'] ++ Hex.byte .upper r.a ++ [' ', 'X', ':'] ++ Hex.byte .upper r.x ++
  [' ', 'Y', ':'] ++ Hex.byte .upper r.y ++ [' ', 'P', ':'] ++ Hex.byte .upper r.status.bits ++
  [' ', 'S', 'P', ':'] ++ Hex.byte .upper r.sp ++
  [' ', 'C', 'Y', 'C', ':'] ++ Nat.toDigits 10 r.cycles.toNat

/-- The line of an instruction with its bytes and the registers before it. -/
def render (r : Registers) (bytes : List UInt8) (text : List Char) : List Char :=
  Hex.word .upper r.pc ++ [' ', ' '] ++ padRight 8 (bytesText bytes) ++ [' ', ' '] ++
  padRight 30 text ++ [' ', ' '] ++ registersText r

end TraceLine

/-- The trace line of the instruction at the program counter. Memory is only peeked at. -/
def Cpu.traceLine {β : Type} [Bus β] (c : Cpu β) : List Char × Cpu β :=
  let (entry, c) := c.transact (Listing.entryAt c.regs.pc)
  let (bytes, c) := c.transact (Listing.peekBytes c.regs.pc entry.length)
  (TraceLine.render c.regs bytes entry.text, c)

end Nes6502
