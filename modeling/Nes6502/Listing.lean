import Nes6502.Bus
import Nes6502.Cpu.Execute
import Nes6502.Hex
import Nes6502.Opcode

/-!
# Listings

The assembly text of the instruction at an address. Only the bytes that the instruction occupies
are looked at, and they are looked at without side effects. A byte that is no documented opcode is
listed as data. A branch is listed with the address it goes to.
-/

set_option autoImplicit false

namespace Nes6502

namespace Listing

/-- An operand as it is written, with the blank before it: by the mode, the address of the
instruction and its two operand bytes. -/
def operandText (mode : AddressingMode) (address : UInt16) (low high : UInt8) : List Char :=
  let byte := '$' :: Hex.byte .upper low
  let word := '$' :: Hex.word .upper (wordOfBytes low high)
  match mode with
  | .implied => []
  | .accumulator => [' ', 'A']
  | .immediate => [' ', '#'] ++ byte
  | .zeroPage => [' '] ++ byte
  | .zeroPageX => [' '] ++ byte ++ [',', 'X']
  | .zeroPageY => [' '] ++ byte ++ [',', 'Y']
  | .absolute => [' '] ++ word
  | .absoluteX => [' '] ++ word ++ [',', 'X']
  | .absoluteY => [' '] ++ word ++ [',', 'Y']
  | .indirect => [' ', '('] ++ word ++ [')']
  | .indirectX => [' ', '('] ++ byte ++ [',', 'X', ')']
  | .indirectY => [' ', '('] ++ byte ++ [')', ',', 'Y']
  | .relative => [' ', '$'] ++ Hex.word .upper (branchTarget (address + 2) low)

/-- A byte that is listed as data. -/
def dataText (byte : UInt8) : List Char := ['.', 'd', 'b', ' ', '$'] ++ Hex.byte .upper byte

/-- An instruction as it is written. -/
structure Entry where
  text : List Char
  /-- The number of bytes it occupies. -/
  length : Nat
  deriving DecidableEq, Repr

variable {β : Type} [Bus β]

/-- The entry of the instruction at an address. -/
def entryAt (address : UInt16) : Transaction β Entry := do
  let opcode ← Bus.peekByte address
  match decode opcode with
  | none => return ⟨dataText opcode, 1⟩
  | some i =>
    let low ← if i.length > 1 then Bus.peekByte (address + 1) else pure 0
    let high ← if i.length > 2 then Bus.peekByte (address + 2) else pure 0
    return ⟨i.mnemonic.letters ++ operandText i.mode address low high, i.length⟩

/-- The listing of `count` instructions in a row, each with its address. -/
def disassemble (start : UInt16) : (count : Nat) → Transaction β (List (UInt16 × List Char))
  | 0 => return []
  | count + 1 => do
    let entry ← entryAt start
    let rest ← disassemble (start + UInt16.ofNat entry.length) count
    return (start, entry.text) :: rest

/-- The bytes at consecutive addresses, as a debugger sees them. -/
def peekBytes (address : UInt16) : (count : Nat) → Transaction β (List UInt8)
  | 0 => return []
  | count + 1 => do
    let byte ← Bus.peekByte address
    let rest ← peekBytes (address + 1) count
    return byte :: rest

end Listing

end Nes6502
