import Nes6502.Status

/-!
# Arithmetic and logic

The operations on bytes, apart from registers and memory: each takes its operands and the status
register, and gives the result with the status after it. Decimal mode does not exist on this
processor, so the Decimal flag is never consulted.
-/

set_option autoImplicit false

namespace Nes6502

namespace Alu

/-- The sum of two bytes and the carry. The sum is kept nine bits wide, so that Carry and Overflow
are known before it is cut to a byte. -/
def addWithCarry (a m : UInt8) (p : Status) : UInt8 × Status :=
  let sum : UInt16 := a.toUInt16 + m.toUInt16 + (p.bit .carry).toUInt16
  let result := sum.toUInt8
  let p := p.assign .carry (sum > 0xFF)
  let p := p.assign .overflow ((a ^^^ result) &&& (m ^^^ result) &&& 0x80 != 0)
  (result, p.updateZeroNegative result)

/-- The flags after comparing a register with an operand: Carry says that the register is not less,
Zero and Negative describe the difference. -/
def compare (register m : UInt8) (p : Status) : Status :=
  (p.updateZeroNegative (register - m)).assign .carry (register ≥ m)

/-- The flags after testing the bits of an operand against the accumulator. -/
def testBits (a m : UInt8) (p : Status) : Status :=
  ((p.assign .zero (a &&& m == 0)).assign .overflow (m &&& 0x40 != 0)).assign .negative
    (m &&& 0x80 != 0)

end Alu

/-- The operations that combine the accumulator with an operand. -/
inductive Combination where
  | add
  | subtract
  | and
  | or
  | xor
  deriving DecidableEq, Repr

/-- The new accumulator and status. Subtraction adds the complement: with the carry as "no borrow",
`a - m - (1 - c)` is `a + ~m + c`. -/
def Combination.apply (op : Combination) (a m : UInt8) (p : Status) : UInt8 × Status :=
  match op with
  | .add => Alu.addWithCarry a m p
  | .subtract => Alu.addWithCarry a (~~~m) p
  | .and => (a &&& m, p.updateZeroNegative (a &&& m))
  | .or => (a ||| m, p.updateZeroNegative (a ||| m))
  | .xor => (a ^^^ m, p.updateZeroNegative (a ^^^ m))

/-- The operations that replace an operand, in memory or in the accumulator. -/
inductive Modification where
  | shiftLeft
  | shiftRight
  | rotateLeft
  | rotateRight
  | increment
  | decrement
  deriving DecidableEq, Repr

namespace Modification

/-- The byte that replaces the operand. -/
def result (op : Modification) (m : UInt8) (p : Status) : UInt8 :=
  match op with
  | .shiftLeft => m <<< 1
  | .shiftRight => m >>> 1
  | .rotateLeft => m <<< 1 ||| p.bit .carry
  | .rotateRight => m >>> 1 ||| p.bit .carry <<< 7
  | .increment => m + 1
  | .decrement => m - 1

/-- The bit that is shifted out into the carry; counting leaves the carry alone. -/
def shiftedOut (op : Modification) (m : UInt8) : Option Bool :=
  match op with
  | .shiftLeft | .rotateLeft => some (m &&& 0x80 != 0)
  | .shiftRight | .rotateRight => some (m &&& 0x01 != 0)
  | .increment | .decrement => none

/-- The new operand and status. -/
def apply (op : Modification) (m : UInt8) (p : Status) : UInt8 × Status :=
  let value := op.result m p
  let p := match op.shiftedOut m with
    | some carry => p.assign .carry carry
    | none => p
  (value, p.updateZeroNegative value)

end Modification

end Nes6502
