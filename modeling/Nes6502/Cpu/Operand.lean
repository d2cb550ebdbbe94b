import Nes6502.Cpu

/-!
# Operands

`Cpu.resolve` finds the operand of an instruction whose operand bytes start at the program counter.
It reads those bytes, and the pointer they name if there is one, and leaves the program counter
where it is. Whether indexing crossed a page boundary is part of the answer.
-/

set_option autoImplicit false

namespace Nes6502

/-- The place of an operand. -/
inductive Operand where
  | address (address : UInt16)
  | accumulator
  | absent
  deriving DecidableEq, Repr

/-- The operand that an addressing mode names. -/
structure Resolution where
  operand : Operand
  /-- Whether indexing left the page of the base address. -/
  pageCrossed : Bool
  deriving DecidableEq, Repr

namespace Resolution

/-- An address that is not the result of indexing. -/
def direct (address : UInt16) : Resolution := ⟨.address address, false⟩

/-- A base address plus an index; the page is left when the low bytes add up to more than a
byte. -/
def indexed (base : UInt16) (index : UInt8) : Resolution :=
  ⟨.address (base + index.toUInt16), (base &&& 0xFF) + index.toUInt16 > 0xFF⟩

end Resolution

namespace Cpu

variable {β : Type} [Bus β]

/-- The word at the program counter. -/
def operandWord (c : Cpu β) : UInt16 × Cpu β := c.transact (Bus.readWord c.regs.pc)

/-- The word in the first page that a pointer names; the pointer wraps within the page. -/
def zeroPageWord (c : Cpu β) (pointer : UInt8) : UInt16 × Cpu β :=
  c.transact (Bus.readSplitWord pointer.toUInt16 (pointer + 1).toUInt16)

/-- Finds the operand of an instruction whose operand bytes start at the program counter. -/
def resolve (c : Cpu β) (mode : AddressingMode) : Resolution × Cpu β :=
  match mode with
  | .immediate | .relative => (.direct c.regs.pc, c)
  | .zeroPage =>
    let (base, c) := c.read c.regs.pc
    (.direct base.toUInt16, c)
  | .zeroPageX =>
    let (base, c) := c.read c.regs.pc
    (.direct (base + c.regs.x).toUInt16, c)
  | .zeroPageY =>
    let (base, c) := c.read c.regs.pc
    (.direct (base + c.regs.y).toUInt16, c)
  | .absolute =>
    let (base, c) := c.operandWord
    (.direct base, c)
  | .absoluteX =>
    let (base, c) := c.operandWord
    (.indexed base c.regs.x, c)
  | .absoluteY =>
    let (base, c) := c.operandWord
    (.indexed base c.regs.y, c)
  | .indirect =>
    -- The second byte of the pointer lies in the same page as the first.
    let (pointer, c) := c.operandWord
    let (target, c) := c.transact
      (Bus.readSplitWord pointer ((pointer &&& 0xFF00) ||| ((pointer + 1) &&& 0xFF)))
    (.direct target, c)
  | .indirectX =>
    let (base, c) := c.read c.regs.pc
    let (target, c) := c.zeroPageWord (base + c.regs.x)
    (.direct target, c)
  | .indirectY =>
    let (base, c) := c.read c.regs.pc
    let (target, c) := c.zeroPageWord base
    (.indexed target c.regs.y, c)
  | .accumulator => (⟨.accumulator, false⟩, c)
  | .implied => (⟨.absent, false⟩, c)

/-- The value of an operand; an absent one counts as zero. -/
def readOperand (c : Cpu β) (operand : Operand) : UInt8 × Cpu β :=
  match operand with
  | .address address => c.read address
  | .accumulator => (c.regs.a, c)
  | .absent => (0, c)

/-- Replaces an operand; an absent one stays absent. -/
def writeOperand (c : Cpu β) (operand : Operand) (value : UInt8) : Cpu β :=
  match operand with
  | .address address => c.write address value
  | .accumulator => c.setRegister .a value
  | .absent => c

end Cpu

end Nes6502
