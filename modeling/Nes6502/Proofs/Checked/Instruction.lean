import Nes6502.Proofs.Cycles

/-!
# Instructions with checked arithmetic

Most numbers in the processor wrap on purpose: registers, the program counter, the low byte of a
pointer. The others must not, and nothing keeps them from it but their range: the address of a stack
byte, the sum of an addition with its carry, the count of the cycles. Here these are computed with
operations that come to nothing if they overflow, everything else as before, and a computation that
meets such a case comes to nothing itself.

For each part of an instruction there is a lemma that the checked part is the part itself. What it
rests on is the range of the operands: a byte is less than `2 ^ 8`, so two of them and a carry fit
into a word, and the cycles of an instruction are seven at most. Only the cycle counter grows from
one instruction to the next, and needs room.

## What is proved

* `Cpu.resolve?_eq`, `Cpu.perform?_eq`: operands and actions never overflow.
* `Cpu.cost_le`: the cycles of an instruction, added up one after the other, are at most seven.
* `Cpu.execute?_eq`: an instruction does not overflow if the cycle counter has room for seven.
-/

set_option autoImplicit false

namespace Nes6502

/-! ## Numbers of fixed width -/

/-- Numbers that wrap at `2 ^ bits`. -/
class FixedWidth (α : Type) where
  bits : Nat
  toNat : α → Nat

instance : FixedWidth UInt8 := ⟨8, UInt8.toNat⟩

instance : FixedWidth UInt16 := ⟨16, UInt16.toNat⟩

instance : FixedWidth UInt64 := ⟨64, UInt64.toNat⟩

namespace Checked

open FixedWidth

variable {α : Type} [FixedWidth α]

/-- The sum, unless it overflows. -/
def add [Add α] (x y : α) : Option α :=
  if toNat x + toNat y < 2 ^ bits α then some (x + y) else none

/-- The product, unless it overflows. -/
def mul [Mul α] (x y : α) : Option α :=
  if toNat x * toNat y < 2 ^ bits α then some (x * y) else none

/-- The number shifted to the left, unless the amount reaches its width. Bits may be lost. -/
def shiftLeft [ShiftLeft α] (x amount : α) : Option α :=
  if toNat amount < bits α then some (x <<< amount) else none

/-- The number shifted to the right, unless the amount reaches its width. -/
def shiftRight [ShiftRight α] (x amount : α) : Option α :=
  if toNat amount < bits α then some (x >>> amount) else none

/-- Two bytes and a carry are less than a word. -/
theorem add_bytes {x y : UInt16} (hx : x.toNat < 2 ^ 15) (hy : y.toNat < 2 ^ 15) :
    add x y = some (x + y) := by
  refine if_pos ?_
  show x.toNat + y.toNat < 2 ^ 16
  omega

theorem add_counts {x y : UInt64} (h : x.toNat + y.toNat < 2 ^ 64) : add x y = some (x + y) :=
  if_pos h

end Checked

/-! ## Words and the stack -/

/-- The high byte of a word. -/
def highByte? (word : UInt16) : Option UInt8 := do
  let shifted ← Checked.shiftRight word 8
  return shifted.toUInt8

/-- The little-endian word of two bytes. -/
def wordOfBytes? (low high : UInt8) : Option UInt16 := do
  let shifted ← Checked.shiftLeft high.toUInt16 8
  return low.toUInt16 ||| shifted

/-- The address of a byte of the stack. -/
def stackAddress? (sp : UInt8) : Option UInt16 := Checked.add 0x0100 sp.toUInt16

@[simp] theorem highByte?_eq (word : UInt16) : highByte? word = some (highByte word) := rfl

@[simp] theorem wordOfBytes?_eq (low high : UInt8) :
    wordOfBytes? low high = some (wordOfBytes low high) := rfl

@[simp] theorem stackAddress?_eq (sp : UInt8) : stackAddress? sp = some (stackAddress sp) := by
  refine Checked.add_bytes (by decide) ?_
  have := sp.toNat_lt
  rw [UInt8.toNat_toUInt16]
  omega

namespace Cpu

variable {β : Type} [Bus β]

def pushByte? (c : Cpu β) (value : UInt8) : Option (Cpu β) := do
  let sp := c.regs.sp
  let address ← stackAddress? sp
  return (c.write address value).setRegister .sp (sp - 1)

def pullByte? (c : Cpu β) : Option (UInt8 × Cpu β) := do
  let sp := c.regs.sp + 1
  let address ← stackAddress? sp
  return (c.setRegister .sp sp).read address

def pushWord? (c : Cpu β) (word : UInt16) : Option (Cpu β) := do
  let high ← highByte? word
  let c ← c.pushByte? high
  c.pushByte? (lowByte word)

def pullWord? (c : Cpu β) : Option (UInt16 × Cpu β) := do
  let (low, c) ← c.pullByte?
  let (high, c) ← c.pullByte?
  let word ← wordOfBytes? low high
  return (word, c)

@[simp] theorem pushByte?_eq (c : Cpu β) (value : UInt8) :
    c.pushByte? value = some (c.pushByte value) := by
  simp [pushByte?, pushByte]

@[simp] theorem pullByte?_eq (c : Cpu β) : c.pullByte? = some c.pullByte := by
  simp [pullByte?, pullByte]

@[simp] theorem pushWord?_eq (c : Cpu β) (word : UInt16) :
    c.pushWord? word = some (c.pushWord word) := by
  simp [pushWord?, pushWord]

@[simp] theorem pullWord?_eq (c : Cpu β) : c.pullWord? = some c.pullWord := by
  simp [pullWord?, pullWord]

/-! ## Cycles and handlers -/

/-- Lets cycles pass. -/
def spend? (c : Cpu β) (cycles : UInt64) : Option (Cpu β) := do
  let total ← Checked.add c.regs.cycles cycles
  return { c with regs := { c.regs with cycles := total } }

/-- Enters the handler of an interrupt. -/
def enterHandler? (c : Cpu β) (kind : Interrupt) : Option (Cpu β) := do
  let c ← c.pushWord? c.regs.pc
  let c ← c.pushByte? (c.regs.status.toStack (kind == .brk))
  let c := c.setStatus (c.regs.status.set .interruptDisable)
  let (handler, c) := c.transact (Bus.readWord kind.vector)
  if kind = .brk then return c.setPc handler
  else (c.setPc handler).spend? (UInt64.ofNat Interrupt.entryCycles)

omit [Bus β] in
theorem spend?_eq {c : Cpu β} {cycles : Nat} (hroom : c.regs.cycles.toNat + cycles < 2 ^ 64) :
    c.spend? (UInt64.ofNat cycles) = some (c.spend cycles) := by
  have hcycles : (UInt64.ofNat cycles).toNat = cycles :=
    UInt64.toNat_ofNat_of_lt' (Nat.lt_of_le_of_lt (Nat.le_add_left _ _) hroom)
  have htotal : Checked.add c.regs.cycles (UInt64.ofNat cycles) =
      some (c.regs.cycles + UInt64.ofNat cycles) :=
    Checked.add_counts (by rwa [hcycles])
  simp only [spend?, htotal]
  rfl

omit [Bus β] in
theorem spend_zero (c : Cpu β) : c.spend 0 = c := by
  simp only [spend]
  exact congrArg (fun cycles => { c with regs := { c.regs with cycles := cycles } })
    (UInt64.add_zero _)

/-- A software interrupt costs nothing here, and so needs no room. -/
@[simp] theorem enterHandler?_brk (c : Cpu β) :
    c.enterHandler? .brk = some (c.enterHandler .brk) := by
  simp [enterHandler?, enterHandler, spend_zero]

theorem enterHandler?_eq {c : Cpu β} {kind : Interrupt}
    (hroom : c.regs.cycles.toNat + 7 < 2 ^ 64) :
    c.enterHandler? kind = some (c.enterHandler kind) := by
  by_cases hkind : kind = .brk
  · rw [hkind, enterHandler?_brk]
  · simp only [enterHandler?, enterHandler, pushWord?_eq, pushByte?_eq, Option.bind_eq_bind,
      Option.bind_some, if_neg hkind]
    exact spend?_eq hroom

end Cpu

/-! ## Operands -/

/-- A base address plus an index. -/
def Resolution.indexed? (base : UInt16) (index : UInt8) : Option Resolution := do
  let low ← Checked.add (base &&& 0xFF) index.toUInt16
  return ⟨.address (base + index.toUInt16), low > 0xFF⟩

@[simp] theorem Resolution.indexed?_eq (base : UInt16) (index : UInt8) :
    Resolution.indexed? base index = some (.indexed base index) := by
  have hlow : (base &&& 0xFF).toNat = base.toNat % 256 := by
    rw [UInt16.toNat_and]
    exact Nat.and_two_pow_sub_one_eq_mod _ 8
  have hindex := index.toNat_lt
  have hsum := Checked.add_bytes (x := base &&& 0xFF) (y := index.toUInt16) (by omega)
    (by rw [UInt8.toNat_toUInt16]; omega)
  simp only [indexed?, hsum]
  rfl

/-- The next address in the first page, by way of a word. -/
theorem next_in_first_page (pointer : UInt8) :
    (pointer.toUInt16 + 1) &&& 0xFF = (pointer + 1).toUInt16 := by
  obtain ⟨bits⟩ := pointer
  revert bits
  decide +kernel

namespace Cpu

variable {β : Type} [Bus β]

/-- Finds the operand of an instruction whose operand bytes start at the program counter. The modes
that are not listed compute with numbers that wrap on purpose. -/
def resolve? (c : Cpu β) (mode : AddressingMode) : Option (Resolution × Cpu β) :=
  match mode with
  | .absoluteX => do
    let (base, c) := c.operandWord
    let resolution ← Resolution.indexed? base c.regs.x
    return (resolution, c)
  | .absoluteY => do
    let (base, c) := c.operandWord
    let resolution ← Resolution.indexed? base c.regs.y
    return (resolution, c)
  | .indirectY => do
    let (pointer, c) := c.read c.regs.pc
    let next ← Checked.add pointer.toUInt16 1
    let (target, c) := c.transact (Bus.readSplitWord pointer.toUInt16 (next &&& 0xFF))
    let resolution ← Resolution.indexed? target c.regs.y
    return (resolution, c)
  | mode => return c.resolve mode

@[simp] theorem resolve?_eq (c : Cpu β) (mode : AddressingMode) :
    c.resolve? mode = some (c.resolve mode) := by
  cases mode with
  | absoluteX | absoluteY => simp [resolve?, resolve]
  | indirectY =>
    have hpointer (pointer : UInt8) :
        Checked.add pointer.toUInt16 1 = some (pointer.toUInt16 + 1) := by
      have := pointer.toNat_lt
      exact Checked.add_bytes (by rw [UInt8.toNat_toUInt16]; omega) (by decide)
    simp [resolve?, resolve, hpointer, next_in_first_page, zeroPageWord]
  | _ => rfl

end Cpu

/-! ## Arithmetic and logic -/

/-- What an addition makes of its sum. -/
def Alu.ofSum (a m : UInt8) (sum : UInt16) (p : Status) : UInt8 × Status :=
  let result := sum.toUInt8
  let p := p.assign .carry (sum > 0xFF)
  let p := p.assign .overflow ((a ^^^ result) &&& (m ^^^ result) &&& 0x80 != 0)
  (result, p.updateZeroNegative result)

/-- The sum of two bytes and the carry. -/
def Alu.addWithCarry? (a m : UInt8) (p : Status) : Option (UInt8 × Status) := do
  let sum ← Checked.add a.toUInt16 m.toUInt16
  let sum ← Checked.add sum (p.bit .carry).toUInt16
  return ofSum a m sum p

@[simp] theorem Alu.addWithCarry?_eq (a m : UInt8) (p : Status) :
    Alu.addWithCarry? a m p = some (Alu.addWithCarry a m p) := by
  have hbyte (x : UInt8) : x.toUInt16.toNat < 2 ^ 8 := by
    rw [UInt8.toNat_toUInt16]
    exact x.toNat_lt
  have ha := hbyte a
  have hm := hbyte m
  have hcarry := hbyte (p.bit .carry)
  have hsum : Checked.add a.toUInt16 m.toUInt16 = some (a.toUInt16 + m.toUInt16) :=
    Checked.add_bytes (by omega) (by omega)
  have htotal : Checked.add (a.toUInt16 + m.toUInt16) (p.bit .carry).toUInt16 =
      some (a.toUInt16 + m.toUInt16 + (p.bit .carry).toUInt16) := by
    refine Checked.add_bytes ?_ (by omega)
    rw [UInt16.toNat_add]
    omega
  simp only [addWithCarry?, hsum, htotal, Option.bind_eq_bind, Option.bind_some]
  rfl

/-- The new accumulator and status. -/
def Combination.combine? (op : Combination) (a m : UInt8) (p : Status) : Option (UInt8 × Status) :=
  match op with
  | .add => Alu.addWithCarry? a m p
  | .subtract => Alu.addWithCarry? a (~~~m) p
  | op => some (op.apply a m p)

@[simp] theorem Combination.combine?_eq (op : Combination) (a m : UInt8) (p : Status) :
    op.combine? a m p = some (op.apply a m p) := by
  cases op with
  | add | subtract => exact Alu.addWithCarry?_eq _ _ _
  | _ => rfl

/-- The byte that replaces the operand; counting wraps on purpose. -/
def Modification.result? (op : Modification) (m : UInt8) (p : Status) : Option UInt8 :=
  match op with
  | .shiftLeft => Checked.shiftLeft m 1
  | .shiftRight => Checked.shiftRight m 1
  | .rotateLeft => do
    let shifted ← Checked.shiftLeft m 1
    return shifted ||| p.bit .carry
  | .rotateRight => do
    let shifted ← Checked.shiftRight m 1
    let carry ← Checked.shiftLeft (p.bit .carry) 7
    return shifted ||| carry
  | op => some (op.result m p)

@[simp] theorem Modification.result?_eq (op : Modification) (m : UInt8) (p : Status) :
    op.result? m p = some (op.result m p) := by
  cases op <;> rfl

/-- The new operand and status. -/
def Modification.modify? (op : Modification) (m : UInt8) (p : Status) :
    Option (UInt8 × Status) := do
  let value ← op.result? m p
  return (value, (op.apply m p).2)

@[simp] theorem Modification.modify?_eq (op : Modification) (m : UInt8) (p : Status) :
    op.modify? m p = some (op.apply m p) := by
  simp only [modify?, result?_eq]
  rfl

namespace Cpu

variable {β : Type} [Bus β]

/-- A taken branch. -/
def branch? (c : Cpu β) (operand : Operand) : Option (Completion β) := do
  let (displacement, c) := c.readOperand operand
  let next := c.regs.pc + 1
  let target := branchTarget next displacement
  let extra ← Checked.add (0 : UInt64) 1
  let extra ← if highByte next = highByte target then some extra else Checked.add extra 1
  return ⟨c.setPc target, true, extra.toNat⟩

@[simp] theorem branch?_eq (c : Cpu β) (operand : Operand) :
    c.branch? operand = some (c.branch operand) := by
  simp only [branch?, branch, branchPenalty]
  split <;> rfl

/-- Carries out an action. The actions that are not listed compute with numbers that wrap on
purpose, or not at all. -/
def perform? (c : Cpu β) (action : Action) (operand : Operand) : Option (Completion β) :=
  match action with
  | .combine op => do
    let (m, c) := c.readOperand operand
    let (result, p) ← op.combine? c.regs.a m c.regs.status
    return .sequential ((c.setRegister .a result).setStatus p)
  | .modify op => do
    let (m, c) := c.readOperand operand
    let (result, p) ← op.modify? m c.regs.status
    return .sequential ((c.setStatus p).writeOperand operand result)
  | .count register op => do
    let (result, p) ← op.modify? (c.regs.get register) c.regs.status
    return .sequential ((c.setRegister register result).setStatus p)
  | .branch flag value =>
    if c.regs.status.get flag = value then c.branch? operand else some (.sequential c)
  | .call => do
    let c ← c.pushWord? (c.regs.pc + 1)
    return .jump (c.jumpTo operand)
  | .returnFromCall => do
    let (address, c) ← c.pullWord?
    return .jump (c.setPc (address + 1))
  | .softwareInterrupt => do
    let c ← (c.advance 1).enterHandler? .brk
    return .jump c
  | .returnFromInterrupt => do
    let (bits, c) ← c.pullByte?
    let (address, c) ← (c.setStatus (.ofStack bits)).pullWord?
    return .jump (c.setPc address)
  | .pushAccumulator => do
    let c ← c.pushByte? c.regs.a
    return .sequential c
  | .pullAccumulator => do
    let (value, c) ← c.pullByte?
    return .sequential (c.setResult .a value)
  | .pushStatus => do
    let c ← c.pushByte? (c.regs.status.toStack true)
    return .sequential c
  | .pullStatus => do
    let (bits, c) ← c.pullByte?
    return .sequential (c.setStatus (.ofStack bits))
  | action => some (c.perform action operand)

@[simp] theorem perform?_eq (c : Cpu β) (action : Action) (operand : Operand) :
    c.perform? action operand = some (c.perform action operand) := by
  cases action with
  | branch flag value =>
    by_cases hflag : c.regs.status.get flag = value <;> simp [perform?, perform, hflag]
  | load | store | compare | testBits | transfer | assign | jump | nothing => rfl
  | _ => simp [perform?, perform]

end Cpu

/-- The cycles of an instruction: those of the opcode matrix, those that its action reports, and one
more if it pays for the page that was crossed. -/
def Instruction.cost? (i : Instruction) (penalty : Nat) (pageCrossed : Bool) : Option UInt64 := do
  let cost ← Checked.add (UInt64.ofNat i.baseCycles) (UInt64.ofNat penalty)
  if i.pagePenalty && pageCrossed then Checked.add cost 1 else return cost

theorem Instruction.cost?_eq {i : Instruction} {penalty : Nat} {pageCrossed : Bool}
    (h : i.baseCycles + penalty + (if i.pagePenalty && pageCrossed then 1 else 0) ≤ 7) :
    i.cost? penalty pageCrossed = some (UInt64.ofNat
      (i.baseCycles + penalty + if i.pagePenalty && pageCrossed then 1 else 0)) := by
  have hsmall {n : Nat} (hn : n ≤ 7) : (UInt64.ofNat n).toNat = n :=
    UInt64.toNat_ofNat_of_lt' (Nat.lt_of_le_of_lt hn (by decide))
  have hbase := hsmall (show i.baseCycles ≤ 7 by omega)
  have hpenalty := hsmall (show penalty ≤ 7 by omega)
  have hsum := hsmall (show i.baseCycles + penalty ≤ 7 by omega)
  have hadd : Checked.add (UInt64.ofNat i.baseCycles) (UInt64.ofNat penalty) =
      some (UInt64.ofNat (i.baseCycles + penalty)) := by
    rw [UInt64.ofNat_add]
    exact Checked.add_counts (by omega)
  simp only [cost?, hadd, Option.bind_eq_bind, Option.bind_some]
  split
  · rw [UInt64.ofNat_add (i.baseCycles + penalty)]
    refine Checked.add_counts ?_
    rw [hsum, UInt64.toNat_one]
    omega
  · rfl

namespace Cpu

variable {β : Type} [Bus β]

/-- Executes an instruction whose opcode has just been fetched. -/
def execute? (c : Cpu β) (i : Instruction) : Option (Cpu β) := do
  let (resolution, c) ← c.resolve? i.mode
  let done ← c.perform? i.mnemonic.action resolution.operand
  let c := if done.jumped then done.cpu else done.cpu.advance i.mode.operandBytes
  let cost ← i.cost? done.penalty resolution.pageCrossed
  c.spend? cost

/-- The cycles of an instruction, added up as it does, are at most seven. -/
theorem cost_le (c : Cpu β) {opcode : UInt8} {i : Instruction} (hdecode : decode opcode = some i) :
    i.baseCycles + ((c.resolve i.mode).2.perform i.mnemonic.action
        (c.resolve i.mode).1.operand).penalty +
      (if i.pagePenalty && (c.resolve i.mode).1.pageCrossed then 1 else 0) ≤ 7 := by
  obtain ⟨-, hmost⟩ := cycles_of_decode hdecode
  have hflow := (c.resolve i.mode).2.flow_perform i.mnemonic.action (c.resolve i.mode).1.operand
  have hbranch : ((c.resolve i.mode).2.perform i.mnemonic.action
      (c.resolve i.mode).1.operand).penalty ≤ if i.mnemonic.action.isBranch then 2 else 0 := by
    refine Nat.le_trans (Nat.le_of_eq hflow.penalty) ?_
    split
    next htakes =>
      rw [if_pos (Action.isBranch_of_takesBranch htakes), branchPenalty]
      split <;> decide
    next => exact Nat.zero_le _
  have hpaged : (if i.pagePenalty && (c.resolve i.mode).1.pageCrossed then 1 else 0) ≤
      if i.pagePenalty then 1 else 0 := by
    cases i.pagePenalty <;> cases (c.resolve i.mode).1.pageCrossed <;> decide
  omega

/-- An instruction does not overflow if the cycle counter has room for the seven cycles that it may
cost. -/
theorem execute?_eq {c : Cpu β} {opcode : UInt8} {i : Instruction}
    (hdecode : decode opcode = some i) (hroom : c.regs.cycles.toNat + 7 < 2 ^ 64) :
    c.execute? i = some (c.execute i) := by
  have hcost := c.cost_le hdecode
  have hflow := (c.resolve i.mode).2.flow_perform i.mnemonic.action (c.resolve i.mode).1.operand
  rw [regs_resolve] at hflow
  simp only [execute?, resolve?_eq, perform?_eq, Instruction.cost?_eq hcost, Option.bind_eq_bind,
    Option.bind_some]
  -- the action leaves the counter alone, and the cost is added to it once at the end
  refine spend?_eq (Nat.lt_of_le_of_lt (Nat.add_le_add (Nat.le_of_eq ?_) hcost) hroom)
  split <;> exact congrArg UInt64.toNat hflow.cycles

end Cpu

end Nes6502
