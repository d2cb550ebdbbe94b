import Nes6502.Cpu.Execute
import Nes6502.Proofs.Conversation

/-!
# Instructions as conversations

What an instruction does is settled by the registers and by what the bus answers. This module says
it so: for each part of an instruction, from the stack up to `Cpu.execute`, a conversation that
starts from the registers alone and ends with the registers afterwards.

## What is proved

`Cpu.execute_eq` and `Cpu.enterHandler_eq`: executing an instruction, and entering a handler, is
holding that conversation and taking over the registers it ends with. So neither looks at the run
state, the policy, the halt request or the interrupt lines, nor at what kind of bus it is.
-/

set_option autoImplicit false

namespace Nes6502

/-! ## Conversations that end with registers -/

namespace Cpu

variable {β α γ : Type}

/-- The same processor with other registers. -/
def withRegs (c : Cpu β) (r : Registers) : Cpu β := { c with regs := r }

@[simp] theorem withRegs_withRegs (c : Cpu β) (r s : Registers) :
    (c.withRegs r).withRegs s = c.withRegs s := rfl

@[simp] theorem withRegs_regs (c : Cpu β) : c.withRegs c.regs = c := rfl

@[simp] theorem regs_withRegs (c : Cpu β) (r : Registers) : (c.withRegs r).regs = r := rfl

variable [Bus β]

/-- Holds a conversation and takes over the registers it ends with. -/
def settle (c : Cpu β) (t : Conversation Registers) : Cpu β :=
  (c.converse t).2.withRegs (c.converse t).1

/-- The same for a conversation that ends with a value besides. -/
def deliver (c : Cpu β) (t : Conversation (α × Registers)) : α × Cpu β :=
  ((c.converse t).1.1, (c.converse t).2.withRegs (c.converse t).1.2)

@[simp] theorem converse_withRegs (c : Cpu β) (r : Registers) (t : Conversation α) :
    (c.withRegs r).converse t = ((c.converse t).1, (c.converse t).2.withRegs r) := rfl

@[simp] theorem regs_converse (c : Cpu β) (t : Conversation α) :
    (c.converse t).2.regs = c.regs := rfl

@[simp] theorem settle_done (c : Cpu β) (r : Registers) : c.settle (.done r) = c.withRegs r := by
  simp [settle]

@[simp] theorem settle_withRegs (c : Cpu β) (r : Registers) (t : Conversation Registers) :
    (c.withRegs r).settle t = c.settle t := rfl

/-- Registers taken over halfway are the ones to go on from. -/
theorem settle_bind (c : Cpu β) (t : Conversation Registers)
    (next : Registers → Conversation Registers) :
    c.settle (t >>= next) = (c.settle t).settle (next (c.settle t).regs) := by
  simp [settle, converse_bind]

/-- A conversation for a value alone leaves the registers as they are. -/
theorem settle_converse (c : Cpu β) (t : Conversation α) (next : α → Conversation Registers) :
    c.settle (t >>= next) = (c.converse t).2.settle (next (c.converse t).1) := by
  simp [settle, converse_bind]

/-- A single request is the transaction of that name. -/
theorem converse_ask_done (c : Cpu β) (request : Request) :
    c.converse (.ask request .done) = c.transact request.transaction :=
  congrArg c.transact (Conversation.transaction_ask_done request)

theorem read_eq (c : Cpu β) (address : UInt16) :
    c.read address = c.converse (.readByte address) :=
  (c.converse_ask_done (.readByte address)).symm

theorem write_eq (c : Cpu β) (address : UInt16) (value : UInt8) :
    c.write address value = (c.converse (.writeByte address value)).2 :=
  congrArg Prod.snd (c.converse_ask_done (.writeByte address value)).symm

theorem transact_readWord (c : Cpu β) (address : UInt16) :
    c.transact (Bus.readWord address) = c.converse (.readWord address) :=
  (c.converse_ask_done (.readWord address)).symm

theorem transact_readSplitWord (c : Cpu β) (low high : UInt16) :
    c.transact (Bus.readSplitWord low high) = c.converse (.readSplitWord low high) :=
  (c.converse_ask_done (.readSplitWord low high)).symm

end Cpu

/-! ## The stack -/

namespace Registers

/-- Pushes a byte. -/
def push (r : Registers) (value : UInt8) : Conversation Registers := do
  Conversation.writeByte (stackAddress r.sp) value
  return r.set .sp (r.sp - 1)

/-- Pulls a byte. -/
def pull (r : Registers) : Conversation (UInt8 × Registers) := do
  let value ← Conversation.readByte (stackAddress (r.sp + 1))
  return (value, r.set .sp (r.sp + 1))

/-- Pushes a word, high byte first. -/
def pushWord (r : Registers) (word : UInt16) : Conversation Registers := do
  let r ← r.push (highByte word)
  r.push (lowByte word)

/-- Pulls a word, low byte first. -/
def pullWord (r : Registers) : Conversation (UInt16 × Registers) := do
  let (low, r) ← r.pull
  let (high, r) ← r.pull
  return (wordOfBytes low high, r)

/-- Enters the handler of an interrupt. -/
def enterHandler (r : Registers) (kind : Interrupt) : Conversation Registers := do
  let r ← r.pushWord r.pc
  let r ← r.push (r.status.toStack (kind == .brk))
  let handler ← Conversation.readWord kind.vector
  return { r with
    pc := handler
    status := r.status.set .interruptDisable
    cycles := r.cycles + UInt64.ofNat (if kind = .brk then 0 else Interrupt.entryCycles) }

end Registers

namespace Cpu

variable {β : Type} [Bus β]

theorem pushByte_eq (c : Cpu β) (value : UInt8) :
    c.pushByte value = c.settle (c.regs.push value) := by
  simp only [pushByte, write_eq, Registers.push, settle_converse]
  simp [setRegister, withRegs]

theorem pullByte_eq (c : Cpu β) : c.pullByte = c.deliver c.regs.pull := by
  simp only [pullByte, read_eq, Registers.pull, deliver, converse_bind]
  simp only [Conversation.pure_eq, converse_done]
  rfl

theorem pushWord_eq (c : Cpu β) (word : UInt16) :
    c.pushWord word = c.settle (c.regs.pushWord word) := by
  simp only [pushWord, pushByte_eq, Registers.pushWord, settle_bind]

theorem pullWord_eq (c : Cpu β) : c.pullWord = c.deliver c.regs.pullWord := by
  simp only [pullWord, pullByte_eq, Registers.pullWord, deliver, converse_bind, regs_withRegs,
    converse_withRegs, Conversation.pure_eq, converse_done, withRegs_withRegs]

theorem enterHandler_eq (c : Cpu β) (kind : Interrupt) :
    c.enterHandler kind = c.settle (c.regs.enterHandler kind) := by
  simp only [enterHandler, Registers.enterHandler, pushWord_eq, pushByte_eq,
    settle_converse, transact_readWord]
  simp only [Conversation.pure_eq, settle_done]
  rfl

/-- A direct interrupt is a reset, or it is kept out, or it enters its handler. -/
theorem interrupt_cases (c : Cpu β) (kind : Interrupt) :
    kind = .reset ∧ c.interrupt kind = c.reset ∨
      kind ≠ .reset ∧ c.masks kind = true ∧ c.interrupt kind = c ∨
      kind ≠ .reset ∧ c.masks kind = false ∧
        c.interrupt kind = c.settle (c.regs.enterHandler kind) := by
  rw [← enterHandler_eq]
  unfold interrupt
  by_cases hkind : kind = .reset
  · exact .inl ⟨hkind, if_pos hkind⟩
  · cases hmasks : c.masks kind <;> simp [hkind]

end Cpu

/-! ## Operands -/

namespace Registers

/-- The word in the first page that a pointer names. -/
def zeroPageWord (pointer : UInt8) : Conversation UInt16 :=
  .readSplitWord pointer.toUInt16 (pointer + 1).toUInt16

/-- Finds the operand of an instruction whose operand bytes start at the program counter. -/
def resolve (r : Registers) : AddressingMode → Conversation Resolution
  | .immediate | .relative => return .direct r.pc
  | .zeroPage => do
    let base ← Conversation.readByte r.pc
    return .direct base.toUInt16
  | .zeroPageX => do
    let base ← Conversation.readByte r.pc
    return .direct (base + r.x).toUInt16
  | .zeroPageY => do
    let base ← Conversation.readByte r.pc
    return .direct (base + r.y).toUInt16
  | .absolute => do
    let base ← Conversation.readWord r.pc
    return .direct base
  | .absoluteX => do
    let base ← Conversation.readWord r.pc
    return .indexed base r.x
  | .absoluteY => do
    let base ← Conversation.readWord r.pc
    return .indexed base r.y
  | .indirect => do
    let pointer ← Conversation.readWord r.pc
    let target ← Conversation.readSplitWord pointer
      ((pointer &&& 0xFF00) ||| ((pointer + 1) &&& 0xFF))
    return .direct target
  | .indirectX => do
    let base ← Conversation.readByte r.pc
    let target ← zeroPageWord (base + r.x)
    return .direct target
  | .indirectY => do
    let base ← Conversation.readByte r.pc
    let target ← zeroPageWord base
    return .indexed target r.y
  | .accumulator => return ⟨.accumulator, false⟩
  | .implied => return ⟨.absent, false⟩

/-- The value of an operand. -/
def readOperand (r : Registers) : Operand → Conversation UInt8
  | .address address => .readByte address
  | .accumulator => return r.a
  | .absent => return 0

/-- Replaces an operand. -/
def writeOperand (r : Registers) (operand : Operand) (value : UInt8) : Conversation Registers :=
  match operand with
  | .address address => do
    Conversation.writeByte address value
    return r
  | .accumulator => return r.set .a value
  | .absent => return r

end Registers

namespace Cpu

variable {β : Type} [Bus β]

theorem resolve_eq (c : Cpu β) (mode : AddressingMode) :
    c.resolve mode = c.converse (c.regs.resolve mode) := by
  cases mode <;>
    simp only [resolve, Registers.resolve, operandWord, zeroPageWord, Registers.zeroPageWord,
      read_eq, transact_readWord, transact_readSplitWord, converse_bind, Conversation.pure_eq,
      converse_done] <;> rfl

theorem readOperand_eq (c : Cpu β) (operand : Operand) :
    c.readOperand operand = c.converse (c.regs.readOperand operand) := by
  cases operand with
  | address address => exact c.read_eq address
  | accumulator | absent => simp [readOperand, Registers.readOperand]

theorem writeOperand_eq (c : Cpu β) (operand : Operand) (value : UInt8) :
    c.writeOperand operand value = c.settle (c.regs.writeOperand operand value) := by
  cases operand with
  | address address =>
    simp only [writeOperand, Registers.writeOperand, write_eq, settle_converse,
      Conversation.pure_eq, settle_done]
    rfl
  | accumulator | absent =>
    simp only [writeOperand, Registers.writeOperand, Conversation.pure_eq, settle_done]
    rfl

end Cpu

/-! ## Actions -/

/-- What an action leaves behind: the registers, and what `Completion` tells of the program
counter and of the cycles. -/
structure Performance where
  regs : Registers
  jumped : Bool
  penalty : Nat

namespace Performance

def sequential (r : Registers) : Performance := ⟨r, false, 0⟩

def jump (r : Registers) : Performance := ⟨r, true, 0⟩

end Performance

namespace Registers

def setStatus (r : Registers) (p : Status) : Registers := { r with status := p }

def setPc (r : Registers) (pc : UInt16) : Registers := { r with pc := pc }

/-- Puts a result into a register, with the Zero and Negative flags that go with it. -/
def setResult (r : Registers) (name : Register) (value : UInt8) : Registers :=
  (r.set name value).setStatus (r.status.updateZeroNegative value)

/-- Sets the program counter to the operand's address. -/
def jumpTo (r : Registers) : Operand → Registers
  | .address target => r.setPc target
  | .accumulator | .absent => r

/-- A taken branch, with the program counter at its displacement. -/
def branch (r : Registers) (operand : Operand) : Conversation Performance := do
  let displacement ← r.readOperand operand
  let target := branchTarget (r.pc + 1) displacement
  return ⟨r.setPc target, true, branchPenalty (r.pc + 1) target⟩

/-- Carries out an action, with the program counter at the operand bytes. -/
def perform (r : Registers) (action : Action) (operand : Operand) : Conversation Performance :=
  match action with
  | .load destination => do
    let m ← r.readOperand operand
    return .sequential (r.setResult destination m)
  | .store source => do
    let r ← r.writeOperand operand (r.get source)
    return .sequential r
  | .combine op => do
    let m ← r.readOperand operand
    let (result, p) := op.apply r.a m r.status
    return .sequential ((r.set .a result).setStatus p)
  | .compare register => do
    let m ← r.readOperand operand
    return .sequential (r.setStatus (Alu.compare (r.get register) m r.status))
  | .testBits => do
    let m ← r.readOperand operand
    return .sequential (r.setStatus (Alu.testBits r.a m r.status))
  | .modify op => do
    let m ← r.readOperand operand
    let (result, p) := op.apply m r.status
    let r ← (r.setStatus p).writeOperand operand result
    return .sequential r
  | .count register op =>
    let (result, p) := op.apply (r.get register) r.status
    return .sequential ((r.set register result).setStatus p)
  | .transfer source destination =>
    return .sequential <|
      if destination = .sp then r.set .sp (r.get source)
      else r.setResult destination (r.get source)
  | .assign flag value => return .sequential (r.setStatus (r.status.assign flag value))
  | .branch flag value =>
    if r.status.get flag = value then r.branch operand else return .sequential r
  | .jump => return .jump (r.jumpTo operand)
  | .call => do
    let r ← r.pushWord (r.pc + 1)
    return .jump (r.jumpTo operand)
  | .returnFromCall => do
    let (address, r) ← r.pullWord
    return .jump (r.setPc (address + 1))
  | .softwareInterrupt => do
    let r ← (r.setPc (r.pc + 1)).enterHandler .brk
    return .jump r
  | .returnFromInterrupt => do
    let (bits, r) ← r.pull
    let (address, r) ← (r.setStatus (.ofStack bits)).pullWord
    return .jump (r.setPc address)
  | .pushAccumulator => do
    let r ← r.push r.a
    return .sequential r
  | .pullAccumulator => do
    let (value, r) ← r.pull
    return .sequential (r.setResult .a value)
  | .pushStatus => do
    let r ← r.push (r.status.toStack true)
    return .sequential r
  | .pullStatus => do
    let (bits, r) ← r.pull
    return .sequential (r.setStatus (.ofStack bits))
  | .nothing => return .sequential r

/-- Executes an instruction whose opcode has just been fetched. -/
def execute (r : Registers) (i : Instruction) : Conversation Registers := do
  let resolution ← r.resolve i.mode
  let done ← r.perform i.mnemonic.action resolution.operand
  let r := if done.jumped then done.regs
    else done.regs.setPc (done.regs.pc + UInt16.ofNat i.mode.operandBytes)
  return { r with
    cycles := r.cycles + UInt64.ofNat (i.baseCycles + done.penalty +
      if i.pagePenalty && resolution.pageCrossed then 1 else 0) }

end Registers

namespace Cpu

variable {β : Type} [Bus β]

/-- Holds a conversation about an action. -/
def complete (c : Cpu β) (t : Conversation Performance) : Completion β :=
  ⟨(c.converse t).2.withRegs (c.converse t).1.regs, (c.converse t).1.jumped,
    (c.converse t).1.penalty⟩

omit [Bus β] in
theorem jumpTo_eq (c : Cpu β) (operand : Operand) :
    c.jumpTo operand = c.withRegs (c.regs.jumpTo operand) := by
  cases operand <;> rfl

theorem branch_eq (c : Cpu β) (operand : Operand) :
    c.branch operand = c.complete (c.regs.branch operand) := by
  simp only [branch, Registers.branch, readOperand_eq, complete, converse_bind,
    Conversation.pure_eq, converse_done]
  rfl

theorem perform_eq (c : Cpu β) (action : Action) (operand : Operand) :
    c.perform action operand = c.complete (c.regs.perform action operand) := by
  cases action
  case transfer source destination =>
    by_cases hd : destination = .sp <;>
      simp only [perform, Registers.perform, complete, Conversation.pure_eq, converse_done, hd,
        if_true, if_false] <;> rfl
  case branch flag value =>
    by_cases hf : c.regs.status.get flag = value
    · simp only [perform, Registers.perform, if_pos hf, branch_eq]
    · simp only [perform, Registers.perform, if_neg hf, complete, Conversation.pure_eq,
        converse_done]
      rfl
  -- everything else is a sequence of parts that are known to be conversations
  all_goals
    simp only [perform, Registers.perform, readOperand_eq, writeOperand_eq, pushByte_eq,
      pullByte_eq, pushWord_eq, pullWord_eq, enterHandler_eq, jumpTo_eq, complete, converse_bind,
      Conversation.pure_eq, converse_done]
    rfl

/-- Executing an instruction is a conversation that starts from the registers alone. -/
theorem execute_eq (c : Cpu β) (i : Instruction) :
    c.execute i = c.settle (c.regs.execute i) := by
  simp only [execute, Registers.execute, resolve_eq, perform_eq, settle_converse,
    Conversation.pure_eq, settle_done, complete, regs_converse]
  split <;> rfl

end Cpu

end Nes6502
