import Nes6502.Cpu.Interrupt
import Nes6502.Cpu.Operand

/-!
# Executing an instruction

`Cpu.perform` carries out an action on a resolved operand. Its answer says whether the action set
the program counter itself; if not, `Cpu.execute` skips the operand bytes. The cycles of an
instruction are those of the opcode matrix, the penalty that the action reports (taken branches),
and one more if the opcode pays for crossed pages and the operand crossed one.
-/

set_option autoImplicit false

namespace Nes6502

/-- An action carried out. -/
structure Completion (β : Type) where
  cpu : Cpu β
  /-- Whether the action has set the program counter. -/
  jumped : Bool
  /-- Cycles beyond those of the opcode matrix. -/
  penalty : Nat

namespace Completion

variable {β : Type}

/-- The program goes on with the next instruction. -/
def sequential (c : Cpu β) : Completion β := ⟨c, false, 0⟩

/-- The program goes on where the action has set the program counter. -/
def jump (c : Cpu β) : Completion β := ⟨c, true, 0⟩

end Completion

/-- A byte as a signed distance, extended to a word. -/
def signExtend (displacement : UInt8) : UInt16 :=
  if displacement < 0x80 then displacement.toUInt16 else displacement.toUInt16 + 0xFF00

/-- The place that a branch goes to: its displacement counts from the next instruction. -/
def branchTarget (next : UInt16) (displacement : UInt8) : UInt16 := next + signExtend displacement

/-- The cycles that a taken branch takes beyond an untaken one: a second one when the target lies
in another page than the next instruction. -/
def branchPenalty (next target : UInt16) : Nat := if highByte next = highByte target then 1 else 2

namespace Cpu

variable {β : Type} [Bus β]

/-- A taken branch, with the program counter at its displacement. -/
def branch (c : Cpu β) (operand : Operand) : Completion β :=
  let (displacement, c) := c.readOperand operand
  let next := c.regs.pc + 1
  let target := branchTarget next displacement
  ⟨c.setPc target, true, branchPenalty next target⟩

/-- Sets the program counter to the operand's address. -/
def jumpTo (c : Cpu β) (operand : Operand) : Cpu β :=
  match operand with
  | .address target => c.setPc target
  | .accumulator | .absent => c

/-- Carries out an action, with the program counter at the operand bytes. -/
def perform (c : Cpu β) (action : Action) (operand : Operand) : Completion β :=
  match action with
  | .load destination =>
    let (m, c) := c.readOperand operand
    .sequential (c.setResult destination m)
  | .store source => .sequential (c.writeOperand operand (c.regs.get source))
  | .combine op =>
    let (m, c) := c.readOperand operand
    let (result, p) := op.apply c.regs.a m c.regs.status
    .sequential ((c.setRegister .a result).setStatus p)
  | .compare register =>
    let (m, c) := c.readOperand operand
    .sequential (c.setStatus (Alu.compare (c.regs.get register) m c.regs.status))
  | .testBits =>
    let (m, c) := c.readOperand operand
    .sequential (c.setStatus (Alu.testBits c.regs.a m c.regs.status))
  | .modify op =>
    let (m, c) := c.readOperand operand
    let (result, p) := op.apply m c.regs.status
    .sequential ((c.setStatus p).writeOperand operand result)
  | .count register op =>
    let (result, p) := op.apply (c.regs.get register) c.regs.status
    .sequential ((c.setRegister register result).setStatus p)
  | .transfer source destination =>
    let value := c.regs.get source
    -- The stack pointer is no data: setting it leaves the flags alone.
    if destination = .sp then .sequential (c.setRegister .sp value)
    else .sequential (c.setResult destination value)
  | .assign flag value => .sequential (c.setStatus (c.regs.status.assign flag value))
  | .branch flag value =>
    if c.regs.status.get flag = value then c.branch operand else .sequential c
  | .jump => .jump (c.jumpTo operand)
  | .call =>
    -- The return address is that of the last operand byte; returning adds the missing one.
    .jump ((c.pushWord (c.regs.pc + 1)).jumpTo operand)
  | .returnFromCall =>
    let (address, c) := c.pullWord
    .jump (c.setPc (address + 1))
  | .softwareInterrupt =>
    -- The byte after the opcode is skipped on return, and never read.
    .jump ((c.advance 1).enterHandler .brk)
  | .returnFromInterrupt =>
    let (bits, c) := c.pullByte
    let (address, c) := (c.setStatus (.ofStack bits)).pullWord
    .jump (c.setPc address)
  | .pushAccumulator => .sequential (c.pushByte c.regs.a)
  | .pullAccumulator =>
    let (value, c) := c.pullByte
    .sequential (c.setResult .a value)
  | .pushStatus => .sequential (c.pushByte (c.regs.status.toStack true))
  | .pullStatus =>
    let (bits, c) := c.pullByte
    .sequential (c.setStatus (.ofStack bits))
  | .nothing => .sequential c

/-- Executes an instruction whose opcode has just been fetched. -/
def execute (c : Cpu β) (i : Instruction) : Cpu β :=
  let (resolution, c) := c.resolve i.mode
  let done := c.perform i.mnemonic.action resolution.operand
  let c := if done.jumped then done.cpu else done.cpu.advance i.mode.operandBytes
  c.spend (i.baseCycles + done.penalty +
    if i.pagePenalty && resolution.pageCrossed then 1 else 0)

end Cpu

end Nes6502
