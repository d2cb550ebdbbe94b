import Nes6502.Proofs.Conversation.Step

/-!
# Where an instruction goes on

An action either leaves the program counter at the operand bytes, which are skipped afterwards, or
sets it. Which of the two it does is settled by the status register before it: only a branch looks
at a flag. Beyond that, only a taken branch costs more than its opcode says.

## What is proved

* `Registers.flow_perform`: what an action does to the program counter and to the cycles.
* `Cpu.flow_perform`: the same for a processor.
* `operandBytes_of_branch`: in the opcode matrix a branch has one operand byte.
-/

set_option autoImplicit false

namespace Nes6502

namespace Action

/-- Whether an action is a branch, taken or not. -/
def isBranch : Action → Bool
  | .branch _ _ => true
  | _ => false

/-- Whether an action is a branch, and taken. -/
def takesBranch (p : Status) : Action → Bool
  | .branch flag value => p.get flag == value
  | _ => false

/-- Whether an action sets the program counter. -/
def jumps (p : Status) : Action → Bool
  | .jump | .call | .returnFromCall | .softwareInterrupt | .returnFromInterrupt => true
  | action => action.takesBranch p

theorem isBranch_of_takesBranch {p : Status} {action : Action}
    (h : action.takesBranch p = true) : action.isBranch = true := by
  cases action <;> first | rfl | cases h

theorem jumps_of_takesBranch {p : Status} {action : Action} (h : action.takesBranch p = true) :
    action.jumps p = true := by
  cases action <;> first | exact h | cases h

end Action

/-- What an action does to the program counter and to the cycles. -/
structure Flow (r : Registers) (action : Action) (done : Performance) : Prop where
  jumped : done.jumped = action.jumps r.status
  pc : done.jumped = false → done.regs.pc = r.pc
  cycles : done.regs.cycles = r.cycles
  penalty : done.penalty =
    if action.takesBranch r.status then branchPenalty (r.pc + 1) done.regs.pc else 0

namespace Registers

open Conversation

@[simp] theorem set_pc (r : Registers) (name : Register) (value : UInt8) :
    (r.set name value).pc = r.pc := by
  cases name <;> rfl

@[simp] theorem set_cycles (r : Registers) (name : Register) (value : UInt8) :
    (r.set name value).cycles = r.cycles := by
  cases name <;> rfl

/-- An action that neither jumps nor counts cycles of its own. -/
theorem flow_sequential {r after : Registers} {action : Action}
    (hjumps : action.jumps r.status = false) (hpc : after.pc = r.pc)
    (hcycles : after.cycles = r.cycles) : Flow r action (.sequential after) := by
  have htakes : action.takesBranch r.status = false := by
    cases action <;> first | exact hjumps | rfl
  refine ⟨hjumps.symm, fun _ => hpc, hcycles, ?_⟩
  rw [htakes]
  rfl

/-- An action that jumps and is no branch. -/
theorem flow_jump {r after : Registers} {action : Action} (hjumps : action.jumps r.status = true)
    (htakes : action.takesBranch r.status = false) (hcycles : after.cycles = r.cycles) :
    Flow r action (.jump after) := by
  refine ⟨hjumps.symm, (nomatch ·), hcycles, ?_⟩
  rw [htakes]
  rfl

theorem writeOperand_flow (r : Registers) (operand : Operand) (value : UInt8) :
    (r.writeOperand operand value).Ensures fun after =>
      after.pc = r.pc ∧ after.cycles = r.cycles := by
  cases operand with
  | address address => exact fun _ => ⟨rfl, rfl⟩
  | accumulator | absent => exact ⟨rfl, rfl⟩

theorem jumpTo_cycles (r : Registers) (operand : Operand) :
    (r.jumpTo operand).cycles = r.cycles := by
  cases operand <;> rfl

/-- Entering a handler takes seven cycles; a software interrupt is paid for as an instruction. -/
theorem enterHandler_cycles (r : Registers) (kind : Interrupt) :
    (r.enterHandler kind).Ensures fun after => after.cycles =
      r.cycles + UInt64.ofNat (if kind = .brk then 0 else Interrupt.entryCycles) :=
  fun _ _ _ _ => rfl

/-- What an action does to the program counter and to the cycles, whatever the bus answers. -/
theorem flow_perform (r : Registers) (action : Action) (operand : Operand) :
    (r.perform action operand).Ensures (Flow r action) := by
  cases action with
  | load destination =>
    exact (Ensures.trivial _).bind fun m _ =>
      flow_sequential rfl (r.set_pc destination m) (r.set_cycles destination m)
  | store source =>
    exact (r.writeOperand_flow operand _).bind fun after hafter =>
      flow_sequential rfl hafter.1 hafter.2
  | combine op => exact (Ensures.trivial _).bind fun m _ => flow_sequential rfl rfl rfl
  | compare register => exact (Ensures.trivial _).bind fun m _ => flow_sequential rfl rfl rfl
  | testBits => exact (Ensures.trivial _).bind fun m _ => flow_sequential rfl rfl rfl
  | modify op =>
    refine (Ensures.trivial _).bind fun m _ => ?_
    exact (writeOperand_flow _ operand _).bind fun after hafter =>
      flow_sequential rfl hafter.1 hafter.2
  | count register op => exact flow_sequential rfl (r.set_pc register _) (r.set_cycles register _)
  | transfer source destination =>
    show Flow r _ (.sequential (if destination = .sp then r.set .sp (r.get source)
      else r.setResult destination (r.get source)))
    split
    · exact flow_sequential rfl rfl rfl
    · exact flow_sequential rfl (r.set_pc destination _) (r.set_cycles destination _)
  | assign flag value => exact flow_sequential rfl rfl rfl
  | branch flag value =>
    show Ensures _ (if r.status.get flag = value then _ else _)
    split
    next htaken =>
      have htakes : (r.status.get flag == value) = true := beq_iff_eq.mpr htaken
      refine (Ensures.trivial _).bind fun _ _ => ⟨htakes.symm, (nomatch ·), rfl, ?_⟩
      show branchPenalty _ _ = if (r.status.get flag == value) = true then _ else _
      rw [if_pos htakes]
      rfl
    next huntaken => exact flow_sequential (beq_eq_false_iff_ne.mpr huntaken) rfl rfl
  | jump => exact flow_jump rfl rfl (r.jumpTo_cycles operand)
  | call => exact fun _ _ => flow_jump rfl rfl (jumpTo_cycles _ operand)
  | returnFromCall => exact fun _ _ => flow_jump rfl rfl rfl
  | softwareInterrupt =>
    refine (enterHandler_cycles _ .brk).bind fun after hafter => flow_jump rfl rfl ?_
    exact hafter.trans (UInt64.add_zero r.cycles)
  | returnFromInterrupt => exact fun _ _ _ => flow_jump rfl rfl rfl
  | pushAccumulator => exact fun _ => flow_sequential rfl rfl rfl
  | pullAccumulator => exact fun _ => flow_sequential rfl rfl rfl
  | pushStatus => exact fun _ => flow_sequential rfl rfl rfl
  | pullStatus => exact fun _ => flow_sequential rfl rfl rfl
  | nothing => exact flow_sequential rfl rfl rfl

end Registers

namespace Cpu

variable {β : Type} [Bus β]

/-- Finding an operand leaves the registers alone. -/
theorem regs_resolve (c : Cpu β) (mode : AddressingMode) :
    (c.resolve mode).2.regs = c.regs := by
  rw [resolve_eq, regs_converse]

/-- What an action has left behind, apart from the bus. -/
def performance (done : Completion β) : Performance := ⟨done.cpu.regs, done.jumped, done.penalty⟩

theorem flow_perform (c : Cpu β) (action : Action) (operand : Operand) :
    Flow c.regs action (performance (c.perform action operand)) := by
  rw [perform_eq]
  exact (c.regs.flow_perform action operand).value c.bus

end Cpu

/-- In the opcode matrix a branch has one operand byte. -/
theorem operandBytes_of_branch {opcode : UInt8} {i : Instruction}
    (hdecode : decode opcode = some i) {p : Status} (htakes : i.mnemonic.action.takesBranch p) :
    i.mode.operandBytes = 1 :=
  of_decode (P := fun i => i.mnemonic.action.isBranch = true → i.mode.operandBytes = 1)
    (by decide +kernel) hdecode (Action.isBranch_of_takesBranch htakes)

end Nes6502
