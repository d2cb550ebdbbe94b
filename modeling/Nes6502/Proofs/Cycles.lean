import Mathlib.Algebra.Group.Nat.Defs
import Nes6502.Proofs.Flow
import Nes6502.Proofs.Memory
import Nes6502.Proofs.Run

/-!
# Cycle accounting

What a step costs, as a data sheet has it: seven cycles for an interrupt that is taken, the cycles
of the opcode, one more where the opcode pays for an operand in another page than its base address,
one for a taken branch and one more if it leaves the page of the following instruction. Pages are
compared by their high bytes here. The processor adds low bytes instead, and comes to the same.

## What is proved

* `carries_iff`: the low bytes of an address and an index carry exactly if the page is left, also
  where the sum wraps at the end of memory.
* `Cpu.cycles_execute`: an instruction costs what the data sheet says.
* `Cpu.stepCycles_bounds`: a step that succeeds costs between two and fourteen cycles.
* `cycles_accounted`: the counter grows by the cost of each step, and over a run by the sum of them.
-/

set_option autoImplicit false

namespace Nes6502

/-- The low bytes of an address and an index carry exactly if their sum lies in another page. -/
theorem carries_iff (base : UInt16) (index : UInt8) :
    (base &&& 0xFF) + index.toUInt16 > 0xFF ↔
      highByte (base + index.toUInt16) ≠ highByte base := by
  have hlow : (base &&& 0xFF).toNat = base.toNat % 256 := by
    rw [UInt16.toNat_and]
    exact Nat.and_two_pow_sub_one_eq_mod _ 8
  have hbase := base.toNat_lt
  have hindex := index.toNat_lt
  rw [gt_iff_lt, UInt16.lt_iff_toNat_lt, ne_eq, ← UInt8.toNat_inj, toNat_highByte, toNat_highByte,
    UInt16.toNat_add, UInt16.toNat_add, UInt8.toNat_toUInt16, hlow]
  show 255 < _ ↔ _
  omega

/-- One cycle for a branch that is taken, and one more if it leaves the page. -/
theorem branchPenalty_eq (next target : UInt16) :
    branchPenalty next target = 1 + if highByte target = highByte next then 0 else 1 := by
  simp only [branchPenalty, eq_comm (a := highByte next)]
  split <;> rfl

/-! ## The data sheet -/

namespace Cpu

variable {β : Type} [Bus β]

/-- The address that an indexed mode counts from, for a processor at the operand bytes. -/
def baseAddress (c : Cpu β) : AddressingMode → Option UInt16
  | .absoluteX | .absoluteY => some c.operandWord.1
  | .indirectY =>
    let (pointer, c) := c.read c.regs.pc
    some (c.zeroPageWord pointer).1
  | _ => none

/-- Whether the operand lies in another page than the address that its mode counts from. -/
def leavesPage (c : Cpu β) (mode : AddressingMode) : Bool :=
  match c.baseAddress mode, (c.resolve mode).1.operand with
  | some base, .address effective => highByte effective != highByte base
  | _, _ => false

/-- The cycles of an instruction, for a processor at the operand bytes, if the program goes on at
`target` afterwards. -/
def instructionCycles (c : Cpu β) (i : Instruction) (target : UInt16) : Nat :=
  let following := c.regs.pc + UInt16.ofNat i.mode.operandBytes
  i.baseCycles +
    (if i.pagePenalty && c.leavesPage i.mode then 1 else 0) +
    (if i.mnemonic.action.takesBranch c.regs.status then
      1 + (if highByte target = highByte following then 0 else 1)
    else 0)

/-- The processor when a step is about to fetch its opcode: the interrupt that was due is taken. -/
def aboutToFetch (tracing : Bool) (c : Cpu β) : Cpu β :=
  (traceEvents tracing c.pollInterrupts).2

/-- The cycles of a step that is not refused. -/
def stepCycles (tracing : Bool) (c : Cpu β) : Nat :=
  let (opcode, operands) := (c.aboutToFetch tracing).fetch
  (if c.dueInterrupt.isSome then 7 else 0) +
    match decode opcode with
    | some i => operands.instructionCycles i (c.step tracing).cpu.regs.pc
    | none =>
      match c.policy with
      | .nop => 2
      | .halt => 0

/-- The cycles of a number of steps, each as the state before it has it. -/
def runCycles (tracing : Bool) : (steps : Nat) → Cpu β → Nat
  | 0, _ => 0
  | steps + 1, c => c.stepCycles tracing + runCycles tracing steps (c.step tracing).cpu

/-! ## Instructions -/

/-- The carry of the low bytes tells whether the operand lies in another page than its base. -/
theorem pageCrossed_indexed (base : UInt16) (index : UInt8) :
    (Resolution.indexed base index).pageCrossed =
      (highByte (base + index.toUInt16) != highByte base) := by
  rw [Bool.eq_iff_iff, bne_iff_ne]
  exact decide_eq_true_iff.trans (carries_iff base index)

theorem pageCrossed_resolve (c : Cpu β) (mode : AddressingMode) :
    (c.resolve mode).1.pageCrossed = c.leavesPage mode := by
  cases mode with
  | absoluteX => exact pageCrossed_indexed c.operandWord.1 c.operandWord.2.regs.x
  | absoluteY => exact pageCrossed_indexed c.operandWord.1 c.operandWord.2.regs.y
  | indirectY => exact pageCrossed_indexed _ _
  | _ => rfl

/-- The documented instructions cost between two and seven cycles, penalties included. -/
theorem cycles_of_decode {opcode : UInt8} {i : Instruction} (hdecode : decode opcode = some i) :
    2 ≤ i.baseCycles ∧
      i.baseCycles + (if i.pagePenalty then 1 else 0) +
        (if i.mnemonic.action.isBranch then 2 else 0) ≤ 7 :=
  of_decode (P := fun i => 2 ≤ i.baseCycles ∧
    i.baseCycles + (if i.pagePenalty then 1 else 0) +
      (if i.mnemonic.action.isBranch then 2 else 0) ≤ 7) (by decide +kernel) hdecode

theorem instructionCycles_bounds (c : Cpu β) {opcode : UInt8} {i : Instruction}
    (hdecode : decode opcode = some i) (target : UInt16) :
    2 ≤ c.instructionCycles i target ∧ c.instructionCycles i target ≤ 7 := by
  obtain ⟨hleast, hmost⟩ := cycles_of_decode hdecode
  have hpaged : (if i.pagePenalty && c.leavesPage i.mode then 1 else 0) ≤
      if i.pagePenalty then 1 else 0 := by
    cases i.pagePenalty <;> cases c.leavesPage i.mode <;> decide
  have htaken (more : Nat) (hmore : more ≤ 1) :
      (if i.mnemonic.action.takesBranch c.regs.status then 1 + more else 0) ≤
        if i.mnemonic.action.isBranch then 2 else 0 := by
    cases htakes : i.mnemonic.action.takesBranch c.regs.status with
    | false => exact Nat.zero_le _
    | true =>
      rw [if_pos rfl, if_pos (Action.isBranch_of_takesBranch htakes)]
      omega
  have hfar := htaken (if highByte target =
    highByte (c.regs.pc + UInt16.ofNat i.mode.operandBytes) then 0 else 1) (by split <;> decide)
  simp only [instructionCycles]
  omega

/-- An instruction costs what the data sheet says. -/
theorem cycles_execute (c : Cpu β) {opcode : UInt8} {i : Instruction}
    (hdecode : decode opcode = some i) :
    (c.execute i).regs.cycles =
      c.regs.cycles + UInt64.ofNat (c.instructionCycles i (c.execute i).regs.pc) := by
  have hflow := (c.resolve i.mode).2.flow_perform i.mnemonic.action (c.resolve i.mode).1.operand
  rw [regs_resolve] at hflow
  generalize hdone : (c.resolve i.mode).2.perform i.mnemonic.action
    (c.resolve i.mode).1.operand = done at hflow
  have hexecute : c.execute i =
      (if done.jumped then done.cpu else done.cpu.advance i.mode.operandBytes).spend
        (i.baseCycles + done.penalty +
          if i.pagePenalty && (c.resolve i.mode).1.pageCrossed then 1 else 0) := by
    rw [← hdone]
    rfl
  have hpaid :
      (if done.jumped then done.cpu else done.cpu.advance i.mode.operandBytes).regs.cycles =
        c.regs.cycles := by
    split <;> exact hflow.cycles
  have hpenalty : done.penalty =
      if i.mnemonic.action.takesBranch c.regs.status then
        1 + (if highByte (c.execute i).regs.pc =
          highByte (c.regs.pc + UInt16.ofNat i.mode.operandBytes) then 0 else 1)
      else 0 := by
    refine hflow.penalty.trans ?_
    split
    next htakes =>
      have hjumped : done.jumped = true := hflow.jumped.trans (Action.jumps_of_takesBranch htakes)
      rw [hexecute, if_pos hjumped, operandBytes_of_branch hdecode htakes]
      exact branchPenalty_eq (c.regs.pc + 1) done.cpu.regs.pc
    next => rfl
  show (c.execute i).regs.cycles = _ + UInt64.ofNat (_ + _ + _)
  rw [← hpenalty, ← pageCrossed_resolve, Nat.add_right_comm, ← hpaid, hexecute]
  rfl

/-! ## Steps -/

theorem cycles_pollInterrupts (c : Cpu β) :
    c.pollInterrupts.regs.cycles =
      c.regs.cycles + UInt64.ofNat (if c.dueInterrupt.isSome then 7 else 0) := by
  rw [pollInterrupts_eq]
  cases hdue : c.dueInterrupt with
  | none =>
    simp only [Registers.poll, Conversation.pure_eq, settle_done]
    exact (UInt64.add_zero _).symm
  | some kind =>
    have hkind : kind ≠ .brk := fun h => c.dueInterrupt_ne_brk (by rw [hdue, h])
    have hentered := (c.regs.enterHandler_cycles kind).value c.bus
    rw [if_neg hkind] at hentered
    exact hentered

theorem executeNext_of_decode {c : Cpu β} {i : Instruction} (h : decode c.fetch.1 = some i) :
    c.executeNext.result = .ok () ∧ c.executeNext.cpu.regs = (c.fetch.2.execute i).regs := by
  have hstate : ((c.fetch.2.setState .executing).execute i).regs = (c.fetch.2.execute i).regs := by
    rw [execute_eq, execute_eq]
    rfl
  rw [← hstate]
  simp only [executeNext, h]
  exact ⟨trivial, rfl⟩

theorem executeNext_of_undefined {c : Cpu β} (h : decode c.fetch.1 = none) :
    c.executeNext.cpu.regs.cycles =
        c.regs.cycles + UInt64.ofNat (match c.policy with | .nop => 2 | .halt => 0) ∧
      (c.executeNext.result = .ok () → c.policy = .nop) := by
  obtain ⟨bus, regs, state, policy, requested, latched, line⟩ := c
  simp only [executeNext, h]
  cases policy with
  | nop => exact ⟨rfl, fun _ => rfl⟩
  | halt =>
    refine ⟨(UInt64.add_zero _).symm, fun hok => ?_⟩
    cases hok

theorem cycles_executeNext (c : Cpu β) :
    c.executeNext.cpu.regs.cycles = c.regs.cycles + UInt64.ofNat
      (match decode c.fetch.1 with
      | some i => c.fetch.2.instructionCycles i c.executeNext.cpu.regs.pc
      | none => match c.policy with | .nop => 2 | .halt => 0) := by
  cases hdecode : decode c.fetch.1 with
  | some i =>
    rw [(executeNext_of_decode hdecode).2, cycles_execute _ hdecode]
    rfl
  | none => exact (executeNext_of_undefined hdecode).1

theorem step_eq_executeNext (tracing : Bool) {c : Cpu β} (h : c.refuses = false) :
    (c.step tracing).result = (c.aboutToFetch tracing).executeNext.result ∧
      (c.step tracing).cpu = (c.aboutToFetch tracing).executeNext.cpu := by
  simp only [step, h, Bool.false_eq_true, if_false]
  exact ⟨rfl, rfl⟩

theorem policy_aboutToFetch (tracing : Bool) (c : Cpu β) :
    (c.aboutToFetch tracing).policy = c.policy := by
  rw [aboutToFetch, traceEvents_eq, pollInterrupts_eq]
  rfl

/-- A step that is not refused costs what the data sheet says. -/
theorem cycles_step (tracing : Bool) {c : Cpu β} (h : c.refuses = false) :
    (c.step tracing).cpu.regs.cycles =
      c.regs.cycles + UInt64.ofNat (c.stepCycles tracing) := by
  have hregs : (c.aboutToFetch tracing).regs = c.pollInterrupts.regs := by
    rw [aboutToFetch, traceEvents_eq, regs_converse]
  have hnext := (c.aboutToFetch tracing).cycles_executeNext
  rw [policy_aboutToFetch, hregs, cycles_pollInterrupts, ← (step_eq_executeNext tracing h).2,
    UInt64.add_assoc, ← UInt64.ofNat_add] at hnext
  exact hnext

/-- A step that succeeds costs between two and fourteen cycles. -/
theorem stepCycles_bounds {tracing : Bool} {c : Cpu β} (hok : (c.step tracing).result = .ok ()) :
    2 ≤ c.stepCycles tracing ∧ c.stepCycles tracing ≤ 14 := by
  have hentry : (if c.dueInterrupt.isSome then 7 else 0) ≤ 7 := by split <;> decide
  simp only [stepCycles]
  cases hdecode : decode (c.aboutToFetch tracing).fetch.1 with
  | some i =>
    have hinstruction := (c.aboutToFetch tracing).fetch.2.instructionCycles_bounds hdecode
      (c.step tracing).cpu.regs.pc
    simp only
    omega
  | none =>
    rw [(step_eq_executeNext tracing (refuses_of_step_ok hok)).1] at hok
    have hpolicy := (executeNext_of_undefined hdecode).2 hok
    rw [policy_aboutToFetch] at hpolicy
    simp only [hpolicy]
    omega

/-! ## Runs -/

/-- Over a number of steps the counter grows by the sum of their costs. -/
theorem Steps.cycles {tracing : Bool} {k : Nat} {c d : Cpu β} (steps : Steps tracing k c d) :
    d.regs.cycles = c.regs.cycles + UInt64.ofNat (runCycles tracing k c) := by
  induction steps with
  | refl c => exact (UInt64.add_zero _).symm
  | @step k c d hok _ ih =>
    rw [ih, cycles_step tracing (refuses_of_step_ok hok), runCycles, UInt64.ofNat_add,
      UInt64.add_assoc]

theorem Steps.runCycles_bounds {tracing : Bool} {k : Nat} {c d : Cpu β}
    (steps : Steps tracing k c d) :
    2 * k ≤ runCycles tracing k c ∧ runCycles tracing k c ≤ 14 * k := by
  induction steps with
  | refl c => exact ⟨Nat.le_refl 0, Nat.le_refl 0⟩
  | @step k c d hok _ ih =>
    have hstep := stepCycles_bounds hok
    rw [runCycles]
    omega

end Cpu

/-- The cycle counter is exact. A step that is not refused adds the cycles of the interrupt that it
takes and of its instruction, penalties included; so does every step of a run that succeeds, by its
own state alone, whatever came before it. As long as the counter does not overflow, `k` such steps
add at least `2 * k` and at most `14 * k`. -/
theorem cycles_accounted {β : Type} [Bus β] (tracing : Bool) :
    (∀ c : Cpu β, c.refuses = false → (c.step tracing).cpu.regs.cycles =
        c.regs.cycles + UInt64.ofNat (c.stepCycles tracing)) ∧
      ∀ (k : Nat) (c d : Cpu β), Cpu.Steps tracing k c d →
        d.regs.cycles = c.regs.cycles + UInt64.ofNat (Cpu.runCycles tracing k c) ∧
          (c.regs.cycles.toNat + Cpu.runCycles tracing k c < 2 ^ 64 →
            c.regs.cycles.toNat + 2 * k ≤ d.regs.cycles.toNat ∧
              d.regs.cycles.toNat ≤ c.regs.cycles.toNat + 14 * k) := by
  refine ⟨fun c => Cpu.cycles_step tracing, fun k c d steps => ⟨steps.cycles, fun hroom => ?_⟩⟩
  have hbounds := steps.runCycles_bounds
  have hsum : d.regs.cycles.toNat = c.regs.cycles.toNat + Cpu.runCycles tracing k c := by
    have hcost : Cpu.runCycles tracing k c < 2 ^ 64 :=
      Nat.lt_of_le_of_lt (Nat.le_add_left _ _) hroom
    rw [steps.cycles, UInt64.toNat_add, UInt64.toNat_ofNat_of_lt' hcost, Nat.mod_eq_of_lt hroom]
  omega

/-- A handler at `0x0400` that loads from an address past the end of memory, stores there, and
branches back to the page before. -/
def crossingRam : Ram :=
  ((Ram.zeroed.load 0x0000 [0x01]).load 0x0400
    [0xA2, 0x01, 0xBD, 0xFF, 0xFF, 0x9D, 0xFF, 0xFF, 0xD0, 0x80]).load 0xFFFA [0x00, 0x04]

/-- The interrupt costs seven cycles here, the load one more for the page it leaves and the store
none, and the branch two more. -/
theorem cycles_accounted_crossing :
    let c := (Cpu.powerOn crossingRam .halt).reset.triggerNmi
    (c.step false).cpu.regs.cycles = c.regs.cycles + 9 ∧
      ∃ d, Cpu.Steps false 4 c d ∧ d.regs.cycles = c.regs.cycles + 23 ∧
        c.regs.cycles.toNat + 8 ≤ d.regs.cycles.toNat ∧
        d.regs.cycles.toNat ≤ c.regs.cycles.toNat + 56 := by
  intro c
  have hrun : (c.runFor false 4).result = .finished 4 := by decide +kernel
  have hfirst : c.stepCycles false = 7 + 2 := by decide +kernel
  have hcost : Cpu.runCycles false 4 c = 7 + 2 + (4 + 1) + 5 + (2 + 1 + 1) := by decide +kernel
  have hroom : c.regs.cycles.toNat + Cpu.runCycles false 4 c < 2 ^ 64 := by decide +kernel
  obtain ⟨d, hsteps⟩ := Cpu.exists_steps_of_finished hrun
  obtain ⟨hsum, hbounds⟩ := (cycles_accounted false).2 4 c d hsteps
  refine ⟨?_, d, hsteps, ?_, hbounds hroom⟩
  · rw [(cycles_accounted false).1 c rfl, hfirst]
    rfl
  · rw [hsum, hcost]
    rfl

end Nes6502
