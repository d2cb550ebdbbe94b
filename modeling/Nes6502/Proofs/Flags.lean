import Nes6502.Proofs.Execution
import Nes6502.Proofs.Reachable

/-!
# Flags

Which instructions change which flags, and what the flags say afterwards, as the tables of a data
sheet have it. Where an instruction leaves a result in a register or in memory, Zero and Negative
describe the byte that is found there afterwards, in whatever order the handler has stored the byte
and set the flags.

## What is proved

* `Registers.get_perform`: an action leaves the flags alone that it is not said to change.
* `Registers.describes_perform`, `Cpu.describes_modify`: Zero and Negative describe what an action
  has left in its destination.
* `flags_by_instruction`: both for the steps of a processor, by the mnemonics of the data sheet.
-/

set_option autoImplicit false

namespace Nes6502

/-! ## The data sheet -/

/-- Zero says whether a byte is zero, and Negative is its bit 7. -/
def Status.Describes (p : Status) (value : UInt8) : Prop :=
  (p.get .zero = true ↔ value = 0) ∧ p.get .negative = value.toNat.testBit 7

/-- Where an instruction leaves a result. -/
inductive Destination where
  | register (name : Register)
  /-- Where the operand was, in memory or in the accumulator. -/
  | operand
  deriving DecidableEq

/-- The destination of the result, for the instructions that leave one for Zero and Negative to
describe. -/
def Mnemonic.destination? : Mnemonic → Option Destination
  | .lda | .and | .ora | .eor | .adc | .sbc | .txa | .tya | .pla => some (.register .a)
  | .ldx | .tax | .tsx | .inx | .dex => some (.register .x)
  | .ldy | .tay | .iny | .dey => some (.register .y)
  | .asl | .lsr | .rol | .ror | .inc | .dec => some .operand
  | _ => none

/-- The instructions that can change a flag. -/
def Flag.changers : Flag → List Mnemonic
  | .carry => [.adc, .sbc, .cmp, .cpx, .cpy, .asl, .lsr, .rol, .ror, .clc, .sec, .plp, .rti]
  | .overflow => [.adc, .sbc, .bit, .clv, .plp, .rti]
  | .decimal => [.cld, .sed, .plp, .rti]
  | .interruptDisable => [.cli, .sei, .plp, .rti, .brk]
  | .zero | .negative =>
    [.lda, .ldx, .ldy, .tax, .tay, .txa, .tya, .tsx, .and, .ora, .eor, .adc, .sbc, .asl, .lsr, .rol,
      .ror, .inc, .dec, .inx, .dex, .iny, .dey, .pla, .cmp, .cpx, .cpy, .bit, .plp, .rti]
  | .brk => [.plp, .rti]
  | .unused => []

/-- The flags that an action can change. -/
def Action.changed : Action → List Flag
  | .load _ | .pullAccumulator => [.zero, .negative]
  | .combine op =>
    match op with
    | .add | .subtract => [.carry, .overflow, .zero, .negative]
    | .and | .or | .xor => [.zero, .negative]
  | .compare _ => [.zero, .negative, .carry]
  | .testBits => [.zero, .overflow, .negative]
  | .modify op | .count _ op =>
    match op with
    | .shiftLeft | .shiftRight | .rotateLeft | .rotateRight => [.carry, .zero, .negative]
    | .increment | .decrement => [.zero, .negative]
  | .transfer _ destination => if destination = .sp then [] else [.zero, .negative]
  | .assign flag _ => [flag]
  | .softwareInterrupt => [.interruptDisable]
  | .returnFromInterrupt | .pullStatus =>
    [.carry, .zero, .interruptDisable, .decimal, .brk, .overflow, .negative]
  | .store _ | .branch _ _ | .jump | .call | .returnFromCall | .pushAccumulator | .pushStatus
  | .nothing => []

/-- The register in which an action leaves a result. -/
def Action.destination? : Action → Option Register
  | .load destination => some destination
  | .combine _ | .pullAccumulator => some .a
  | .count register _ => some register
  | .transfer _ destination => if destination = .sp then none else some destination
  | _ => none

theorem Action.mem_changed_iff (mnemonic : Mnemonic) (flag : Flag) :
    flag ∈ mnemonic.action.changed ↔ mnemonic ∈ flag.changers := by
  cases mnemonic <;> cases flag <;> decide

/-! ## The arithmetic unit -/

namespace Status

theorem and_bit7 (value : UInt8) : (value &&& 0x80 != 0) = value.toNat.testBit 7 := by
  obtain ⟨bits⟩ := value
  revert bits
  decide +kernel

theorem and_bit6 (value : UInt8) : (value &&& 0x40 != 0) = value.toNat.testBit 6 := by
  obtain ⟨bits⟩ := value
  revert bits
  decide +kernel

theorem describes_updateZeroNegative (p : Status) (value : UInt8) :
    (p.updateZeroNegative value).Describes value := by
  unfold updateZeroNegative
  constructor
  · rw [get_assign_of_ne _ (by decide), get_assign _ (by decide)]
    exact beq_iff_eq
  · rw [get_assign _ (by decide), and_bit7]

theorem get_updateZeroNegative (p : Status) (value : UInt8) {flag : Flag}
    (h : flag ∉ [Flag.zero, .negative]) : (p.updateZeroNegative value).get flag = p.get flag := by
  simp only [List.mem_cons, List.not_mem_nil, or_false, not_or] at h
  unfold updateZeroNegative
  rw [get_assign_of_ne _ h.2, get_assign_of_ne _ h.1]

theorem get_unused (p : Status) : p.get .unused = true := Bool.or_true _

end Status

namespace Alu

theorem get_addWithCarry (a m : UInt8) (p : Status) {flag : Flag}
    (h : flag ∉ [Flag.carry, .overflow, .zero, .negative]) :
    (addWithCarry a m p).2.get flag = p.get flag := by
  simp only [List.mem_cons, List.not_mem_nil, or_false, not_or] at h
  unfold addWithCarry
  rw [Status.get_updateZeroNegative _ _ (by simp [h]), Status.get_assign_of_ne _ h.2.1,
    Status.get_assign_of_ne _ h.1]

theorem get_compare (register m : UInt8) (p : Status) {flag : Flag}
    (h : flag ∉ [Flag.zero, .negative, .carry]) :
    (compare register m p).get flag = p.get flag := by
  simp only [List.mem_cons, List.not_mem_nil, or_false, not_or] at h
  unfold compare
  rw [Status.get_assign_of_ne _ h.2.2, Status.get_updateZeroNegative _ _ (by simp [h])]

theorem get_testBits (a m : UInt8) (p : Status) {flag : Flag}
    (h : flag ∉ [Flag.zero, .overflow, .negative]) :
    (testBits a m p).get flag = p.get flag := by
  simp only [List.mem_cons, List.not_mem_nil, or_false, not_or] at h
  unfold testBits
  rw [Status.get_assign_of_ne _ h.2.2, Status.get_assign_of_ne _ h.2.1,
    Status.get_assign_of_ne _ h.1]

/-- Testing bits: Zero speaks of the bits in common, Overflow and Negative are bits of the
operand. -/
theorem testBits_flags (a m : UInt8) (p : Status) :
    ((testBits a m p).get .zero = true ↔ a &&& m = 0) ∧
      (testBits a m p).get .overflow = m.toNat.testBit 6 ∧
      (testBits a m p).get .negative = m.toNat.testBit 7 := by
  unfold testBits
  refine ⟨?_, ?_, ?_⟩
  · rw [Status.get_assign_of_ne _ (by decide), Status.get_assign_of_ne _ (by decide),
      Status.get_assign _ (by decide)]
    exact beq_iff_eq
  · rw [Status.get_assign_of_ne _ (by decide), Status.get_assign _ (by decide), Status.and_bit6]
  · rw [Status.get_assign _ (by decide), Status.and_bit7]

end Alu

namespace Combination

theorem get_apply (op : Combination) (a m : UInt8) (p : Status) {flag : Flag}
    (h : flag ∉ (Action.combine op).changed) : (op.apply a m p).2.get flag = p.get flag := by
  cases op with
  | add => exact Alu.get_addWithCarry a m p h
  | subtract => exact Alu.get_addWithCarry a (~~~m) p h
  | and | or | xor => exact p.get_updateZeroNegative _ h

theorem describes_apply (op : Combination) (a m : UInt8) (p : Status) :
    (op.apply a m p).2.Describes (op.apply a m p).1 := by
  cases op <;> exact Status.describes_updateZeroNegative _ _

end Combination

namespace Modification

theorem get_apply (op : Modification) (m : UInt8) (p : Status) {flag : Flag}
    (h : flag ∉ (Action.modify op).changed) : (op.apply m p).2.get flag = p.get flag := by
  cases op with
  | increment | decrement => exact p.get_updateZeroNegative _ h
  | shiftLeft | shiftRight | rotateLeft | rotateRight =>
    simp only [Action.changed, List.mem_cons, List.not_mem_nil, or_false, not_or] at h
    unfold apply
    simp only [shiftedOut]
    rw [Status.get_updateZeroNegative _ _ (by simp [h]), Status.get_assign_of_ne _ h.1]

theorem describes_apply (op : Modification) (m : UInt8) (p : Status) :
    (op.apply m p).2.Describes (op.apply m p).1 :=
  Status.describes_updateZeroNegative _ _

end Modification

/-! ## Actions -/

namespace Registers

open Conversation

/-- An action leaves the flags alone that it is not said to change. -/
theorem get_perform (r : Registers) {action : Action} {flag : Flag} (h : flag ∉ action.changed)
    (operand : Operand) :
    (r.perform action operand).Ensures fun done =>
      done.regs.status.get flag = r.status.get flag := by
  cases action with
  | load destination =>
    exact (Ensures.trivial _).bind fun m _ => r.status.get_updateZeroNegative m h
  | store source =>
    refine (r.writeOperand_status operand _).bind fun after hafter => ?_
    exact congrArg (·.get flag) hafter
  | combine op => exact (Ensures.trivial _).bind fun m _ => op.get_apply r.a m r.status h
  | compare register =>
    exact (Ensures.trivial _).bind fun m _ => Alu.get_compare (r.get register) m r.status h
  | testBits => exact (Ensures.trivial _).bind fun m _ => Alu.get_testBits r.a m r.status h
  | modify op =>
    refine (Ensures.trivial _).bind fun m _ => ?_
    refine (writeOperand_status _ operand _).bind fun after hafter => ?_
    exact (congrArg (·.get flag) hafter).trans (op.get_apply m r.status h)
  | count register op => exact op.get_apply (r.get register) r.status h
  | transfer source destination =>
    show (if destination = .sp then r.set .sp (r.get source)
      else r.setResult destination (r.get source)).status.get flag = r.status.get flag
    by_cases hsp : destination = .sp
    · rw [if_pos hsp]
      rfl
    · rw [if_neg hsp]
      simp only [Action.changed, if_neg hsp] at h
      exact r.status.get_updateZeroNegative _ h
  | assign other value =>
    exact r.status.get_assign_of_ne (fun hsame => h (List.mem_singleton.mpr hsame)) value
  | branch other value =>
    show Conversation.Ensures _ (if _ then _ else _)
    split
    · exact (Ensures.trivial _).bind fun _ _ => rfl
    · exact rfl
  | jump => exact congrArg (·.get flag) (r.jumpTo_status operand)
  | call =>
    refine (r.pushWord_status _).bind fun after hafter => ?_
    exact congrArg (·.get flag) ((after.jumpTo_status operand).trans hafter)
  | returnFromCall => exact fun _ _ => rfl
  | softwareInterrupt =>
    refine ((r.setPc _).enterHandler_status .brk).bind fun after hafter => ?_
    refine (congrArg (·.get flag) hafter).trans ?_
    exact r.status.get_set_of_ne fun hsame => h (List.mem_singleton.mpr hsame)
  | returnFromInterrupt =>
    have hunused : flag = .unused := by revert h; cases flag <;> decide
    subst hunused
    exact fun _ _ _ => (Status.get_unused _).trans r.status.get_unused.symm
  | pullStatus =>
    have hunused : flag = .unused := by revert h; cases flag <;> decide
    subst hunused
    exact fun _ => (Status.get_unused _).trans r.status.get_unused.symm
  | pushAccumulator | pushStatus => exact fun _ => rfl
  | pullAccumulator => exact fun value => r.status.get_updateZeroNegative value h
  | nothing => exact rfl

@[simp] theorem get_set (r : Registers) (name : Register) (value : UInt8) :
    (r.set name value).get name = value := by
  cases name <;> rfl

theorem get_setStatus (r : Registers) (p : Status) (name : Register) :
    (r.setStatus p).get name = r.get name := by
  cases name <;> rfl

theorem describes_setResult (r : Registers) (name : Register) (value : UInt8) :
    (r.setResult name value).status.Describes ((r.setResult name value).get name) := by
  have hvalue : (r.setResult name value).get name = value := r.get_set name value
  rw [hvalue]
  exact r.status.describes_updateZeroNegative value

/-- Zero and Negative describe the result that an action has left in a register. -/
theorem describes_perform (r : Registers) {action : Action} {name : Register}
    (h : action.destination? = some name) (operand : Operand) :
    (r.perform action operand).Ensures fun done =>
      done.regs.status.Describes (done.regs.get name) := by
  cases action with
  | load destination =>
    cases h
    exact (Ensures.trivial _).bind fun m _ => r.describes_setResult name m
  | combine op =>
    cases h
    exact (Ensures.trivial _).bind fun m _ => op.describes_apply r.a m r.status
  | count register op =>
    cases h
    have hvalue := r.get_set name (op.apply (r.get name) r.status).1
    show Status.Describes _ ((r.set name (op.apply (r.get name) r.status).1).get name)
    rw [hvalue]
    exact op.describes_apply (r.get name) r.status
  | transfer source destination =>
    by_cases hsp : destination = .sp
    · simp only [Action.destination?, if_pos hsp] at h
      cases h
    · simp only [Action.destination?, if_neg hsp] at h
      cases h
      have hdone : r.perform (.transfer source name) operand =
          .done (.sequential (r.setResult name (r.get source))) :=
        congrArg (fun after => Conversation.done (Performance.sequential after)) (if_neg hsp)
      rw [hdone]
      exact r.describes_setResult name _
  | pullAccumulator =>
    cases h
    exact fun value => r.describes_setResult .a value
  | _ => cases h

end Registers

namespace Cpu

theorem status_writeOperand (c : Cpu Ram) (operand : Operand) (value : UInt8) :
    (c.writeOperand operand value).regs.status = c.regs.status := by
  cases operand <;> rfl

/-- Zero and Negative describe the byte that is found where a modified operand was. -/
theorem describes_modify (c : Cpu Ram) (op : Modification) {operand : Operand}
    (h : operand ≠ .absent) :
    let d := (c.perform (.modify op) operand).cpu
    d.regs.status.Describes (d.byteIn operand) := by
  simp only [perform, readOperand_ram, Completion.sequential]
  rw [status_writeOperand, byteIn_writeOperand _ h]
  exact op.describes_apply _ _

end Cpu

/-! ## Instructions -/

theorem Mnemonic.action_of_register {mnemonic : Mnemonic} {name : Register}
    (h : mnemonic.destination? = some (.register name)) :
    mnemonic.action.destination? = some name := by
  cases mnemonic <;> cases h <;> rfl

theorem Mnemonic.action_of_operand {mnemonic : Mnemonic}
    (h : mnemonic.destination? = some .operand) : ∃ op, mnemonic.action = .modify op := by
  cases mnemonic <;> first | exact ⟨_, rfl⟩ | cases h

/-- In the opcode matrix an instruction that modifies its operand has one. -/
theorem mode_ne_implied_of_decode {opcode : UInt8} {i : Instruction}
    (hdecode : decode opcode = some i) (h : i.mnemonic.destination? = some .operand) :
    i.mode ≠ .implied :=
  of_decode (P := fun i => i.mnemonic.destination? = some .operand → i.mode ≠ .implied)
    (by decide +kernel) hdecode h

/-- The byte that a step from `c` to `d` has left in the destination of its instruction. A cell of
memory is the one that the operand was in before the step. -/
def Destination.byte (c d : Cpu Ram) (i : Instruction) : Destination → UInt8
  | .register name => d.regs.get name
  | .operand => d.byteIn (c.operand i)

/-- What a step that executes a documented instruction does to the flags. If the instruction leaves
a result, Zero is set exactly if the byte that is found in its destination after the step is zero,
and Negative is bit 7 of that byte. A flag differs from what it was only if the instruction is one
of those that can change it. A bit test sets Zero by the bits that the accumulator and the operand
have in common and copies bits 6 and 7 of the operand, and leaves the accumulator as it is. -/
theorem flags_by_instruction (tracing : Bool) {c : Cpu Ram} {i : Instruction}
    (h : c.Executes i) :
    let d := (c.step tracing).cpu
    (c.step tracing).result = .ok () ∧
      (∀ destination, i.mnemonic.destination? = some destination →
        d.regs.status.Describes (destination.byte c d i)) ∧
      (∀ flag, i.mnemonic ∉ flag.changers → d.regs.status.get flag = c.regs.status.get flag) ∧
      (i.mnemonic = .bit →
        (d.regs.status.get .zero = true ↔ c.regs.a &&& c.operandByte i = 0) ∧
          d.regs.status.get .overflow = (c.operandByte i).toNat.testBit 6 ∧
          d.regs.status.get .negative = (c.operandByte i).toNat.testBit 7 ∧
          d.regs.a = c.regs.a) := by
  intro d
  obtain ⟨hresult, hsame, -⟩ := h.step tracing
  have hperformed := c.atOperands.perform_eq i.mnemonic.action (c.operand i)
  refine ⟨hresult, ?_, ?_, ?_⟩
  · rintro (name | _) hdestination
    · show d.regs.status.Describes (d.regs.get name)
      rw [hsame.status, hsame.get, Cpu.performed, hperformed]
      exact (Registers.describes_perform _ (Mnemonic.action_of_register hdestination) _).value _
    · obtain ⟨op, hop⟩ := Mnemonic.action_of_operand hdestination
      have hpresent : c.operand i ≠ .absent := by
        rw [ne_eq, Cpu.operand, Cpu.operandOf_eq_absent_iff]
        exact mode_ne_implied_of_decode h.decoded hdestination
      show d.regs.status.Describes (d.byteIn (c.operand i))
      rw [hsame.status, hsame.byteIn, Cpu.performed, hop]
      exact c.atOperands.describes_modify op hpresent
  · intro flag hflag
    rw [← Action.mem_changed_iff] at hflag
    rw [hsame.status, Cpu.performed, hperformed]
    exact (c.atOperands.regs.get_perform hflag _).value _
  · intro hbit
    have haction : i.mnemonic.action = .testBits := by rw [hbit]; rfl
    rw [hsame.status, hsame.a, Cpu.performed, haction, Cpu.perform, Cpu.readOperand_ram]
    obtain ⟨hzero, hoverflow, hnegative⟩ :=
      Alu.testBits_flags c.regs.a (c.operandByte i) c.regs.status
    exact ⟨hzero, hoverflow, hnegative, rfl⟩

/-- A program that rotates the carry into a cell past the page of its base address, and tests the
bits of the cell. -/
def rotatingRam : Ram :=
  (Ram.zeroed.load 0x0000 [0x38, 0xA2, 0x01, 0x7E, 0xFF, 0x02, 0x2C, 0x00, 0x03]).load 0x0300 [0x81]

/-- The cell is found negative after the rotation, which leaves the flag for overflow as it was; the
test copies it from the cell. -/
theorem flags_by_instruction_rotating :
    let c := (Cpu.powerOn rotatingRam .halt).reset.afterSteps false 2
    let d := (c.step false).cpu
    let e := (d.step false).cpu
    c.Executes ⟨0x7E, .ror, .absoluteX, 7, false⟩ ∧ d.bus.read 0x0300 = 0xC0 ∧
      d.regs.status.Describes 0xC0 ∧
      d.regs.status.get .overflow = c.regs.status.get .overflow ∧
      d.Executes ⟨0x2C, .bit, .absolute, 4, false⟩ ∧
      (e.regs.status.get .zero = true ↔ d.regs.a &&& 0xC0 = 0) ∧
      e.regs.status.get .overflow = true ∧ e.regs.status.get .negative = true := by
  intro c d e
  have hrotate : c.Executes ⟨0x7E, .ror, .absoluteX, 7, false⟩ := by
    decide +kernel
  have htest : d.Executes ⟨0x2C, .bit, .absolute, 4, false⟩ := by
    decide +kernel
  have hcell : Destination.operand.byte c d ⟨0x7E, .ror, .absoluteX, 7, false⟩ = 0xC0 := by
    decide +kernel
  have hoperand : d.operandByte ⟨0x2C, .bit, .absolute, 4, false⟩ = 0xC0 := by decide +kernel
  obtain ⟨-, hdescribes, hkeeps, -⟩ := flags_by_instruction false hrotate
  obtain ⟨-, -, -, hbits⟩ := flags_by_instruction false htest
  have hresult := hdescribes .operand rfl
  obtain ⟨hzero, hoverflow, hnegative, -⟩ := hbits rfl
  rw [hcell] at hresult
  rw [hoperand] at hzero hoverflow hnegative
  exact ⟨hrotate, by decide +kernel, hresult, hkeeps .overflow (by decide), htest, hzero, hoverflow,
    hnegative⟩

end Nes6502
