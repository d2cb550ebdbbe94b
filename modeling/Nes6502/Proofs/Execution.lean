import Nes6502.Proofs.Address
import Nes6502.Proofs.Recovery

/-!
# A documented instruction on plain memory

What a step comes to that executes a documented instruction and nothing else: the action of the
instruction, carried out on the operand that the data sheet names. Beyond that a step only moves the
program counter and counts cycles.

## What is proved

* `Cpu.Executes.step`: such a step succeeds, and does what the action does.
* `Cpu.Reaches.executes`: a step that takes an interrupt first does so afterwards.
* `Cpu.readOperand_ram`, `Cpu.byteIn_writeOperand`, `Cpu.byteIn_writeOperand_of_ne`: an operand is
  read and written where it lies.
-/

set_option autoImplicit false

namespace Nes6502

namespace Cpu

/-- The next step is not refused, takes no interrupt and executes a documented instruction. -/
structure Executes (c : Cpu Ram) (i : Instruction) : Prop where
  accepted : c.refuses = false
  undisturbed : c.dueInterrupt = none
  decoded : decode (c.bus.read c.regs.pc) = some i

instance (c : Cpu Ram) (i : Instruction) : Decidable (c.Executes i) :=
  decidable_of_iff
    (c.refuses = false ∧ c.dueInterrupt = none ∧ decode (c.bus.read c.regs.pc) = some i)
    ⟨fun h => ⟨h.1, h.2.1, h.2.2⟩, fun h => ⟨h.accepted, h.undisturbed, h.decoded⟩⟩

/-- The processor past the opcode, at the operand bytes. -/
def atOperands (c : Cpu Ram) : Cpu Ram := (c.advance 1).setState .executing

/-- The operand of the instruction at the program counter. -/
def operand (c : Cpu Ram) (i : Instruction) : Operand := c.atOperands.operandOf i.mode

/-- The action of the instruction at the program counter, carried out. -/
def performed (c : Cpu Ram) (i : Instruction) : Completion Ram :=
  c.atOperands.perform i.mnemonic.action (c.operand i)

/-- The same memory, byte registers and status; the program counters, the cycles and the lines may
differ. -/
structure SameData (d e : Cpu Ram) : Prop where
  bus : d.bus = e.bus
  a : d.regs.a = e.regs.a
  x : d.regs.x = e.regs.x
  y : d.regs.y = e.regs.y
  sp : d.regs.sp = e.regs.sp
  status : d.regs.status = e.regs.status

theorem SameData.trans {c d e : Cpu Ram} (h : SameData c d) (h' : SameData d e) : SameData c e :=
  ⟨h.bus.trans h'.bus, h.a.trans h'.a, h.x.trans h'.x, h.y.trans h'.y, h.sp.trans h'.sp,
    h.status.trans h'.status⟩

theorem SameData.get {d e : Cpu Ram} (h : SameData d e) (name : Register) :
    d.regs.get name = e.regs.get name := by
  cases name with
  | a => exact h.a
  | x => exact h.x
  | y => exact h.y
  | sp => exact h.sp

theorem sameData_setPc (c : Cpu Ram) (pc : UInt16) : SameData (c.setPc pc) c :=
  ⟨rfl, rfl, rfl, rfl, rfl, rfl⟩

theorem sameData_atOperands (c : Cpu Ram) : SameData c.atOperands c :=
  ⟨rfl, rfl, rfl, rfl, rfl, rfl⟩

/-- A step does what the action of its instruction does. The program counter goes on behind the
operand bytes, unless the action has set it. -/
theorem Executes.step (tracing : Bool) {c : Cpu Ram} {i : Instruction} (h : c.Executes i) :
    (c.step tracing).result = .ok () ∧ SameData (c.step tracing).cpu (c.performed i).cpu ∧
      (c.step tracing).cpu.regs.pc =
        if (c.performed i).jumped then (c.performed i).cpu.regs.pc
        else (c.performed i).cpu.regs.pc + UInt16.ofNat i.mode.operandBytes := by
  obtain ⟨hresult, hcpu⟩ := step_defined tracing h.accepted h.undisturbed h.decoded
  have hexecute : (c.step tracing).cpu =
      ((if (c.performed i).jumped then (c.performed i).cpu
        else (c.performed i).cpu.advance i.mode.operandBytes).spend
          (i.baseCycles + (c.performed i).penalty +
            if i.pagePenalty && (c.atOperands.crossing? i.mode).getD false then 1 else 0)).setState
        .fetching := by
    rw [hcpu, execute, ← atOperands, resolve_ram]
    rfl
  rw [hexecute]
  refine ⟨hresult, ?_, ?_⟩
  · split <;> exact ⟨rfl, rfl, rfl, rfl, rfl, rfl⟩
  · split <;> rfl

/-- The next step is not refused and executes a documented instruction. If an interrupt is due, it
is taken first, and the instruction is one of its handler. -/
structure Reaches (c : Cpu Ram) (i : Instruction) : Prop where
  accepted : c.refuses = false
  decoded : decode (c.pollInterrupts.bus.read c.pollInterrupts.regs.pc) = some i

/-- Once the interrupt is taken, there is only the instruction left. -/
theorem Reaches.executes {c : Cpu Ram} {i : Instruction} (h : c.Reaches i) :
    c.pollInterrupts.Executes i :=
  ⟨c.refuses_pollInterrupts.trans h.accepted, c.dueInterrupt_pollInterrupts, h.decoded⟩

theorem Executes.reaches {c : Cpu Ram} {i : Instruction} (h : c.Executes i) : c.Reaches i :=
  ⟨h.accepted, by rw [pollInterrupts_of_idle h.undisturbed]; exact h.decoded⟩

/-- Such a step does what the action does, for the processor that has taken the interrupt. -/
theorem Reaches.step (tracing : Bool) {c : Cpu Ram} {i : Instruction} (h : c.Reaches i) :
    (c.step tracing).result = .ok () ∧
      SameData (c.step tracing).cpu (c.pollInterrupts.performed i).cpu := by
  obtain ⟨hresult, hcpu⟩ := step_pollInterrupts_of_accepted tracing h.accepted
  obtain ⟨hok, hsame, -⟩ := h.executes.step tracing
  exact ⟨hresult.symm.trans hok, hcpu ▸ hsame⟩

/-! ## Operands -/

/-- The byte that an operand stands for; an absent one counts as zero. -/
def byteIn (c : Cpu Ram) : Operand → UInt8
  | .address address => c.bus.read address
  | .accumulator => c.regs.a
  | .absent => 0

/-- The operand byte of the instruction at the program counter. -/
def operandByte (c : Cpu Ram) (i : Instruction) : UInt8 := c.byteIn (c.operand i)

theorem SameData.byteIn {d e : Cpu Ram} (h : SameData d e) (operand : Operand) :
    d.byteIn operand = e.byteIn operand := by
  cases operand with
  | address address => exact congrArg (·.read address) h.bus
  | accumulator => exact h.a
  | absent => rfl

theorem readOperand_ram (c : Cpu Ram) (operand : Operand) :
    c.readOperand operand = (c.byteIn operand, c) := by
  cases operand with
  | address address => exact c.read_ram address
  | accumulator | absent => rfl

/-- What is written to an operand is found there. -/
theorem byteIn_writeOperand (c : Cpu Ram) {operand : Operand} (h : operand ≠ .absent)
    (value : UInt8) : (c.writeOperand operand value).byteIn operand = value := by
  cases operand with
  | address address => simp [writeOperand, byteIn, write_ram]
  | accumulator => rfl
  | absent => exact absurd rfl h

/-- Writing to one operand leaves the others as they are. -/
theorem byteIn_writeOperand_of_ne (c : Cpu Ram) {operand other : Operand} (h : operand ≠ other)
    (value : UInt8) : (c.writeOperand operand value).byteIn other = c.byteIn other := by
  cases operand with
  | address address =>
    cases other with
    | address other =>
      have hother : other ≠ address := fun hsame => h (congrArg Operand.address hsame.symm)
      simp only [writeOperand, byteIn, write_ram, Ram.read_write, if_neg hother]
    | accumulator | absent => rfl
  | accumulator =>
    cases other with
    | accumulator => exact absurd rfl h
    | address address | absent => rfl
  | absent => rfl

end Cpu

end Nes6502
