import Nes6502.Proofs.Flags
import Nes6502.Proofs.Frames
import Nes6502.Proofs.Recovery
import Nes6502.Proofs.Transfer

/-!
# Footprints

What a step can change in memory and in the registers, by the instruction that it executes. The
address that an instruction writes to is the one that its mode finds before the instruction does
anything else, so it does not matter whether the write hits the instruction itself, the pointer
through which the address was found or the stack.

## What is proved

* `Cpu.memory_perform`: an action writes to its operand and to the stack, and nowhere else.
* `Registers.get_perform_of_not_written`, `Registers.sp_perform`: what it does to the registers.
* `Cpu.stacked_pollInterrupts`: what an interrupt does that comes before the instruction.
* `footprint_by_instruction`: the three together, by the mnemonics of the data sheet.
-/

set_option autoImplicit false

namespace Nes6502

/-! ## The data sheet -/

namespace Mnemonic

/-- The instructions that write to their operand, in memory or in the accumulator. -/
def storing : List Mnemonic := [.sta, .stx, .sty, .asl, .lsr, .rol, .ror, .inc, .dec]

/-- The instructions that shift their operand. -/
def shifting : List Mnemonic := [.asl, .lsr, .rol, .ror]

/-- The number of bytes that an instruction pushes. -/
def pushes : Mnemonic → Nat
  | .pha | .php => 1
  | .jsr => 2
  | .brk => 3
  | _ => 0

/-- The number of bytes that an instruction pulls. -/
def pulls : Mnemonic → Nat
  | .pla | .plp => 1
  | .rts => 2
  | .rti => 3
  | _ => 0

end Mnemonic

/-- The instructions that can change a register. Pushing and pulling is not meant here, nor are
shifts, which change the accumulator in one of their modes. -/
def Register.changers : Register → List Mnemonic
  | .a => [.lda, .adc, .sbc, .and, .ora, .eor, .txa, .tya, .pla]
  | .x => [.ldx, .inx, .dex, .tax, .tsx]
  | .y => [.ldy, .iny, .dey, .tay]
  | .sp => [.txs]

/-- Whether an instruction can change a register, by other means than pushing and pulling. -/
def Instruction.Changes (i : Instruction) (name : Register) : Prop :=
  i.mnemonic ∈ name.changers ∨
    name = .a ∧ i.mode = .accumulator ∧ i.mnemonic ∈ Mnemonic.shifting

namespace Action

/-- Whether an action writes to its operand. -/
def stores : Action → Bool
  | .store _ | .modify _ => true
  | _ => false

/-- The number of bytes that an action pushes. -/
def pushed : Action → Nat
  | .pushAccumulator | .pushStatus => 1
  | .call => 2
  | .softwareInterrupt => 3
  | _ => 0

/-- The number of bytes that an action pulls. -/
def pulled : Action → Nat
  | .pullAccumulator | .pullStatus => 1
  | .returnFromCall => 2
  | .returnFromInterrupt => 3
  | _ => 0

/-- The registers that an action writes to. -/
def written (operand : Operand) : Action → List Register
  | .load destination | .transfer _ destination => [destination]
  | .count register _ => [register]
  | .combine _ | .pullAccumulator => [.a]
  | .store _ | .modify _ => if operand = .accumulator then [.a] else []
  | _ => []

theorem stores_iff (mnemonic : Mnemonic) :
    mnemonic.action.stores = true ↔ mnemonic ∈ Mnemonic.storing := by
  cases mnemonic <;> decide

theorem pushed_eq (mnemonic : Mnemonic) : mnemonic.action.pushed = mnemonic.pushes := by
  cases mnemonic <;> rfl

theorem pulled_eq (mnemonic : Mnemonic) : mnemonic.action.pulled = mnemonic.pulls := by
  cases mnemonic <;> rfl

end Action

/-- Every mode of a shift but one leaves the accumulator alone, and no other instruction has that
mode. -/
theorem shifting_of_accumulator {opcode : UInt8} {i : Instruction}
    (hdecode : decode opcode = some i) (h : i.mode = .accumulator) :
    i.mnemonic ∈ Mnemonic.shifting :=
  of_decode (P := fun i => i.mode = .accumulator → i.mnemonic ∈ Mnemonic.shifting)
    (by decide +kernel) hdecode h

theorem Register.mem_changers {mnemonic : Mnemonic} {operand : Operand}
    (hoperand : operand ≠ .accumulator) {name : Register}
    (h : name ∈ mnemonic.action.written operand) : mnemonic ∈ name.changers := by
  cases mnemonic with
  | sta | stx | sty | asl | lsr | rol | ror | inc | dec =>
    simp only [Mnemonic.action, Action.written, if_neg hoperand] at h
    cases h
  | _ =>
    simp only [Mnemonic.action, Action.written, List.mem_singleton, List.not_mem_nil] at h
    try
      subst h
      decide

/-- The registers that the actions of instructions write to are those of the data sheet. -/
theorem Instruction.changes_of_written {opcode : UInt8} {i : Instruction}
    (hdecode : decode opcode = some i) {operand : Operand}
    (hoperand : operand = .accumulator → i.mode = .accumulator) {name : Register}
    (h : name ∈ i.mnemonic.action.written operand) : i.Changes name := by
  by_cases haccumulator : operand = .accumulator
  · have hmode := hoperand haccumulator
    have hshifting := shifting_of_accumulator hdecode hmode
    obtain ⟨op, hop⟩ : ∃ op, i.mnemonic.action = .modify op := by
      simp only [Mnemonic.shifting, List.mem_cons, List.not_mem_nil, or_false] at hshifting
      rcases hshifting with h | h | h | h <;> exact ⟨_, by rw [h]; rfl⟩
    rw [hop, Action.written, if_pos haccumulator] at h
    exact .inr ⟨List.mem_singleton.mp h, hmode, hshifting⟩
  · exact .inl (Register.mem_changers haccumulator h)

/-! ## Registers -/

namespace Registers

open Conversation

theorem get_set_of_ne (r : Registers) {name other : Register} (h : name ≠ other) (value : UInt8) :
    (r.set other value).get name = r.get name := by
  cases name <;> cases other <;> first | rfl | exact absurd rfl h

theorem get_jumpTo (r : Registers) (operand : Operand) (name : Register) :
    (r.jumpTo operand).get name = r.get name := by
  cases operand <;> cases name <;> rfl

theorem get_setPc (r : Registers) (pc : UInt16) (name : Register) :
    (r.setPc pc).get name = r.get name := by
  cases name <;> rfl

/-- Only an operand in the accumulator is a register. -/
theorem get_writeOperand (r : Registers) {operand : Operand} {name : Register}
    (h : operand = .accumulator → name ≠ .a) (value : UInt8) :
    (r.writeOperand operand value).Ensures fun after => after.get name = r.get name := by
  cases operand with
  | address address => exact fun _ => rfl
  | accumulator => exact r.get_set_of_ne (h rfl) value
  | absent => exact rfl

variable {name : Register}

/-- Pushing a byte moves the stack pointer and no other register. -/
theorem get_push (r : Registers) (h : name ≠ .sp) (value : UInt8) :
    (r.push value).Ensures fun after => after.get name = r.get name :=
  fun _ => r.get_set_of_ne h _

theorem get_pushWord (r : Registers) (h : name ≠ .sp) (word : UInt16) :
    (r.pushWord word).Ensures fun after => after.get name = r.get name :=
  (r.get_push h _).bind fun after hafter =>
    (after.get_push h _).mono fun _ hlast => hlast.trans hafter

theorem get_pullWord (r : Registers) (h : name ≠ .sp) :
    r.pullWord.Ensures fun pulled => pulled.2.get name = r.get name :=
  fun _ _ => (get_set_of_ne _ h _).trans (get_set_of_ne _ h _)

theorem ne_a_of_not_written {operand : Operand}
    (h : name ∉ if operand = .accumulator then [Register.a] else []) :
    operand = .accumulator → name ≠ .a := by
  rintro rfl rfl
  exact h (List.mem_singleton.mpr rfl)

theorem get_enterHandler (r : Registers) (h : name ≠ .sp) (kind : Interrupt) :
    (r.enterHandler kind).Ensures fun after => after.get name = r.get name := by
  refine (r.get_pushWord h r.pc).bind fun after hafter => ?_
  refine (after.get_push h _).bind fun last hlast => fun handler => ?_
  rw [← hafter, ← hlast]
  cases name <;> rfl

/-- An action leaves the registers alone that it does not write to. The stack pointer is apart. -/
theorem get_perform_of_not_written (r : Registers) {action : Action} {operand : Operand}
    (hname : name ≠ .sp) (h : name ∉ action.written operand) :
    (r.perform action operand).Ensures fun done => done.regs.get name = r.get name := by
  cases action with
  | load destination =>
    refine (Ensures.trivial _).bind fun m _ => ?_
    exact (get_setStatus _ _ _).trans (r.get_set_of_ne (List.ne_of_not_mem_cons h) m)
  | store source =>
    exact (r.get_writeOperand (ne_a_of_not_written h) _).bind fun _ hafter => hafter
  | combine op =>
    refine (Ensures.trivial _).bind fun m _ => ?_
    exact (get_setStatus _ _ _).trans (r.get_set_of_ne (List.ne_of_not_mem_cons h) _)
  | compare | testBits =>
    exact (Ensures.trivial _).bind fun m _ => r.get_setStatus _ name
  | modify op =>
    refine (Ensures.trivial _).bind fun m _ => ?_
    refine (get_writeOperand _ (ne_a_of_not_written h) _).bind fun after hafter => ?_
    exact hafter.trans (r.get_setStatus _ name)
  | count register op =>
    exact (get_setStatus _ _ _).trans (r.get_set_of_ne (List.ne_of_not_mem_cons h) _)
  | transfer source destination =>
    have hdestination : name ≠ destination := List.ne_of_not_mem_cons h
    show (if destination = .sp then r.set .sp (r.get source)
      else r.setResult destination (r.get source)).get name = r.get name
    split
    · exact r.get_set_of_ne hname _
    · exact (get_setStatus _ _ _).trans (r.get_set_of_ne hdestination _)
  | assign flag value => exact r.get_setStatus _ name
  | branch flag value =>
    show Conversation.Ensures _ (if _ then _ else _)
    split
    · exact (Ensures.trivial _).bind fun _ _ => r.get_setPc _ name
    · exact rfl
  | jump => exact r.get_jumpTo operand name
  | call =>
    exact (r.get_pushWord hname _).bind fun after hafter =>
      (after.get_jumpTo operand name).trans hafter
  | returnFromCall =>
    exact (r.get_pullWord hname).bind fun pulled hpulled => (get_setPc _ _ _).trans hpulled
  | softwareInterrupt =>
    refine ((r.setPc _).get_enterHandler hname .brk).bind fun after hafter => ?_
    exact hafter.trans (r.get_setPc _ name)
  | returnFromInterrupt =>
    intro bits
    refine (get_pullWord _ hname).bind fun pulled hpulled => ?_
    refine (get_setPc _ _ _).trans (hpulled.trans ((get_setStatus _ _ _).trans ?_))
    exact r.get_set_of_ne hname _
  | pushAccumulator | pushStatus => exact (r.get_push hname _).bind fun _ hafter => hafter
  | pullAccumulator =>
    intro value
    refine (get_setStatus _ _ _).trans ?_
    refine (get_set_of_ne _ (List.ne_of_not_mem_cons h) value).trans ?_
    exact r.get_set_of_ne hname _
  | pullStatus => exact fun bits => (get_setStatus _ _ _).trans (r.get_set_of_ne hname _)
  | nothing => exact rfl

theorem sp_writeOperand (r : Registers) (operand : Operand) (value : UInt8) :
    (r.writeOperand operand value).Ensures fun after => after.sp = r.sp := by
  have hother : operand = .accumulator → Register.sp ≠ .a := fun _ => by decide
  exact r.get_writeOperand hother value

/-- An action that does not write to the stack pointer counts it down by the bytes that it pushes
and up by those that it pulls. -/
theorem sp_perform (r : Registers) {action : Action} {operand : Operand}
    (h : Register.sp ∉ action.written operand) :
    (r.perform action operand).Ensures fun done =>
      done.regs.sp = r.sp - UInt8.ofNat action.pushed + UInt8.ofNat action.pulled := by
  have hidle : r.sp = r.sp - UInt8.ofNat 0 + UInt8.ofNat 0 := by grind
  have hset {other : Register} (h : Register.sp ∉ [other]) (value : UInt8) :
      (r.set other value).sp = r.sp :=
    r.get_set_of_ne (List.ne_of_not_mem_cons h) value
  cases action with
  | load destination => exact (Ensures.trivial _).bind fun m _ => (hset h m).trans hidle
  | store source => exact (r.sp_writeOperand operand _).bind fun _ hafter => hafter.trans hidle
  | combine | compare | testBits => exact (Ensures.trivial _).bind fun m _ => hidle
  | modify op =>
    refine (Ensures.trivial _).bind fun m _ => ?_
    exact (sp_writeOperand _ operand _).bind fun _ hafter => hafter.trans hidle
  | count register op => exact (hset h _).trans hidle
  | transfer source destination =>
    show (if destination = .sp then r.set .sp (r.get source)
      else r.setResult destination (r.get source)).sp = _
    rw [if_neg (List.ne_of_not_mem_cons h).symm]
    exact (hset h _).trans hidle
  | assign | nothing => exact hidle
  | branch flag value =>
    show Conversation.Ensures _ (if _ then _ else _)
    split
    · exact (Ensures.trivial _).bind fun _ _ => hidle
    · exact hidle
  | jump => exact (r.get_jumpTo operand .sp).trans hidle
  | call =>
    intro _ _
    refine (get_jumpTo _ operand .sp).trans ?_
    show r.sp - 1 - 1 = r.sp - 2 + 0
    grind
  | returnFromCall =>
    intro _ _
    show r.sp + 1 + 1 = r.sp - 0 + 2
    grind
  | softwareInterrupt =>
    intro _ _ _ _
    show r.sp - 1 - 1 - 1 = r.sp - 3 + 0
    grind
  | returnFromInterrupt =>
    intro _ _ _
    show r.sp + 1 + 1 + 1 = r.sp - 0 + 3
    grind
  | pushAccumulator | pushStatus =>
    intro _
    show r.sp - 1 = r.sp - 1 + 0
    grind
  | pullAccumulator | pullStatus =>
    intro _
    show r.sp + 1 = r.sp - 0 + 1
    grind

end Registers

/-! ## Memory -/

namespace Cpu

variable {address : UInt16}

theorem Pushed.read {image : List UInt8} {c d : Cpu Ram} (h : Pushed image c d)
    (hslot : ¬ Slot c.regs.sp image.length address) : d.bus.read address = c.bus.read address := by
  rw [h.bus, Ram.read_pushed_of_not_slot hslot]

theorem pushed_pushByte (c : Cpu Ram) (value : UInt8) : Pushed [value] c (c.pushByte value) := by
  rw [pushByte_ram]
  exact ⟨⟨rfl, rfl, rfl, rfl, rfl, rfl⟩, rfl, rfl⟩

/-- An action writes to its operand and to the slots of the bytes that it pushes. -/
theorem memory_perform (c : Cpu Ram) {action : Action} {operand : Operand}
    (hoperand : action.stores = true → operand ≠ .address address)
    (hslot : ¬ Slot c.regs.sp action.pushed address) :
    (c.perform action operand).cpu.bus.read address = c.bus.read address := by
  cases action with
  | load | combine | compare | testBits =>
    simp only [perform, readOperand_ram]
    rfl
  | store source => exact c.byteIn_writeOperand_of_ne (hoperand rfl) _
  | modify op =>
    simp only [perform, readOperand_ram]
    exact byteIn_writeOperand_of_ne _ (hoperand rfl) _
  | transfer source destination =>
    simp only [perform]
    split <;> rfl
  | branch flag value =>
    simp only [perform, branch, readOperand_ram]
    split <;> rfl
  | jump => exact congrArg (·.read address) (sameData_jumpTo c operand).bus
  | call =>
    refine Eq.trans ?_ ((c.pushed_pushWord (c.regs.pc + 1)).read hslot)
    exact congrArg (·.read address) (sameData_jumpTo _ operand).bus
  | softwareInterrupt => exact ((c.advance 1).pushed_enterHandler .brk).read hslot
  | pushAccumulator => exact (c.pushed_pushByte _).read hslot
  | pushStatus => exact (c.pushed_pushByte _).read hslot
  | returnFromCall | returnFromInterrupt | pullAccumulator | pullStatus =>
    simp only [perform, pullWord_ram, pullByte_ram]
    rfl
  | count | assign | nothing => rfl

end Cpu

/-! ## Interrupts -/

namespace Cpu

/-- From `c` to `d` so many bytes were pushed, and apart from that memory and the registers for data
are the same. -/
structure Stacked (count : Nat) (c d : Cpu Ram) : Prop where
  memory : ∀ address, ¬ Slot c.regs.sp count address → d.bus.read address = c.bus.read address
  sp : d.regs.sp = c.regs.sp - UInt8.ofNat count
  get : ∀ name, name ≠ .sp → d.regs.get name = c.regs.get name

theorem Stacked.refl (c : Cpu Ram) : Stacked 0 c c :=
  ⟨fun _ _ => rfl, by show _ = _ - 0; grind, fun _ _ => rfl⟩

theorem stacked_enterHandler (c : Cpu Ram) (kind : Interrupt) :
    Stacked 3 c (c.enterHandler kind) := by
  have h := c.pushed_enterHandler kind
  refine ⟨fun address => h.read, h.sp, fun name hname => ?_⟩
  rw [enterHandler_eq]
  exact (c.regs.get_enterHandler hname kind).value c.bus

/-- The number of bytes that are pushed for the interrupt that is due. -/
def serviceBytes (c : Cpu Ram) : Nat := if c.dueInterrupt.isSome then 3 else 0

theorem stacked_pollInterrupts (c : Cpu Ram) : Stacked c.serviceBytes c c.pollInterrupts := by
  unfold pollInterrupts serviceBytes
  cases c.dueInterrupt with
  | none => exact .refl c
  | some kind =>
    cases kind with
    | nmi =>
      have h := { c with nmiLatched := false }.stacked_enterHandler .nmi
      exact ⟨h.memory, h.sp, h.get⟩
    | reset | irq | brk => exact c.stacked_enterHandler _

end Cpu

/-! ## Steps -/

namespace Cpu

variable {c : Cpu Ram} {i : Instruction}

theorem performed_eq (c : Cpu Ram) (i : Instruction) :
    (c.performed i).cpu.regs = (c.atOperands.converse
      (c.atOperands.regs.perform i.mnemonic.action (c.operand i))).1.regs := by
  rw [performed, perform_eq]
  rfl

/-- An instruction writes to the address that its mode finds, if it stores or modifies its operand,
and to the slots of the bytes that it pushes. -/
theorem memory_performed {address : UInt16}
    (hoperand : i.mnemonic ∈ Mnemonic.storing →
      c.atOperands.effective? i.mode ≠ some address.toNat)
    (hslot : ¬ Slot c.regs.sp i.mnemonic.pushes address) :
    (c.performed i).cpu.bus.read address = c.bus.read address := by
  refine c.atOperands.memory_perform (fun hstores haddress => ?_) ?_
  · exact hoperand ((Action.stores_iff _).mp hstores)
      ((operandOf_eq_address_iff _ _ _).mp haddress)
  · rwa [Action.pushed_eq]

theorem get_performed (hdecode : decode (c.bus.read c.regs.pc) = some i) {name : Register}
    (hname : name ≠ .sp) (h : ¬ i.Changes name) :
    (c.performed i).cpu.regs.get name = c.regs.get name := by
  have hwritten : name ∉ i.mnemonic.action.written (c.operand i) := fun hmem =>
    h (Instruction.changes_of_written hdecode (operandOf_eq_accumulator_iff _ _).mp hmem)
  rw [performed_eq]
  exact (c.atOperands.regs.get_perform_of_not_written hname hwritten).value _

theorem sp_performed (hdecode : decode (c.bus.read c.regs.pc) = some i) :
    (c.performed i).cpu.regs.sp = if i.mnemonic = .txs then c.regs.x
      else c.regs.sp - UInt8.ofNat i.mnemonic.pushes + UInt8.ofNat i.mnemonic.pulls := by
  split
  next htxs =>
    have haction : i.mnemonic.action = .transfer .x .sp := by rw [htxs]; rfl
    rw [performed, haction]
    rfl
  next htxs =>
    have hwritten : Register.sp ∉ i.mnemonic.action.written (c.operand i) := by
      intro hmem
      rcases Instruction.changes_of_written hdecode (operandOf_eq_accumulator_iff _ _).mp hmem with
        hchanger | ⟨hname, -⟩
      · exact htxs (List.mem_singleton.mp hchanger)
      · cases hname
    rw [performed_eq, ← Action.pushed_eq, ← Action.pulled_eq]
    exact (c.atOperands.regs.sp_perform hwritten).value _

end Cpu

open Cpu in
/-- What a step can change that executes a documented instruction. In memory these are the three
slots of the interrupt that is taken first, if one is due; the address that the mode of the
instruction finds before the instruction does anything, if it is one that stores or modifies its
operand; and the slots of the bytes that it pushes. All slots lie in page one. The registers for
data change by their own instructions, and the accumulator by shifts in accumulator mode as well.
The stack pointer is loaded by TXS, and otherwise counts the bytes that are pushed and pulled,
modulo 256. -/
theorem footprint_by_instruction (tracing : Bool) {c : Cpu Ram} {i : Instruction}
    (h : c.Reaches i) :
    let ready := c.pollInterrupts
    let d := (c.step tracing).cpu
    (c.step tracing).result = .ok () ∧
      (∀ address, d.bus.read address ≠ c.bus.read address →
        Slot c.regs.sp c.serviceBytes address ∨
          i.mnemonic ∈ Mnemonic.storing ∧
            ready.atOperands.effective? i.mode = some address.toNat ∨
          Slot ready.regs.sp i.mnemonic.pushes address) ∧
      ready.regs.sp = c.regs.sp - UInt8.ofNat c.serviceBytes ∧
      (∀ sp count address, Slot sp count address → 0x0100 ≤ address ∧ address ≤ 0x01FF) ∧
      (∀ name, name ≠ .sp → d.regs.get name ≠ c.regs.get name → i.Changes name) ∧
      d.regs.sp = if i.mnemonic = .txs then c.regs.x
        else c.regs.sp - UInt8.ofNat (c.serviceBytes + i.mnemonic.pushes) +
          UInt8.ofNat i.mnemonic.pulls := by
  intro ready d
  obtain ⟨hresult, hsame⟩ := h.step tracing
  have hserviced : Stacked c.serviceBytes c ready := c.stacked_pollInterrupts
  refine ⟨hresult, ?_, hserviced.sp, fun _ _ _ => Slot.mem_page, ?_, ?_⟩
  · intro address hchanged
    apply Classical.byContradiction
    intro houtside
    obtain ⟨hentry, hstored, hpushed⟩ : ¬ _ ∧ ¬ _ ∧ ¬ _ := by simpa only [not_or] using houtside
    have hinstruction : (ready.performed i).cpu.bus.read address = ready.bus.read address :=
      memory_performed (fun hstoring heffective => hstored ⟨hstoring, heffective⟩) hpushed
    refine hchanged (Eq.trans ?_ (hinstruction.trans (hserviced.memory address hentry)))
    exact congrArg (·.read address) hsame.bus
  · intro name hname hchanged
    apply Classical.byContradiction
    intro hkept
    refine hchanged ((hsame.get name).trans ?_)
    exact (get_performed h.decoded hname hkept).trans (hserviced.get name hname)
  · have hx : ready.regs.x = c.regs.x := hserviced.get .x (by decide)
    rw [show d.regs.sp = _ from hsame.sp, sp_performed h.decoded, hx, hserviced.sp, sub_ofNat_add]

/-- A handler at `0x0400` that counts up the low byte of its own operand. -/
def countedOperand : Ram :=
  (Ram.zeroed.load 0x0400 [0xEE, 0x01, 0x04]).load 0xFFFA [0x00, 0x04]

open Cpu in
/-- The operand names another address afterwards, and nothing is written there. -/
theorem footprint_by_instruction_countedOperand :
    let c := (Cpu.powerOn countedOperand .halt).reset.triggerNmi
    let d := (c.step false).cpu
    c.Reaches ⟨0xEE, .inc, .absolute, 6, false⟩ ∧ d.bus.read 0x0401 = 0x02 ∧
      (∀ address, d.bus.read address ≠ c.bus.read address →
        Slot 0xFD 3 address ∨ address = 0x0401) ∧
      d.regs.a = c.regs.a ∧ d.regs.sp = 0xFD - 3 := by
  intro c d
  have hreaches : c.Reaches ⟨0xEE, .inc, .absolute, 6, false⟩ :=
    ⟨by decide +kernel, by decide +kernel⟩
  have heffective : c.pollInterrupts.atOperands.effective? .absolute = some 0x0401 := by
    decide +kernel
  obtain ⟨-, hmemory, -, -, hregisters, hsp⟩ := footprint_by_instruction false hreaches
  refine ⟨hreaches, by decide +kernel, fun address hchanged => ?_, ?_,
    hsp.trans (by decide +kernel)⟩
  · rcases hmemory address hchanged with hentry | ⟨-, hstored⟩ | ⟨k, hk, -⟩
    · exact .inl hentry
    · rw [heffective, Option.some.injEq] at hstored
      exact .inr (UInt16.toNat_inj.mp hstored.symm)
    · exact absurd hk (Nat.not_lt_zero k)
  · refine Decidable.byContradiction fun hchanged => ?_
    rcases hregisters .a (by decide) hchanged with hchanger | ⟨-, hmode, -⟩
    · revert hchanger
      decide
    · cases hmode

end Nes6502
