import Nes6502.Proofs.Flags
import Nes6502.Proofs.Halting
import Nes6502.Proofs.Mask

/-!
# Decimal

The flag can be set and cleared, pushed and pulled, and beyond that counts for nothing: this
processor adds in binary whatever the flag says. So two processors that differ in it alone stay side
by side. There are two ways for this to end. An instruction that gives the flag a value makes the
processors the same, and a copy of the status register that is pushed takes the difference into
memory. Such copies are pushed by PHP, by BRK and by interrupts, and by nothing else.

## What is proved

* `Registers.alongside_perform`: whatever the flag says, an action asks for the same and does the
  same, if it pushes no status register.
* `Registers.alongside_perform_of_changed`: an action that can change the flag gives it a value.
* `Cpu.UpToDecimal.step`: both for a step.
* `Abreast.history`: and for what a host does to make a processor run.
* `decimal_unobserved`: the two processors compared at every moment.
-/

set_option autoImplicit false

namespace Nes6502

/-! ## Flags -/

/-- The same flags. Decimal counts only once it is settled. -/
def Status.UpToDecimal (settled : Prop) (p q : Status) : Prop :=
  ∀ flag, (flag = .decimal → settled) → p.get flag = q.get flag

namespace Status.UpToDecimal

variable {settled : Prop} {p q : Status}

theorem refl (settled : Prop) (p : Status) : p.UpToDecimal settled p := fun _ _ => rfl

theorem mono {settled' : Prop} (h : p.UpToDecimal settled q) (hle : settled' → settled) :
    p.UpToDecimal settled' q :=
  fun flag hflag => h flag (hle ∘ hflag)

theorem get (h : p.UpToDecimal settled q) {flag : Flag} (hflag : flag ≠ .decimal) :
    p.get flag = q.get flag :=
  h flag fun hdecimal => absurd hdecimal hflag

/-- The same value for Decimal settles it. -/
theorem assign (h : p.UpToDecimal settled q) (flag : Flag) (value : Bool) :
    (p.assign flag value).UpToDecimal (settled ∨ flag = .decimal) (q.assign flag value) := by
  intro other hother
  by_cases hsame : other = flag
  · subst hsame
    by_cases hunused : other = .unused
    · rw [hunused, get_unused, get_unused]
    · rw [get_assign _ hunused, get_assign _ hunused]
  · rw [get_assign_of_ne _ hsame, get_assign_of_ne _ hsame]
    exact h other fun hdecimal =>
      (hother hdecimal).resolve_right fun hflag => hsame (hdecimal.trans hflag.symm)

theorem assigned (h : p.UpToDecimal settled q) (flag : Flag) (value : Bool) :
    (p.assign flag value).UpToDecimal settled (q.assign flag value) :=
  (h.assign flag value).mono .inl

theorem updateZeroNegative (h : p.UpToDecimal settled q) (value : UInt8) :
    (p.updateZeroNegative value).UpToDecimal settled (q.updateZeroNegative value) :=
  (h.assigned .zero _).assigned .negative _

theorem carry (h : p.UpToDecimal settled q) : p.bit .carry = q.bit .carry := by
  unfold bit
  rw [h.get (by decide)]

theorem addWithCarry (h : p.UpToDecimal settled q) (a m : UInt8) :
    (Alu.addWithCarry a m p).1 = (Alu.addWithCarry a m q).1 ∧
      (Alu.addWithCarry a m p).2.UpToDecimal settled (Alu.addWithCarry a m q).2 := by
  unfold Alu.addWithCarry
  rw [h.carry]
  exact ⟨rfl, ((h.assigned .carry _).assigned .overflow _).updateZeroNegative _⟩

theorem compare (h : p.UpToDecimal settled q) (register m : UInt8) :
    (Alu.compare register m p).UpToDecimal settled (Alu.compare register m q) :=
  (h.updateZeroNegative _).assigned .carry _

theorem testBits (h : p.UpToDecimal settled q) (a m : UInt8) :
    (Alu.testBits a m p).UpToDecimal settled (Alu.testBits a m q) :=
  ((h.assigned .zero _).assigned .overflow _).assigned .negative _

theorem combination (h : p.UpToDecimal settled q) (op : Combination) (a m : UInt8) :
    (op.apply a m p).1 = (op.apply a m q).1 ∧
      (op.apply a m p).2.UpToDecimal settled (op.apply a m q).2 := by
  cases op with
  | add => exact h.addWithCarry a m
  | subtract => exact h.addWithCarry a (~~~m)
  | and | or | xor => exact ⟨rfl, h.updateZeroNegative _⟩

theorem modification (h : p.UpToDecimal settled q) (op : Modification) (m : UInt8) :
    (op.apply m p).1 = (op.apply m q).1 ∧
      (op.apply m p).2.UpToDecimal settled (op.apply m q).2 := by
  have hresult : op.result m p = op.result m q := by
    cases op with
    | rotateLeft | rotateRight => simp only [Modification.result, h.carry]
    | shiftLeft | shiftRight | increment | decrement => rfl
  unfold Modification.apply
  rw [hresult]
  refine ⟨rfl, ?_⟩
  cases op.shiftedOut m with
  | none => exact h.updateZeroNegative _
  | some carry => exact (h.assigned .carry carry).updateZeroNegative _

end Status.UpToDecimal

/-! ## Actions -/

open Conversation

/-- Whether an action depends on Decimal. -/
def Action.looksAtDecimal : Action → Bool
  | .pushStatus | .softwareInterrupt | .branch .decimal _ => true
  | _ => false

/-- The instructions that push the status register. -/
def Mnemonic.pushingStatus : List Mnemonic := [.php, .brk]

theorem Mnemonic.looksAtDecimal_action (mnemonic : Mnemonic) :
    mnemonic.action.looksAtDecimal = true ↔ mnemonic ∈ pushingStatus := by
  cases mnemonic <;> decide

theorem Action.of_decimal_mem_changed {action : Action} (h : .decimal ∈ action.changed) :
    (∃ value, action = .assign .decimal value) ∨ action = .returnFromInterrupt ∨
      action = .pullStatus := by
  cases action with
  | assign flag value => exact .inl ⟨value, by rw [List.mem_singleton.mp h]⟩
  | returnFromInterrupt => exact .inr (.inl rfl)
  | pullStatus => exact .inr (.inr rfl)
  | combine op | modify op | count register op => cases op <;> simp [changed] at h
  | transfer source destination => cases destination <;> simp [changed] at h
  | _ => simp [changed] at h

/-- The same registers, but for the flags that do not count. -/
def Registers.UpToDecimal (settled : Prop) (r s : Registers) : Prop :=
  ∃ p, s = r.setStatus p ∧ r.status.UpToDecimal settled p

/-- The same performance, but for the flags that do not count. -/
structure Performance.UpToDecimal (settled : Prop) (done done' : Performance) : Prop where
  regs : done.regs.UpToDecimal settled done'.regs
  jumped : done.jumped = done'.jumped
  penalty : done.penalty = done'.penalty

namespace Performance.UpToDecimal

variable {settled : Prop} {r s : Registers}

theorem sequential (h : r.UpToDecimal settled s) :
    UpToDecimal settled (.sequential r) (.sequential s) :=
  ⟨h, rfl, rfl⟩

theorem jump (h : r.UpToDecimal settled s) : UpToDecimal settled (.jump r) (.jump s) :=
  ⟨h, rfl, rfl⟩

end Performance.UpToDecimal

namespace Registers

section Parts

variable (r : Registers) (p : Status)

theorem resolve_setStatus (mode : AddressingMode) :
    (r.setStatus p).resolve mode = r.resolve mode := by
  cases mode <;> rfl

theorem readOperand_setStatus (operand : Operand) :
    (r.setStatus p).readOperand operand = r.readOperand operand := by
  cases operand <;> rfl

theorem jumpTo_setStatus (operand : Operand) :
    (r.setStatus p).jumpTo operand = (r.jumpTo operand).setStatus p := by
  cases operand <;> rfl

end Parts

variable {settled : Prop} {r : Registers} {p q : Status}

/-- Whatever the status was, a new one and a new value of a register replace it. -/
theorem upToDecimal_set (name : Register) (value : UInt8) {p' : Status}
    (h : p'.UpToDecimal settled q) :
    ((r.set name value).setStatus p').UpToDecimal settled
      (((r.setStatus p).set name value).setStatus q) := by
  refine ⟨q, ?_, h⟩
  cases name <;> rfl

theorem alongside_writeOperand (h : r.status.UpToDecimal settled p) (operand : Operand)
    (value : UInt8) :
    (r.writeOperand operand value).Alongside (UpToDecimal settled)
      ((r.setStatus p).writeOperand operand value) := by
  cases operand with
  | address address => exact .ask fun _ => .done ⟨p, rfl, h⟩
  | accumulator | absent => exact .done ⟨p, rfl, h⟩

/-- An action reads Decimal only to push it. -/
theorem alongside_perform (h : r.status.UpToDecimal settled p) {action : Action}
    (haction : action.looksAtDecimal = false) (operand : Operand) :
    (r.perform action operand).Alongside (Performance.UpToDecimal settled)
      ((r.setStatus p).perform action operand) := by
  cases action with
  | load destination =>
    simp only [perform, readOperand_setStatus]
    exact .after _ fun m =>
      .done (.sequential (upToDecimal_set destination m (h.updateZeroNegative m)))
  | store source =>
    simp only [perform, get_setStatus]
    exact (alongside_writeOperand h operand _).bind fun _ _ hafter => .done (.sequential hafter)
  | combine op =>
    simp only [perform, readOperand_setStatus]
    refine .after _ fun m => .done (.sequential ?_)
    obtain ⟨hresult, hstatus⟩ := h.combination op r.a m
    show UpToDecimal settled _ (((r.setStatus p).set .a (op.apply r.a m p).1).setStatus _)
    rw [← hresult]
    exact upToDecimal_set .a _ hstatus
  | compare register =>
    simp only [perform, readOperand_setStatus, get_setStatus]
    exact .after _ fun m => .done (.sequential ⟨_, rfl, h.compare (r.get register) m⟩)
  | testBits =>
    simp only [perform, readOperand_setStatus]
    exact .after _ fun m => .done (.sequential ⟨_, rfl, h.testBits r.a m⟩)
  | modify op =>
    simp only [perform, readOperand_setStatus]
    refine .after _ fun m => ?_
    obtain ⟨hresult, hstatus⟩ := h.modification op m
    show Alongside _ _ ((r.setStatus _).writeOperand operand (op.apply m p).1 >>= _)
    rw [← hresult]
    exact (alongside_writeOperand (r := r.setStatus _) hstatus operand _).bind
      fun _ _ hafter => .done (.sequential hafter)
  | count register op =>
    obtain ⟨hresult, hstatus⟩ := h.modification op (r.get register)
    simp only [perform, get_setStatus]
    show Alongside _ _ (.done (Performance.sequential
      (((r.setStatus p).set register (op.apply (r.get register) p).1).setStatus _)))
    rw [← hresult]
    exact .done (.sequential (upToDecimal_set register _ hstatus))
  | transfer source destination =>
    simp only [perform, get_setStatus]
    refine .done (.sequential ?_)
    split
    · exact ⟨p, rfl, h⟩
    · exact upToDecimal_set destination _ (h.updateZeroNegative _)
  | assign flag value => exact .done (.sequential ⟨_, rfl, h.assigned flag value⟩)
  | branch flag value =>
    have hflag : flag ≠ .decimal := by
      rintro rfl
      cases haction
    have hsame : (r.setStatus p).status.get flag = r.status.get flag := (h.get hflag).symm
    simp only [perform, hsame, branch, readOperand_setStatus]
    split
    · exact .after _ fun m => .done ⟨⟨p, rfl, h⟩, rfl, rfl⟩
    · exact .done (.sequential ⟨p, rfl, h⟩)
  | jump =>
    exact .done (.jump ⟨p, r.jumpTo_setStatus p operand, by cases operand <;> exact h⟩)
  | call =>
    refine .ask fun _ => .ask fun _ => .done (.jump ⟨p, ?_, ?_⟩)
    · cases operand <;> rfl
    · cases operand <;> exact h
  | returnFromCall => exact .ask fun _ => .ask fun _ => .done (.jump ⟨p, rfl, h⟩)
  | softwareInterrupt => cases haction
  | returnFromInterrupt =>
    exact .ask fun bits => .ask fun _ => .ask fun _ => .done (.jump ⟨.ofStack bits, rfl, .refl _ _⟩)
  | pushAccumulator => exact .ask fun _ => .done (.sequential ⟨p, rfl, h⟩)
  | pullAccumulator =>
    exact .ask fun value => .done (.sequential ⟨_, rfl, h.updateZeroNegative value⟩)
  | pushStatus => cases haction
  | pullStatus => exact .ask fun bits => .done (.sequential ⟨.ofStack bits, rfl, .refl _ _⟩)
  | nothing => exact .done (.sequential ⟨p, rfl, h⟩)

/-- An action that can change Decimal settles it. -/
theorem alongside_perform_of_changed (h : r.status.UpToDecimal settled p) {action : Action}
    (haction : .decimal ∈ action.changed) (operand : Operand) :
    (r.perform action operand).Alongside (Performance.UpToDecimal True)
      ((r.setStatus p).perform action operand) := by
  rcases Action.of_decimal_mem_changed haction with ⟨value, rfl⟩ | rfl | rfl
  · have hsettled : (r.status.assign .decimal value).UpToDecimal True (p.assign .decimal value) :=
      (h.assign .decimal value).mono fun _ => .inr rfl
    exact .done (.sequential ⟨_, rfl, hsettled⟩)
  · exact .ask fun bits => .ask fun _ => .ask fun _ => .done (.jump ⟨.ofStack bits, rfl, .refl _ _⟩)
  · exact .ask fun bits => .done (.sequential ⟨.ofStack bits, rfl, .refl _ _⟩)

/-- An instruction does the same with either value of Decimal, if it does not push it. -/
theorem alongside_execute (h : r.status.UpToDecimal settled p) {i : Instruction}
    (hi : i.mnemonic ∉ Mnemonic.pushingStatus) :
    (r.execute i).Alongside (UpToDecimal (settled ∨ i.mnemonic ∈ Flag.decimal.changers))
      ((r.setStatus p).execute i) := by
  have haction : i.mnemonic.action.looksAtDecimal = false :=
    Bool.eq_false_iff.mpr (mt i.mnemonic.looksAtDecimal_action.mp hi)
  have hperform (operand : Operand) : (r.perform i.mnemonic.action operand).Alongside
      (Performance.UpToDecimal (settled ∨ i.mnemonic ∈ Flag.decimal.changers))
      ((r.setStatus p).perform i.mnemonic.action operand) := by
    by_cases hchanger : i.mnemonic ∈ Flag.decimal.changers
    · rw [eq_true hchanger, or_true]
      exact alongside_perform_of_changed h ((Action.mem_changed_iff _ _).mpr hchanger) operand
    · rw [eq_false hchanger, or_false]
      exact alongside_perform h haction operand
  unfold execute
  rw [resolve_setStatus]
  refine .after _ fun resolution => (hperform resolution.operand).bind fun done done' hdone => ?_
  obtain ⟨⟨q, hregs, hq⟩, hjumped, hpenalty⟩ := hdone
  rw [← hjumped, ← hpenalty, hregs]
  refine .done ⟨q, ?_, ?_⟩ <;> cases done.jumped <;> first | rfl | exact hq

end Registers

/-! ## Steps -/

namespace Cpu

variable {β : Type} [Bus β] {settled : Prop} {tracing : Bool} {c d : Cpu β}

/-- The same processor on the same bus, but for the flags that do not count. -/
def UpToDecimal (settled : Prop) (c d : Cpu β) : Prop :=
  ∃ p, d = c.setStatus p ∧ c.regs.status.UpToDecimal settled p

/-- The next instruction is one of these. -/
def Meets (tracing : Bool) (c : Cpu β) (mnemonics : List Mnemonic) : Prop :=
  ∃ i ∈ decode (c.aboutToFetch tracing).fetch.1, i.mnemonic ∈ mnemonics

instance (c : Cpu β) (mnemonics : List Mnemonic) : Decidable (c.Meets tracing mnemonics) :=
  inferInstanceAs (Decidable (∃ i ∈ decode _, _))

/-- The next step pushes no copy of the status register: no interrupt is due, and the instruction is
another one than PHP and BRK. -/
def PushesNoStatus (tracing : Bool) (c : Cpu β) : Prop :=
  c.dueInterrupt = none ∧ ¬ c.Meets tracing Mnemonic.pushingStatus

instance (c : Cpu β) : Decidable (c.PushesNoStatus tracing) := inferInstanceAs (Decidable (_ ∧ _))

section Same

omit [Bus β]

theorem UpToDecimal.mono {settled' : Prop} (h : UpToDecimal settled c d)
    (hle : settled' → settled) : UpToDecimal settled' c d := by
  obtain ⟨p, hd, hp⟩ := h
  exact ⟨p, hd, hp.mono hle⟩

theorem UpToDecimal.bus (h : UpToDecimal settled c d) : c.bus = d.bus := by
  obtain ⟨p, rfl, -⟩ := h
  rfl

theorem UpToDecimal.haltRequested (h : UpToDecimal settled c d) :
    c.haltRequested = d.haltRequested := by
  obtain ⟨p, rfl, -⟩ := h
  rfl

theorem UpToDecimal.get (h : UpToDecimal settled c d) {flag : Flag}
    (hflag : flag = .decimal → settled) :
    c.regs.status.get flag = d.regs.status.get flag := by
  obtain ⟨p, rfl, hp⟩ := h
  exact hp flag hflag

theorem UpToDecimal.setState (h : UpToDecimal settled c d) (state : RunState) :
    UpToDecimal settled (c.setState state) (d.setState state) := by
  obtain ⟨p, rfl, hp⟩ := h
  exact ⟨p, rfl, hp⟩

theorem UpToDecimal.requestHalt (h : UpToDecimal settled c d) :
    UpToDecimal settled c.requestHalt d.requestHalt := by
  obtain ⟨p, rfl, hp⟩ := h
  exact ⟨p, rfl, hp⟩

theorem UpToDecimal.resume (h : UpToDecimal settled c d) :
    UpToDecimal settled c.resume d.resume := by
  obtain ⟨p, rfl, hp⟩ := h
  exact ⟨p, rfl, hp⟩

end Same

omit [Bus β] in
theorem dueInterrupt_upToDecimal {p : Status} (h : c.regs.status.UpToDecimal settled p) :
    (c.setStatus p).dueInterrupt = c.dueInterrupt := by
  have hmask : p.get .interruptDisable = c.regs.status.get .interruptDisable :=
    (h.get (by decide)).symm
  simp only [dueInterrupt, setStatus, hmask]

/-- Two conversations alongside each other have the same effect on the processor. -/
theorem converse_alongside {α γ : Type} {Q : α → γ → Prop} {t : Conversation α}
    {u : Conversation γ} (h : t.Alongside Q u) (c : Cpu β) (p : Status) :
    Q (c.converse t).1 ((c.setStatus p).converse u).1 ∧
      ((c.setStatus p).converse u).2 = (c.converse t).2.setStatus p := by
  obtain ⟨hvalue, hbus, hhalt⟩ := h.reply c.bus
  refine ⟨hvalue, ?_⟩
  simp only [converse, transact, setStatus, hbus, hhalt]

/-- Trace lines print the flags, but what they ask for is the same. -/
theorem aboutToFetch_setStatus {p : Status} (h : c.regs.status.UpToDecimal settled p)
    (hidle : c.dueInterrupt = none) :
    (c.setStatus p).aboutToFetch tracing = (c.aboutToFetch tracing).setStatus p := by
  have hline : (c.regs.trace tracing).Alongside (fun _ _ => True)
      ((c.regs.setStatus p).trace tracing) := by
    cases tracing with
    | false => exact .done trivial
    | true => exact .after _ fun entry => .after _ fun bytes => .done trivial
  rw [aboutToFetch, aboutToFetch, pollInterrupts_of_idle hidle,
    pollInterrupts_of_idle ((dueInterrupt_upToDecimal h).trans hidle), traceEvents_eq,
    traceEvents_eq]
  exact (converse_alongside hline c p).2

theorem settle_upToDecimal {t u : Conversation Registers}
    (h : t.Alongside (Registers.UpToDecimal settled) u) (c : Cpu β) (p : Status) :
    UpToDecimal settled (c.settle t) ((c.setStatus p).settle u) := by
  obtain ⟨⟨q, hregs, hq⟩, hcpu⟩ := converse_alongside h c p
  refine ⟨q, ?_, hq⟩
  rw [settle, hcpu, hregs]
  rfl

theorem executeNext_upToDecimal {p : Status} (h : c.regs.status.UpToDecimal settled p)
    (hpushes : ∀ i, decode c.fetch.1 = some i → i.mnemonic ∉ Mnemonic.pushingStatus) :
    c.executeNext.result = (c.setStatus p).executeNext.result ∧
      UpToDecimal (settled ∨ ∃ i, decode c.fetch.1 = some i ∧ i.mnemonic ∈ Flag.decimal.changers)
        c.executeNext.cpu (c.setStatus p).executeNext.cpu := by
  have hfetch : (c.setStatus p).fetch = (c.fetch.1, c.fetch.2.setStatus p) := rfl
  cases hdecode : decode c.fetch.1 with
  | some i =>
    have hsettle := settle_upToDecimal (Registers.alongside_execute (r := c.fetch.2.regs) h
      (hpushes i hdecode)) (c.fetch.2.setState .executing) p
    simp only [executeNext, hfetch, hdecode, execute_eq]
    refine ⟨trivial, (hsettle.setState .fetching).mono (Or.imp_right ?_)⟩
    rintro ⟨_, hsome, hchanger⟩
    rwa [Option.some.inj hsome]
  | none =>
    have hundefined : UpToDecimal settled c.executeNext.cpu (c.setStatus p).executeNext.cpu ∧
        c.executeNext.result = (c.setStatus p).executeNext.result := by
      obtain ⟨bus, regs, state, policy, requested, latched, line⟩ := c
      simp only [executeNext, hfetch, hdecode, meetUndefined]
      cases policy <;> exact ⟨⟨p, rfl, h⟩, rfl⟩
    refine ⟨hundefined.2, hundefined.1.mono fun hsettled => hsettled.resolve_right ?_⟩
    rintro ⟨_, hsome, -⟩
    cases hsome

/-- A step does the same with either value of Decimal, if it pushes no copy of it. -/
theorem UpToDecimal.step (h : UpToDecimal settled c d)
    (hpushes : c.refuses = false → c.PushesNoStatus tracing) :
    (c.step tracing).result = (d.step tracing).result ∧
      UpToDecimal (settled ∨ c.refuses = false ∧ c.Meets tracing Flag.decimal.changers)
        (c.step tracing).cpu (d.step tracing).cpu := by
  obtain ⟨p, rfl, hp⟩ := h
  cases hrefuses : c.refuses with
  | true =>
    have hrefuses' : (c.setStatus p).refuses = true := hrefuses
    rw [step_of_refuses tracing hrefuses, step_of_refuses tracing hrefuses']
    refine ⟨rfl, UpToDecimal.setState ⟨p, rfl, hp.mono fun hsettled => hsettled.resolve_right ?_⟩ _⟩
    rintro ⟨haccepted, -⟩
    cases haccepted
  | false =>
    have hrefuses' : (c.setStatus p).refuses = false := hrefuses
    obtain ⟨hidle, hinstruction⟩ := hpushes hrefuses
    have hready : (c.aboutToFetch tracing).regs = c.regs := by
      rw [aboutToFetch, traceEvents_eq, regs_converse, pollInterrupts_of_idle hidle]
    have hnext := executeNext_upToDecimal (c := c.aboutToFetch tracing) (hready ▸ hp)
      fun i hdecode hmem => hinstruction ⟨i, hdecode, hmem⟩
    rw [← aboutToFetch_setStatus hp hidle] at hnext
    obtain ⟨hresult, hcpu⟩ := step_eq_executeNext tracing hrefuses
    obtain ⟨hresult', hcpu'⟩ := step_eq_executeNext tracing hrefuses'
    rw [hresult, hresult', hcpu, hcpu']
    exact ⟨hnext.1, hnext.2.mono (Or.imp_right And.right)⟩

end Cpu

/-! ## Histories -/

variable {σ β : Type} [Bus β] {tracing : Bool} {settled : Prop}

/-- A step that is not refused, and executes an instruction that gives Decimal a value. -/
def Moment.SettlesDecimal (tracing : Bool) (m : Moment β) : Prop :=
  m.Steps ∧ m.before.Meets tracing Flag.decimal.changers

/-- No step pushes a copy of the status register. -/
def NoStatusPushed (tracing : Bool) (moments : List (Moment β)) : Prop :=
  ∀ m ∈ moments, m.Steps → m.before.PushesNoStatus tracing

/-- A watcher who does not look at Decimal. -/
def Watcher.IgnoresDecimal (w : Watcher σ β) : Prop :=
  ∀ s c d, Cpu.UpToDecimal False c d → w.observe s c = w.observe s d

/-- An operation whose judge, if it has one, does not look at Decimal. -/
def Operation.IgnoresDecimal : Operation β → Prop
  | .runUntil _ judge => ∀ asked c d, Cpu.UpToDecimal False c d → judge asked c = judge asked d
  | _ => True

/-- Two histories go the same way. At every moment the same operation is carried out on processors
that are the same up to Decimal, which counts from the first moment on that settles it. The
processors `c` and `d` are left. -/
inductive Abreast (tracing : Bool) :
    (settled : Prop) → List (Moment β) → List (Moment β) → Cpu β → Cpu β → Prop
  | finish {settled : Prop} {c d : Cpu β} (h : c.UpToDecimal settled d) :
      Abreast tracing settled [] [] c d
  | moment {settled : Prop} {m m' : Moment β} {rest rest' : List (Moment β)} {c d : Cpu β}
      (hbefore : m.before.UpToDecimal settled m'.before) (hoperation : m.operation = m'.operation)
      (hrest : Abreast tracing (settled ∨ m.SettlesDecimal tracing) rest rest' c d) :
      Abreast tracing settled (m :: rest) (m' :: rest') c d

namespace Abreast

variable {moments moments' : List (Moment β)} {c d : Cpu β}

theorem append {more more' : List (Moment β)} {e f : Cpu β}
    (h : Abreast tracing settled moments moments' c d)
    (hmore : ∀ {settled : Prop}, c.UpToDecimal settled d →
      Abreast tracing settled more more' e f) :
    Abreast tracing settled (moments ++ more) (moments' ++ more') e f := by
  induction h with
  | finish h => exact hmore h
  | moment hbefore hoperation _ ih => exact .moment hbefore hoperation (ih hmore)

/-- In the end Decimal counts if any moment has settled it. -/
theorem last (h : Abreast tracing settled moments moments' c d) :
    c.UpToDecimal (settled ∨ ∃ m ∈ moments, m.SettlesDecimal tracing) d := by
  induction h with
  | finish h => exact h.mono fun hsettled => hsettled.resolve_right (by simp)
  | moment _ _ _ ih =>
    refine ih.mono ?_
    simp only [List.mem_cons, exists_eq_or_imp, or_assoc]
    exact id

theorem operations (h : Abreast tracing settled moments moments' c d) :
    moments.map Moment.operation = moments'.map Moment.operation := by
  induction h with
  | finish => rfl
  | moment _ hoperation _ ih => rw [List.map_cons, List.map_cons, hoperation, ih]

/-- A moment of the one history has its counterpart in the other. -/
theorem exists_counterpart {earlier later : List (Moment β)} {m : Moment β}
    (h : Abreast tracing settled (earlier ++ m :: later) moments' c d) :
    ∃ earlier' m' later', moments' = earlier' ++ m' :: later' ∧
      earlier.length = earlier'.length ∧
      m.before.UpToDecimal (settled ∨ ∃ x ∈ earlier, x.SettlesDecimal tracing) m'.before := by
  induction earlier generalizing settled moments' with
  | nil =>
    cases h with
    | @moment _ _ m' _ rest' _ _ hbefore _ _ =>
      exact ⟨[], m', rest', rfl, rfl, hbefore.mono fun hsettled => hsettled.resolve_right (by simp)⟩
  | cons x earlier ih =>
    cases h with
    | @moment _ _ x' _ rest' _ _ _ _ hrest =>
      obtain ⟨earlier', m', later', rfl, hlength, hbefore⟩ := ih hrest
      refine ⟨x' :: earlier', m', later', rfl, congrArg (· + 1) hlength, hbefore.mono ?_⟩
      simp only [List.mem_cons, exists_eq_or_imp, or_assoc]
      exact id

/-- A single step. -/
theorem step (h : c.UpToDecimal settled d) (hpushes : NoStatusPushed tracing [⟨c, .step⟩]) :
    Abreast tracing settled [⟨c, .step⟩] [⟨d, .step⟩] (c.step tracing).cpu
      (d.step tracing).cpu := by
  have hstep := h.step fun haccepted => hpushes ⟨c, .step⟩ List.mem_cons_self ⟨rfl, haccepted⟩
  refine .moment h rfl (.finish (hstep.2.mono (Or.imp_right ?_)))
  rintro ⟨⟨-, haccepted⟩, hmeets⟩
  exact ⟨haccepted, hmeets⟩

/-- A single operation that is no step. -/
theorem single {o : Operation β} (ho : o ≠ .step) (h : c.UpToDecimal settled d)
    (hcpu : (o.apply tracing c).cpu.UpToDecimal settled (o.apply tracing d).cpu) :
    Abreast tracing settled [⟨c, o⟩] [⟨d, o⟩] (o.apply tracing c).cpu (o.apply tracing d).cpu := by
  refine .moment h rfl (.finish (hcpu.mono fun hsettled => hsettled.resolve_right ?_))
  rintro ⟨⟨hstep, -⟩, -⟩
  exact ho hstep

theorem requestHalt (h : c.UpToDecimal settled d) :
    Abreast tracing settled [⟨c, .requestHalt⟩] [⟨d, .requestHalt⟩] c.requestHalt
      d.requestHalt := by
  have hother : (.requestHalt : Operation β) ≠ .step := by simp
  exact .single hother h h.requestHalt

theorem halt (h : c.UpToDecimal settled d) :
    Abreast tracing settled [⟨c, .halt⟩] [⟨d, .halt⟩] c.halt d.halt := by
  have hother : (.halt : Operation β) ≠ .step := by simp
  exact .single hother h (h.requestHalt.setState .halted)

/-- The last round of a run. -/
theorem runEnd {w : Watcher σ β} (hw : w.IgnoresDecimal) (h : c.UpToDecimal settled d)
    {executed rounds : Nat} {s t : σ} {result : RunResult} {e : Cpu β}
    (hend : Cpu.RunEnd tracing w executed s c result e t)
    (hpushes : NoStatusPushed tracing
      (Operation.moments tracing c (Operation.unrollRun tracing w (rounds + 1) s c))) :
    ∃ e', Cpu.RunEnd tracing w executed s d result e' t ∧ Abreast tracing settled
      (Operation.moments tracing c (Operation.unrollRun tracing w (rounds + 1) s c))
      (Operation.moments tracing d (Operation.unrollRun tracing w (rounds + 1) s d)) e e' := by
  have hobserve : w.observe s c = w.observe s d := hw s c d (h.mono False.elim)
  have hfields : c.haltRequested = d.haltRequested := h.haltRequested
  cases hend with
  | requested hrequested =>
    have hrequested' : d.haltRequested = true := hfields ▸ hrequested
    have hhalt (e : Cpu β) (he : e.haltRequested = true) : e.halt = e.setState .halted := by
      simp only [Cpu.halt, Cpu.requestHalt, Cpu.setState, he]
    simp only [Operation.unrollRun, hrequested, hrequested', if_true]
    refine ⟨_, .requested hrequested', ?_⟩
    rw [← hhalt c hrequested, ← hhalt d hrequested']
    exact .halt h
  | stopped hfree hstop =>
    have hfree' : d.haltRequested = false := hfields ▸ hfree
    rw [hobserve] at hstop ⊢
    refine ⟨_, .stopped hfree' hstop, ?_⟩
    rcases hverdict : w.observe s d with ⟨⟨stop, ask⟩, next⟩
    rw [hverdict] at hobserve hstop
    cases hstop
    simp only [Operation.unrollRun, hfree, hfree', hobserve, hverdict]
    cases ask with
    | false => exact .finish h
    | true => exact .requestHalt h
  | asked hfree hask =>
    have hfree' : d.haltRequested = false := hfields ▸ hfree
    rw [hobserve] at hask ⊢
    refine ⟨_, .asked hfree' hask, ?_⟩
    rcases hverdict : w.observe s d with ⟨verdict, next⟩
    rw [hverdict] at hobserve hask
    cases hask
    simp only [Operation.unrollRun, hfree, hfree', hobserve, hverdict]
    refine (Abreast.requestHalt h).append fun hafter => ?_
    -- the step is refused, because the watcher has asked to halt just before
    have hhalt (e : Cpu β) : (e.requestHalt.step tracing).cpu = e.halt := by
      rw [Cpu.step_of_refuses tracing rfl]
      rfl
    rw [← hhalt c, ← hhalt d]
    refine step hafter (List.forall_mem_singleton.mpr ?_)
    rintro ⟨-, haccepted⟩
    cases haccepted
  | failed hfree hgo hfault =>
    rw [Operation.unrollRun_go hfree hgo, hfault] at hpushes ⊢
    have hstep := h.step fun haccepted => hpushes ⟨c, .step⟩ List.mem_cons_self ⟨rfl, haccepted⟩
    have hfault' := hstep.1.symm.trans hfault
    rw [Operation.unrollRun_go (hfields ▸ hfree) (hobserve ▸ hgo), hfault', hobserve]
    exact ⟨_, .failed (hfields ▸ hfree) (hobserve ▸ hgo) hfault', .step h hpushes⟩

/-- A run, whatever it has executed before. -/
theorem continueUntil {w : Watcher σ β} (hw : w.IgnoresDecimal) (h : c.UpToDecimal settled d)
    {rounds : Nat} (executed : Nat) {s : σ} (events events' : Array Event)
    (hpushes : NoStatusPushed tracing
      (Operation.moments tracing c (Operation.unrollRun tracing w rounds s c))) :
    let report := c.continueUntil tracing w rounds executed s events
    let report' := d.continueUntil tracing w rounds executed s events'
    report.result = report'.result ∧ report.watcher = report'.watcher ∧ Abreast tracing settled
      (Operation.moments tracing c (Operation.unrollRun tracing w rounds s c))
      (Operation.moments tracing d (Operation.unrollRun tracing w rounds s d))
      report.cpu report'.cpu := by
  induction rounds generalizing settled executed s events events' c d with
  | zero => exact ⟨rfl, rfl, .finish h⟩
  | succ rounds ih =>
    intro report report'
    rcases Cpu.round_or_end tracing w executed s c with ⟨hfree, hgo, hok⟩ | ⟨result, e, t, hend⟩
    · have hobserve : w.observe s c = w.observe s d := hw s c d (h.mono False.elim)
      have hfree' : d.haltRequested = false := h.haltRequested.symm.trans hfree
      rw [Operation.unrollRun_go hfree hgo, hok, Operation.moments, NoStatusPushed,
        List.forall_mem_cons] at hpushes
      obtain ⟨hfirst, hrest⟩ := hpushes
      have hstep := Abreast.step h (List.forall_mem_singleton.mpr hfirst)
      have hok' := (h.step fun haccepted => hfirst ⟨rfl, haccepted⟩).1.symm.trans hok
      have hround := Cpu.continueUntil_round hfree hgo hok rounds executed events
      have hround' := Cpu.continueUntil_round hfree' (hobserve ▸ hgo) hok' rounds executed events'
      simp only [report, report', hround, hround', ← hobserve]
      rw [Operation.unrollRun_go hfree hgo, hok, Operation.unrollRun_go hfree' (hobserve ▸ hgo),
        hok', ← hobserve]
      obtain ⟨hresult, hwatcher, -⟩ := ih hstep.last (executed + 1)
        (events ++ (c.step tracing).events) (events' ++ (d.step tracing).events) hrest
      exact ⟨hresult, hwatcher, hstep.append fun hafter => (ih hafter _ _ _ hrest).2.2⟩
    · obtain ⟨e', hend', habreast⟩ := runEnd hw h hend hpushes
      obtain ⟨_, hreport⟩ := Cpu.continueUntil_end hend events
      obtain ⟨_, hreport'⟩ := Cpu.continueUntil_end hend' events'
      simp only [report, report', hreport, hreport']
      exact ⟨trivial, trivial, habreast⟩

/-- A run is answered alike. -/
theorem ofRun {w : Watcher Nat β} (hw : w.IgnoresDecimal) (h : c.UpToDecimal settled d)
    {rounds : Nat} (hpushes : NoStatusPushed tracing
      (Operation.moments tracing c (Operation.unrollRun tracing w rounds 0 c))) :
    let report := OperationReport.ofRun (c.runUntil tracing rounds w 0)
    let report' := OperationReport.ofRun (d.runUntil tracing rounds w 0)
    report.answer = report'.answer ∧ Abreast tracing settled
      (Operation.moments tracing c (Operation.unrollRun tracing w rounds 0 c))
      (Operation.moments tracing d (Operation.unrollRun tracing w rounds 0 d))
      report.cpu report'.cpu := by
  intro report report'
  obtain ⟨hresult, hasked, habreast⟩ := continueUntil hw h 0 #[] #[] hpushes
  refine ⟨?_, habreast⟩
  show Answer.ran _ _ = Answer.ran _ _
  simp only [Cpu.runUntil, hresult, hasked]

/-- An operation is answered alike. -/
theorem apply {o : Operation β} (hpaces : o.Paces) (ho : o.IgnoresDecimal)
    (h : c.UpToDecimal settled d)
    (hpushes : NoStatusPushed tracing (Operation.moments tracing c (o.unroll tracing c))) :
    (o.apply tracing c).answer = (o.apply tracing d).answer ∧ Abreast tracing settled
      (Operation.moments tracing c (o.unroll tracing c))
      (Operation.moments tracing d (o.unroll tracing d))
      (o.apply tracing c).cpu (o.apply tracing d).cpu := by
  cases o with
  | step =>
    have hstep := h.step fun haccepted => hpushes ⟨c, .step⟩ List.mem_cons_self ⟨rfl, haccepted⟩
    exact ⟨congrArg OperationReport.answerOf hstep.1, .step h hpushes⟩
  | runUntil rounds judge =>
    have hw : (Watcher.counting judge).IgnoresDecimal := by
      intro asked c d hsame
      show (judge asked c, asked + 1) = (judge asked d, asked + 1)
      rw [ho asked c d hsame]
    exact ofRun hw h hpushes
  | runFor limit => exact ofRun (fun _ _ _ _ => rfl) h hpushes
  | run rounds => exact ofRun (fun _ _ _ _ => rfl) h hpushes
  | halt => exact ⟨rfl, .halt h⟩
  | requestHalt => exact ⟨rfl, .requestHalt h⟩
  | resume => exact ⟨rfl, .single nofun h h.resume⟩
  | _ => exact hpaces.elim

/-- Operations are answered alike, one after the other. -/
theorem history {operations : List (Operation β)}
    (hoperations : ∀ o ∈ operations, o.Paces ∧ o.IgnoresDecimal) (h : c.UpToDecimal settled d)
    (hpushes : NoStatusPushed tracing (Operation.history tracing c operations)) :
    (Operation.applyAll tracing c operations).1 = (Operation.applyAll tracing d operations).1 ∧
      Abreast tracing settled (Operation.history tracing c operations)
        (Operation.history tracing d operations) (Operation.applyAll tracing c operations).2
        (Operation.applyAll tracing d operations).2 := by
  induction operations generalizing settled c d with
  | nil => exact ⟨rfl, .finish h⟩
  | cons o rest ih =>
    rw [Operation.history, NoStatusPushed, List.forall_mem_append] at hpushes
    rw [List.forall_mem_cons] at hoperations
    obtain ⟨hfirst, hrest⟩ := hoperations
    obtain ⟨hanswer, habreast⟩ := apply hfirst.1 hfirst.2 h hpushes.1
    obtain ⟨hanswers, -⟩ := ih hrest habreast.last hpushes.2
    simp only [Operation.applyAll, hanswer, hanswers]
    exact ⟨trivial, habreast.append fun hafter => (ih hrest hafter hpushes.2).2⟩

end Abreast

/-- The Decimal flag has no effect. Take two processors with the same registers, on the same bus and
with the same lines and settings, but for Decimal, and let a host make them run: step by step, or
until a judge who does not look at Decimal stops them, with whatever bound. As long as no step takes
an interrupt or executes PHP or BRK, the two give the same answers and carry out the same single
operations. Before each of these and after the last one they are the same processor but for
Decimal, on the same bus, so if the bus keeps a record, its accesses were the same. From the first
CLD, SED, PLP or RTI on, Decimal is the same too. -/
theorem decimal_unobserved (tracing : Bool) {c d : Cpu β} (hsame : c.UpToDecimal False d)
    {operations : List (Operation β)}
    (hoperations : ∀ o ∈ operations, o.Paces ∧ o.IgnoresDecimal)
    (hpushes : NoStatusPushed tracing (Operation.history tracing c operations)) :
    let history := Operation.history tracing c operations
    let history' := Operation.history tracing d operations
    let run := Operation.applyAll tracing c operations
    let run' := Operation.applyAll tracing d operations
    run.1 = run'.1 ∧ history.map Moment.operation = history'.map Moment.operation ∧
      (∀ earlier m later, history = earlier ++ m :: later →
        ∃ earlier' m' later', history' = earlier' ++ m' :: later' ∧
          earlier.length = earlier'.length ∧
          m.before.UpToDecimal (∃ x ∈ earlier, x.SettlesDecimal tracing) m'.before) ∧
      run.2.UpToDecimal (∃ x ∈ history, x.SettlesDecimal tracing) run'.2 := by
  intro history history' run run'
  obtain ⟨hanswers, habreast⟩ := Abreast.history hoperations hsame hpushes
  refine ⟨hanswers, habreast.operations, fun earlier m later heq => ?_, habreast.last.mono .inr⟩
  rw [show Operation.history tracing c operations = _ from heq] at habreast
  obtain ⟨earlier', m', later', hmoments, hlength, hbefore⟩ := habreast.exists_counterpart
  exact ⟨earlier', m', later', hmoments, hlength, hbefore.mono .inr⟩

/-- A program that adds, pushes the sum and clears Decimal. -/
def addingRam : Ram := Ram.zeroed.load 0x0000 [0xA9, 0x09, 0x69, 0x01, 0x48, 0xD8]

/-- With Decimal set the sum is the same, and so is what is asked of memory. -/
theorem decimal_unobserved_adding :
    let c := (Cpu.powerOn (⟨addingRam, []⟩ : Recorded Ram) .halt).reset
    let d := c.setStatus (c.regs.status.set .decimal)
    let operations := [.step, .step, .step, .step]
    let run := Operation.applyAll false c operations
    let run' := Operation.applyAll false d operations
    c.UpToDecimal False d ∧ c.regs.status.get .decimal ≠ d.regs.status.get .decimal ∧
      run.1 = run'.1 ∧ run.2.regs.a = 0x0A ∧ run.2.bus.accesses = run'.2.bus.accesses ∧
      run.2.regs.status.get .decimal = run'.2.regs.status.get .decimal := by
  intro c d operations run run'
  have hsame : c.UpToDecimal False d :=
    ⟨_, rfl, fun flag hflag => (Status.get_set_of_ne _ hflag).symm⟩
  have hhistory : Operation.history false c operations = [⟨c, .step⟩,
      ⟨c.afterSteps false 1, .step⟩, ⟨c.afterSteps false 2, .step⟩,
      ⟨c.afterSteps false 3, .step⟩] := rfl
  have hpushes : NoStatusPushed false (Operation.history false c operations) := by
    have hsteps : ∀ k < 4, (c.afterSteps false k).PushesNoStatus false := by decide +kernel
    rw [hhistory]
    simp only [NoStatusPushed, List.forall_mem_cons]
    exact ⟨fun _ => hsteps 0 (by decide), fun _ => hsteps 1 (by decide),
      fun _ => hsteps 2 (by decide), fun _ => hsteps 3 (by decide),
      fun _ hnil => absurd hnil List.not_mem_nil⟩
  have hoperations : ∀ o ∈ operations, o.Paces ∧ o.IgnoresDecimal := by
    simp [operations, Operation.Paces, Operation.IgnoresDecimal]
  obtain ⟨hanswers, -, -, hlast⟩ := decimal_unobserved false hsame hoperations hpushes
  have hsettles : ∃ x ∈ Operation.history false c operations, x.SettlesDecimal false :=
    ⟨⟨c.afterSteps false 3, .step⟩, by simp [hhistory], ⟨rfl, by decide +kernel⟩, by decide +kernel⟩
  exact ⟨hsame, by decide +kernel, hanswers, by decide +kernel,
    congrArg Recorded.accesses hlast.bus, hlast.get fun _ => hsettles⟩

end Nes6502
