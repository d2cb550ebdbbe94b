import Nes6502.Proofs.Cycles
import Nes6502.Proofs.Reachable
import Nes6502.Proofs.Service

/-!
# The interrupt mask

The interrupt line is heard only while the mask is clear, and a handler starts with the mask set.
What clears the mask is the business of the program alone: three instructions can do it, and nothing
that a host does. So the line is not heard again before the program says so, and as long as it does
not say so, nobody can tell how the line is driven.

## What is proved

* `Registers.masked_perform`: every action keeps the mask set, unless it assigns to the mask or
  pulls the status register from the stack.
* `Course.masked`: between two moments with the mask set and clear lies one of the three
  instructions.
* `Cpu.continueUntil_setIrq`, `Operation.applyAll_setIrq`: while the mask is set, the line makes no
  difference.
* `irq_gated`: when the line is heard, and what follows from that for runs and for pairs of runs.
-/

set_option autoImplicit false

namespace Nes6502

variable {σ β : Type} [Bus β]

/-! ## Instructions -/

/-- The interrupt mask is set. -/
def Registers.Masked (r : Registers) : Prop := r.status.get .interruptDisable = true

/-- Whether an action can clear the mask. -/
def Action.unmasks : Action → Bool
  | .assign .interruptDisable value => !value
  | .returnFromInterrupt | .pullStatus => true
  | _ => false

/-- The instructions that can clear the mask. -/
def Mnemonic.unmasking : List Mnemonic := [.cli, .plp, .rti]

theorem Mnemonic.unmasks_action (mnemonic : Mnemonic) :
    mnemonic.action.unmasks = true ↔ mnemonic ∈ unmasking := by
  cases mnemonic <;> decide

namespace Registers

theorem masked_perform {r : Registers} (h : r.Masked) {action : Action}
    (haction : action.unmasks = false) (operand : Operand) :
    (r.perform action operand).Ensures fun done => done.regs.Masked := by
  refine status_perform (Status.unaffected_get rfl true) h ?_ ?_ ?_ operand
  · intro flag value hassign
    by_cases hflag : flag = .interruptDisable
    · subst hflag
      rw [hassign] at haction
      have hvalue : value = true := by simpa [Action.unmasks] using haction
      rw [hvalue]
      exact r.status.get_set
    · rwa [r.status.get_assign_of_ne (Ne.symm hflag)]
  · exact fun _ => r.status.get_set
  · rintro (hpull | hpull) <;> simp [hpull, Action.unmasks] at haction

/-- A software interrupt sets the mask like any other. -/
theorem masked_softwareInterrupt (r : Registers) (operand : Operand) :
    (r.perform .softwareInterrupt operand).Ensures fun done => done.regs.Masked :=
  ((r.setPc _).masked_enterHandler .brk).bind fun _ hafter => hafter

end Registers

namespace Cpu

theorem masked_execute {c : Cpu β} {i : Instruction}
    (h : i.mnemonic = .brk ∨ c.regs.Masked ∧ i.mnemonic ∉ Mnemonic.unmasking) :
    (c.execute i).regs.Masked := by
  have hkeeps : (c.regs.execute i).Ensures fun after => after.Masked := by
    refine Registers.status_execute (P := fun p => p.get .interruptDisable = true) fun operand => ?_
    rcases h with hbrk | ⟨hmasked, hmnemonic⟩
    · rw [hbrk]
      exact c.regs.masked_softwareInterrupt operand
    · rw [← i.mnemonic.unmasks_action, Bool.not_eq_true] at hmnemonic
      exact Registers.masked_perform hmasked hmnemonic operand
  rw [execute_eq]
  exact hkeeps.value c.bus

theorem masked_executeNext {c : Cpu β} (h : c.regs.Masked)
    (hkeeps : ∀ i, decode c.fetch.1 = some i → i.mnemonic ∉ Mnemonic.unmasking) :
    c.executeNext.cpu.regs.Masked := by
  cases hdecode : decode c.fetch.1 with
  | some i =>
    rw [(executeNext_of_decode hdecode).2]
    exact masked_execute (.inr ⟨h, hkeeps i hdecode⟩)
  | none =>
    simp only [executeNext, hdecode]
    unfold meetUndefined
    split <;> exact h

/-! ## Operations -/

/-- When the opcode is fetched, the mask is set if it was set before, and if an interrupt has been
serviced. -/
theorem masked_aboutToFetch (tracing : Bool) {c : Cpu β}
    (h : c.regs.Masked ∨ c.dueInterrupt ≠ none) : (c.aboutToFetch tracing).regs.Masked := by
  rw [aboutToFetch, traceEvents_eq, regs_converse, pollInterrupts_eq]
  cases hdue : c.dueInterrupt with
  | none =>
    rcases h with hmasked | hsome
    · exact hmasked
    · exact absurd hdue hsome
  | some kind => exact (c.regs.masked_enterHandler kind).value c.bus

theorem interrupt_irq_of_masked (c : Cpu β) (h : c.regs.Masked) : c.interrupt .irq = c := by
  have hmasks : c.masks .irq = true := h
  simp [interrupt, hmasks]

/-- A direct interrupt leaves the mask set, whether it is kept out or not. -/
theorem masked_interrupt (c : Cpu β) (kind : Interrupt) : (c.interrupt kind).regs.Masked := by
  rcases c.interrupt_cases kind with ⟨-, hreset⟩ | ⟨-, hmasks, hkept⟩ | ⟨-, -, hentered⟩
  · rw [hreset]
    exact (rfl : Status.powerOn.get .interruptDisable = true)
  · rw [hkept]
    simp only [masks, Bool.and_eq_true] at hmasks
    exact hmasks.2
  · rw [hentered]
    exact (c.regs.masked_enterHandler kind).value c.bus

end Cpu

/-- A step that is not refused, and executes an instruction that can clear the mask. -/
def Moment.Unmasks (tracing : Bool) (m : Moment β) : Prop :=
  m.Steps ∧ ∃ i, decode (m.before.aboutToFetch tracing).fetch.1 = some i ∧
    i.mnemonic ∈ Mnemonic.unmasking

namespace Moment

variable {tracing : Bool} {m : Moment β}

theorem due_of_serviced (h : m.serviced tracing ≠ []) : m.before.dueInterrupt ≠ none := by
  intro hnone
  obtain ⟨kind, hkind⟩ := List.exists_mem_of_ne_nil _ h
  rw [m.mem_serviced, m.before.mem_serviced] at hkind
  obtain ⟨-, -, hdue⟩ := hkind
  rw [hnone] at hdue
  cases hdue

theorem after_of_steps (hsteps : m.Steps) :
    m.after tracing = (m.before.aboutToFetch tracing).executeNext.cpu := by
  unfold Moment.after
  rw [hsteps.1, ← (Cpu.step_eq_executeNext tracing hsteps.2).2]
  rfl

/-- A software interrupt sets the mask. -/
theorem masked_of_brk {i : Instruction} (hsteps : m.Steps)
    (hdecode : decode (m.before.aboutToFetch tracing).fetch.1 = some i) (hbrk : i.mnemonic = .brk) :
    (m.after tracing).regs.Masked := by
  rw [after_of_steps hsteps, (Cpu.executeNext_of_decode hdecode).2]
  exact Cpu.masked_execute (.inl hbrk)

theorem masked_of_steps (hsteps : m.Steps) (hkeeps : ¬ m.Unmasks tracing)
    (h : (m.before.aboutToFetch tracing).regs.Masked) : (m.after tracing).regs.Masked := by
  rw [after_of_steps hsteps]
  exact Cpu.masked_executeNext h fun i hdecode hmem => hkeeps ⟨hsteps, i, hdecode, hmem⟩

/-- Only the three instructions clear the mask. -/
theorem masked_after (hsingle : m.operation.Single) (hkeeps : ¬ m.Unmasks tracing)
    (h : m.before.regs.Masked) : (m.after tracing).regs.Masked := by
  obtain ⟨c, o⟩ := m
  cases o with
  | runUntil | runFor | run => exact hsingle.elim
  | reset => exact Cpu.masked_interrupt c .reset
  | interrupt kind => exact Cpu.masked_interrupt c kind
  | step =>
    cases hrefuses : c.refuses with
    | false =>
      exact masked_of_steps ⟨rfl, hrefuses⟩ hkeeps (Cpu.masked_aboutToFetch tracing (.inl h))
    | true =>
      show (c.step tracing).cpu.regs.Masked
      rw [Cpu.step_of_refuses tracing hrefuses]
      exact h
  -- the others leave the registers alone
  | _ => exact h

end Moment

/-- If nothing clears the mask, it stays set. -/
theorem Course.masked {tracing : Bool} {c d : Cpu β} {moments : List (Moment β)}
    (h : Course tracing c moments d) (hkeeps : ∀ m ∈ moments, ¬ m.Unmasks tracing)
    (hc : c.regs.Masked) : d.regs.Masked :=
  h.invariant (I := fun c => c.regs.Masked)
    (fun m hm hsingle hmasked => m.masked_after hsingle (hkeeps m hm) hmasked) hc

theorem Course.exists_unmasks {tracing : Bool} {c d : Cpu β} {moments : List (Moment β)}
    (h : Course tracing c moments d) (hc : c.regs.Masked) (hd : ¬ d.regs.Masked) :
    ∃ m ∈ moments, m.Unmasks tracing := by
  apply Classical.byContradiction
  intro hnone
  exact hd (h.masked (fun m hm hunmasks => hnone ⟨m, hm, hunmasks⟩) hc)

/-! ## The line while the mask is set -/

namespace Cpu

omit [Bus β] in
theorem dueInterrupt_setIrq {c : Cpu β} (h : c.regs.Masked) (level : Bool) :
    (c.setIrq level).dueInterrupt = c.dueInterrupt := by
  have hmasked : c.regs.status.get .interruptDisable = true := h
  simp [dueInterrupt, setIrq, hmasked]

/-- The outcome of a step does not depend on the line, unless the line is heard. -/
theorem step_setIrq (tracing : Bool) {c : Cpu β} (h : c.refuses = false → c.regs.Masked)
    (level : Bool) :
    ((c.setIrq level).step tracing).result = (c.step tracing).result ∧
      ((c.setIrq level).step tracing).cpu = (c.step tracing).cpu.setIrq level := by
  cases hrefuses : c.refuses with
  | true =>
    have hlevel : (c.setIrq level).refuses = true := hrefuses
    rw [step_of_refuses tracing hrefuses, step_of_refuses tracing hlevel]
    exact ⟨rfl, rfl⟩
  | false =>
    have hlevel : (c.setIrq level).refuses = false := hrefuses
    obtain ⟨hresult, hcpu⟩ := step_eq tracing hrefuses
    obtain ⟨hresult', hcpu'⟩ := step_eq tracing hlevel
    rw [dueInterrupt_setIrq (h hrefuses)] at hresult' hcpu'
    have hsame : ((c.setIrq level).step tracing).result = (c.step tracing).result :=
      hresult'.trans hresult.symm
    refine ⟨hsame, ?_⟩
    rw [hcpu', hcpu, hsame]
    rfl

end Cpu

/-- A watcher who does not know how the line is driven. -/
def Watcher.IgnoresLine (w : Watcher σ β) : Prop :=
  ∀ s c level, w.observe s (c.setIrq level) = w.observe s c

/-- An operation whose judge, if it has one, does not know how the line is driven. -/
def Operation.IgnoresLine : Operation β → Prop
  | .runUntil _ judge => ∀ asked c level, judge asked (c.setIrq level) = judge asked c
  | _ => True

/-- The mask is set before every step that is not refused. -/
def MaskedThroughout (moments : List (Moment β)) : Prop :=
  ∀ m ∈ moments, m.Steps → m.before.regs.Masked

namespace Cpu

/-- The last round of a run does not depend on the line, unless the line is heard. -/
theorem RunEnd.setIrq {tracing : Bool} {w : Watcher σ β} (hw : w.IgnoresLine) {executed : Nat}
    {s t : σ} {c d : Cpu β} {result : RunResult} (hend : RunEnd tracing w executed s c result d t)
    (h : (w.observe s c).1 = ⟨false, false⟩ → c.refuses = false → c.regs.Masked) (level : Bool) :
    RunEnd tracing w executed s (c.setIrq level) result (d.setIrq level) t := by
  have hobserve := hw s c level
  cases hend with
  | requested hrequested => exact .requested hrequested
  | stopped hfree hstop =>
    have hlast : RunEnd tracing w executed s (c.setIrq level) _ _ _ :=
      .stopped hfree (hobserve ▸ hstop)
    rw [hobserve] at hlast
    rw [apply_ite fun c : Cpu β => c.setIrq level]
    exact hlast
  | asked hfree hask =>
    rw [← hobserve] at hask ⊢
    exact .asked hfree hask
  | failed hfree hgo hfault =>
    obtain ⟨hresult, hcpu⟩ := step_setIrq tracing (h hgo) level
    rw [← hobserve] at hgo ⊢
    rw [← hcpu]
    exact .failed hfree hgo (hresult.trans hfault)

/-- Runs with the mask set do not depend on the line. -/
theorem continueUntil_setIrq (tracing : Bool) {w : Watcher σ β} (hw : w.IgnoresLine)
    (level : Bool) (rounds executed : Nat) (s : σ) (events events' : Array Event) {c : Cpu β}
    (h : MaskedThroughout (Operation.moments tracing c
      (Operation.unrollRun tracing w rounds s c))) :
    let report := c.continueUntil tracing w rounds executed s events
    let report' := (c.setIrq level).continueUntil tracing w rounds executed s events'
    report'.result = report.result ∧ report'.watcher = report.watcher ∧
      report'.cpu = report.cpu.setIrq level := by
  induction rounds generalizing executed s events events' c with
  | zero => exact ⟨rfl, rfl, rfl⟩
  | succ rounds ih =>
    intro report report'
    rcases round_or_end tracing w executed s c with ⟨hfree, hgo, hok⟩ | ⟨result, d, t, hend⟩
    · rw [Operation.unrollRun_go hfree hgo, hok, Operation.moments, MaskedThroughout,
        List.forall_mem_cons] at h
      obtain ⟨hfirst, hrest⟩ := h
      obtain ⟨hresult, hcpu⟩ := step_setIrq tracing (fun hrefuses => hfirst ⟨rfl, hrefuses⟩) level
      have hround := continueUntil_round hfree hgo hok rounds executed events
      have hround' := continueUntil_round (c := c.setIrq level) hfree ((hw s c level) ▸ hgo)
        (hresult.trans hok) rounds executed events'
      simp only [report, report', hround, hround', hcpu, hw s c level]
      exact ih _ _ _ _ hrest
    · have hmasked (hgo : (w.observe s c).1 = ⟨false, false⟩) (hrefuses : c.refuses = false) :
          c.regs.Masked := by
        have hfree : c.haltRequested = false := by
          simp only [refuses, Bool.or_eq_false_iff] at hrefuses
          exact hrefuses.1
        rw [Operation.unrollRun_go hfree hgo] at h
        exact h ⟨c, .step⟩ List.mem_cons_self ⟨rfl, hrefuses⟩
      obtain ⟨_, hreport⟩ := continueUntil_end hend events
      obtain ⟨_, hreport'⟩ := continueUntil_end (hend.setIrq hw hmasked level) events'
      simp only [report, report', hreport, hreport']
      exact ⟨trivial, trivial, trivial⟩

end Cpu

namespace Operation

variable {tracing : Bool}

/-- A run answers alike and ends alike. -/
theorem ofRun_setIrq {w : Watcher Nat β} (hw : w.IgnoresLine) (level : Bool) (rounds : Nat)
    {c : Cpu β} (h : MaskedThroughout (moments tracing c (unrollRun tracing w rounds 0 c))) :
    let report := OperationReport.ofRun (c.runUntil tracing rounds w 0)
    let report' := OperationReport.ofRun ((c.setIrq level).runUntil tracing rounds w 0)
    report'.answer = report.answer ∧ ∃ last, report'.cpu = report.cpu.setIrq last := by
  intro report report'
  obtain ⟨hresult, hasked, hcpu⟩ := Cpu.continueUntil_setIrq tracing hw level rounds 0 0 #[] #[] h
  refine ⟨?_, level, hcpu⟩
  show Answer.ran _ _ = Answer.ran _ _
  simp only [Cpu.runUntil, hresult, hasked]

/-- An operation is answered alike, and leaves processors that differ at most in the line. -/
theorem apply_setIrq {o : Operation β} (ho : o.IgnoresLine) (level : Bool) {c : Cpu β}
    (h : MaskedThroughout (moments tracing c (o.unroll tracing c))) :
    (o.apply tracing (c.setIrq level)).answer = (o.apply tracing c).answer ∧
      ∃ last, (o.apply tracing (c.setIrq level)).cpu = (o.apply tracing c).cpu.setIrq last := by
  cases o with
  | reset => exact ⟨rfl, false, rfl⟩
  | setIrq asserted => exact ⟨rfl, asserted, rfl⟩
  | step =>
    obtain ⟨hresult, hcpu⟩ := Cpu.step_setIrq tracing
      (fun hrefuses => h ⟨c, .step⟩ List.mem_cons_self ⟨rfl, hrefuses⟩) level
    exact ⟨congrArg OperationReport.answerOf hresult, level, hcpu⟩
  | runUntil rounds judge =>
    have hw : (Watcher.counting judge).IgnoresLine := by
      intro asked c level
      show (judge asked (c.setIrq level), asked + 1) = (judge asked c, asked + 1)
      rw [ho asked c level]
    exact ofRun_setIrq hw level rounds h
  | runFor limit => exact ofRun_setIrq (fun _ _ _ => rfl) level (limit + 1) h
  | run rounds => exact ofRun_setIrq (fun _ _ _ => rfl) level rounds h
  | interrupt kind =>
    refine ⟨rfl, ?_⟩
    by_cases hkind : kind = .reset
    · subst hkind
      exact ⟨false, rfl⟩
    · refine ⟨level, ?_⟩
      show (c.setIrq level).interrupt kind = (c.interrupt kind).setIrq level
      have hmasks : (c.setIrq level).masks kind = c.masks kind := rfl
      simp only [Cpu.interrupt, if_neg hkind, hmasks]
      split
      · rfl
      · rw [Cpu.enterHandler_eq, Cpu.enterHandler_eq]
        rfl
  -- the others neither read the line nor drive it
  | _ => exact ⟨rfl, level, rfl⟩

/-- While the mask is set, the line makes no difference to what a host gets to see. -/
theorem applyAll_setIrq {operations : List (Operation β)} (ho : ∀ o ∈ operations, o.IgnoresLine)
    (level : Bool) {c : Cpu β} (h : MaskedThroughout (history tracing c operations)) :
    (applyAll tracing (c.setIrq level) operations).1 = (applyAll tracing c operations).1 ∧
      ∃ last, (applyAll tracing (c.setIrq level) operations).2 =
        (applyAll tracing c operations).2.setIrq last := by
  induction operations generalizing c level with
  | nil => exact ⟨rfl, level, rfl⟩
  | cons o rest ih =>
    rw [history, MaskedThroughout, List.forall_mem_append] at h
    rw [List.forall_mem_cons] at ho
    obtain ⟨hanswer, next, hcpu⟩ := apply_setIrq ho.1 level h.1
    obtain ⟨hanswers, hlast⟩ := ih ho.2 next h.2
    simp only [applyAll, hanswer, hcpu, hanswers]
    exact ⟨trivial, hlast⟩

end Operation

/-! ## The gate -/

/-- When the interrupt line is heard. In a history that starts anywhere, a step services the line
exactly if it is not refused, nothing is latched, the line is asserted and the mask is clear.
Whatever interrupt is serviced, sent directly or asked for by software, the handler begins with the
mask set. So between two services of the line the program has executed one of the three instructions
that can clear the mask, in the step of the first service at the earliest. While the mask is set
before every step, the line makes no difference: with it at the other level the same operations are
answered alike, and the processors differ in nothing but the line. With the mask set, a direct
interrupt of this kind changes nothing. -/
theorem irq_gated (tracing : Bool) (c : Cpu β) (operations : List (Operation β)) :
    let history := Operation.history tracing c operations
    (∀ m ∈ history,
        (.irq ∈ m.serviced tracing ↔ m.Steps ∧ m.before.nmiLatched = false ∧
          m.before.irqLine = true ∧ m.before.regs.status.get .interruptDisable = false) ∧
        (m.serviced tracing ≠ [] → (m.before.aboutToFetch tracing).regs.Masked) ∧
        (∀ kind, m.operation = .interrupt kind → (m.after tracing).regs.Masked) ∧
        (∀ i, m.Steps → decode (m.before.aboutToFetch tracing).fetch.1 = some i →
          i.mnemonic = .brk → (m.after tracing).regs.Masked)) ∧
      (∀ earlier m between n later, history = earlier ++ m :: (between ++ n :: later) →
        .irq ∈ m.serviced tracing → .irq ∈ n.serviced tracing →
        ∃ x ∈ m :: between, x.Unmasks tracing) ∧
      (∀ level, (∀ o ∈ operations, o.IgnoresLine) → MaskedThroughout history →
        let (answers, d) := Operation.applyAll tracing c operations
        let (answers', d') := Operation.applyAll tracing (c.setIrq level) operations
        answers' = answers ∧ ∃ last, d' = d.setIrq last) ∧
      (c.regs.Masked → c.interrupt .irq = c) := by
  intro history
  refine ⟨fun m _ => ⟨m.irq_mem_serviced tracing, ?_, ?_, ?_⟩, ?_, ?_, ?_⟩
  · exact fun hserviced => Cpu.masked_aboutToFetch tracing (.inr (m.due_of_serviced hserviced))
  · intro kind hkind
    unfold Moment.after
    rw [hkind]
    exact m.before.masked_interrupt kind
  · intro i hsteps hdecode hbrk
    exact m.masked_of_brk hsteps hdecode hbrk
  · intro earlier m between n later heq hfirst hsecond
    have hcourse : Course tracing c history _ := Operation.course_history tracing c operations
    rw [heq] at hcourse
    obtain ⟨hsteps, -⟩ := (m.irq_mem_serviced tracing).mp hfirst
    obtain ⟨-, -, -, hclear⟩ := (n.irq_mem_serviced tracing).mp hsecond
    by_cases hunmasks : m.Unmasks tracing
    · exact ⟨m, List.mem_cons_self, hunmasks⟩
    · have hready := Cpu.masked_aboutToFetch tracing
        (.inr (m.due_of_serviced (List.ne_nil_of_mem hfirst)))
      have hafter := m.masked_of_steps hsteps hunmasks hready
      have hunmasked : ¬ n.before.regs.Masked := by simp [Registers.Masked, hclear]
      obtain ⟨x, hx, hunmasks⟩ := hcourse.between.exists_unmasks hafter hunmasked
      exact ⟨x, List.mem_cons_of_mem m hx, hunmasks⟩
  · intro level ho hmasked
    exact Operation.applyAll_setIrq ho level hmasked
  · exact c.interrupt_irq_of_masked

/-- A program that lets interrupts in, and a handler at `0x0400` that does so at once. -/
def eagerRam : Ram :=
  ((Ram.zeroed.load 0x0000 [0x58]).load 0x0400 [0x58, 0xEA]).load 0xFFFE [0x00, 0x04]

/-- Before its first instruction the program cannot tell the line. After it, the line is heard again
and again, because the handler keeps clearing the mask. -/
theorem irq_gated_eager :
    let c := (Cpu.powerOn eagerRam .halt).reset
    (∃ last, (Operation.applyAll false (c.setIrq true) [.step]).2 =
      (Operation.applyAll false c [.step]).2.setIrq last) ∧
    c.interrupt .irq = c ∧
    ∃ earlier m n, Operation.history false c [.setIrq true, .step, .step, .step] =
        earlier ++ m :: ([] ++ n :: []) ∧
      .irq ∈ m.serviced false ∧ .irq ∈ n.serviced false ∧ m.Unmasks false := by
  intro c
  obtain ⟨-, -, hruns, hdirect⟩ := irq_gated false c [.step]
  obtain ⟨-, hbetween, -, -⟩ := irq_gated false c [.setIrq true, .step, .step, .step]
  have hmasked : c.regs.Masked := Cpu.masked_interrupt _ .reset
  refine ⟨?_, hdirect hmasked, ?_⟩
  · refine (hruns true (by simp [Operation.IgnoresLine]) ?_).2
    exact List.forall_mem_singleton.mpr fun _ => hmasked
  · have hhistory : Operation.history false c [.setIrq true, .step, .step, .step] =
        [_, _] ++ _ :: ([] ++ [_]) := rfl
    refine ⟨_, _, _, hhistory, ?first, ?second, ?_⟩
    case first => decide +kernel
    case second => decide +kernel
    obtain ⟨x, hx, hunmasks⟩ := hbetween _ _ _ _ _ hhistory (by decide +kernel) (by decide +kernel)
    rwa [List.mem_singleton.mp hx] at hunmasks

end Nes6502
