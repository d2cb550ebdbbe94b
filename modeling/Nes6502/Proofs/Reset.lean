import Nes6502.Bus.Recorded
import Nes6502.Memory
import Nes6502.Operation
import Nes6502.Proofs.Accesses

/-!
# Reset

A reset sets registers and lines to what they are at power-on, and leaves out two latches that a
processor has besides: it notes there, while an instruction is under way, whether indexing has left
the page and which cycles the instruction takes beyond those of the opcode matrix. `Cpu` has no such
latches, since the parts of an instruction hand their notes on as results.

`Noting` is the processor with the latches. It changes them where a chip would, and nothing but the
beginning of an instruction ever clears them, so they hold what some earlier instruction has left
there. What a host gets to see is nevertheless the same as without them.

## What is proved

* `Noting.execute_cpu`: what the latches held before an instruction has no effect on it.
* `Noting.applyAll_cpu`: a processor with latches gives the answers of the one without, and agrees
  with it after every operation.
* `reset_erases_history`: after a reset a processor is as good as new.
-/

set_option autoImplicit false

namespace Nes6502

variable {σ β : Type} [Bus β]

/-! ## A processor that keeps its notes -/

/-- What a processor notes down while an instruction is under way. -/
structure Notes where
  /-- Whether indexing has left the page of the base address. -/
  pageCrossed : Bool
  /-- Cycles beyond those of the opcode matrix. -/
  extraCycles : Nat

/-- A processor that keeps its notes from one instruction to the next. -/
structure Noting (β : Type) where
  cpu : Cpu β
  notes : Notes

/-- The modes that note whether indexing has left the page. -/
def AddressingMode.notesPage : AddressingMode → Bool
  | .absoluteX | .absoluteY | .indirectY => true
  | _ => false

namespace Noting

def powerOn (bus : β) (policy : UndefinedPolicy) : Noting β := ⟨.powerOn bus policy, ⟨false, 0⟩⟩

/-- Does something that has nothing to do with the notes. -/
def mapCpu (m : Noting β) (f : Cpu β → Cpu β) : Noting β := { m with cpu := f m.cpu }

/-- Finds an operand; three of the modes make a note. -/
def resolve (m : Noting β) (mode : AddressingMode) : Operand × Noting β :=
  let (resolution, cpu) := m.cpu.resolve mode
  let notes := if mode.notesPage then { m.notes with pageCrossed := resolution.pageCrossed }
    else m.notes
  (resolution.operand, ⟨cpu, notes⟩)

/-- Carries out an action and adds its cycles to those noted so far; tells whether it has set the
program counter. -/
def perform (m : Noting β) (action : Action) (operand : Operand) : Bool × Noting β :=
  let done := m.cpu.perform action operand
  (done.jumped, ⟨done.cpu, { m.notes with extraCycles := m.notes.extraCycles + done.penalty }⟩)

/-- Executes an instruction whose opcode has just been fetched. The notes begin empty, and the
cycles are reckoned from them at the end. -/
def execute (m : Noting β) (i : Instruction) : Noting β :=
  let m := { m with notes := ⟨false, 0⟩ }
  let (operand, m) := m.resolve i.mode
  let (jumped, m) := m.perform i.mnemonic.action operand
  let m := if jumped then m else m.mapCpu (·.advance i.mode.operandBytes)
  m.mapCpu (·.spend (i.baseCycles + m.notes.extraCycles +
    if i.pagePenalty && m.notes.pageCrossed then 1 else 0))

/-- Fetches and executes one instruction. -/
def executeNext (m : Noting β) : Except Fault Unit × Noting β :=
  let address := m.cpu.regs.pc
  let (opcode, cpu) := m.cpu.fetch
  let m := { m with cpu := cpu.setState .executing }
  match decode opcode with
  | some i => (.ok (), (m.execute i).mapCpu (·.setState .fetching))
  | none =>
    let (result, cpu) := m.cpu.meetUndefined opcode address
    (result, { m with cpu := cpu })

/-- Takes the interrupt that is due and executes one instruction, unless halted. -/
def step (tracing : Bool) (m : Noting β) : Except Fault Unit × Noting β :=
  if m.cpu.refuses then (.error .halted, m.mapCpu (·.setState .halted))
  else (m.mapCpu fun c => (Cpu.traceEvents tracing c.pollInterrupts).2).executeNext

/-- Goes on with a run. The watcher sees the processor, and nothing of its notes. -/
def continueUntil (tracing : Bool) (w : Watcher σ β) :
    (rounds executed : Nat) → (s : σ) → Noting β → RunResult × σ × Noting β
  | 0, _, s, m => (.unfinished, s, m)
  | rounds + 1, executed, s, m =>
    if m.cpu.haltRequested then (.finished executed, s, m.mapCpu (·.setState .halted))
    else
      let (verdict, s) := w.observe s m.cpu
      let m := if verdict.requestHalt then m.mapCpu (·.requestHalt) else m
      if verdict.stop then (.finished executed, s, m)
      else
        let (result, m) := m.step tracing
        match result with
        | .ok () => continueUntil tracing w rounds (executed + 1) s m
        | .error fault =>
          if fault = .halted && m.cpu.haltRequested then
            (.finished executed, s, m.mapCpu (·.setState .halted))
          else (.failed fault, s, m)

/-- An operation that is a run. -/
def answerRun (tracing : Bool) (m : Noting β) (w : Watcher Nat β) (rounds : Nat) :
    Answer × Noting β :=
  let (result, asked, m) := m.continueUntil tracing w rounds 0 0
  (.ran result asked, m)

/-- Carries out an operation. Only instructions deal with the notes: every other operation, and a
reset among them, leaves them as they are. -/
def apply (tracing : Bool) (m : Noting β) : Operation β → Answer × Noting β
  | .step =>
    let (result, m) := m.step tracing
    (OperationReport.answerOf result, m)
  | .runUntil rounds judge => m.answerRun tracing (.counting judge) rounds
  | .runFor limit => m.answerRun tracing (.budget limit) (limit + 1)
  | .run rounds => m.answerRun tracing .never rounds
  | o =>
    let report := o.apply tracing m.cpu
    (report.answer, { m with cpu := report.cpu })

/-- Carries out operations one after the other; the answers are in their order. -/
def applyAll (tracing : Bool) (m : Noting β) : List (Operation β) → List Answer × Noting β
  | [] => ([], m)
  | o :: rest =>
    let (answer, next) := m.apply tracing o
    let (answers, last) := applyAll tracing next rest
    (answer :: answers, last)

/-! ## The notes make no difference -/

/-- A mode that makes no note has not left the page. -/
theorem pageCrossed_of_not_notesPage (c : Cpu β) {mode : AddressingMode}
    (h : mode.notesPage = false) : (c.resolve mode).1.pageCrossed = false := by
  cases mode with
  | absoluteX | absoluteY | indirectY => cases h
  | _ => rfl

/-- With empty notes, an operand is found with the note that the resolution tells of. -/
theorem resolve_unnoted (c : Cpu β) (mode : AddressingMode) :
    (⟨c, ⟨false, 0⟩⟩ : Noting β).resolve mode =
      ((c.resolve mode).1.operand,
        ⟨(c.resolve mode).2, ⟨(c.resolve mode).1.pageCrossed, 0⟩⟩) := by
  unfold resolve
  by_cases hnotes : mode.notesPage = true
  · simp only [hnotes, if_true]
  · have hmode : mode.notesPage = false := by simpa using hnotes
    simp only [hmode, Bool.false_eq_true, if_false, pageCrossed_of_not_notesPage c hmode]

/-- What the latches held before an instruction has no effect on it. -/
theorem execute_cpu (m : Noting β) (i : Instruction) : (m.execute i).cpu = m.cpu.execute i := by
  unfold execute Cpu.execute
  simp only [resolve_unnoted, perform, Nat.zero_add]
  split <;> rfl

theorem executeNext_cpu (m : Noting β) :
    m.executeNext.1 = m.cpu.executeNext.result ∧ m.executeNext.2.cpu = m.cpu.executeNext.cpu := by
  unfold executeNext Cpu.executeNext
  simp only
  cases decode m.cpu.fetch.1 with
  | none => exact ⟨rfl, rfl⟩
  | some i =>
    refine ⟨rfl, ?_⟩
    simp only [mapCpu, execute_cpu]

theorem step_cpu (tracing : Bool) (m : Noting β) :
    (m.step tracing).1 = (m.cpu.step tracing).result ∧
      (m.step tracing).2.cpu = (m.cpu.step tracing).cpu := by
  unfold step Cpu.step
  by_cases hrefuses : m.cpu.refuses = true
  · simp only [hrefuses, if_true]
    exact ⟨trivial, rfl⟩
  · simp only [hrefuses, Bool.false_eq_true, if_false]
    exact executeNext_cpu _

/-- The latches do not show in a run. -/
theorem continueUntil_cpu (tracing : Bool) (w : Watcher σ β) (rounds executed : Nat) (s : σ)
    (events : Array Event) (m : Noting β) :
    let shown := m.continueUntil tracing w rounds executed s
    let report := m.cpu.continueUntil tracing w rounds executed s events
    shown.1 = report.result ∧ shown.2.1 = report.watcher ∧ shown.2.2.cpu = report.cpu := by
  obtain ⟨observe⟩ := w
  induction rounds generalizing executed s events m with
  | zero => exact ⟨rfl, rfl, rfl⟩
  | succ rounds ih =>
    intro shown report
    simp only [shown, report, continueUntil, Cpu.continueUntil]
    by_cases hrequested : m.cpu.haltRequested = true
    · simp only [hrequested, if_true]
      exact ⟨rfl, rfl, rfl⟩
    · simp only [hrequested, Bool.false_eq_true, if_false]
      rcases observe s m.cpu with ⟨verdict, next⟩
      -- both runs go on with the same processor, whether the watcher asks to halt or not
      have hasked : (if verdict.requestHalt then m.cpu.requestHalt else m.cpu) =
          (if verdict.requestHalt then m.mapCpu (·.requestHalt) else m).cpu := by
        split <;> rfl
      simp only [hasked]
      generalize (if verdict.requestHalt then m.mapCpu (·.requestHalt) else m) = asked
      cases verdict.stop with
      | true => exact ⟨rfl, rfl, rfl⟩
      | false =>
        obtain ⟨hresult, hcpu⟩ := step_cpu tracing asked
        simp only [Bool.false_eq_true, if_false, hresult, ← hcpu]
        cases (asked.cpu.step tracing).result with
        | ok => exact ih _ _ _ _
        | error fault =>
          simp only
          split <;> exact ⟨rfl, rfl, rfl⟩

theorem answerRun_cpu (tracing : Bool) (m : Noting β) (w : Watcher Nat β) (rounds : Nat) :
    (m.answerRun tracing w rounds).1 =
        (OperationReport.ofRun (m.cpu.runUntil tracing rounds w 0)).answer ∧
      (m.answerRun tracing w rounds).2.cpu =
        (OperationReport.ofRun (m.cpu.runUntil tracing rounds w 0)).cpu := by
  obtain ⟨hresult, hasked, hcpu⟩ := continueUntil_cpu tracing w rounds 0 0 #[] m
  refine ⟨?_, hcpu⟩
  simp only [answerRun, hresult, hasked]
  rfl

/-- What a host gets to see of an operation is the same with and without the latches. -/
theorem apply_cpu (tracing : Bool) (m : Noting β) (o : Operation β) :
    (m.apply tracing o).1 = (o.apply tracing m.cpu).answer ∧
      (m.apply tracing o).2.cpu = (o.apply tracing m.cpu).cpu := by
  cases o with
  | step =>
    obtain ⟨hresult, hcpu⟩ := step_cpu tracing m
    exact ⟨congrArg OperationReport.answerOf hresult, hcpu⟩
  | runUntil rounds judge => exact answerRun_cpu tracing m (.counting judge) rounds
  | runFor limit => exact answerRun_cpu tracing m (.budget limit) (limit + 1)
  | run rounds => exact answerRun_cpu tracing m .never rounds
  | _ => exact ⟨rfl, rfl⟩

theorem applyAll_cpu (tracing : Bool) (m : Noting β) (operations : List (Operation β)) :
    (m.applyAll tracing operations).1 = (Operation.applyAll tracing m.cpu operations).1 ∧
      (m.applyAll tracing operations).2.cpu = (Operation.applyAll tracing m.cpu operations).2 := by
  induction operations generalizing m with
  | nil => exact ⟨rfl, rfl⟩
  | cons o rest ih =>
    obtain ⟨hanswer, hcpu⟩ := apply_cpu tracing m o
    obtain ⟨hanswers, hlast⟩ := ih (m.apply tracing o).2
    rw [hcpu] at hanswers hlast
    refine ⟨?_, hlast⟩
    simp only [applyAll, Operation.applyAll, hanswer, hanswers]

end Noting

/-! ## Resetting -/

/-- A reset does nothing but read the two bytes of its vector. -/
theorem Cpu.accesses_reset (c : Cpu (Recorded β)) :
    ∃ low high, c.reset.bus.accesses =
      c.bus.accesses ++ [.read resetVector low, .read (resetVector + 1) high] :=
  ⟨_, _, Conversation.accesses_readSplitWord resetVector (resetVector + 1) c.bus⟩

/-- A reset erases all history. Let a processor be in any state whatever, with whatever notes an
earlier instruction has left in its latches. Reset, it gives the host the answers that a new
processor on the same bus with the same policy gives after a reset, and is in the same state after
every operation. Without latches it is the same processor from the reset on. A reset itself writes
nothing: it reads the two bytes of its vector, and plain memory is the same after it. It does not
matter whether it comes as an operation of its own or as an interrupt. -/
theorem reset_erases_history (tracing : Bool) :
    (∀ (m : Noting β) (operations : List (Operation β)),
        let fresh := Noting.powerOn m.cpu.bus m.cpu.policy
        let later := (m.apply tracing .reset).2.applyAll tracing operations
        let first := (fresh.apply tracing .reset).2.applyAll tracing operations
        later.1 = first.1 ∧ later.2.cpu = first.2.cpu ∧
          later.1 = (Operation.applyAll tracing m.cpu.reset operations).1 ∧
          later.2.cpu = (Operation.applyAll tracing m.cpu.reset operations).2) ∧
      (∀ c : Cpu β, c.reset = (Cpu.powerOn c.bus c.policy).reset) ∧
      (∀ c : Cpu Ram, c.reset.bus = c.bus) ∧
      (∀ c : Cpu (Recorded β), ∃ low high, c.reset.bus.accesses =
        c.bus.accesses ++ [.read resetVector low, .read (resetVector + 1) high]) ∧
      ∀ c : Cpu β,
        (Operation.interrupt .reset).apply tracing c = Operation.reset.apply tracing c := by
  refine ⟨fun m operations => ?_, fun c => rfl, fun c => rfl, Cpu.accesses_reset, fun c => rfl⟩
  intro fresh later first
  obtain ⟨hlater, hlast⟩ := Noting.applyAll_cpu tracing (m.apply tracing .reset).2 operations
  obtain ⟨hfirst, hlastFresh⟩ :=
    Noting.applyAll_cpu tracing (fresh.apply tracing .reset).2 operations
  exact ⟨hlater.trans hfirst.symm, hlast.trans hlastFresh.symm, hlater, hlast⟩

end Nes6502
