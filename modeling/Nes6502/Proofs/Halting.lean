import Nes6502.Bus.Watched
import Nes6502.Memory
import Nes6502.Operation
import Nes6502.Proofs.Conversation.Step
import Nes6502.Proofs.Run

/-!
# Halting and resuming

A request to halt can come from the host, from the judge of a run or from the bus in the middle of
an instruction, and it is noticed between two instructions, in one of several places. None of this
shows in what the processor computes: however a host halts and resumes it on the way, it is where it
would be after the same number of steps without any request.

To say so, the same bus is needed without its requests: `Deaf β` answers as `β` does, and what it
asks of the processor is not heard.

## What is proved

* `Cpu.Steps.deaf`: steps on a bus are the same steps on the deaf one.
* `Cpu.accounted`: what an operation does is accounted for by steps, none of which begins with a
  request pending.
* `halting_transparent`: a sequence of operations makes the steps that the operations count.

A run is judged here by the number of instructions and the state, which is no restriction: any
watcher can be replaced by such a judge (`Cpu.exists_judge`).
-/

set_option autoImplicit false

namespace Nes6502

variable {β : Type} [Bus β]

/-! ## A bus that is not heard -/

/-- A bus whose requests to halt are not heard. -/
structure Deaf (β : Type) where
  inner : β

namespace Deaf

variable {α : Type}

/-- An access of the bus underneath. -/
def through (t : Transaction β α) : Transaction (Deaf β) α := fun bus =>
  let reply := t bus.inner
  ⟨reply.value, ⟨reply.bus⟩, false⟩

instance : Bus (Deaf β) where
  readByte address := through (Bus.readByte address)
  writeByte address value := through (Bus.writeByte address value)
  peekByte address := through (Bus.peekByte address)
  readSplitWord low high := through (Bus.readSplitWord low high)
  readWord address := through (Bus.readWord address)
  writeWord address word := through (Bus.writeWord address word)

/-- The deaf bus answers every request as the bus underneath does. -/
theorem respected : Conversation.Respected fun (bus : β) (deaf : Deaf β) => deaf.inner = bus := by
  rintro request bus ⟨inner⟩ rfl
  cases request <;> exact ⟨rfl, rfl⟩

theorem mute (request : Request) (bus : Deaf β) :
    (request.transaction bus).haltRaised = false := by
  cases request <;> rfl

end Deaf

namespace Cpu

/-- The processor on the deaf bus. -/
def deaf (c : Cpu β) : Cpu (Deaf β) where
  bus := ⟨c.bus⟩
  regs := c.regs
  state := c.state
  policy := c.policy
  haltRequested := c.haltRequested
  nmiLatched := c.nmiLatched
  irqLine := c.irqLine

/-- Two processors that differ at most in the run state and in the requests to halt. -/
structure Alike (c : Cpu β) (d : Cpu (Deaf β)) : Prop where
  bus : d.bus.inner = c.bus
  regs : d.regs = c.regs
  policy : d.policy = c.policy
  nmiLatched : d.nmiLatched = c.nmiLatched
  irqLine : d.irqLine = c.irqLine

omit [Bus β] in
theorem Alike.dueInterrupt {c : Cpu β} {d : Cpu (Deaf β)} (h : Alike c d) :
    d.dueInterrupt = c.dueInterrupt := by
  simp only [Cpu.dueInterrupt, h.nmiLatched, h.irqLine, h.regs]

/-- A step that succeeds is the same step on the deaf bus, and leaves it ready for the next one. -/
theorem Alike.step {tracing : Bool} {c : Cpu β} {d : Cpu (Deaf β)} (h : Alike c d)
    (hready : d.Ready) (hok : (c.step tracing).result = .ok ()) :
    (d.step tracing).result = .ok () ∧ Alike (c.step tracing).cpu (d.step tracing).cpu ∧
      (d.step tracing).cpu.Ready := by
  obtain ⟨hresult, hcpu⟩ := step_eq tracing (refuses_of_step_ok hok)
  obtain ⟨hresultDeaf, hcpuDeaf⟩ := step_eq tracing hready.refuses
  rw [h.regs, h.dueInterrupt, h.policy] at hresultDeaf hcpuDeaf
  obtain ⟨hvalue, hbus⟩ := Conversation.simulates Deaf.respected
    (c.regs.step tracing c.dueInterrupt c.policy) h.bus
  have hokDeaf : (d.step tracing).result = .ok () := by
    rw [hresultDeaf, ← hok, hresult]
    exact congrArg Prod.fst hvalue.symm
  refine ⟨hokDeaf, ?_, ?_⟩
  · rw [hcpu, hcpuDeaf]
    exact ⟨hbus, congrArg Prod.snd hvalue.symm, h.policy, rfl, h.irqLine⟩
  · rw [hcpuDeaf, hokDeaf]
    refine ⟨rfl, ?_⟩
    show (d.haltRequested || _) = false
    rw [hready.unrequested, Conversation.haltRaised_transaction Deaf.mute]
    rfl

/-- Steps that succeed are the same steps on the deaf bus. -/
theorem Steps.deaf {tracing : Bool} {k : Nat} {c e : Cpu β} (steps : Steps tracing k c e)
    {d : Cpu (Deaf β)} (h : Alike c d) (hready : d.Ready) :
    ∃ d', Steps tracing k d d' ∧ Alike e d' ∧ d'.Ready := by
  induction steps generalizing d with
  | refl c => exact ⟨d, .refl d, h, hready⟩
  | step hok _ ih =>
    obtain ⟨hokDeaf, hnext, hgoes⟩ := h.step hready hok
    obtain ⟨d', hrest, hend⟩ := ih hnext hgoes
    exact ⟨d', .step hokDeaf hrest, hend⟩

/-- The same processor up to the run state and the requests to halt. -/
structure SameCore (c d : Cpu β) : Prop where
  bus : d.bus = c.bus
  regs : d.regs = c.regs
  policy : d.policy = c.policy
  nmiLatched : d.nmiLatched = c.nmiLatched
  irqLine : d.irqLine = c.irqLine

omit [Bus β] in
theorem SameCore.refl (c : Cpu β) : SameCore c c := ⟨rfl, rfl, rfl, rfl, rfl⟩

omit [Bus β] in
theorem SameCore.alike {c c' : Cpu β} {d : Cpu (Deaf β)} (h : SameCore c c') (halike : Alike c d) :
    Alike c' d :=
  ⟨halike.bus.trans h.bus.symm, halike.regs.trans h.regs.symm, halike.policy.trans h.policy.symm,
    halike.nmiLatched.trans h.nmiLatched.symm, halike.irqLine.trans h.irqLine.symm⟩

/-- Between two calls of the host: fetching, or halted by a request that still stands. -/
def Paused (c : Cpu β) : Prop := c.state = .halted → c.haltRequested = true

omit [Bus β] in
theorem Ready.paused {c : Cpu β} (h : c.Ready) : c.Paused := by
  intro hhalted
  rw [h.fetching] at hhalted
  cases hhalted

omit [Bus β] in
theorem Paused.haltRequested_of_refuses {c : Cpu β} (h : c.Paused) (hrefuses : c.refuses = true) :
    c.haltRequested = true := by
  simp only [refuses, Bool.or_eq_true, beq_iff_eq] at hrefuses
  exact hrefuses.elim id h

/-- A step that succeeds ends between two instructions. -/
theorem state_of_step_ok {tracing : Bool} {c : Cpu β} (hok : (c.step tracing).result = .ok ()) :
    (c.step tracing).cpu.state = .fetching := by
  rw [(step_eq tracing (refuses_of_step_ok hok)).2, hok]
  rfl

theorem Steps.paused {tracing : Bool} {k : Nat} {c d : Cpu β} (steps : Steps tracing k c d)
    (h : c.Paused) : d.Paused := by
  refine steps.invariant (fun c hok _ hhalted => ?_) h
  rw [state_of_step_ok hok] at hhalted
  cases hhalted

/-- No step begins with a request pending. -/
theorem Steps.eq_zero {tracing : Bool} {k : Nat} {c d : Cpu β} (steps : Steps tracing k c d)
    (h : c.haltRequested = true) : k = 0 := by
  cases steps with
  | refl => rfl
  | step hok _ =>
    have hrefuses := refuses_of_step_ok hok
    simp [refuses, h] at hrefuses

end Cpu

/-! ## Operations -/

namespace Operation

/-- The operations by which a host makes a processor go on, and stops it. -/
def Paces : Operation β → Prop
  | .step | .runUntil _ _ | .runFor _ | .run _ | .halt | .requestHalt | .resume => True
  | _ => False

/-- The instructions that an operation has executed, by its answer. -/
def executed : Operation β → Answer → Nat
  | .step, .done => 1
  | _, .ran (.finished count) _ => count
  | _, _ => 0

/-- The instructions that operations have executed, by their answers. -/
def executedInAll : List (Operation β) → List Answer → Nat
  | o :: operations, answer :: answers => o.executed answer + executedInAll operations answers
  | _, _ => 0

theorem applyAll_append (tracing : Bool) (before after : List (Operation β)) (c : Cpu β) :
    applyAll tracing c (before ++ after) =
      ((applyAll tracing c before).1 ++
          (applyAll tracing (applyAll tracing c before).2 after).1,
        (applyAll tracing (applyAll tracing c before).2 after).2) := by
  induction before generalizing c with
  | nil => rfl
  | cons o before ih => simp only [List.cons_append, applyAll, ih]

end Operation

/-- The call came back, and not because of an undefined opcode. -/
def Answer.Settled : Answer → Prop
  | .refused (.undefinedOpcode _ _) => False
  | .ran (.failed (.undefinedOpcode _ _)) _ => False
  | .ran .unfinished _ => False
  | _ => True

namespace Cpu

/-- A number of steps lies between two states; after them only the run state changes, and a request
to halt may be added. -/
def Paced (tracing : Bool) (count : Nat) (c c' : Cpu β) : Prop :=
  ∃ e, Steps tracing count c e ∧ SameCore e c' ∧
    (e.haltRequested = true → c'.haltRequested = true)

/-- A run that comes back, and not because of an undefined opcode, was stopped by its watcher or by
a request to halt; it has made the steps that it counts. -/
theorem paced_runUntil {σ : Type} (tracing : Bool) {w : Watcher σ β} {rounds : Nat} {s : σ}
    {c : Cpu β} (h : c.Paused) {asked : Nat}
    (hsettled : (Answer.ran (c.runUntil tracing rounds w s).result asked).Settled) :
    ∃ count, (c.runUntil tracing rounds w s).result = .finished count ∧
      Paced tracing count c (c.runUntil tracing rounds w s).cpu ∧
      (c.runUntil tracing rounds w s).cpu.Paused := by
  rcases continueUntil_cases tracing w rounds 0 s #[] c with
    ⟨t, d, events, _, hreport⟩ | ⟨k, t, d, result, e, u, events, _, hrounds, hend, hreport⟩
  · rw [runUntil, hreport] at hsettled
    exact hsettled.elim
  · rw [runUntil, hreport] at hsettled ⊢
    rw [Nat.zero_add] at hend
    have hsteps := hrounds.steps
    have hd : d.Paused := hsteps.paused h
    cases hend with
    | requested hrequested =>
      exact ⟨k, rfl, ⟨d, hsteps, ⟨rfl, rfl, rfl, rfl, rfl⟩, id⟩, fun _ => hrequested⟩
    | stopped hfree hstop =>
      refine ⟨k, rfl, ?_⟩
      show Paced _ _ _ (if _ then d.requestHalt else d) ∧ Paused (if _ then d.requestHalt else d)
      split
      · exact ⟨⟨d, hsteps, ⟨rfl, rfl, rfl, rfl, rfl⟩, fun _ => rfl⟩, fun _ => rfl⟩
      · exact ⟨⟨d, hsteps, .refl d, id⟩, hd⟩
    | asked =>
      exact ⟨k, rfl, ⟨d, hsteps, ⟨rfl, rfl, rfl, rfl, rfl⟩, fun _ => rfl⟩, fun _ => rfl⟩
    | failed hfree hgo hfault =>
      have hgoes : d.refuses = false := by
        cases hrefuses : d.refuses with
        | false => rfl
        | true =>
          rw [hd.haltRequested_of_refuses hrefuses] at hfree
          cases hfree
      rcases step_result tracing hgoes with hok | ⟨opcode, address, hundefined⟩
      · rw [hok] at hfault
        cases hfault
      · rw [hundefined] at hfault
        cases hfault
        exact hsettled.elim

/-- What an operation does is accounted for by the steps that it counts. Only resuming takes a
request back. -/
def Accounted (tracing : Bool) (o : Operation β) (c : Cpu β) : Prop :=
  let report := o.apply tracing c
  ∃ e, Steps tracing (o.executed report.answer) c e ∧ SameCore e report.cpu ∧
    (o ≠ .resume → e.haltRequested = true → report.cpu.haltRequested = true)

/-- Every operation that is a run is accounted for. -/
theorem accounted_run {tracing : Bool} {o : Operation β} {c : Cpu β} (h : c.Paused)
    {w : Watcher Nat β} {rounds : Nat}
    (hrun : o.apply tracing c = .ofRun (c.runUntil tracing rounds w 0))
    (hcount : ∀ count asked, o.executed (.ran (.finished count) asked) = count)
    (hsettled : (o.apply tracing c).answer.Settled) :
    Accounted tracing o c ∧ (o.apply tracing c).cpu.Paused := by
  rw [hrun] at hsettled
  obtain ⟨count, hresult, ⟨e, hsteps, hsame, hpending⟩, hpaused⟩ :=
    paced_runUntil tracing h hsettled
  rw [Accounted, hrun]
  simp only [OperationReport.ofRun, hresult, hcount]
  exact ⟨⟨e, hsteps, hsame, fun _ => hpending⟩, hpaused⟩

theorem accounted {tracing : Bool} {o : Operation β} (hpaces : o.Paces) {c : Cpu β} (h : c.Paused)
    (hsettled : (o.apply tracing c).answer.Settled) :
    Accounted tracing o c ∧ (o.apply tracing c).cpu.Paused := by
  cases o with
  | step =>
    cases hrefuses : c.refuses with
    | true =>
      have hrequested := h.haltRequested_of_refuses hrefuses
      simp only [Accounted, Operation.apply, step_of_refuses tracing hrefuses]
      exact ⟨⟨c, .refl c, ⟨rfl, rfl, rfl, rfl, rfl⟩, fun _ => id⟩, fun _ => hrequested⟩
    | false =>
      rcases step_result tracing hrefuses with hok | ⟨opcode, address, hundefined⟩
      · have hsteps : Steps tracing 1 c (c.step tracing).cpu := .step hok (.refl _)
        have hpaused := hsteps.paused h
        simp only [Accounted, Operation.apply, hok]
        exact ⟨⟨_, hsteps, .refl _, fun _ => id⟩, hpaused⟩
      · simp only [Operation.apply, hundefined] at hsettled
        exact hsettled.elim
  | runUntil rounds judge | runFor limit | run rounds =>
    exact accounted_run h rfl (fun _ _ => rfl) hsettled
  | halt | requestHalt =>
    exact ⟨⟨c, .refl c, ⟨rfl, rfl, rfl, rfl, rfl⟩, fun _ _ => rfl⟩, fun _ => rfl⟩
  | resume =>
    refine ⟨⟨c, .refl c, ⟨rfl, rfl, rfl, rfl, rfl⟩, fun h => absurd rfl h⟩, fun hhalted => ?_⟩
    have hstate : (if c.state = .halted then .fetching else c.state) = RunState.halted := hhalted
    split at hstate
    · cases hstate
    · contradiction
  | _ => exact hpaces.elim

theorem paused_applyAll {tracing : Bool} {operations : List (Operation β)}
    (hpaces : ∀ o ∈ operations, o.Paces) {c : Cpu β} (h : c.Paused)
    (hsettled : ∀ answer ∈ (Operation.applyAll tracing c operations).1, answer.Settled) :
    (Operation.applyAll tracing c operations).2.Paused := by
  induction operations generalizing c with
  | nil => exact h
  | cons o rest ih =>
    simp only [Operation.applyAll, List.forall_mem_cons] at hpaces hsettled ⊢
    exact ih hpaces.2 (accounted hpaces.1 h hsettled.1).2 hsettled.2

/-- A sequence of operations makes, on the deaf bus, the steps that the operations count. -/
theorem steps_applyAll {tracing : Bool} {operations : List (Operation β)}
    (hpaces : ∀ o ∈ operations, o.Paces) {c : Cpu β} (h : c.Paused)
    (hsettled : ∀ answer ∈ (Operation.applyAll tracing c operations).1, answer.Settled)
    {d : Cpu (Deaf β)} (halike : Alike c d) (hready : d.Ready) :
    ∃ d', Steps tracing (Operation.executedInAll operations
        (Operation.applyAll tracing c operations).1) d d' ∧
      Alike (Operation.applyAll tracing c operations).2 d' ∧ d'.Ready := by
  induction operations generalizing c d with
  | nil => exact ⟨d, .refl d, halike, hready⟩
  | cons o rest ih =>
    simp only [Operation.applyAll, List.forall_mem_cons] at hpaces hsettled ⊢
    obtain ⟨⟨e, hsteps, hsame, -⟩, hpaused⟩ := accounted hpaces.1 h hsettled.1
    obtain ⟨f, hfirst, hlike, hgoes⟩ := hsteps.deaf halike hready
    obtain ⟨d', hrest, hend⟩ := ih hpaces.2 hpaused hsettled.2 (hsame.alike hlike) hgoes
    exact ⟨d', hfirst.trans hrest, hend⟩

end Cpu

/-- Halting and resuming is transparent. A host makes a processor go on and stops it, in any order;
requests to halt may come from the host, from its judges and from the bus in the middle of an
instruction. If the operations count `k` instructions, the processor is where `k` steps lead without
any request. Each operation is accounted for by the steps that it counts: they are whole, none
begins with a request pending, and a request that is pending after them stands until the processor
is resumed. -/
theorem halting_transparent (tracing : Bool) {c : Cpu β} (hfetching : c.state = .fetching)
    (hfree : c.haltRequested = false) {operations : List (Operation β)}
    (hpaces : ∀ o ∈ operations, o.Paces)
    (hsettled : ∀ answer ∈ (Operation.applyAll tracing c operations).1, answer.Settled) :
    (∃ d, Cpu.Steps tracing (Operation.executedInAll operations
          (Operation.applyAll tracing c operations).1) c.deaf d ∧
        d.haltRequested = false ∧ Cpu.Alike (Operation.applyAll tracing c operations).2 d) ∧
      ∀ before o after, operations = before ++ o :: after →
        let mid := (Operation.applyAll tracing c before).2
        Cpu.Accounted tracing o mid ∧
          (mid.haltRequested = true → o.executed (o.apply tracing mid).answer = 0) := by
  have hready : c.Ready := ⟨hfetching, hfree⟩
  constructor
  · obtain ⟨d, hsteps, halike, hgoes⟩ := Cpu.steps_applyAll hpaces hready.paused hsettled
      (d := c.deaf) ⟨rfl, rfl, rfl, rfl, rfl⟩ ⟨hfetching, hfree⟩
    exact ⟨d, hsteps, hgoes.unrequested, halike⟩
  · rintro before o after rfl mid
    simp only [Operation.applyAll_append, Operation.applyAll, List.forall_mem_append,
      List.forall_mem_cons] at hpaces hsettled
    have hmid : mid.Paused := Cpu.paused_applyAll hpaces.1 hready.paused hsettled.1
    obtain ⟨haccounted, -⟩ := Cpu.accounted hpaces.2.1 hmid hsettled.2.1
    refine ⟨haccounted, ?_⟩
    obtain ⟨e, hsteps, -⟩ := haccounted
    exact hsteps.eq_zero

/-- Memory that asks to halt when `0x0010` is written, with a program that writes there first. -/
def stopAtStore : Watched Ram :=
  ⟨Ram.zeroed.load 0x0000 [0x85, 0x10, 0xE8, 0xC8, 0xC8], [0x0010]⟩

/-- The bus asks to halt in the middle of the first instruction and a judge before the third. -/
theorem halting_transparent_stopAtStore :
    let c := (Cpu.powerOn stopAtStore .halt).reset
    let operations : List (Operation (Watched Ram)) :=
      [.run 9, .step, .resume, .runUntil 9 fun asked _ => ⟨false, asked == 1⟩, .runFor 9, .resume,
        .step]
    ∃ d, Cpu.Steps false 3 c.deaf d ∧ d.haltRequested = false ∧
      Cpu.Alike (Operation.applyAll false c operations).2 d := by
  intro c operations
  have hanswers : (Operation.applyAll false c operations).1 =
      [.ran (.finished 1) 1, .refused .halted, .done, .ran (.finished 1) 2, .ran (.finished 0) 0,
        .done, .done] := by
    decide +kernel
  have hsettled : ∀ answer ∈ (Operation.applyAll false c operations).1, answer.Settled := by
    rw [hanswers]
    simp [Answer.Settled]
  have hpaces : ∀ o ∈ operations, o.Paces := by simp [operations, Operation.Paces]
  have htransparent := (halting_transparent false (c := c) rfl rfl hpaces hsettled).1
  rwa [hanswers] at htransparent

end Nes6502
