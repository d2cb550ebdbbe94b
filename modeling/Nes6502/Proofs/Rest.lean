import Nes6502.Proofs.Halting

/-!
# Processors at rest

Two things keep a processor at rest: that it is halted, and that it was asked to halt. They are
separate, and different operations set them, but the same three take them back: a reset, in either
of its forms, and resuming. All others leave a processor at rest where it is. While it rests no
instruction is executed and no interrupt serviced, however often it is stepped or run; what is
latched meanwhile waits.

At power-on a processor is halted, and rests until one of the three operations starts it. Resuming
is among them: it continues from wherever the program counter is, whether or not a reset has ever
set it. So it is not a reset alone that lets a processor run for the first time
(`resumed_without_reset`).

## What is proved

* `Operation.keepsRest_apply`, `Operation.started_apply`: only the three operations end a rest, and
  each of them does.
* `Cpu.runUntil_of_refuses`: what a run does that begins at rest.
* `Operation.passesOver`: what a processor at rest keeps while it is left alone.
* `rest_absorbing`: a processor at rest stays there, and nothing happens to it.
* `dormant_until_started`: after power-on nothing is executed before the processor is started.
-/

set_option autoImplicit false

namespace Nes6502

variable {σ β : Type} [Bus β]

/-! ## Operations by what they do to a rest -/

namespace Operation

/-- The operations that start a processor at rest. -/
def Starts : Operation β → Prop
  | .reset | .resume => True
  | .interrupt kind => kind = .reset
  | _ => False

/-- A run, of one round at least. -/
def IsRun : Operation β → Prop
  | .runUntil rounds _ | .run rounds => 0 < rounds
  | .runFor _ => True
  | _ => False

/-- The operations that leave a processor at rest alone: those that want it to go on, or to halt,
those that drive a line or choose the policy, and the trace line. -/
def Idle : Operation β → Prop
  | .step | .halt | .requestHalt | .triggerNmi | .setIrq _ | .setPolicy _ | .traceLine => True
  | o => o.IsRun

/-- Every run is a run with a judge. -/
theorem IsRun.apply_eq {o : Operation β} (h : o.IsRun) :
    ∃ rounds judge, ∀ tracing (c : Cpu β),
      o.apply tracing c = .ofRun (c.runUntil tracing (rounds + 1) (.counting judge) 0) := by
  cases o with
  | runUntil rounds judge =>
    obtain ⟨n, rfl⟩ := Nat.exists_eq_succ_of_ne_zero (Nat.ne_of_gt h)
    exact ⟨n, judge, fun _ _ => rfl⟩
  | run rounds =>
    obtain ⟨n, rfl⟩ := Nat.exists_eq_succ_of_ne_zero (Nat.ne_of_gt h)
    exact ⟨n, fun _ _ => ⟨false, false⟩, fun _ _ => rfl⟩
  | runFor limit => exact ⟨limit, fun asked _ => ⟨decide (limit ≤ asked), false⟩, fun _ _ => rfl⟩
  | _ => exact h.elim

end Operation

/-! ## What ends a rest -/

namespace Cpu

/-- Whatever kept the first processor at rest keeps the second one at rest. -/
structure KeepsRest (c d : Cpu β) : Prop where
  halted : c.state = .halted → d.state = .halted
  requested : c.haltRequested = true → d.haltRequested = true

omit [Bus β] in
theorem refuses_iff {c : Cpu β} :
    c.refuses = true ↔ c.state = .halted ∨ c.haltRequested = true := by
  simp [refuses, or_comm]

omit [Bus β] in
theorem KeepsRest.refuses {c d : Cpu β} (h : KeepsRest c d) (hrest : c.refuses = true) :
    d.refuses = true := by
  rw [refuses_iff] at hrest ⊢
  exact hrest.imp h.halted h.requested

omit [Bus β] in
theorem keepsRest_transact (c : Cpu β) {α : Type} (t : Transaction β α) :
    KeepsRest c (c.transact t).2 := by
  refine ⟨id, fun hrequested => ?_⟩
  show (c.haltRequested || _) = true
  rw [hrequested, Bool.true_or]

omit [Bus β] in
theorem keepsRest_halted {c d : Cpu β} (h : KeepsRest c d) : KeepsRest c (d.setState .halted) :=
  ⟨fun _ => rfl, h.requested⟩

omit [Bus β] in
theorem keepsRest_requested {c d : Cpu β} (h : KeepsRest c d) : KeepsRest c d.requestHalt :=
  ⟨h.halted, fun _ => rfl⟩

/-- A run that begins at rest does not end the rest. -/
theorem keepsRest_continueUntil (tracing : Bool) (w : Watcher σ β) (rounds executed : Nat) (s : σ)
    (events : Array Event) {c : Cpu β} (hrest : c.refuses = true) :
    KeepsRest c (c.continueUntil tracing w rounds executed s events).cpu := by
  refine continueUntil_invariant (I := fun d => KeepsRest c d) ?_ (fun _ => keepsRest_requested)
    (fun _ => keepsRest_halted) w rounds executed s events ⟨id, id⟩
  intro d h
  rw [step_of_refuses tracing (h.refuses hrest)]
  exact keepsRest_halted h

end Cpu

open Cpu

/-- Only the three operations end a rest. -/
theorem Operation.keepsRest_apply (tracing : Bool) {o : Operation β} (ho : ¬ o.Starts) {c : Cpu β}
    (hrest : c.refuses = true) : KeepsRest c (o.apply tracing c).cpu := by
  cases o with
  | reset | resume => exact absurd True.intro ho
  | step =>
    show KeepsRest c (c.step tracing).cpu
    rw [step_of_refuses tracing hrest]
    exact keepsRest_halted ⟨id, id⟩
  | runUntil rounds judge => exact keepsRest_continueUntil tracing _ rounds 0 0 #[] hrest
  | runFor limit => exact keepsRest_continueUntil tracing _ (limit + 1) 0 0 #[] hrest
  | run rounds => exact keepsRest_continueUntil tracing _ rounds 0 0 #[] hrest
  | halt => exact ⟨fun _ => rfl, fun _ => rfl⟩
  | requestHalt => exact ⟨id, fun _ => rfl⟩
  | triggerNmi | setIrq | setPolicy => exact ⟨id, id⟩
  | interrupt kind =>
    show KeepsRest c (c.interrupt kind)
    rcases c.interrupt_cases kind with ⟨hreset, -⟩ | ⟨-, -, hkept⟩ | ⟨-, -, hentered⟩
    · exact absurd hreset ho
    · rw [hkept]
      exact ⟨id, id⟩
    · rw [hentered]
      have hsettled := keepsRest_transact c (c.regs.enterHandler kind).transaction
      exact ⟨hsettled.halted, hsettled.requested⟩
  | traceLine =>
    show KeepsRest c c.traceLine.2
    rw [traceLine_eq]
    exact keepsRest_transact c _
  -- the others are transactions on the bus
  | _ => exact keepsRest_transact c _

/-- Each of the three operations ends a rest. -/
theorem Operation.started_apply (tracing : Bool) {o : Operation β} (ho : o.Starts) (c : Cpu β) :
    (o.apply tracing c).cpu.haltRequested = false ∧
      (o.apply tracing c).cpu.state ≠ .halted := by
  cases o with
  | reset => exact ⟨rfl, RunState.noConfusion⟩
  | resume =>
    refine ⟨rfl, ?_⟩
    show (if c.state = .halted then RunState.fetching else c.state) ≠ .halted
    split
    · exact RunState.noConfusion
    · assumption
  | interrupt kind =>
    obtain rfl : kind = .reset := ho
    exact ⟨rfl, RunState.noConfusion⟩
  | _ => exact ho.elim

/-! ## What goes on at rest -/

namespace Cpu

/-- A run that begins at rest is over in its first round. If a halt is requested, its watcher is not
even asked. -/
theorem runUntil_of_refuses (tracing : Bool) (rounds : Nat) (w : Watcher σ β) (s : σ) {c : Cpu β}
    (hrest : c.refuses = true) :
    c.runUntil tracing (rounds + 1) w s =
      if c.haltRequested then c.stopRun 0 s #[]
      else match w.observe s c with
        | (⟨true, ask⟩, t) => ⟨.finished 0, if ask then c.requestHalt else c, t, #[]⟩
        | (⟨false, true⟩, t) => c.halt.stopRun 0 t #[]
        | (⟨false, false⟩, t) => ⟨.failed .halted, c.setState .halted, t, #[]⟩ := by
  cases hfree : c.haltRequested with
  | true => simp only [runUntil, continueUntil, hfree, if_true]
  | false =>
    rcases hobserve : w.observe s c with ⟨⟨stop, ask⟩, t⟩
    have hasked : c.halt.haltRequested = true := rfl
    have hunasked : (c.setState .halted).haltRequested = false := hfree
    have hstep : c.requestHalt.step tracing = ⟨.error .halted, c.halt, []⟩ :=
      step_of_refuses tracing rfl
    cases stop <;> cases ask <;>
      simp [runUntil, continueUntil, hfree, hobserve, hstep, step_of_refuses tracing hrest, hasked,
        hunasked]

/-- A run that begins at rest executes no instruction and services no interrupt. -/
theorem rested_runUntil (tracing : Bool) (rounds : Nat) (w : Watcher σ β) (s : σ) {c : Cpu β}
    (hrest : c.refuses = true) :
    let report := c.runUntil tracing (rounds + 1) w s
    (report.result = .finished 0 ∨ report.result = .failed .halted) ∧
      SameCore c report.cpu ∧ ∀ event ∈ report.events.toList, event = .stopped 0 := by
  intro report
  have hreport : report = _ := runUntil_of_refuses tracing rounds w s hrest
  rw [hreport]
  split
  · exact ⟨.inl rfl, ⟨rfl, rfl, rfl, rfl, rfl⟩, by simp [stopRun]⟩
  · split
    next ask t _ =>
      refine ⟨.inl rfl, ?_, by simp⟩
      cases ask <;> exact ⟨rfl, rfl, rfl, rfl, rfl⟩
    next => exact ⟨.inl rfl, ⟨rfl, rfl, rfl, rfl, rfl⟩, by simp [stopRun]⟩
    next => exact ⟨.inr rfl, ⟨rfl, rfl, rfl, rfl, rfl⟩, by simp⟩

end Cpu

/-- What a bus keeps while it is peeked at. -/
def PeeksKeep {γ : Type} (view : β → γ) : Prop :=
  ∀ address bus, view (Bus.peekByte address bus).bus = view bus

theorem Conversation.view_transaction {α γ : Type} {view : β → γ} (hview : PeeksKeep view)
    {t : Conversation α} (h : t.Asks (·.peeks)) (bus : β) :
    view (t.transaction bus).bus = view bus := by
  induction t generalizing bus with
  | done value => rfl
  | ask request next ih =>
    obtain ⟨hpeeks, hnext⟩ := h
    cases request with
    | peekByte address => exact (ih _ (hnext _) _).trans (hview address bus)
    | _ => cases hpeeks

/-- A processor at rest is as it was: the same registers and the same memory, as far as peeks leave
it alone. What is latched stays so. -/
structure Cpu.Undisturbed (c d : Cpu β) : Prop extends KeepsRest c d where
  regs : d.regs = c.regs
  memory : ∀ {γ : Type} (view : β → γ), PeeksKeep view → view d.bus = view c.bus
  latched : c.nmiLatched = true → d.nmiLatched = true

theorem Cpu.Undisturbed.refl (c : Cpu β) : Undisturbed c c :=
  ⟨⟨id, id⟩, rfl, fun _ _ => rfl, id⟩

theorem Cpu.Undisturbed.trans {c d e : Cpu β} (first : Undisturbed c d) (second : Undisturbed d e) :
    Undisturbed c e where
  halted := second.halted ∘ first.halted
  requested := second.requested ∘ first.requested
  regs := second.regs.trans first.regs
  memory view hview := (second.memory view hview).trans (first.memory view hview)
  latched := second.latched ∘ first.latched

namespace Operation

/-- An operation passes over a processor: nothing is executed and nothing serviced, and nothing but
a trace line touches the bus. -/
structure PassesOver (tracing : Bool) (o : Operation β) (c : Cpu β) : Prop where
  undisturbed : Undisturbed c (o.apply tracing c).cpu
  bus : o ≠ .traceLine → (o.apply tracing c).cpu.bus = c.bus
  uninterrupted : ∀ kind source handler,
    .interrupted kind source handler ∉ (o.apply tracing c).events

/-- An operation that leaves the registers, the bus and the latch alone passes over a processor. -/
theorem PassesOver.ofSame {tracing : Bool} {o : Operation β} {c : Cpu β}
    (hkeeps : KeepsRest c (o.apply tracing c).cpu) (hregs : (o.apply tracing c).cpu.regs = c.regs)
    (hbus : (o.apply tracing c).cpu.bus = c.bus)
    (hlatched : c.nmiLatched = true → (o.apply tracing c).cpu.nmiLatched = true)
    (hevents : ∀ kind source handler,
      .interrupted kind source handler ∉ (o.apply tracing c).events) :
    o.PassesOver tracing c :=
  ⟨⟨hkeeps, hregs, fun _ _ => by rw [hbus], hlatched⟩, fun _ => hbus, hevents⟩

theorem passesOver_run (tracing : Bool) {o : Operation β} (ho : o.IsRun) {c : Cpu β}
    (hkeeps : KeepsRest c (o.apply tracing c).cpu) (hrest : c.refuses = true) :
    o.PassesOver tracing c := by
  obtain ⟨rounds, judge, hrun⟩ := ho.apply_eq
  obtain ⟨-, hsame, hevents⟩ := rested_runUntil tracing rounds (.counting judge) 0 hrest
  refine .ofSame hkeeps ?_ ?_ ?_ ?_
  · rw [hrun]
    exact hsame.regs
  · rw [hrun]
    exact hsame.bus
  · rw [hrun]
    exact hsame.nmiLatched.trans
  · intro kind source handler hmem
    rw [hrun] at hmem
    cases hevents _ hmem

/-- A trace line peeks at memory. -/
theorem passesOver_traceLine (tracing : Bool) {c : Cpu β}
    (hkeeps : KeepsRest c (traceLine.apply tracing c).cpu) : traceLine.PassesOver tracing c := by
  have hcpu : (traceLine.apply tracing c).cpu = (c.converse c.regs.traceLine).2 := by
    show c.traceLine.2 = _
    rw [traceLine_eq]
  refine ⟨⟨hkeeps, ?_, ?_, ?_⟩, fun h => absurd rfl h, by simp [apply]⟩
  · rw [hcpu]
    rfl
  · intro γ view hview
    rw [hcpu]
    exact Conversation.view_transaction hview (c.regs.asks_trace true) c.bus
  · rw [hcpu]
    exact id

omit [Bus β] in
theorem not_starts_of_idle {o : Operation β} (h : o.Idle) : ¬ o.Starts := by
  cases o with
  | reset | resume | interrupt => exact h.elim
  | _ => exact id

/-- Nothing happens to a processor at rest that is left alone. -/
theorem passesOver (tracing : Bool) {o : Operation β} (ho : o.Idle) {c : Cpu β}
    (hrest : c.refuses = true) : o.PassesOver tracing c := by
  have hkeeps := keepsRest_apply tracing (not_starts_of_idle ho) hrest
  cases o with
  | step =>
    refine .ofSame hkeeps ?_ ?_ ?_ ?_ <;> simp only [apply, step_of_refuses tracing hrest]
    · rfl
    · rfl
    · exact id
    · simp
  | runUntil | runFor | run =>
    refine passesOver_run tracing ?_ hkeeps hrest
    exact ho
  | halt => exact .ofSame hkeeps rfl rfl id (by simp [apply])
  | triggerNmi =>
    exact .ofSame hkeeps rfl rfl (fun _ => rfl) (by simp [apply, OperationReport.silent])
  | requestHalt | setIrq | setPolicy =>
    exact .ofSame hkeeps rfl rfl id (by simp [apply, OperationReport.silent])
  | traceLine => exact passesOver_traceLine tracing hkeeps
  | _ => exact ho.elim

/-- What a run answers at rest. -/
theorem answer_run (tracing : Bool) {o : Operation β} (ho : o.IsRun) {c : Cpu β}
    (hrest : c.refuses = true) :
    (∃ asked, (o.apply tracing c).answer = .ran (.finished 0) asked ∨
        (o.apply tracing c).answer = .ran (.failed .halted) asked) ∧
      (c.haltRequested = true → (o.apply tracing c).answer = .ran (.finished 0) 0) := by
  obtain ⟨rounds, judge, hrun⟩ := ho.apply_eq
  rw [hrun]
  constructor
  · obtain ⟨hresult, -⟩ := rested_runUntil tracing rounds (.counting judge) 0 hrest
    simp only [OperationReport.ofRun]
    rcases hresult with hfinished | hfailed
    · exact ⟨_, .inl (by rw [hfinished])⟩
    · exact ⟨_, .inr (by rw [hfailed])⟩
  · intro hrequested
    rw [runUntil_of_refuses tracing rounds (.counting judge) 0 hrest, hrequested]
    rfl

theorem answer_step (tracing : Bool) {c : Cpu β} (hrest : c.refuses = true) :
    (step.apply tracing c).answer = .refused .halted ∧
      (step.apply tracing c).cpu = c.setState .halted := by
  simp only [apply, step_of_refuses tracing hrest, and_true]
  rfl

theorem undisturbed_applyAll (tracing : Bool) {operations : List (Operation β)}
    (hidle : ∀ o ∈ operations, o.Idle) {c : Cpu β} (hrest : c.refuses = true) :
    Undisturbed c (applyAll tracing c operations).2 := by
  induction operations generalizing c with
  | nil => exact .refl c
  | cons o rest ih =>
    rw [List.forall_mem_cons] at hidle
    have hfirst := (passesOver tracing hidle.1 hrest).undisturbed
    exact hfirst.trans (ih hidle.2 (hfirst.refuses hrest))

end Operation

/-- Rest is absorbing. Let a processor be halted or asked to halt, and let its host do nothing but
step and run it, ask it to halt, drive its lines, choose its policy and look at trace lines, in any
order and with any judges. Then it stays at rest, in each of the two senses in which it was. The
registers keep their values, the cycle count among them, and memory does, as far as peeks leave it
alone; nothing but a trace line touches the bus at all. No interrupt is serviced, and one that is
latched stays so. Every step is refused and leaves the processor halted. If a halt is requested,
every run finishes without an instruction, and without a question to its judge. A request stands
until the processor is reset or resumed, whatever else the host does, and no longer. -/
theorem rest_absorbing (tracing : Bool) {c : Cpu β}
    (hrest : c.state = .halted ∨ c.haltRequested = true) {operations : List (Operation β)}
    (hidle : ∀ o ∈ operations, o.Idle) :
    (∀ before o after, operations = before ++ o :: after →
      let d := (Operation.applyAll tracing c before).2
      let report := o.apply tracing d
      Undisturbed c report.cpu ∧ (o ≠ .traceLine → report.cpu.bus = d.bus) ∧
        (∀ kind source handler, .interrupted kind source handler ∉ report.events) ∧
        (o = .step → report.answer = .refused .halted ∧ report.cpu.state = .halted) ∧
        (o.IsRun → d.haltRequested = true → report.answer = .ran (.finished 0) 0)) ∧
      ∀ (d : Cpu β) (o : Operation β), d.haltRequested = true →
        ((o.apply tracing d).cpu.haltRequested = true ↔ ¬ o.Starts) := by
  constructor
  · rintro before o after rfl d report
    rw [List.forall_mem_append, List.forall_mem_cons] at hidle
    have hrefuses : c.refuses = true := refuses_iff.mpr hrest
    have hbefore : Undisturbed c d := Operation.undisturbed_applyAll tracing hidle.1 hrefuses
    have hd : d.refuses = true := hbefore.refuses hrefuses
    obtain ⟨hundisturbed, hbus, huninterrupted⟩ := Operation.passesOver tracing hidle.2.1 hd
    refine ⟨hbefore.trans hundisturbed, hbus, huninterrupted, ?_, ?_⟩
    · rintro rfl
      obtain ⟨hanswer, hcpu⟩ := Operation.answer_step tracing hd
      exact ⟨hanswer, congrArg Cpu.state hcpu⟩
    · exact fun hrun => (Operation.answer_run tracing hrun hd).2
  · intro d o hrequested
    constructor
    · intro hstill hstarts
      rw [(o.started_apply tracing hstarts d).1] at hstill
      cases hstill
    · intro ho
      exact (Operation.keepsRest_apply tracing ho (refuses_iff.mpr (.inr hrequested))).requested
        hrequested

/-- A processor at power-on with both of its lines asserted. It is halted, and not asked to halt
before a judge does so. -/
theorem rest_absorbing_interrupted :
    let c := ((Cpu.powerOn stopAtStore .halt).triggerNmi.setIrq true).setPolicy .nop
    let asks : Operation (Watched Ram) := .runUntil 9 fun _ _ => ⟨false, true⟩
    let d := (Operation.applyAll false c [.runFor 3, .step, .traceLine, asks]).2
    (Operation.applyAll false c [.runFor 3, .step, .traceLine, asks]).1.getLast? =
        some (.ran (.finished 0) 1) ∧
      c.haltRequested = false ∧ d.haltRequested = true ∧ d.regs = c.regs ∧ d.bus = c.bus ∧
      ((Operation.run 9).apply false d).answer = .ran (.finished 0) 0 ∧
      ((Operation.run 9).apply false d).cpu.nmiLatched = true := by
  intro c asks d
  have hidle : ∀ o ∈ [.runFor 3, .step, .traceLine, asks, .run 9], o.Idle := by
    simp [asks, Operation.Idle, Operation.IsRun]
  obtain ⟨hpasses, -⟩ := rest_absorbing false (c := c) (.inl rfl) hidle
  have hrequested : d.haltRequested = true := by decide +kernel
  obtain ⟨hasked, -⟩ := hpasses [.runFor 3, .step, .traceLine] asks [.run 9] rfl
  obtain ⟨hrun, -, -, -, hanswer⟩ :=
    hpasses [.runFor 3, .step, .traceLine, asks] (.run 9) [] rfl
  exact ⟨by decide +kernel, rfl, hrequested, hasked.regs, hasked.memory id fun _ _ => rfl,
    hanswer (Nat.succ_pos 8) hrequested, hrun.latched rfl⟩

/-! ## From power-on -/

/-- A processor that has not been started since power-on. Whatever else its host may do, it has not
been reset or resumed. -/
inductive Cpu.Dormant : Cpu β → Prop
  | powerOn (bus : β) (policy : UndefinedPolicy) : Dormant (powerOn bus policy)
  | apply {c : Cpu β} (h : Dormant c) (tracing : Bool) {o : Operation β} (ho : ¬ o.Starts) :
      Dormant (o.apply tracing c).cpu
  | rewire {c : Cpu β} (h : Dormant c) (bus : β) : Dormant { c with bus := bus }

theorem Cpu.Dormant.halted {c : Cpu β} (h : c.Dormant) : c.state = .halted := by
  induction h with
  | powerOn bus policy => rfl
  | apply _ tracing ho ih =>
    exact (Operation.keepsRest_apply tracing ho (refuses_iff.mpr (.inl ih))).halted ih
  | rewire _ bus ih => exact ih

/-- Nothing runs until the processor is started. Since power-on let it have been neither reset nor
resumed. Then it is halted, and it is started by these and by nothing else. Every step is refused,
and every run is refused or finishes without an instruction. Stepping and running it, and all else
that leaves it alone, keeps the registers, and except for a trace line does not touch the bus. -/
theorem dormant_until_started {c : Cpu β} (h : c.Dormant) (tracing : Bool) (o : Operation β) :
    let report := o.apply tracing c
    c.state = .halted ∧ (report.cpu.state = .halted ↔ ¬ o.Starts) ∧
      (o = .step → report.answer = .refused .halted) ∧
      (o.IsRun → ∃ asked, report.answer = .ran (.finished 0) asked ∨
        report.answer = .ran (.failed .halted) asked) ∧
      (o.Idle → report.cpu.regs = c.regs ∧ (o ≠ .traceLine → report.cpu.bus = c.bus)) := by
  intro report
  have hrest : c.refuses = true := refuses_iff.mpr (.inl h.halted)
  refine ⟨h.halted, ⟨?_, fun ho => ?_⟩, ?_, ?_, ?_⟩
  · intro hhalted hstarts
    exact (o.started_apply tracing hstarts c).2 hhalted
  · exact (Operation.keepsRest_apply tracing ho hrest).halted h.halted
  · rintro rfl
    exact (Operation.answer_step tracing hrest).1
  · exact fun hrun => (Operation.answer_run tracing hrun hrest).1
  · intro ho
    have hpasses := Operation.passesOver tracing ho hrest
    exact ⟨hpasses.undisturbed.regs, hpasses.bus⟩

/-- An interrupt by hand moves a processor that was never started, and does not start it. -/
theorem dormant_until_started_interrupted :
    let c := (Operation.apply false (Cpu.powerOn stopAtStore .halt) (.interrupt .nmi)).cpu
    c.Dormant ∧ c.regs.sp = 0xFA ∧ c.state = .halted ∧
      (c.step false).cpu.regs = c.regs ∧
      ∃ asked, (Operation.apply false c (.run 9)).answer = .ran (.finished 0) asked ∨
        (Operation.apply false c (.run 9)).answer = .ran (.failed .halted) asked := by
  intro c
  have hdormant : c.Dormant := .apply (.powerOn stopAtStore .halt) false Interrupt.noConfusion
  obtain ⟨hhalted, -, -, -, hstep⟩ := dormant_until_started hdormant false .step
  obtain ⟨-, -, -, hrun, -⟩ := dormant_until_started hdormant false (.run 9)
  exact ⟨hdormant, by decide +kernel, hhalted, (hstep True.intro).1, hrun (Nat.succ_pos 8)⟩

/-- A processor that was never reset is resumed, and executes what lies where its program counter is
at power-on: in memory that is all zero, a software interrupt. -/
theorem resumed_without_reset :
    let operations : List (Operation Ram) := [.resume, .step]
    let last := (Operation.applyAll false (Cpu.powerOn .zeroed .halt) operations).2
    (∀ o ∈ operations, o ≠ .reset ∧ o ≠ .interrupt .reset) ∧
      (Operation.applyAll false (Cpu.powerOn .zeroed .halt) operations).1 = [.done, .done] ∧
      last.state = .fetching ∧ last.regs.sp = 0xFA ∧ last.regs.cycles = 7 := by
  refine ⟨?_, by decide +kernel⟩
  simp

end Nes6502
