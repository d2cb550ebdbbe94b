import Nes6502.Proofs.Service

/-!
# The latch of the non-maskable interrupt

The line of the non-maskable interrupt is latched, so that a trigger is neither missed nor taken
twice, whatever the host and the program do in between. The latch itself is one bit; what it stands
for is a matter of history: some trigger has come after everything that clears the latch, which is a
reset or a step that is not refused.

## What is proved

* `Course.latched_iff`: the latch is set exactly if a trigger is pending in the history.
* `Course.exists_trigger`: two services have a trigger between them.
* `nmi_taken_once`: from power-on on, the steps that service a non-maskable interrupt are the ones
  before which a trigger is pending, and each of them takes the pending triggers as one.
-/

set_option autoImplicit false

namespace Nes6502

variable {β : Type} [Bus β]

/-! ## Moments and the latch -/

namespace Moment

/-- The host triggers a non-maskable interrupt. -/
def Triggers (m : Moment β) : Prop := m.operation = .triggerNmi

/-- A reset, in one way or the other, or a step that is not refused. -/
def Clears (m : Moment β) : Prop :=
  m.operation = .reset ∨ m.operation = .interrupt .reset ∨ m.Steps

theorem latched_of_triggers (tracing : Bool) {m : Moment β} (h : m.Triggers) :
    (m.after tracing).nmiLatched = true := by
  unfold Moment.after
  rw [h]
  rfl

theorem unlatched_of_clears (tracing : Bool) {m : Moment β} (h : m.Clears) :
    (m.after tracing).nmiLatched = false := by
  unfold Moment.after
  rcases h with hreset | hreset | ⟨hstep, hrefuses⟩
  · rw [hreset]
    rfl
  · rw [hreset]
    rfl
  · rw [hstep]
    show (m.before.step tracing).cpu.nmiLatched = false
    rw [(Cpu.step_eq tracing hrefuses).2]
    rfl

/-- Nothing else touches the latch. -/
theorem latched_of_neither (tracing : Bool) {m : Moment β} (hsingle : m.operation.Single)
    (htrigger : ¬ m.Triggers) (hclear : ¬ m.Clears) :
    (m.after tracing).nmiLatched = m.before.nmiLatched := by
  obtain ⟨c, o⟩ := m
  cases o with
  | runUntil | runFor | run => exact hsingle.elim
  | reset => exact absurd (.inl rfl) hclear
  | triggerNmi => exact absurd rfl htrigger
  | step =>
    cases hrefuses : c.refuses with
    | false => exact absurd (.inr (.inr ⟨rfl, hrefuses⟩)) hclear
    | true =>
      show (c.step tracing).cpu.nmiLatched = c.nmiLatched
      rw [Cpu.step_of_refuses tracing hrefuses]
      rfl
  | interrupt kind =>
    show (c.interrupt kind).nmiLatched = c.nmiLatched
    rcases c.interrupt_cases kind with ⟨rfl, -⟩ | ⟨-, -, hkept⟩ | ⟨-, -, hentered⟩
    · exact absurd (.inr (.inl rfl)) hclear
    · rw [hkept]
    · rw [hentered]
      rfl
  | _ => rfl

end Moment

/-! ## Pending triggers -/

/-- A trigger has come after everything that clears the latch. -/
def Pending (moments : List (Moment β)) : Prop :=
  ∃ earlier m later, moments = earlier ++ m :: later ∧ m.Triggers ∧ ∀ n ∈ later, ¬ n.Clears

omit [Bus β] in
theorem not_pending_nil : ¬ Pending ([] : List (Moment β)) := by
  rintro ⟨earlier, m, later, heq, -⟩
  simp at heq

omit [Bus β] in
theorem pending_cons {m : Moment β} {moments : List (Moment β)} :
    Pending (m :: moments) ↔ Pending moments ∨ m.Triggers ∧ ∀ n ∈ moments, ¬ n.Clears := by
  constructor
  · rintro ⟨earlier, trigger, later, heq, htrigger, hlater⟩
    cases earlier with
    | nil =>
      obtain ⟨rfl, rfl⟩ := List.cons.inj heq
      exact .inr ⟨htrigger, hlater⟩
    | cons first earlier =>
      obtain ⟨rfl, rfl⟩ := List.cons.inj heq
      exact .inl ⟨earlier, trigger, later, rfl, htrigger, hlater⟩
  · rintro (⟨earlier, trigger, later, rfl, htrigger, hlater⟩ | ⟨htrigger, hlater⟩)
    · exact ⟨m :: earlier, trigger, later, rfl, htrigger, hlater⟩
    · exact ⟨[], m, moments, rfl, htrigger, hlater⟩

namespace Course

variable {tracing : Bool} {c d : Cpu β} {moments : List (Moment β)}

/-- The latch is set exactly if a trigger is pending, or if it was set at the beginning and nothing
has cleared it. -/
theorem latched_iff (h : Course tracing c moments d) :
    d.nmiLatched = true ↔
      Pending moments ∨ c.nmiLatched = true ∧ ∀ m ∈ moments, ¬ m.Clears := by
  induction h with
  | refl c => simp [not_pending_nil]
  | @moment c d o rest hsingle _ ih =>
    rw [ih, pending_cons, List.forall_mem_cons]
    -- the first moment decides about the latch, and all later ones start from there
    by_cases htrigger : (⟨c, o⟩ : Moment β).Triggers
    · have hlatched : (o.apply tracing c).cpu.nmiLatched = true :=
        Moment.latched_of_triggers tracing htrigger
      grind
    by_cases hclear : (⟨c, o⟩ : Moment β).Clears
    · have hunlatched : (o.apply tracing c).cpu.nmiLatched = false :=
        Moment.unlatched_of_clears tracing hclear
      simp [htrigger, hclear, hunlatched]
    · have hsame : (o.apply tracing c).cpu.nmiLatched = c.nmiLatched :=
        Moment.latched_of_neither tracing hsingle htrigger hclear
      simp [htrigger, hclear, hsame]

/-- After the latch was cleared, only a trigger sets it again. -/
theorem exists_trigger (h : Course tracing c moments d) (hclear : c.nmiLatched = false)
    (hlatched : d.nmiLatched = true) : ∃ m ∈ moments, m.Triggers := by
  rcases h.latched_iff.mp hlatched with ⟨earlier, m, later, rfl, htrigger, -⟩ | ⟨hset, -⟩
  · exact ⟨m, by simp, htrigger⟩
  · rw [hclear] at hset
    cases hset

end Course

/-- No trigger is lost and none is taken twice. From power-on on, and at every moment of a history,
the latch is set exactly if a trigger is pending: one has come after the last reset and the last
step that was not refused. Runs count as their steps. A step services a non-maskable interrupt
exactly if it is not refused and a trigger is pending, whatever the line and the mask are; it never
services more than one interrupt. Between two services lies a trigger, so triggers before one
service count as one. Only a trigger sets the latch, and only a reset or the service takes it away:
refused steps, halts, direct interrupts and services of the interrupt line do not. On the bus, the
service comes before everything else that the step does. -/
theorem nmi_taken_once (tracing : Bool) (bus : β) (policy : UndefinedPolicy)
    (operations : List (Operation β)) :
    let start := Cpu.powerOn bus policy
    let history := Operation.history tracing start operations
    ((Operation.applyAll tracing start operations).2.nmiLatched = true ↔ Pending history) ∧
      (∀ earlier m later, history = earlier ++ m :: later →
        (m.before.nmiLatched = true ↔ Pending earlier) ∧
          (.nmi ∈ m.serviced tracing ↔ m.Steps ∧ Pending earlier) ∧
          (m.serviced tracing).length ≤ 1 ∧
          (m.Triggers → (m.after tracing).nmiLatched = true) ∧
          (m.Clears → (m.after tracing).nmiLatched = false) ∧
          (¬ m.Triggers → ¬ m.Clears ∨ .irq ∈ m.serviced tracing →
            (m.after tracing).nmiLatched = m.before.nmiLatched)) ∧
      (∀ earlier m between n later, history = earlier ++ m :: (between ++ n :: later) →
        .nmi ∈ m.serviced tracing → .nmi ∈ n.serviced tracing → ∃ x ∈ between, x.Triggers) ∧
      ∀ c : Cpu (Recorded β), c.refuses = false →
        ∃ log, (c.step tracing).cpu.bus.accesses = c.bus.accesses ++ log ∧
          ServingAccesses c.regs (c.step tracing).serviced.head? log := by
  intro start history
  have hcourse : Course tracing start history (Operation.applyAll tracing start operations).2 :=
    Operation.course_history tracing start operations
  have hpending {moments : List (Moment β)} {d : Cpu β} (h : Course tracing start moments d) :
      d.nmiLatched = true ↔ Pending moments := by
    rw [h.latched_iff]
    simp [start, Cpu.powerOn]
  refine ⟨hpending hcourse, ?_, ?_, fun c hrefuses => c.accesses_step tracing hrefuses⟩
  · intro earlier m later heq
    rw [heq] at hcourse
    obtain ⟨hearlier, hsingle, -⟩ := hcourse.split_cons
    refine ⟨hpending hearlier, ?_, m.length_serviced_le tracing,
      Moment.latched_of_triggers tracing, Moment.unlatched_of_clears tracing, ?_⟩
    · rw [m.nmi_mem_serviced tracing, hpending hearlier]
    · rintro htrigger (hclear | hirq)
      · exact Moment.latched_of_neither tracing hsingle htrigger hclear
      · obtain ⟨hsteps, hunlatched, -⟩ := (m.irq_mem_serviced tracing).mp hirq
        rw [Moment.unlatched_of_clears tracing (.inr (.inr hsteps)), hunlatched]
  · intro earlier m between n later heq hfirst hsecond
    rw [heq] at hcourse
    have hcleared : (m.after tracing).nmiLatched = false :=
      Moment.unlatched_of_clears tracing (.inr (.inr ((m.nmi_mem_serviced tracing).mp hfirst).1))
    exact hcourse.between.exists_trigger hcleared ((n.nmi_mem_serviced tracing).mp hsecond).2

/-- A program that does nothing, and a handler at `0x0400` that does nothing. -/
def idleRam : Ram :=
  ((Ram.zeroed.load 0x0000 [0xEA]).load 0x0400 [0xEA, 0xEA]).load 0xFFFA [0x00, 0x04]

/-- Two triggers are taken as one, and a third one before the next step is taken again. -/
theorem nmi_taken_once_again :
    ∃ earlier m between n later,
      Operation.history false (.powerOn idleRam .halt)
          [.reset, .triggerNmi, .triggerNmi, .step, .triggerNmi, .step] =
        earlier ++ m :: (between ++ n :: later) ∧
      Pending earlier ∧ .nmi ∈ m.serviced false ∧ (m.after false).nmiLatched = false ∧
        .nmi ∈ n.serviced false ∧ ∃ x ∈ between, x.Triggers := by
  obtain ⟨-, hmoments, hbetween, -⟩ := nmi_taken_once false idleRam .halt
    [.reset, .triggerNmi, .triggerNmi, .step, .triggerNmi, .step]
  have hhistory : Operation.history false (.powerOn idleRam .halt)
      [.reset, .triggerNmi, .triggerNmi, .step, .triggerNmi, .step] =
    [_, _, _] ++ _ :: ([_] ++ [_]) := rfl
  have hmoment := hmoments _ _ _ hhistory
  refine ⟨_, _, _, _, _, hhistory, (hmoment.2.1.mp ?_).2, ?first, ?_, ?second,
    hbetween _ _ _ _ _ hhistory ?first ?second⟩ <;> decide +kernel

end Nes6502
