import Nes6502.Cpu.Run

/-!
# Runs as sequences of steps

A run is a loop around `Cpu.step` that looks at the halt request and consults a watcher before each
round. This module takes the loop apart: first some rounds in which nothing stopped it, then one of
the ways in which it can end.

## What is proved

* `Cpu.continueUntil_rounds`: rounds at the beginning of a run can be taken one after the other.
* `Cpu.continueUntil_cases`: every run is a number of such rounds and an end, or it has used up the
  bound on its rounds.
* `Cpu.continueUntil_stable`: the bound makes no difference to a run that has ended within it.
* `Cpu.continueUntil_invariant`: what steps and requests to halt preserve, a run preserves.
* `Cpu.continueUntil_agree`: watchers that say the same make the same run.
* `Cpu.Steps`, the plain sequence of successful steps that is left when the loop is forgotten.
-/

set_option autoImplicit false

namespace Nes6502

namespace Cpu

variable {σ β : Type} [Bus β]

/-! ## Single steps -/

/-- Between two instructions, with no request to halt. -/
structure Ready {β : Type} (c : Cpu β) : Prop where
  fetching : c.state = .fetching
  unrequested : c.haltRequested = false

theorem Ready.refuses {β : Type} {c : Cpu β} (h : c.Ready) : c.refuses = false := by
  simp only [Cpu.refuses, h.fetching, h.unrequested]
  rfl

theorem Ready.setPolicy {β : Type} {c : Cpu β} (h : c.Ready) (policy : UndefinedPolicy) :
    (c.setPolicy policy).Ready :=
  ⟨h.fetching, h.unrequested⟩

/-- Ready for the next instruction, with no interrupt that could come before it. -/
structure Quiet {β : Type} (c : Cpu β) : Prop extends Ready c where
  unlatched : c.nmiLatched = false
  low : c.irqLine = false

theorem Quiet.dueInterrupt {β : Type} {c : Cpu β} (h : c.Quiet) : c.dueInterrupt = none := by
  simp [Cpu.dueInterrupt, h.unlatched, h.low]

/-- A refused step changes nothing but that the processor is halted. -/
theorem step_of_refuses (tracing : Bool) {c : Cpu β} (h : c.refuses = true) :
    c.step tracing = ⟨.error .halted, c.setState .halted, []⟩ := by
  simp only [step, h, if_true]

/-- The only fault that a step meets, if it is not refused, is an undefined opcode. -/
theorem step_result (tracing : Bool) {c : Cpu β} (h : c.refuses = false) :
    (c.step tracing).result = .ok () ∨
      ∃ opcode address, (c.step tracing).result = .error (.undefinedOpcode opcode address) := by
  simp only [step, h, Bool.false_eq_true, if_false, executeNext]
  split
  · exact .inl rfl
  · simp only [meetUndefined]
    split
    · exact .inr ⟨_, _, rfl⟩
    · exact .inl rfl

theorem refuses_of_step_halted {tracing : Bool} {c : Cpu β}
    (h : (c.step tracing).result = .error .halted) : c.refuses = true := by
  cases hrefuses : c.refuses with
  | true => rfl
  | false =>
    rcases step_result tracing hrefuses with hok | ⟨opcode, address, hfault⟩
    · rw [hok] at h
      cases h
    · rw [hfault] at h
      cases h

theorem refuses_of_step_ok {tracing : Bool} {c : Cpu β} (h : (c.step tracing).result = .ok ()) :
    c.refuses = false := by
  cases hrefuses : c.refuses with
  | false => rfl
  | true =>
    rw [step_of_refuses tracing hrefuses] at h
    cases h

/-! ## Sequences of steps -/

/-- A number of successful steps leads from one state to another. -/
inductive Steps (tracing : Bool) : Nat → Cpu β → Cpu β → Prop
  | refl (c : Cpu β) : Steps tracing 0 c c
  | step {k : Nat} {c d : Cpu β} (hok : (c.step tracing).result = .ok ())
      (rest : Steps tracing k (c.step tracing).cpu d) : Steps tracing (k + 1) c d

theorem Steps.trans {tracing : Bool} {j k : Nat} {c d e : Cpu β} (first : Steps tracing j c d)
    (last : Steps tracing k d e) : Steps tracing (j + k) c e := by
  induction first with
  | refl c => rwa [Nat.zero_add]
  | step hok _ ih =>
    rw [Nat.add_right_comm]
    exact .step hok (ih last)

/-- Steps are deterministic: a longer sequence goes through the end of a shorter one. -/
theorem Steps.split {tracing : Bool} {j k : Nat} {c d e : Cpu β} (first : Steps tracing j c d)
    (whole : Steps tracing (j + k) c e) : Steps tracing k d e := by
  induction first with
  | refl c => rwa [Nat.zero_add] at whole
  | step _ _ ih =>
    rw [Nat.add_right_comm] at whole
    cases whole with
    | step _ rest => exact ih rest

theorem Steps.unique {tracing : Bool} {k : Nat} {c d e : Cpu β} (first : Steps tracing k c d)
    (second : Steps tracing k c e) : d = e := by
  cases first.split (k := 0) second
  rfl

/-- The processor after a number of steps, whether they succeed or not. -/
def afterSteps (tracing : Bool) : (steps : Nat) → Cpu β → Cpu β
  | 0, c => c
  | steps + 1, c => ((afterSteps tracing steps c).step tracing).cpu

theorem afterSteps_succ (tracing : Bool) (k : Nat) (c : Cpu β) :
    afterSteps tracing (k + 1) c = afterSteps tracing k (c.step tracing).cpu := by
  induction k with
  | zero => rfl
  | succ k ih => rw [afterSteps, ih, afterSteps]

theorem Steps.afterSteps_eq {tracing : Bool} {k : Nat} {c d : Cpu β} (steps : Steps tracing k c d) :
    c.afterSteps tracing k = d := by
  induction steps with
  | refl c => rfl
  | step _ _ ih => rw [afterSteps_succ, ih]

/-- One step more. -/
theorem Steps.succ {tracing : Bool} {k : Nat} {c : Cpu β}
    (steps : Steps tracing k c (afterSteps tracing k c))
    (hok : ((afterSteps tracing k c).step tracing).result = .ok ()) :
    Steps tracing (k + 1) c (afterSteps tracing (k + 1) c) :=
  steps.trans (.step hok (.refl _))

/-- Each of the steps succeeds. -/
theorem Steps.result_afterSteps {tracing : Bool} {i k : Nat} {c d : Cpu β}
    (steps : Steps tracing k c d) (hi : i < k) :
    ((afterSteps tracing i c).step tracing).result = .ok () := by
  induction steps generalizing i with
  | refl => exact absurd hi (Nat.not_lt_zero i)
  | step hok _ ih =>
    cases i with
    | zero => exact hok
    | succ i =>
      rw [afterSteps_succ]
      exact ih (Nat.lt_of_succ_lt_succ hi)

/-- What every successful step preserves, a sequence of them preserves. -/
theorem Steps.invariant {tracing : Bool} {I : Cpu β → Prop}
    (hstep : ∀ c, (c.step tracing).result = .ok () → I c → I (c.step tracing).cpu)
    {k : Nat} {c d : Cpu β} (steps : Steps tracing k c d) (h : I c) : I d := by
  induction steps with
  | refl c => exact h
  | step hok _ ih => exact ih (hstep _ hok h)

/-! ## Rounds of a run -/

/-- Rounds in which the watcher neither stops the run nor asks to halt, and the step succeeds. -/
inductive Rounds (tracing : Bool) (w : Watcher σ β) : Nat → σ → Cpu β → σ → Cpu β → Prop
  | refl (s : σ) (c : Cpu β) : Rounds tracing w 0 s c s c
  | round {k : Nat} {s t : σ} {c d : Cpu β} (hfree : c.haltRequested = false)
      (hgo : (w.observe s c).1 = ⟨false, false⟩) (hok : (c.step tracing).result = .ok ())
      (rest : Rounds tracing w k (w.observe s c).2 (c.step tracing).cpu t d) :
      Rounds tracing w (k + 1) s c t d

theorem Rounds.steps {tracing : Bool} {w : Watcher σ β} {k : Nat} {s t : σ} {c d : Cpu β}
    (rounds : Rounds tracing w k s c t d) : Steps tracing k c d := by
  induction rounds with
  | refl s c => exact .refl c
  | round _ _ hok _ ih => exact .step hok ih

/-- The ways in which a run ends, by the state before the round in which it does. -/
inductive RunEnd (tracing : Bool) (w : Watcher σ β) (executed : Nat) (s : σ) (c : Cpu β) :
    RunResult → Cpu β → σ → Prop
  /-- A halt was requested already. -/
  | requested (h : c.haltRequested = true) :
      RunEnd tracing w executed s c (.finished executed) (c.setState .halted) s
  /-- The watcher stops the run; it may ask to halt as well. -/
  | stopped (hfree : c.haltRequested = false) (hstop : (w.observe s c).1.stop = true) :
      RunEnd tracing w executed s c (.finished executed)
        (if (w.observe s c).1.requestHalt then c.requestHalt else c) (w.observe s c).2
  /-- The watcher asks to halt and does not stop the run. -/
  | asked (hfree : c.haltRequested = false) (hask : (w.observe s c).1 = ⟨false, true⟩) :
      RunEnd tracing w executed s c (.finished executed) c.halt (w.observe s c).2
  /-- The step fails. -/
  | failed {fault : Fault} (hfree : c.haltRequested = false)
      (hgo : (w.observe s c).1 = ⟨false, false⟩) (hfault : (c.step tracing).result = .error fault) :
      RunEnd tracing w executed s c (.failed fault) (c.step tracing).cpu (w.observe s c).2

/-- One more round of a run. -/
theorem continueUntil_round {tracing : Bool} {w : Watcher σ β} {s : σ} {c : Cpu β}
    (hfree : c.haltRequested = false) (hgo : (w.observe s c).1 = ⟨false, false⟩)
    (hok : (c.step tracing).result = .ok ()) (rounds executed : Nat) (events : Array Event) :
    c.continueUntil tracing w (rounds + 1) executed s events =
      (c.step tracing).cpu.continueUntil tracing w rounds (executed + 1) (w.observe s c).2
        (events ++ (c.step tracing).events) := by
  rcases hobserve : w.observe s c with ⟨verdict, t⟩
  rw [hobserve] at hgo
  cases hgo
  simp [continueUntil, hfree, hobserve, hok]

theorem continueUntil_rounds {tracing : Bool} {w : Watcher σ β} {k : Nat} {s t : σ} {c d : Cpu β}
    (h : Rounds tracing w k s c t d) (rounds executed : Nat) (events : Array Event) :
    ∃ events', c.continueUntil tracing w (rounds + k) executed s events =
      d.continueUntil tracing w rounds (executed + k) t events' := by
  induction h generalizing executed events with
  | refl s c => exact ⟨events, rfl⟩
  | @round k s t c d hfree hgo hok _ ih =>
    obtain ⟨events', h⟩ := ih (executed + 1) (events ++ (c.step tracing).events)
    refine ⟨events', ?_⟩
    rw [← Nat.add_assoc, continueUntil_round hfree hgo hok, h, Nat.add_right_comm, Nat.add_assoc]

/-- The end of a run is what the loop makes of the state before its last round, however many rounds
would be left. -/
theorem continueUntil_end {tracing : Bool} {w : Watcher σ β} {executed : Nat} {s t : σ}
    {c d : Cpu β} {result : RunResult} (h : RunEnd tracing w executed s c result d t)
    (events : Array Event) :
    ∃ events', ∀ rounds, c.continueUntil tracing w (rounds + 1) executed s events =
      ⟨result, d, t, events'⟩ := by
  rcases hobserve : w.observe s c with ⟨verdict, next⟩
  cases h with
  | requested h =>
    simp only [continueUntil, h, if_true]
    exact ⟨_, fun _ => rfl⟩
  | stopped hfree hstop =>
    rw [hobserve] at hstop ⊢
    have hstop : verdict.stop = true := hstop
    simp only [continueUntil, hfree, hobserve, hstop, Bool.false_eq_true, if_false, if_true]
    exact ⟨_, fun _ => rfl⟩
  | asked hfree hask =>
    rw [hobserve] at hask
    cases hask
    -- the step is refused, because the watcher has asked to halt just before
    have hrefuses : c.requestHalt.refuses = true := rfl
    simp only [continueUntil, hfree, hobserve, Bool.false_eq_true, if_false, if_true,
      step_of_refuses tracing hrefuses]
    exact ⟨_, fun _ => rfl⟩
  | @failed fault hfree hgo hfault =>
    rw [hobserve] at hgo
    cases hgo
    have hkept : ¬ (fault = .halted ∧ (c.step tracing).cpu.haltRequested = true) := by
      rintro ⟨rfl, hrequested⟩
      rw [step_of_refuses tracing (refuses_of_step_halted hfault)] at hrequested
      exact absurd (hfree.symm.trans hrequested) (by decide)
    refine ⟨events ++ (c.step tracing).events, fun rounds => ?_⟩
    simp [continueUntil, hfree, hobserve, hfault, hkept]

/-- A state of a run is followed by another round, or the run ends with it. -/
theorem round_or_end (tracing : Bool) (w : Watcher σ β) (executed : Nat) (s : σ) (c : Cpu β) :
    (c.haltRequested = false ∧ (w.observe s c).1 = ⟨false, false⟩ ∧
        (c.step tracing).result = .ok ()) ∨
      ∃ result d t, RunEnd tracing w executed s c result d t := by
  cases hfree : c.haltRequested with
  | true => exact .inr ⟨_, _, _, .requested hfree⟩
  | false =>
    rcases hverdict : (w.observe s c).1 with ⟨stop, ask⟩
    cases stop with
    | true => exact .inr ⟨_, _, _, .stopped hfree (by rw [hverdict])⟩
    | false =>
      cases ask with
      | true => exact .inr ⟨_, _, _, .asked hfree hverdict⟩
      | false =>
        cases hresult : (c.step tracing).result with
        | ok => exact .inl ⟨rfl, rfl, rfl⟩
        | error fault => exact .inr ⟨_, _, _, .failed hfree hverdict hresult⟩

/-- A run is a number of rounds and an end, unless its rounds are used up first. -/
theorem continueUntil_cases (tracing : Bool) (w : Watcher σ β) (rounds executed : Nat) (s : σ)
    (events : Array Event) (c : Cpu β) :
    (∃ t d events', Rounds tracing w rounds s c t d ∧
        c.continueUntil tracing w rounds executed s events = ⟨.unfinished, d, t, events'⟩) ∨
      ∃ k t d result e u events', k < rounds ∧ Rounds tracing w k s c t d ∧
        RunEnd tracing w (executed + k) t d result e u ∧
        c.continueUntil tracing w rounds executed s events = ⟨result, e, u, events'⟩ := by
  induction rounds generalizing executed s events c with
  | zero => exact .inl ⟨s, c, events, .refl s c, rfl⟩
  | succ rounds ih =>
    rcases round_or_end tracing w executed s c with ⟨hfree, hgo, hok⟩ | ⟨result, d, t, hend⟩
    · rw [continueUntil_round hfree hgo hok]
      rcases ih (executed + 1) (w.observe s c).2 (events ++ (c.step tracing).events)
          (c.step tracing).cpu with ⟨t, d, events', hrounds, h⟩ |
          ⟨k, t, d, result, e, u, events', hk, hrounds, hend, h⟩
      · exact .inl ⟨t, d, events', .round hfree hgo hok hrounds, h⟩
      · refine .inr ⟨k + 1, t, d, result, e, u, events', Nat.succ_lt_succ hk,
          .round hfree hgo hok hrounds, ?_, h⟩
        rwa [Nat.add_right_comm] at hend
    · obtain ⟨events', h⟩ := continueUntil_end hend events
      exact .inr ⟨0, s, c, result, d, t, events', Nat.succ_pos rounds, .refl s c, hend, h rounds⟩

/-- Rounds within the bound, and then an end: that is how the run ends. -/
theorem runUntil_of_rounds {tracing : Bool} {w : Watcher σ β} {k bound : Nat} {s t u : σ}
    {c d e : Cpu β} {result : RunResult} (rounds : Rounds tracing w k s c t d) (hk : k < bound)
    (hend : RunEnd tracing w k t d result e u) :
    (c.runUntil tracing bound w s).result = result ∧ (c.runUntil tracing bound w s).cpu = e := by
  obtain ⟨events, hrun⟩ := continueUntil_rounds rounds (bound - k - 1 + 1) 0 #[]
  obtain ⟨events', hlast⟩ := continueUntil_end hend events
  have hbound : bound - k - 1 + 1 + k = bound := by omega
  rw [Nat.zero_add, hbound, hlast] at hrun
  rw [runUntil, hrun]
  exact ⟨rfl, rfl⟩

/-- A run that has ended within the bound on its rounds is the same with a larger bound. -/
theorem continueUntil_stable {tracing : Bool} {w : Watcher σ β} {rounds executed : Nat} {s : σ}
    {events : Array Event} {c : Cpu β}
    (h : (c.continueUntil tracing w rounds executed s events).result ≠ .unfinished) (more : Nat) :
    c.continueUntil tracing w (rounds + more) executed s events =
      c.continueUntil tracing w rounds executed s events := by
  induction rounds generalizing executed s events c with
  | zero => exact absurd rfl h
  | succ rounds ih =>
    rw [Nat.add_right_comm]
    rcases round_or_end tracing w executed s c with ⟨hfree, hgo, hok⟩ | ⟨result, d, t, hend⟩
    · rw [continueUntil_round hfree hgo hok] at h
      rw [continueUntil_round hfree hgo hok, continueUntil_round hfree hgo hok]
      exact ih h
    · obtain ⟨events', hreport⟩ := continueUntil_end hend events
      rw [hreport, hreport]

/-- What steps and requests to halt preserve, a run preserves. -/
theorem continueUntil_invariant {tracing : Bool} {I : Cpu β → Prop}
    (hstep : ∀ c, I c → I (c.step tracing).cpu) (hrequest : ∀ c, I c → I c.requestHalt)
    (hhalted : ∀ c, I c → I (c.setState .halted)) (w : Watcher σ β) (rounds executed : Nat) (s : σ)
    (events : Array Event) {c : Cpu β} (h : I c) :
    I (c.continueUntil tracing w rounds executed s events).cpu := by
  have hrounds {k t d} (rounds : Rounds tracing w k s c t d) : I d :=
    rounds.steps.invariant (fun c _ => hstep c) h
  rcases continueUntil_cases tracing w rounds executed s events c with
    ⟨t, d, events', hrun, hreport⟩ | ⟨k, t, d, result, e, u, events', _, hrun, hend, hreport⟩
  · rw [hreport]
    exact hrounds hrun
  · rw [hreport]
    have hd : I d := hrounds hrun
    cases hend with
    | requested => exact hhalted _ hd
    | stopped =>
      show I (if _ then d.requestHalt else d)
      split
      · exact hrequest _ hd
      · exact hd
    | asked => exact hhalted _ (hrequest _ hd)
    | failed => exact hstep _ hd

/-! ## Watchers that agree -/

/-- The end of a run under one watcher is its end under another, if both say the same. -/
theorem RunEnd.agree {τ : Type} {tracing : Bool} {w : Watcher σ β} {w' : Watcher τ β}
    {executed : Nat} {s next : σ} {t : τ} {c d : Cpu β} {result : RunResult}
    (hend : RunEnd tracing w executed s c result d next)
    (h : (w.observe s c).1 = (w'.observe t c).1) :
    ∃ next', RunEnd tracing w' executed t c result d next' := by
  cases hend with
  | requested hrequested => exact ⟨_, .requested hrequested⟩
  | stopped hfree hstop =>
    rw [h] at hstop ⊢
    exact ⟨_, .stopped hfree hstop⟩
  | asked hfree hask => exact ⟨_, .asked hfree (h ▸ hask)⟩
  | failed hfree hgo hfault => exact ⟨_, .failed hfree (h ▸ hgo) hfault⟩

/-- Two watchers that say the same as long as both let the run go on make the same run. -/
theorem continueUntil_agree {τ : Type} {tracing : Bool} {w : Watcher σ β} {w' : Watcher τ β}
    (related : σ → τ → Cpu β → Prop)
    (hsame : ∀ s t c, related s t c → (w.observe s c).1 = (w'.observe t c).1)
    (hnext : ∀ s t c, related s t c → (w.observe s c).1 = ⟨false, false⟩ →
      related (w.observe s c).2 (w'.observe t c).2 (c.step tracing).cpu)
    (rounds executed : Nat) {s : σ} {t : τ} (events events' : Array Event) {c : Cpu β}
    (h : related s t c) :
    let report := c.continueUntil tracing w rounds executed s events
    let report' := c.continueUntil tracing w' rounds executed t events'
    report.result = report'.result ∧ report.cpu = report'.cpu := by
  induction rounds generalizing executed s t events events' c with
  | zero => exact ⟨rfl, rfl⟩
  | succ rounds ih =>
    intro report report'
    have hverdict := hsame s t c h
    rcases round_or_end tracing w executed s c with ⟨hfree, hgo, hok⟩ | ⟨result, d, next, hend⟩
    · have hround := continueUntil_round hfree hgo hok rounds executed events
      have hround' := continueUntil_round hfree (hverdict ▸ hgo) hok rounds executed events'
      simp only [report, report', hround, hround']
      exact ih _ _ _ (hnext s t c h hgo)
    · obtain ⟨next', hend'⟩ := hend.agree hverdict
      obtain ⟨_, hreport⟩ := continueUntil_end hend events
      obtain ⟨_, hreport'⟩ := continueUntil_end hend' events'
      simp only [report, report', hreport, hreport']
      exact ⟨trivial, trivial⟩

/-! ## Judges -/

/-- The watcher and the processor at the questions of a run. -/
def question (tracing : Bool) (w : Watcher σ β) (s : σ) (c : Cpu β) : Nat → σ × Cpu β
  | 0 => (s, c)
  | asked + 1 =>
    let before := question tracing w s c asked
    ((w.observe before.1 before.2).2, (before.2.step tracing).cpu)

/-- The judge who knows beforehand what a watcher will say. -/
def foresee (tracing : Bool) (w : Watcher σ β) (s : σ) (c : Cpu β) : Nat → Cpu β → Verdict :=
  fun asked _ =>
    (w.observe (question tracing w s c asked).1 (question tracing w s c asked).2).1

/-- A judge who goes by the number of questions can do all that a watcher can. -/
theorem exists_judge (tracing : Bool) (w : Watcher σ β) (s : σ) (c : Cpu β) (rounds : Nat) :
    ∃ judge,
      (c.runUntil tracing rounds (.counting judge) 0).result =
          (c.runUntil tracing rounds w s).result ∧
        (c.runUntil tracing rounds (.counting judge) 0).cpu =
          (c.runUntil tracing rounds w s).cpu := by
  refine ⟨foresee tracing w s c, ?_⟩
  refine continueUntil_agree (fun asked t d => question tracing w s c asked = (t, d)) ?_ ?_ rounds 0
    #[] #[] rfl
  · intro asked t d hasked
    show foresee tracing w s c asked d = _
    simp only [foresee, hasked]
  · intro asked t d hasked _
    show question tracing w s c (asked + 1) = _
    simp only [question, hasked]

/-! ## Budgets -/

theorem Steps.rounds_budget {tracing : Bool} {k limit : Nat} (asked : Nat) {c d : Cpu β}
    (steps : Steps tracing k c d) (h : asked + k ≤ limit) :
    Rounds tracing (.budget limit) k asked c (asked + k) d := by
  induction steps generalizing asked with
  | refl c => exact .refl asked c
  | @step k c d hok _ ih =>
    have hfree : c.haltRequested = false := by
      have := refuses_of_step_ok hok
      simp only [refuses, Bool.or_eq_false_iff] at this
      exact this.1
    have hgo : ((Watcher.budget limit : Watcher Nat β).observe asked c).1 = ⟨false, false⟩ := by
      simp only [Watcher.budget, Watcher.counting, Verdict.mk.injEq, decide_eq_false_iff_not]
      exact ⟨by omega, trivial⟩
    have hrest := ih (asked + 1) (by omega)
    rw [Nat.add_right_comm, Nat.add_assoc] at hrest
    exact .round hfree hgo hok hrest

/-- A watcher with a budget counts the rounds, and lets none begin that exceeds it. -/
theorem Rounds.budget {tracing : Bool} {k limit asked t : Nat} {c d : Cpu β}
    (rounds : Rounds tracing (.budget limit) k asked c t d) (h : asked ≤ limit) :
    t = asked + k ∧ asked + k ≤ limit := by
  generalize hw : (Watcher.budget limit : Watcher Nat β) = w at rounds
  induction rounds with
  | refl s c => exact ⟨rfl, h⟩
  | @round k s t c d _ hgo _ _ ih =>
    subst hw
    simp only [Watcher.budget, Watcher.counting, Verdict.mk.injEq, decide_eq_false_iff_not] at hgo
    obtain ⟨ht, hle⟩ := ih (show s + 1 ≤ limit by omega)
    simp only [Watcher.budget, Watcher.counting] at ht hle
    omega

/-- Steps within the budget, and then an end: that is how the run ends. -/
theorem runFor_of_end {tracing : Bool} {n k t : Nat} {c d e : Cpu β} {result : RunResult}
    (steps : Steps tracing k c d) (h : k ≤ n) (hend : RunEnd tracing (.budget n) k k d result e t) :
    (c.runFor tracing n).result = result ∧ (c.runFor tracing n).cpu = e := by
  have hrounds : Rounds tracing (.budget n) k 0 c k d := by
    have := steps.rounds_budget 0 (show 0 + k ≤ n by omega)
    rwa [Nat.zero_add] at this
  exact runUntil_of_rounds hrounds (Nat.lt_succ_of_le h) hend

/-- As many steps as the budget allows make a run that finishes. -/
theorem runFor_of_steps {tracing : Bool} {n : Nat} {c d : Cpu β} (steps : Steps tracing n c d)
    (hfree : d.haltRequested = false) :
    (c.runFor tracing n).result = .finished n ∧ (c.runFor tracing n).cpu = d := by
  have hstop : ((Watcher.budget n : Watcher Nat β).observe n d).1.stop = true := by
    simp [Watcher.budget, Watcher.counting]
  exact runFor_of_end steps (Nat.le_refl n) (.stopped hfree hstop)

/-- A run with a budget is a number of steps that stays within it; then the budget is spent, or a
halt was requested, or the next step fails. -/
theorem runFor_cases (tracing : Bool) (n : Nat) (c : Cpu β) :
    ∃ k d, k ≤ n ∧ Steps tracing k c d ∧
      (d.haltRequested = true ∧ (c.runFor tracing n).result = .finished k ∧
          (c.runFor tracing n).cpu = d.setState .halted ∨
        d.haltRequested = false ∧ k = n ∧ (c.runFor tracing n).result = .finished n ∧
          (c.runFor tracing n).cpu = d ∨
        d.haltRequested = false ∧ k < n ∧ ∃ fault, (d.step tracing).result = .error fault ∧
          (c.runFor tracing n).result = .failed fault ∧
          (c.runFor tracing n).cpu = (d.step tracing).cpu) := by
  rcases continueUntil_cases tracing (.budget n) (n + 1) 0 0 #[] c with
    ⟨t, d, events, hrounds, _⟩ | ⟨k, t, d, result, e, u, events, _, hrounds, hend, hreport⟩
  · obtain ⟨-, hle⟩ := hrounds.budget (Nat.zero_le n)
    omega
  · obtain ⟨rfl, hle⟩ := hrounds.budget (Nat.zero_le n)
    rw [Nat.zero_add] at hend hle
    have hreport : c.runFor tracing n = ⟨result, e, u, events⟩ := hreport
    refine ⟨k, d, hle, hrounds.steps, ?_⟩
    rw [hreport]
    cases hend with
    | requested h => exact .inl ⟨h, rfl, rfl⟩
    | stopped hfree hstop =>
      have hspent : n ≤ k := by simpa [Watcher.budget, Watcher.counting] using hstop
      have hk : k = n := Nat.le_antisymm hle hspent
      exact .inr (.inl ⟨hfree, hk, by rw [hk], rfl⟩)
    | asked _ hask => simp [Watcher.budget, Watcher.counting] at hask
    | failed hfree hgo hfault =>
      have hleft : k < n := by simpa [Watcher.budget, Watcher.counting] using hgo
      exact .inr (.inr ⟨hfree, hleft, _, hfault, rfl, rfl⟩)

/-- A run with a budget that finishes has made the steps that it counts. It has left the state after
them, or halted there. -/
theorem runFor_finished {tracing : Bool} {n k : Nat} {c : Cpu β}
    (h : (c.runFor tracing n).result = .finished k) :
    ∃ d, Steps tracing k c d ∧ k ≤ n ∧
      (d.haltRequested = true ∧ (c.runFor tracing n).cpu = d.setState .halted ∨
        d.haltRequested = false ∧ k = n ∧ (c.runFor tracing n).cpu = d) := by
  obtain ⟨j, d, hle, hsteps, ⟨hrequested, hresult, hcpu⟩ | ⟨hfree, hspent, hresult, hcpu⟩ |
    ⟨-, -, fault, -, hresult, -⟩⟩ := runFor_cases tracing n c
  · obtain rfl : k = j := RunResult.finished.inj (h.symm.trans hresult)
    exact ⟨d, hsteps, hle, .inl ⟨hrequested, hcpu⟩⟩
  · obtain rfl : k = n := RunResult.finished.inj (h.symm.trans hresult)
    subst hspent
    exact ⟨d, hsteps, hle, .inr ⟨hfree, rfl, hcpu⟩⟩
  · cases h.symm.trans hresult

theorem exists_steps_of_finished {tracing : Bool} {n k : Nat} {c : Cpu β}
    (h : (c.runFor tracing n).result = .finished k) : ∃ d, Steps tracing k c d := by
  obtain ⟨d, hsteps, -⟩ := runFor_finished h
  exact ⟨d, hsteps⟩

end Cpu

end Nes6502
