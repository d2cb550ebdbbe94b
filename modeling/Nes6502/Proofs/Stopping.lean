import Nes6502.Proofs.Halting

/-!
# Stopping points

A run looks at the halt request, consults its watcher and takes a step, again and again. What comes
of it can be said without the loop, of the states that lie one step after the other: the run stops
at the first of them at which a halt is requested, or at which the watcher says to stop or asks to
halt, if the steps up to there succeed. A request that stands already is seen before the watcher is
consulted; one that the watcher makes, or the bus in the middle of an instruction, is seen in time
for the next instruction.

The watcher may remember what it was asked before, so its opinion of a state depends on the states
before it. `Cpu.question` gives the watcher and the processor together, and `Watcher.recording` is
a watcher that can tell afterwards what it was asked about.

## What is proved

* `Cpu.rounds_iff`: the rounds of a run are the steps that lead past no stopping point.
* `Cpu.runUntil_finished_iff`, `Cpu.runUntil_failed_iff`: how a run ends, by its stopping point.
* `Cpu.runUntil_halted_iff`: a run is refused only to a processor that was halted from the start.
* `runUntil_stops_first`: these together, with an account of the questions to the watcher.
-/

set_option autoImplicit false

namespace Nes6502

variable {σ β : Type} [Bus β]

/-- The watcher that also keeps a list of the states about which it was asked. -/
def Watcher.recording (w : Watcher σ β) : Watcher (σ × List (Cpu β)) β :=
  ⟨fun seen c => ((w.observe seen.1 c).1, ((w.observe seen.1 c).2, seen.2 ++ [c]))⟩

namespace Cpu

/-! ## Where a run stops -/

/-- A run stops here: a halt is requested, or the watcher says to stop or asks to halt. -/
def Stops (w : Watcher σ β) (s : σ) (c : Cpu β) : Prop :=
  c.haltRequested = true ∨ (w.observe s c).1.stop = true ∨ (w.observe s c).1.requestHalt = true

/-- What a run leaves of the state at which it stops. -/
def afterStop (c : Cpu β) (w : Watcher σ β) (s : σ) : Cpu β :=
  if c.haltRequested then c.setState .halted
  else if (w.observe s c).1.stop then
    if (w.observe s c).1.requestHalt then c.requestHalt else c
  else c.halt

/-- The state after `k` steps is one at which the run stops. -/
def StopsAt (tracing : Bool) (w : Watcher σ β) (s : σ) (c : Cpu β) (k : Nat) : Prop :=
  Stops w (question tracing w s c k).1 (question tracing w s c k).2

/-- The run gets as far as the state after `k` steps: they succeed, and it stops before none of
them. -/
structure ComesTo (tracing : Bool) (w : Watcher σ β) (s : σ) (c : Cpu β) (k : Nat) : Prop where
  steps : Steps tracing k c (afterSteps tracing k c)
  passed : ∀ i < k, ¬ StopsAt tracing w s c i

/-- The states before the first instructions, one for each. -/
def statesBefore (tracing : Bool) (c : Cpu β) (count : Nat) : List (Cpu β) :=
  (List.range count).map fun k => afterSteps tracing k c

omit [Bus β] in
theorem not_stops_iff {w : Watcher σ β} {s : σ} {c : Cpu β} :
    ¬ Stops w s c ↔ c.haltRequested = false ∧ (w.observe s c).1 = ⟨false, false⟩ := by
  rcases hverdict : (w.observe s c).1 with ⟨stop, ask⟩
  simp [Stops, hverdict]

theorem question_succ (tracing : Bool) (w : Watcher σ β) (s : σ) (c : Cpu β) (k : Nat) :
    question tracing w s c (k + 1) =
      question tracing w (w.observe s c).2 (c.step tracing).cpu k := by
  induction k with
  | zero => rfl
  | succ k ih => rw [question, ih, question]

/-- The watcher is asked about the states that lie one step after the other. -/
theorem question_snd (tracing : Bool) (w : Watcher σ β) (s : σ) (c : Cpu β) (k : Nat) :
    (question tracing w s c k).2 = afterSteps tracing k c := by
  induction k with
  | zero => rfl
  | succ k ih => rw [question, afterSteps, ih]

theorem stopsAt_succ (tracing : Bool) (w : Watcher σ β) (s : σ) (c : Cpu β) (k : Nat) :
    StopsAt tracing w s c (k + 1) ↔
      StopsAt tracing w (w.observe s c).2 (c.step tracing).cpu k := by
  rw [StopsAt, question_succ, StopsAt]

/-! ## The rounds of a run -/

/-- The rounds of a run are steps that succeed and lead past no stopping point. -/
theorem rounds_iff {tracing : Bool} {w : Watcher σ β} {k : Nat} {s t : σ} {c d : Cpu β} :
    Rounds tracing w k s c t d ↔
      question tracing w s c k = (t, d) ∧ ComesTo tracing w s c k := by
  induction k generalizing s c with
  | zero =>
    constructor
    · intro h
      cases h
      exact ⟨rfl, .refl _, by simp⟩
    · rintro ⟨h, -⟩
      cases h
      exact .refl _ _
  | succ k ih =>
    rw [question_succ]
    constructor
    · intro h
      cases h with
      | round hfree hgo hok rest =>
        obtain ⟨hquestion, hsteps, hpassed⟩ := ih.mp rest
        refine ⟨hquestion, ?_, ?_⟩
        · rw [afterSteps_succ]
          exact .step hok hsteps
        · intro i hi
          cases i with
          | zero => exact not_stops_iff.mpr ⟨hfree, hgo⟩
          | succ i =>
            rw [stopsAt_succ]
            exact hpassed i (Nat.lt_of_succ_lt_succ hi)
    · rintro ⟨hquestion, hsteps, hpassed⟩
      obtain ⟨hfree, hgo⟩ := not_stops_iff.mp (hpassed 0 (Nat.succ_pos k))
      rw [afterSteps_succ] at hsteps
      cases hsteps with
      | step hok hrest =>
        refine .round hfree hgo hok (ih.mpr ⟨hquestion, hrest, ?_⟩)
        intro i hi
        rw [← stopsAt_succ]
        exact hpassed (i + 1) (Nat.succ_lt_succ hi)

/-! ## The end of a run -/

theorem RunEnd.stops {tracing : Bool} {w : Watcher σ β} {executed k : Nat} {s t : σ} {c d : Cpu β}
    (hend : RunEnd tracing w executed s c (.finished k) d t) :
    k = executed ∧ Stops w s c ∧ d = c.afterStop w s := by
  cases hend with
  | requested hrequested =>
    refine ⟨rfl, .inl hrequested, ?_⟩
    simp only [afterStop, hrequested, if_true]
  | stopped hfree hstop =>
    refine ⟨rfl, .inr (.inl hstop), ?_⟩
    simp [afterStop, hfree, hstop]
  | asked hfree hask =>
    refine ⟨rfl, .inr (.inr (by rw [hask])), ?_⟩
    simp [afterStop, hfree, hask]

theorem RunEnd.fails {tracing : Bool} {w : Watcher σ β} {executed : Nat} {s t : σ} {c d : Cpu β}
    {fault : Fault} (hend : RunEnd tracing w executed s c (.failed fault) d t) :
    ¬ Stops w s c ∧ (c.step tracing).result = .error fault ∧ d = (c.step tracing).cpu := by
  cases hend with
  | failed hfree hgo hfault => exact ⟨not_stops_iff.mpr ⟨hfree, hgo⟩, hfault, rfl⟩

/-- In its last round a run consults the watcher, unless a halt is requested already. -/
theorem RunEnd.watcher {tracing : Bool} {w : Watcher σ β} {executed : Nat} {s t : σ} {c d : Cpu β}
    {result : RunResult} (hend : RunEnd tracing w executed s c result d t) :
    t = if c.haltRequested then s else (w.observe s c).2 := by
  cases hend with
  | requested hrequested => simp [hrequested]
  | stopped hfree | asked hfree | failed hfree => simp [hfree]

theorem RunEnd.result_ne {tracing : Bool} {w : Watcher σ β} {executed : Nat} {s t : σ}
    {c d : Cpu β} {result : RunResult} (hend : RunEnd tracing w executed s c result d t) :
    result ≠ .unfinished := by
  cases hend <;> exact RunResult.noConfusion

/-- Where a run stops, it finishes. -/
theorem RunEnd.of_stops (tracing : Bool) {w : Watcher σ β} {s : σ} {c : Cpu β} (h : Stops w s c)
    (executed : Nat) :
    ∃ t, RunEnd tracing w executed s c (.finished executed) (c.afterStop w s) t := by
  rcases round_or_end tracing w executed s c with ⟨hfree, hgo, -⟩ | ⟨result, d, t, hend⟩
  · exact absurd h (not_stops_iff.mpr ⟨hfree, hgo⟩)
  · cases result with
    | finished k =>
      obtain ⟨rfl, -, rfl⟩ := hend.stops
      exact ⟨t, hend⟩
    | failed fault => exact absurd h hend.fails.1
    | unfinished => exact absurd rfl hend.result_ne

/-! ## Runs by their stopping points -/

/-- The end of a run at the state after `k` steps. -/
def EndsAt (tracing : Bool) (w : Watcher σ β) (s : σ) (c : Cpu β) (k : Nat) (result : RunResult)
    (d : Cpu β) (t : σ) : Prop :=
  RunEnd tracing w k (question tracing w s c k).1 (question tracing w s c k).2 result d t

/-- A run that is over has come to some state and ended there. -/
theorem runUntil_cases (tracing : Bool) (w : Watcher σ β) (s : σ) (c : Cpu β) (rounds : Nat) :
    let report := c.runUntil tracing rounds w s
    report.result = .unfinished ∨
      ∃ k < rounds, ComesTo tracing w s c k ∧
        EndsAt tracing w s c k report.result report.cpu report.watcher := by
  intro report
  rcases continueUntil_cases tracing w rounds 0 s #[] c with
    ⟨t, d, events, -, hreport⟩ | ⟨k, t, d, result, e, u, events, hk, hrounds, hend, hreport⟩
  · left
    show (c.continueUntil tracing w rounds 0 s #[]).result = _
    rw [hreport]
  · right
    obtain ⟨hquestion, hcomes⟩ := rounds_iff.mp hrounds
    have hreport : report = ⟨result, e, u, events⟩ := hreport
    refine ⟨k, hk, hcomes, ?_⟩
    rw [Nat.zero_add] at hend
    rw [EndsAt, hquestion, hreport]
    exact hend

/-- A run that comes to a state within the bound, and ends there, is over. -/
theorem runUntil_of_end {tracing : Bool} {w : Watcher σ β} {s : σ} {c : Cpu β} {k rounds : Nat}
    (hcomes : ComesTo tracing w s c k) (hk : k < rounds) {result : RunResult} {d : Cpu β} {t : σ}
    (hend : EndsAt tracing w s c k result d t) :
    (c.runUntil tracing rounds w s).result = result ∧ (c.runUntil tracing rounds w s).cpu = d := by
  have hrounds : Rounds tracing w k s c _ _ := rounds_iff.mpr ⟨rfl, hcomes⟩
  exact runUntil_of_rounds hrounds hk hend

/-- A run finishes at its first stopping point. -/
theorem runUntil_finished_iff {tracing : Bool} {w : Watcher σ β} {s : σ} {c : Cpu β}
    {rounds k : Nat} :
    (c.runUntil tracing rounds w s).result = .finished k ↔
      k < rounds ∧ ComesTo tracing w s c k ∧ StopsAt tracing w s c k := by
  constructor
  · intro hfinished
    rcases runUntil_cases tracing w s c rounds with hnone | ⟨j, hj, hcomes, hend⟩
    · cases hfinished.symm.trans hnone
    · rw [hfinished] at hend
      obtain ⟨rfl, hstops, -⟩ := RunEnd.stops hend
      exact ⟨hj, hcomes, hstops⟩
  · rintro ⟨hk, hcomes, hstops⟩
    obtain ⟨t, hend⟩ := RunEnd.of_stops tracing hstops k
    exact (runUntil_of_end hcomes hk hend).1

/-- A run fails where a step fails that it does not stop before. -/
theorem runUntil_failed_iff {tracing : Bool} {w : Watcher σ β} {s : σ} {c : Cpu β} {rounds : Nat}
    {fault : Fault} :
    (c.runUntil tracing rounds w s).result = .failed fault ↔
      ∃ k < rounds, ComesTo tracing w s c k ∧ ¬ StopsAt tracing w s c k ∧
        ((afterSteps tracing k c).step tracing).result = .error fault := by
  constructor
  · intro hfailed
    rcases runUntil_cases tracing w s c rounds with hnone | ⟨k, hk, hcomes, hend⟩
    · cases hfailed.symm.trans hnone
    · rw [hfailed] at hend
      obtain ⟨hgoes, hfault, -⟩ := RunEnd.fails hend
      rw [question_snd] at hfault
      exact ⟨k, hk, hcomes, hgoes, hfault⟩
  · rintro ⟨k, hk, hcomes, hgoes, hfault⟩
    obtain ⟨hfree, hgo⟩ := not_stops_iff.mp hgoes
    rw [← question_snd tracing w s] at hfault
    have hend : EndsAt tracing w s c k _ _ _ := RunEnd.failed hfree hgo hfault
    exact (runUntil_of_end hcomes hk hend).1

/-- Steps that succeed end between two instructions. -/
theorem Steps.fetching {tracing : Bool} {k : Nat} {c d : Cpu β}
    (steps : Steps tracing (k + 1) c d) : d.state = .fetching := by
  induction k generalizing c with
  | zero =>
    cases steps with
    | step hok rest =>
      cases rest
      exact state_of_step_ok hok
  | succ k ih =>
    cases steps with
    | step _ rest => exact ih rest

/-- A run is refused only to a processor that was halted from the start, and that nobody has asked
to halt. -/
theorem runUntil_halted_iff {tracing : Bool} {w : Watcher σ β} {s : σ} {c : Cpu β} {rounds : Nat} :
    (c.runUntil tracing (rounds + 1) w s).result = .failed .halted ↔
      c.haltRequested = false ∧ c.state = .halted ∧ (w.observe s c).1 = ⟨false, false⟩ := by
  rw [runUntil_failed_iff]
  constructor
  · rintro ⟨k, -, hcomes, hgoes, hfault⟩
    obtain ⟨hfree, hgo⟩ := not_stops_iff.mp hgoes
    have hrefuses := refuses_of_step_halted hfault
    rw [← question_snd tracing w s] at hrefuses
    simp only [refuses, hfree, Bool.false_or, beq_iff_eq] at hrefuses
    cases k with
    | zero => exact ⟨hfree, hrefuses, hgo⟩
    | succ k =>
      rw [question_snd, hcomes.steps.fetching] at hrefuses
      cases hrefuses
  · rintro ⟨hfree, hhalted, hgo⟩
    have hrefuses : c.refuses = true := by simp [refuses, hhalted]
    refine ⟨0, Nat.succ_pos rounds, ⟨.refl c, by simp⟩, not_stops_iff.mpr ⟨hfree, hgo⟩, ?_⟩
    rw [afterSteps, step_of_refuses tracing hrefuses]

/-! ## The questions to the watcher -/

theorem question_recording (tracing : Bool) (w : Watcher σ β) (s : σ) (c : Cpu β) (k : Nat) :
    question tracing w.recording (s, []) c k =
      (((question tracing w s c k).1, statesBefore tracing c k), (question tracing w s c k).2) := by
  induction k with
  | zero => rfl
  | succ k ih =>
    have hstates : statesBefore tracing c (k + 1) =
        statesBefore tracing c k ++ [(question tracing w s c k).2] := by
      simp [statesBefore, List.range_succ, question_snd]
    rw [question, ih, hstates]
    rfl

/-- To keep a list of the questions makes no difference to a run. -/
theorem runUntil_recording (tracing : Bool) (w : Watcher σ β) (s : σ) (c : Cpu β) (rounds : Nat) :
    (c.runUntil tracing rounds w.recording (s, [])).result =
        (c.runUntil tracing rounds w s).result ∧
      (c.runUntil tracing rounds w.recording (s, [])).cpu =
        (c.runUntil tracing rounds w s).cpu := by
  refine continueUntil_agree (fun seen s _ => seen.1 = s) ?_ ?_ rounds 0 #[] #[] rfl
  · rintro seen s d rfl
    rfl
  · rintro seen s d rfl -
    rfl

/-- When a run is over, its watcher was asked about the states up to the last one, and about that
one only if no halt is requested there. -/
theorem EndsAt.watcher {tracing : Bool} {w : Watcher σ β} {s t : σ} {c d : Cpu β} {k : Nat}
    {result : RunResult} (hend : EndsAt tracing w s c k result d t) :
    t = (question tracing w s c
      (if (afterSteps tracing k c).haltRequested then k else k + 1)).1 := by
  rw [RunEnd.watcher hend, question_snd]
  by_cases hrequested : (afterSteps tracing k c).haltRequested = true
  · rw [if_pos hrequested, if_pos hrequested]
  · rw [if_neg hrequested, if_neg hrequested, question, question_snd]

/-- A finished run has left the state at which it stops, and a list of the questions has the states
up to there. -/
theorem recorded_of_finished {tracing : Bool} {w : Watcher σ β} {s : σ} {c : Cpu β} {rounds k : Nat}
    (h : (c.runUntil tracing rounds w s).result = .finished k) :
    (c.runUntil tracing rounds w s).cpu =
        (afterSteps tracing k c).afterStop w (question tracing w s c k).1 ∧
      (c.runUntil tracing rounds w.recording (s, [])).watcher.2 =
        statesBefore tracing c
          (if (afterSteps tracing k c).haltRequested then k else k + 1) := by
  constructor
  · rcases runUntil_cases tracing w s c rounds with hnone | ⟨j, -, -, hend⟩
    · cases h.symm.trans hnone
    · rw [h] at hend
      obtain ⟨rfl, -, hcpu⟩ := RunEnd.stops hend
      rwa [question_snd] at hcpu
  · rw [← (runUntil_recording tracing w s c rounds).1] at h
    rcases runUntil_cases tracing w.recording (s, []) c rounds with hnone | ⟨j, -, -, hend⟩
    · cases h.symm.trans hnone
    · rw [h] at hend
      obtain ⟨rfl, -, -⟩ := RunEnd.stops hend
      rw [hend.watcher, question_recording]

end Cpu

/-- A run stops at the first stopping point. It finishes after `k` instructions exactly if `k` steps
succeed and the state after them is the first one at which a halt is requested, or the watcher says
to stop or asks to halt; the processor is then the one after `k` steps, halted if there is a request
that the watcher has not stopped the run with. The watcher is asked once about each state before an
instruction, in order, and about the last state unless a halt is requested there already; that it
keeps a list of the states makes no difference to the run. A run fails exactly if a step fails at a
state where nothing stops the run. It is refused exactly if the processor was halted when the run
began, no halt was requested, and the watcher let it go on. The bound on the rounds only has to be
large enough (`Cpu.continueUntil_stable`). -/
theorem runUntil_stops_first (tracing : Bool) (w : Watcher σ β) (s : σ) (c : Cpu β)
    (rounds : Nat) :
    let report := c.runUntil tracing (rounds + 1) w s
    let recorded := c.runUntil tracing (rounds + 1) w.recording (s, [])
    (recorded.result = report.result ∧ recorded.cpu = report.cpu) ∧
      (∀ k, report.result = .finished k ↔
        k ≤ rounds ∧ Cpu.Steps tracing k c (c.afterSteps tracing k) ∧
          Cpu.StopsAt tracing w s c k ∧ ∀ i < k, ¬ Cpu.StopsAt tracing w s c i) ∧
      (∀ k, report.result = .finished k →
        report.cpu = (c.afterSteps tracing k).afterStop w (c.question tracing w s k).1 ∧
        recorded.watcher.2 = c.statesBefore tracing
          (if (c.afterSteps tracing k).haltRequested then k else k + 1)) ∧
      (∀ fault, report.result = .failed fault ↔
        ∃ k ≤ rounds, Cpu.Steps tracing k c (c.afterSteps tracing k) ∧
          (∀ i ≤ k, ¬ Cpu.StopsAt tracing w s c i) ∧
          ((c.afterSteps tracing k).step tracing).result = .error fault) ∧
      (report.result = .failed .halted ↔
        c.haltRequested = false ∧ c.state = .halted ∧ (w.observe s c).1 = ⟨false, false⟩) := by
  intro report recorded
  refine ⟨Cpu.runUntil_recording tracing w s c (rounds + 1), ?_,
    fun k hfinished => Cpu.recorded_of_finished hfinished, ?_, Cpu.runUntil_halted_iff⟩
  · intro k
    rw [Cpu.runUntil_finished_iff]
    constructor
    · rintro ⟨hk, hcomes, hstops⟩
      exact ⟨Nat.le_of_lt_succ hk, hcomes.steps, hstops, hcomes.passed⟩
    · rintro ⟨hk, hsteps, hstops, hpassed⟩
      exact ⟨Nat.lt_succ_of_le hk, ⟨hsteps, hpassed⟩, hstops⟩
  · intro fault
    rw [Cpu.runUntil_failed_iff]
    constructor
    · rintro ⟨k, hk, hcomes, hgoes, hfault⟩
      refine ⟨k, Nat.le_of_lt_succ hk, hcomes.steps, ?_, hfault⟩
      intro i hi
      rcases Nat.lt_or_eq_of_le hi with hless | rfl
      · exact hcomes.passed i hless
      · exact hgoes
    · rintro ⟨k, hk, hsteps, hpassed, hfault⟩
      exact ⟨k, Nat.lt_succ_of_le hk, ⟨hsteps, fun i hi => hpassed i (Nat.le_of_lt hi)⟩,
        hpassed k (Nat.le_refl k), hfault⟩

/-- The watcher would stop the run before the fourth instruction, but the bus asks to halt in the
middle of the first one, and so the watcher is asked once. With the request taken back it is asked
before each instruction. -/
theorem runUntil_stops_first_atStore :
    let c := (Cpu.powerOn stopAtStore .halt).reset
    let w : Watcher Nat (Watched Ram) := .counting fun asked _ => ⟨asked == 3, false⟩
    let report := c.runUntil false 9 w.recording (0, [])
    let again := report.cpu.resume.runUntil false 9 w.recording (0, [])
    report.result = .finished 1 ∧ report.watcher.2 = c.statesBefore false 1 ∧
      again.result = .finished 3 ∧ again.watcher.2 = report.cpu.resume.statesBefore false 4 ∧
      ∀ i < 3, ¬ Cpu.StopsAt false w 0 report.cpu.resume i := by
  intro c w report again
  have hfirst : (c.runUntil false 9 w 0).result = .finished 1 := by decide +kernel
  have hrequested : (c.afterSteps false 1).haltRequested = true := by decide +kernel
  have hsecond : (report.cpu.resume.runUntil false 9 w 0).result = .finished 3 := by decide +kernel
  have hfree : (report.cpu.resume.afterSteps false 3).haltRequested = false := by decide +kernel
  obtain ⟨hsame, -, hasked, -⟩ := runUntil_stops_first false w 0 c 8
  obtain ⟨hsame', hstops, hasked', -⟩ := runUntil_stops_first false w 0 report.cpu.resume 8
  have hquestions := (hasked 1 hfirst).2
  have hquestions' := (hasked' 3 hsecond).2
  rw [if_pos hrequested] at hquestions
  rw [hfree] at hquestions'
  exact ⟨hsame.1.trans hfirst, hquestions, hsame'.1.trans hsecond, hquestions',
    ((hstops 3).mp hsecond).2.2.2⟩

end Nes6502
