import Nes6502.Bus.Watched
import Nes6502.Memory
import Nes6502.Proofs.Run

/-!
# Budgets

Before each instruction of a run with a budget three things are looked at, in this order: whether a
halt is requested, whether the budget is spent, and whether the step succeeds. The order matters
where a run is cut in two. A halt that is requested by the last instruction of the first part ends
that part, and ends the second one before its first instruction; a processor that cannot go on is
found out by the second part if the first one has spent its budget just before.

The watcher of such a run keeps a count of its own, apart from the instructions that the run counts.
Here it is a number without a bound; `Watcher.wrappingBudget` keeps it in sixty-four bits.

## What is proved

* `Cpu.runFor_add_of_steps`: steps that succeed can be taken before a run or within its budget.
* `Cpu.runUntil_wrappingBudget`: a count in sixty-four bits makes the same run.
* `budgets_compose`: a run with two budgets, one after the other, is a run with their sum.
-/

set_option autoImplicit false

namespace Nes6502

variable {β : Type} [Bus β]

/-- The result of a run, with the instructions counted that were executed before it. -/
def RunResult.after (before : Nat) : RunResult → RunResult
  | .finished executed => .finished (before + executed)
  | .failed fault => .failed fault
  | .unfinished => .unfinished

/-- Stops a run after a number of instructions, counted in sixty-four bits. -/
def Watcher.wrappingBudget (limit : UInt64) : Watcher UInt64 β :=
  ⟨fun asked _ => (⟨decide (limit ≤ asked), false⟩, asked + 1)⟩

namespace Cpu

/-! ## The ends of a run with a budget -/

theorem runFor_of_requested {tracing : Bool} {n k : Nat} {c d : Cpu β}
    (steps : Steps tracing k c d) (h : k ≤ n) (hrequested : d.haltRequested = true) :
    (c.runFor tracing n).result = .finished k ∧ (c.runFor tracing n).cpu = d.setState .halted :=
  runFor_of_end steps h (.requested hrequested)

theorem runFor_of_failed {tracing : Bool} {n k : Nat} {c d : Cpu β} {fault : Fault}
    (steps : Steps tracing k c d) (h : k < n) (hfree : d.haltRequested = false)
    (hfault : (d.step tracing).result = .error fault) :
    (c.runFor tracing n).result = .failed fault ∧
      (c.runFor tracing n).cpu = (d.step tracing).cpu := by
  have hgo : ((Watcher.budget n : Watcher Nat β).observe k d).1 = ⟨false, false⟩ := by
    simp [Watcher.budget, Watcher.counting, h]
  exact runFor_of_end steps (Nat.le_of_lt h) (.failed hfree hgo hfault)

/-- Steps that succeed can be taken before a run or within its budget. -/
theorem runFor_add_of_steps {tracing : Bool} {m : Nat} {c d : Cpu β} (steps : Steps tracing m c d)
    (n : Nat) :
    (c.runFor tracing (m + n)).result = (d.runFor tracing n).result.after m ∧
      (c.runFor tracing (m + n)).cpu = (d.runFor tracing n).cpu := by
  obtain ⟨j, e, hle, hrest, hcases⟩ := runFor_cases tracing n d
  have hwhole : Steps tracing (m + j) c e := steps.trans hrest
  rcases hcases with ⟨hrequested, hresult, hcpu⟩ | ⟨hfree, rfl, hresult, hcpu⟩ |
    ⟨hfree, hleft, fault, hfault, hresult, hcpu⟩
  · rw [hresult, hcpu]
    exact runFor_of_requested hwhole (by omega) hrequested
  · rw [hresult, hcpu]
    exact runFor_of_steps hwhole hfree
  · rw [hresult, hcpu]
    exact runFor_of_failed hwhole (by omega) hfree hfault

/-- A run with a budget ends, and no bound on its rounds beyond the budget makes a difference. -/
theorem runFor_ends (tracing : Bool) (n : Nat) (c : Cpu β) :
    (c.runFor tracing n).result ≠ .unfinished ∧
      ∀ more, c.runUntil tracing (n + 1 + more) (.budget n) 0 = c.runFor tracing n := by
  have hends : (c.runFor tracing n).result ≠ .unfinished := by
    obtain ⟨k, d, -, -, ⟨-, hresult, -⟩ | ⟨-, -, hresult, -⟩ | ⟨-, -, fault, -, hresult, -⟩⟩ :=
      runFor_cases tracing n c
    all_goals
      rw [hresult]
      exact RunResult.noConfusion
  exact ⟨hends, fun more => continueUntil_stable hends more⟩

/-- What a run with a budget has counted, it has executed: whole instructions, and as many as the
budget allows unless a halt is requested. -/
theorem steps_of_runFor {tracing : Bool} {n k : Nat} {c : Cpu β}
    (h : (c.runFor tracing n).result = .finished k) :
    k ≤ n ∧ (k < n → (c.runFor tracing n).cpu.haltRequested = true) ∧
      ∃ d, Steps tracing k c d ∧ (c.runFor tracing n).cpu =
        if (c.runFor tracing n).cpu.haltRequested then d.setState .halted else d := by
  obtain ⟨d, hsteps, hle, ⟨hrequested, hcpu⟩ | ⟨hfree, rfl, hcpu⟩⟩ := runFor_finished h
  · have hstill : (d.setState .halted).haltRequested = true := hrequested
    rw [hcpu, hstill]
    exact ⟨hle, fun _ => rfl, d, hsteps, rfl⟩
  · rw [hcpu, hfree]
    exact ⟨hle, fun hless => absurd hless (Nat.lt_irrefl k), d, hsteps, rfl⟩

/-! ## Two runs, one after the other -/

/-- A run goes on with the rest of a larger budget as another run would. -/
theorem runFor_add_of_finished {tracing : Bool} {m k : Nat} {c : Cpu β}
    (h : (c.runFor tracing m).result = .finished k) (n : Nat) :
    (c.runFor tracing (m + n)).result =
        ((c.runFor tracing m).cpu.runFor tracing n).result.after k ∧
      (c.runFor tracing (m + n)).cpu = ((c.runFor tracing m).cpu.runFor tracing n).cpu := by
  obtain ⟨d, hsteps, hle, ⟨hrequested, hcpu⟩ | ⟨-, rfl, hcpu⟩⟩ := runFor_finished h
  · -- the request that has ended the first run ends the second one at once
    have hnone : Steps tracing 0 (d.setState .halted) _ := .refl _
    obtain ⟨hsecond, hsecondCpu⟩ := runFor_of_requested hnone (Nat.zero_le n) hrequested
    obtain ⟨hlong, hlongCpu⟩ := runFor_of_requested hsteps (show k ≤ m + n by omega) hrequested
    rw [hcpu, hsecond, hsecondCpu]
    exact ⟨hlong, hlongCpu⟩
  · rw [hcpu]
    exact runFor_add_of_steps hsteps n

/-- A run that fails would have failed with a larger budget. -/
theorem runFor_add_of_failed {tracing : Bool} {m : Nat} {c : Cpu β} {fault : Fault}
    (h : (c.runFor tracing m).result = .failed fault) (n : Nat) :
    (c.runFor tracing (m + n)).result = .failed fault ∧
      (c.runFor tracing (m + n)).cpu = (c.runFor tracing m).cpu := by
  obtain ⟨j, d, -, hsteps, ⟨-, hresult, -⟩ | ⟨-, -, hresult, -⟩ |
    ⟨hfree, hless, fault', hfault, hresult, hcpu⟩⟩ := runFor_cases tracing m c
  · cases h.symm.trans hresult
  · cases h.symm.trans hresult
  · obtain rfl : fault = fault' := RunResult.failed.inj (h.symm.trans hresult)
    rw [hcpu]
    exact runFor_of_failed hsteps (by omega) hfree hfault

/-! ## Counting in sixty-four bits -/

/-- The count that wraps is never asked again after it has. -/
theorem runUntil_wrappingBudget (tracing : Bool) (rounds : Nat) (limit : UInt64) (c : Cpu β) :
    let report := c.runUntil tracing rounds (.wrappingBudget limit) 0
    let counted := c.runUntil tracing rounds (.budget limit.toNat) 0
    report.result = counted.result ∧ report.cpu = counted.cpu := by
  refine continueUntil_agree (fun seen asked _ => seen.toNat = asked ∧ asked ≤ limit.toNat) ?_ ?_
    rounds 0 #[] #[] ⟨rfl, Nat.zero_le _⟩
  · rintro seen asked d ⟨rfl, -⟩
    simp [Watcher.wrappingBudget, Watcher.budget, Watcher.counting, UInt64.le_iff_toNat_le]
  · rintro seen asked d ⟨rfl, -⟩ hgo
    have hless : seen.toNat < limit.toNat := by
      simpa [Watcher.wrappingBudget, UInt64.le_iff_toNat_le] using hgo
    have hlimit := limit.toNat_lt
    have hnext : (seen + 1).toNat = seen.toNat + 1 := by
      rw [UInt64.toNat_add, UInt64.toNat_one, Nat.mod_eq_of_lt (by omega)]
    exact ⟨hnext, hless⟩

end Cpu

/-- Budgets compose. A run with a budget always ends. Let a run with the budget `m` be followed by
one with the budget `n`, and compare them with a run from the same start with the budget `m + n`. If
the first run finishes, the long run finishes if the second one does, with the instructions added
up, or meets the fault that the second one meets, and both end in the same state. If the first run
fails, the long run fails alike. A run that finishes has executed the instructions that it counts
and nothing else, as many as its budget unless a halt is requested; a processor with a request is
left halted. -/
theorem budgets_compose (tracing : Bool) (c : Cpu β) (m n : Nat) :
    let first := c.runFor tracing m
    let second := first.cpu.runFor tracing n
    let long := c.runFor tracing (m + n)
    (first.result ≠ .unfinished ∧
      ∀ more, c.runUntil tracing (m + 1 + more) (.budget m) 0 = first) ∧
    (∀ k, first.result = .finished k →
      (∀ j, second.result = .finished j → long.result = .finished (k + j)) ∧
      (∀ fault, second.result = .failed fault → long.result = .failed fault) ∧
      long.cpu = second.cpu) ∧
    (∀ fault, first.result = .failed fault →
      long.result = .failed fault ∧ long.cpu = first.cpu) ∧
    ∀ k, first.result = .finished k →
      k ≤ m ∧ (k < m → first.cpu.haltRequested = true) ∧
      ∃ d, Cpu.Steps tracing k c d ∧
        first.cpu = if first.cpu.haltRequested then d.setState .halted else d := by
  intro first second long
  refine ⟨c.runFor_ends tracing m, ?_, ?_, fun k hfinished => Cpu.steps_of_runFor hfinished⟩
  · intro k hfinished
    have hlong : long.result = second.result.after k ∧ long.cpu = second.cpu :=
      Cpu.runFor_add_of_finished hfinished n
    refine ⟨?_, ?_, hlong.2⟩
    · intro j hsecond
      rw [hlong.1, hsecond]
      rfl
    · intro fault hsecond
      rw [hlong.1, hsecond]
      rfl
  · intro fault hfailed
    exact Cpu.runFor_add_of_failed hfailed n

/-- Memory that asks to halt when `0x0010` is written. The program writes there in its second
instruction, and an undefined opcode follows. -/
def storeThenUndefined : Watched Ram :=
  ⟨Ram.zeroed.load 0x0000 [0xE8, 0x85, 0x10, 0x02], [0x0010]⟩

/-- The request to halt comes with the last instruction of the first budget and leaves nothing for
the second one. Resumed, the processor has spent a budget of nothing before it meets the undefined
opcode. -/
theorem budgets_compose_storeThenUndefined :
    let c := (Cpu.powerOn storeThenUndefined .halt).reset
    let stopped := (c.runFor false 2).cpu
    let d := stopped.resume
    (c.runFor false (2 + 3)).result = .finished (2 + 0) ∧
      (c.runFor false (2 + 3)).cpu = (stopped.runFor false 3).cpu ∧
      stopped.haltRequested = true ∧
      (d.runFor false (0 + 3)).result = .failed (.undefinedOpcode 0x02 0x0003) ∧
      (d.runFor false (3 + 4)).cpu = (d.runFor false 3).cpu := by
  intro c stopped d
  have hfirst : (c.runFor false 2).result = .finished 2 := by decide +kernel
  have hsecond : (stopped.runFor false 3).result = .finished 0 := by decide +kernel
  have hrequested : stopped.haltRequested = true := by decide +kernel
  have hspent : (d.runFor false 0).result = .finished 0 := by decide +kernel
  have hfault : ((d.runFor false 0).cpu.runFor false 3).result =
      .failed (.undefinedOpcode 0x02 0x0003) := by
    decide +kernel
  obtain ⟨-, hgoesOn, -⟩ := budgets_compose false c 2 3
  obtain ⟨hfinished, -, hcpu⟩ := hgoesOn 2 hfirst
  obtain ⟨-, hmeets, -⟩ := budgets_compose false d 0 3
  have hfailed := (hmeets 0 hspent).2.1 _ hfault
  rw [Nat.zero_add] at hfailed
  obtain ⟨-, -, hfails, -⟩ := budgets_compose false d 3 4
  refine ⟨hfinished 0 hsecond, hcpu, hrequested, ?_, (hfails _ hfailed).2⟩
  rwa [Nat.zero_add]

end Nes6502
