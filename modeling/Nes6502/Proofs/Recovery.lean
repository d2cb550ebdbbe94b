import Nes6502.Proofs.Halting
import Nes6502.Proofs.Memory
import Nes6502.Proofs.Reachable

/-!
# Recovering from an undefined opcode

An undefined opcode either stops the processor or counts as an instruction that does nothing. The
two policies make the same processor until the first such opcode is met. There the strict run stops,
after taking the interrupt that was due; to take it twice when the run is continued would be an
error, and does not happen, because nothing is due right after a poll.

## What is proved

* `Cpu.dueInterrupt_pollInterrupts`: right after a poll no interrupt is due.
* `Cpu.Ready.step_error`: only an undefined opcode under the strict policy makes a step fail.
* `Cpu.Steps.lenient`: steps that succeed under the strict policy are the same under the other.
* `Cpu.exists_steps_lenient`: under the lenient policy every step succeeds.
* `undefinedOpcode_recovery`: continuing leniently after the strict run has stopped ends where the
  lenient run ends.
-/

set_option autoImplicit false

namespace Nes6502

/-! ## Polling twice -/

namespace Cpu

section Bus

variable {β : Type} [Bus β]

/-- Right after a poll no interrupt is due: the latch is clear, and if the line was heard, the mask
is set now. -/
theorem dueInterrupt_pollInterrupts (c : Cpu β) : c.pollInterrupts.dueInterrupt = none := by
  rw [pollInterrupts_eq]
  cases hdue : c.dueInterrupt with
  | some kind =>
    have hmasked : (c.settle (c.regs.enterHandler kind)).regs.status.get .interruptDisable = true :=
      (c.regs.masked_enterHandler kind).value c.bus
    simp [Registers.poll, dueInterrupt, unlatched, hmasked]
  | none =>
    have hunheard : ¬ (c.irqLine && !c.regs.status.get .interruptDisable) = true := by
      simp only [dueInterrupt] at hdue
      split at hdue
      · cases hdue
      · split at hdue
        · cases hdue
        · assumption
    simp [Registers.poll, dueInterrupt, unlatched, hunheard]

theorem pollInterrupts_of_idle {c : Cpu β} (h : c.dueInterrupt = none) : c.pollInterrupts = c := by
  simp only [pollInterrupts, h]

/-- Taking an interrupt has nothing to do with the policy. -/
theorem pollInterrupts_setPolicy (c : Cpu β) (policy : UndefinedPolicy) :
    (c.setPolicy policy).pollInterrupts = c.pollInterrupts.setPolicy policy := by
  rw [pollInterrupts_eq, pollInterrupts_eq]
  rfl

theorem execute_setPolicy (c : Cpu β) (i : Instruction) (policy : UndefinedPolicy) :
    (c.setPolicy policy).execute i = (c.execute i).setPolicy policy := by
  rw [execute_eq, execute_eq]
  rfl

end Bus

/-! ## Single steps on plain memory -/

theorem Ready.pollInterrupts {c : Cpu Ram} (h : c.Ready) : c.pollInterrupts.Ready := by
  rw [pollInterrupts_eq]
  exact ⟨h.1, (haltRequested_converse _ _).trans h.2⟩

theorem policy_pollInterrupts (c : Cpu Ram) : c.pollInterrupts.policy = c.policy := by
  rw [pollInterrupts_eq]
  rfl

/-- A defined instruction does not look at the policy. -/
theorem executeNext_setPolicy {c : Cpu Ram} {i : Instruction}
    (hdecode : decode (c.bus.read c.regs.pc) = some i) (policy : UndefinedPolicy) :
    (c.setPolicy policy).executeNext.cpu = c.executeNext.cpu.setPolicy policy := by
  have hfetched : ((c.setPolicy policy).advance 1).setState .executing =
      ((c.advance 1).setState .executing).setPolicy policy := rfl
  rw [(executeNext_defined hdecode).2, (executeNext_defined (c := c.setPolicy policy) hdecode).2,
    hfetched, execute_setPolicy]
  rfl

/-- On plain memory a request to halt comes from the host alone. -/
theorem haltRequested_step (tracing : Bool) (c : Cpu Ram) :
    (c.step tracing).cpu.haltRequested = c.haltRequested := by
  cases hrefuses : c.refuses with
  | true =>
    rw [step_of_refuses tracing hrefuses]
    rfl
  | false =>
    rw [(step_eq tracing hrefuses).2]
    exact haltRequested_converse c _

/-- A step that succeeds leaves the processor ready for the next one. -/
theorem Ready.of_step_ok {tracing : Bool} {c : Cpu Ram} (h : c.Ready)
    (hok : (c.step tracing).result = .ok ()) :
    (c.step tracing).cpu.Ready ∧ (c.step tracing).cpu.policy = c.policy := by
  refine ⟨⟨state_of_step_ok hok, (haltRequested_step tracing c).trans h.unrequested⟩, ?_⟩
  rw [(step_eq tracing h.refuses).2]
  rfl

/-- If no interrupt could come before it, none can come before the next one. -/
theorem Quiet.of_step_ok {tracing : Bool} {c : Cpu Ram} (h : c.Quiet)
    (hok : (c.step tracing).result = .ok ()) :
    (c.step tracing).cpu.Quiet ∧ (c.step tracing).cpu.policy = c.policy := by
  obtain ⟨hready, hpolicy⟩ := h.toReady.of_step_ok hok
  refine ⟨⟨hready, ?_, ?_⟩, hpolicy⟩
  · rw [(step_eq tracing h.refuses).2]
    rfl
  · rw [(step_eq tracing h.refuses).2]
    exact h.low

theorem Steps.quiet {tracing : Bool} {k : Nat} {c d : Cpu Ram} (steps : Steps tracing k c d)
    (h : c.Quiet) : d.Quiet ∧ d.policy = c.policy :=
  steps.invariant (I := fun d => d.Quiet ∧ d.policy = c.policy)
    (fun _ hok hd => ⟨(hd.1.of_step_ok hok).1, (hd.1.of_step_ok hok).2.trans hd.2⟩) ⟨h, rfl⟩

/-- The only step that fails takes the interrupt that was due, and then meets an undefined opcode
under the strict policy. -/
theorem Ready.step_error {tracing : Bool} {c : Cpu Ram} (h : c.Ready) {fault : Fault}
    (hfault : (c.step tracing).result = .error fault) :
    let polled := c.pollInterrupts
    decode (polled.bus.read polled.regs.pc) = none ∧ c.policy = .halt ∧
      fault = .undefinedOpcode (polled.bus.read polled.regs.pc) polled.regs.pc ∧
      (c.step tracing).cpu = polled.setState .halted := by
  intro polled
  obtain ⟨hresult, hcpu⟩ := step_ram tracing h.refuses
  have hpolicy : polled.policy = c.policy := policy_pollInterrupts c
  rw [hresult] at hfault
  cases hdecode : decode (polled.bus.read polled.regs.pc) with
  | some i =>
    rw [(executeNext_defined hdecode).1] at hfault
    cases hfault
  | none =>
    cases hkind : c.policy with
    | halt =>
      obtain ⟨hundefined, hnext⟩ := executeNext_strict hdecode (hpolicy.trans hkind)
      rw [hundefined] at hfault
      exact ⟨rfl, rfl, (Except.error.inj hfault).symm, hcpu.trans hnext⟩
    | nop =>
      rw [(executeNext_lenient hdecode (hpolicy.trans hkind)).1] at hfault
      cases hfault

theorem Quiet.step_error {tracing : Bool} {c : Cpu Ram} (h : c.Quiet) {fault : Fault}
    (hfault : (c.step tracing).result = .error fault) :
    decode (c.bus.read c.regs.pc) = none ∧ c.policy = .halt ∧
      fault = .undefinedOpcode (c.bus.read c.regs.pc) c.regs.pc := by
  obtain ⟨hdecode, hpolicy, hundefined, -⟩ := h.toReady.step_error hfault
  rw [pollInterrupts_of_idle h.dueInterrupt] at hdecode hundefined
  exact ⟨hdecode, hpolicy, hundefined⟩

/-- A step under the lenient policy succeeds. -/
theorem step_lenient (tracing : Bool) {c : Cpu Ram} (h : c.Ready) (hpolicy : c.policy = .nop) :
    (c.step tracing).result = .ok () ∧ (c.step tracing).cpu.Ready ∧
      (c.step tracing).cpu.policy = .nop := by
  cases hresult : (c.step tracing).result with
  | ok =>
    obtain ⟨hready, hsame⟩ := h.of_step_ok hresult
    exact ⟨rfl, hready, hsame.trans hpolicy⟩
  | error fault =>
    have hstrict := (h.step_error hresult).2.1
    rw [hpolicy] at hstrict
    cases hstrict

/-- A step that succeeds under the strict policy executes a defined instruction. -/
theorem Ready.decode_of_step_ok {tracing : Bool} {c : Cpu Ram} (h : c.Ready)
    (hpolicy : c.policy = .halt) (hok : (c.step tracing).result = .ok ()) :
    ∃ i, decode (c.pollInterrupts.bus.read c.pollInterrupts.regs.pc) = some i := by
  cases hdecode : decode (c.pollInterrupts.bus.read c.pollInterrupts.regs.pc) with
  | some i => exact ⟨i, rfl⟩
  | none =>
    have hsame : c.pollInterrupts.policy = .halt := (policy_pollInterrupts c).trans hpolicy
    rw [(step_ram tracing h.refuses).1, (executeNext_strict hdecode hsame).1] at hok
    cases hok

/-- A step under the strict policy is the step under the lenient one, or it meets an undefined
opcode after taking the interrupt that was due. -/
theorem step_strict (tracing : Bool) {c : Cpu Ram} (h : c.Ready) (hpolicy : c.policy = .halt) :
    ((c.step tracing).result = .ok () ∧ (c.step tracing).cpu.Ready ∧
        (c.step tracing).cpu.policy = .halt ∧
        ((c.setPolicy .nop).step tracing).cpu = (c.step tracing).cpu.setPolicy .nop) ∨
      (decode (c.pollInterrupts.bus.read c.pollInterrupts.regs.pc) = none ∧
        (c.step tracing).result = .error (.undefinedOpcode
          (c.pollInterrupts.bus.read c.pollInterrupts.regs.pc) c.pollInterrupts.regs.pc) ∧
        (c.step tracing).cpu = c.pollInterrupts.setState .halted) := by
  cases hresult : (c.step tracing).result with
  | ok =>
    obtain ⟨hready, hsame⟩ := h.of_step_ok hresult
    obtain ⟨i, hdecode⟩ := h.decode_of_step_ok hpolicy hresult
    refine .inl ⟨rfl, hready, hsame.trans hpolicy, ?_⟩
    rw [(step_ram tracing (h.setPolicy .nop).refuses).2, (step_ram tracing h.refuses).2,
      pollInterrupts_setPolicy, executeNext_setPolicy hdecode]
  | error fault =>
    obtain ⟨hdecode, -, rfl, hhalted⟩ := h.step_error hresult
    exact .inr ⟨hdecode, rfl, hhalted⟩

/-! ## Runs -/

/-- Steps that succeed under the strict policy are the same under the lenient one. -/
theorem Steps.lenient {tracing : Bool} {k : Nat} {c d : Cpu Ram} (steps : Steps tracing k c d)
    (h : c.Ready) (hpolicy : c.policy = .halt) :
    Steps tracing k (c.setPolicy .nop) (d.setPolicy .nop) ∧ d.Ready ∧ d.policy = .halt := by
  induction steps with
  | refl c => exact ⟨.refl _, h, hpolicy⟩
  | @step k c d hok _ ih =>
    rcases step_strict tracing h hpolicy with ⟨-, hready, hstrict, hcpu⟩ | ⟨-, hfault, -⟩
    · obtain ⟨hrest, hend⟩ := ih hready hstrict
      have hagain := h.setPolicy .nop
      rw [← hcpu] at hrest
      exact ⟨.step (step_lenient tracing hagain rfl).1 hrest, hend⟩
    · rw [hok] at hfault
      cases hfault

/-- Under the lenient policy there is no end to the steps that succeed. -/
theorem exists_steps_lenient (tracing : Bool) (n : Nat) {c : Cpu Ram} (h : c.Ready)
    (hpolicy : c.policy = .nop) : ∃ d, Steps tracing n c d ∧ d.Ready := by
  induction n generalizing c with
  | zero => exact ⟨c, .refl c, h⟩
  | succ n ih =>
    obtain ⟨hok, hready, hnop⟩ := step_lenient tracing h hpolicy
    obtain ⟨d, hrest, hend⟩ := ih hready hnop
    exact ⟨d, .step hok hrest, hend⟩

/-- A run under the strict policy spends its budget, or it stops at the first step that fails. -/
theorem runFor_strict (tracing : Bool) (n : Nat) {c : Cpu Ram} (h : c.Ready)
    (hpolicy : c.policy = .halt) :
    ((c.runFor tracing n).result = .finished n ∧
        Steps tracing n c (c.runFor tracing n).cpu) ∨
      ∃ k < n, ∃ d fault, Steps tracing k c d ∧ (d.step tracing).result = .error fault ∧
        (c.runFor tracing n).result = .failed fault ∧
        (c.runFor tracing n).cpu = (d.step tracing).cpu := by
  obtain ⟨k, d, -, hsteps, ⟨hrequested, -⟩ | ⟨-, rfl, hresult, hcpu⟩ |
    ⟨-, hk, fault, hfault, hresult, hcpu⟩⟩ := runFor_cases tracing n c
  · have hready := (hsteps.lenient h hpolicy).2.1
    rw [hready.2] at hrequested
    cases hrequested
  · exact .inl ⟨hresult, hcpu ▸ hsteps⟩
  · exact .inr ⟨k, hk, d, fault, hsteps, hfault, hresult, hcpu⟩

/-- Taking the interrupt that is due makes a processor neither ready to step nor unready. -/
theorem refuses_pollInterrupts (c : Cpu Ram) : c.pollInterrupts.refuses = c.refuses := by
  rw [pollInterrupts_eq]
  exact congrArg (· || c.state == .halted) (haltRequested_converse c _)

theorem step_pollInterrupts_of_accepted (tracing : Bool) {c : Cpu Ram} (h : c.refuses = false) :
    (c.pollInterrupts.step tracing).result = (c.step tracing).result ∧
      (c.pollInterrupts.step tracing).cpu = (c.step tracing).cpu := by
  obtain ⟨hresult, hcpu⟩ := step_ram tracing h
  obtain ⟨hagain, hcpuAgain⟩ := step_ram tracing (c.refuses_pollInterrupts.trans h)
  rw [pollInterrupts_of_idle c.dueInterrupt_pollInterrupts] at hagain hcpuAgain
  exact ⟨hagain.trans hresult.symm, hcpuAgain.trans hcpu.symm⟩

/-- A step after a poll is the step before it. -/
theorem step_pollInterrupts (tracing : Bool) {c : Cpu Ram} (h : c.Ready) :
    (c.pollInterrupts.step tracing).result = (c.step tracing).result ∧
      (c.pollInterrupts.step tracing).cpu = (c.step tracing).cpu :=
  step_pollInterrupts_of_accepted tracing h.refuses

theorem Steps.pollInterrupts {tracing : Bool} {k : Nat} {c d : Cpu Ram} (h : c.Ready) (hk : 0 < k)
    (steps : Steps tracing k c d) : Steps tracing k c.pollInterrupts d := by
  cases steps with
  | refl => exact absurd hk (Nat.lt_irrefl 0)
  | step hok rest =>
    obtain ⟨hresult, hcpu⟩ := step_pollInterrupts tracing h
    rw [← hcpu] at rest
    exact .step (hresult.trans hok) rest

theorem Ready.resume_halted {c : Cpu Ram} (h : c.Ready) : (c.setState .halted).resume = c := by
  obtain ⟨bus, regs, state, policy, requested, latched, line⟩ := c
  obtain ⟨rfl, rfl⟩ := h
  rfl

end Cpu

/-- Recovering from an undefined opcode is as good as having been lenient all along. The lenient run
always spends its budget. If the strict run does so too, it ends in the same state. Otherwise it
reports the byte at the program counter; the step that failed has taken the interrupt that was due
and left the processor halted, and that is all. Resumed, it fails again without another effect. Made
lenient and resumed, it spends the rest of the budget and ends where the lenient run ends. -/
theorem undefinedOpcode_recovery (tracing : Bool) (n : Nat) {c : Cpu Ram}
    (hfetching : c.state = .fetching) (hfree : c.haltRequested = false) :
    let strict := (c.setPolicy .halt).runFor tracing n
    let lenient := (c.setPolicy .nop).runFor tracing n
    lenient.result = .finished n ∧
      (strict.result = .finished n ∧ lenient.cpu = strict.cpu.setPolicy .nop ∨
        ∃ opcode address,
          strict.result = .failed (.undefinedOpcode opcode address) ∧
          strict.cpu.regs.pc = address ∧ strict.cpu.bus.read address = opcode ∧
          decode opcode = none ∧
          (strict.cpu.resume.step tracing).result = .error (.undefinedOpcode opcode address) ∧
          (strict.cpu.resume.step tracing).cpu = strict.cpu ∧
          ∃ k < n,
            let before := (c.setPolicy .halt).runFor tracing k
            let rest := (strict.cpu.setPolicy .nop).resume.runFor tracing (n - k)
            before.result = .finished k ∧
            (before.cpu.step tracing).result = .error (.undefinedOpcode opcode address) ∧
            strict.cpu = before.cpu.pollInterrupts.setState .halted ∧
            rest.result = .finished (n - k) ∧ rest.cpu = lenient.cpu) := by
  intro strict lenient
  have hready : (c.setPolicy .halt).Ready := ⟨hfetching, hfree⟩
  obtain ⟨e, hlenient, hend⟩ := Cpu.exists_steps_lenient tracing n (c := c.setPolicy .nop)
    ⟨hfetching, hfree⟩ rfl
  obtain ⟨hresult, hcpu⟩ := Cpu.runFor_of_steps hlenient hend.2
  refine ⟨hresult, ?_⟩
  rcases Cpu.runFor_strict tracing n hready rfl with
    ⟨hfinished, hsteps⟩ | ⟨k, hk, d, fault, hsteps, hfault, hfailed, hstopped⟩
  · refine .inl ⟨hfinished, ?_⟩
    rw [hcpu]
    exact hlenient.unique (hsteps.lenient hready rfl).1
  · obtain ⟨hsame, hd, hpolicy⟩ := hsteps.lenient hready rfl
    rcases Cpu.step_strict tracing hd hpolicy with ⟨hok, -⟩ | ⟨hdecode, hundefined, hhalted⟩
    · rw [hfault] at hok
      cases hok
    · obtain rfl : fault = _ := Except.error.inj (hfault.symm.trans hundefined)
      have hpolled := hd.pollInterrupts
      have hstrict : strict.cpu = d.pollInterrupts.setState .halted := hstopped.trans hhalted
      obtain ⟨hbefore, hreached⟩ := Cpu.runFor_of_steps hsteps hd.2
      obtain ⟨hagain, hstill⟩ := Cpu.step_pollInterrupts tracing hd
      -- the lenient run goes through the same state, and from there on past the undefined opcode
      have hrest : Cpu.Steps tracing (n - k) (d.pollInterrupts.setPolicy .nop) e := by
        have hlonger : Cpu.Steps tracing (k + (n - k)) (c.setPolicy .nop) e := by
          rwa [Nat.add_sub_cancel' (Nat.le_of_lt hk)]
        rw [← Cpu.pollInterrupts_setPolicy]
        exact (hsame.split hlonger).pollInterrupts (hd.setPolicy .nop) (by omega)
      have hlenientAgain :
          (strict.cpu.setPolicy .nop).resume = d.pollInterrupts.setPolicy .nop := by
        rw [hstrict]
        exact (hpolled.setPolicy .nop).resume_halted
      obtain ⟨hspent, hmet⟩ := Cpu.runFor_of_steps hrest hend.2
      refine .inr ⟨_, _, hfailed, ?_, ?_, hdecode, ?_, ?_, k, hk, hbefore, ?_, ?_, ?_, ?_⟩
      · rw [hstrict]
        rfl
      · rw [hstrict]
        rfl
      · rw [hstrict, hpolled.resume_halted, hagain, hundefined]
      · rw [hstrict, hpolled.resume_halted, hstill, hhalted]
      · rw [hreached, hundefined]
      · rw [hreached, hstrict]
      · rw [hlenientAgain, hspent]
      · rw [hlenientAgain, hmet]
        exact hcpu.symm

/-- A program that lets interrupts in, and a handler at `0x0400` that begins with an undefined
opcode. -/
def undefinedHandlerRam : Ram :=
  ((Ram.zeroed.load 0x0000 [0x58]).load 0x0400 [0x02, 0xEA]).load 0xFFFE [0x00, 0x04]

/-- Here the step that fails takes the interrupt first, and the retry does not take it again. -/
theorem undefinedOpcode_recovery_interrupted :
    let c := (Cpu.powerOn undefinedHandlerRam .halt).reset.setIrq true
    let strict := (c.setPolicy .halt).runFor false 3
    strict.result = .failed (.undefinedOpcode 0x02 0x0400) ∧ strict.cpu.regs.sp = 0xFA ∧
      (strict.cpu.resume.step false).cpu = strict.cpu ∧
      ∃ k < 3, ((strict.cpu.setPolicy .nop).resume.runFor false (3 - k)).cpu =
        ((c.setPolicy .nop).runFor false 3).cpu := by
  intro c strict
  have hresult : strict.result = .failed (.undefinedOpcode 0x02 0x0400) := by decide +kernel
  have hsp : strict.cpu.regs.sp = 0xFA := by decide +kernel
  rcases (undefinedOpcode_recovery false 3 (c := c) rfl rfl).2 with
    ⟨hfinished, -⟩ | ⟨_, _, -, -, -, -, -, hstill, k, hk, -, -, -, -, hmet⟩
  · rw [hresult] at hfinished
    cases hfinished
  · exact ⟨hresult, hsp, hstill, k, hk, hmet⟩

end Nes6502
