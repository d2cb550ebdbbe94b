import Nes6502.Operation
import Nes6502.Proofs.Conversation.Step
import Nes6502.Proofs.Run
import Nes6502.Proofs.Status

/-!
# Processors that a host can come by

A host gets a processor at power-on and then only carries operations out on it, or wires it to
another bus. What each of these preserves holds of every processor there is.

## What is proved

* `Registers.status_perform`: what an action can do to the status register.
* `Cpu.live_step`: an instruction keeps the stored status register live, whatever the bus answers.
* `Cpu.Reachable.live`: the stored status register of every reachable processor is live.
-/

set_option autoImplicit false

namespace Nes6502

open Conversation

/-! ## Instructions -/

namespace Registers

theorem push_status (r : Registers) (value : UInt8) :
    (r.push value).Ensures fun after => after.status = r.status :=
  fun _ => rfl

theorem pushWord_status (r : Registers) (word : UInt16) :
    (r.pushWord word).Ensures fun after => after.status = r.status :=
  fun _ _ => rfl

theorem writeOperand_status (r : Registers) (operand : Operand) (value : UInt8) :
    (r.writeOperand operand value).Ensures fun after => after.status = r.status := by
  cases operand with
  | address address => exact fun _ => rfl
  | accumulator | absent => rfl

theorem jumpTo_status (r : Registers) (operand : Operand) :
    (r.jumpTo operand).status = r.status := by
  cases operand <;> rfl

/-- Entering a handler sets the interrupt mask, and no other flag. -/
theorem enterHandler_status (r : Registers) (kind : Interrupt) :
    (r.enterHandler kind).Ensures fun after =>
      after.status = r.status.set .interruptDisable := by
  refine (r.pushWord_status r.pc).bind fun after hafter => ?_
  refine (after.push_status _).bind fun last hlast => fun _ => ?_
  show last.status.set .interruptDisable = r.status.set .interruptDisable
  rw [hlast, hafter]

/-- Whatever the interrupt, its handler starts with the mask set. -/
theorem masked_enterHandler (r : Registers) (kind : Interrupt) :
    (r.enterHandler kind).Ensures fun after => after.status.get .interruptDisable = true := by
  refine (r.enterHandler_status kind).mono fun after hafter => ?_
  rw [hafter]
  exact r.status.get_set

/-- Apart from the flags that describe results, the status register changes only where an action
assigns to a flag, enters a handler or pulls the register from the stack. -/
theorem status_perform {P : Status → Prop} (hP : Status.Unaffected P) {r : Registers}
    (h : P r.status) {action : Action}
    (hassign : ∀ flag value, action = .assign flag value → P (r.status.assign flag value))
    (henter : action = .softwareInterrupt → P (r.status.set .interruptDisable))
    (hpull : action = .returnFromInterrupt ∨ action = .pullStatus → ∀ bits, P (.ofStack bits))
    (operand : Operand) :
    (r.perform action operand).Ensures fun done => P done.regs.status := by
  cases action with
  | load destination => exact (Ensures.trivial _).bind fun m _ => hP.updateZeroNegative h m
  | store source =>
    refine (r.writeOperand_status operand _).bind fun after hafter => ?_
    show P after.status
    rwa [hafter]
  | combine op => exact (Ensures.trivial _).bind fun m _ => hP.combination h op r.a m
  | compare register => exact (Ensures.trivial _).bind fun m _ => hP.compare h _ m
  | testBits => exact (Ensures.trivial _).bind fun m _ => hP.testBits h r.a m
  | modify op =>
    refine (Ensures.trivial _).bind fun m _ => ?_
    refine (writeOperand_status _ operand _).bind fun after hafter => ?_
    show P after.status
    rw [hafter]
    exact hP.modification h op m
  | count register op => exact hP.modification h op _
  | transfer source destination =>
    show P (if destination = .sp then r.set .sp (r.get source)
      else r.setResult destination (r.get source)).status
    split
    · exact h
    · exact hP.updateZeroNegative h _
  | assign flag value => exact hassign flag value rfl
  | branch flag value =>
    show Conversation.Ensures _ (if _ then _ else _)
    split
    · exact (Ensures.trivial _).bind fun _ _ => h
    · exact h
  | jump =>
    show P (r.jumpTo operand).status
    rwa [jumpTo_status]
  | call =>
    refine (r.pushWord_status _).bind fun after hafter => ?_
    show P (after.jumpTo operand).status
    rwa [jumpTo_status, hafter]
  | returnFromCall => exact fun _ _ => h
  | softwareInterrupt =>
    refine ((r.setPc _).enterHandler_status .brk).bind fun after hafter => ?_
    show P after.status
    rw [hafter]
    exact henter rfl
  | returnFromInterrupt => exact fun bits _ _ => hpull (.inl rfl) bits
  | pushAccumulator | pushStatus => exact fun _ => h
  | pullAccumulator => exact fun value => hP.updateZeroNegative h value
  | pullStatus => exact fun bits => hpull (.inr rfl) bits
  | nothing => exact h

/-- An instruction leaves the status register as its action does. -/
theorem status_execute {P : Status → Prop} {r : Registers} {i : Instruction}
    (h : ∀ operand,
      (r.perform i.mnemonic.action operand).Ensures fun done => P done.regs.status) :
    (r.execute i).Ensures fun after => P after.status := by
  refine (Ensures.trivial _).bind fun resolution _ => ?_
  refine (h resolution.operand).bind fun done hdone => ?_
  show P (Registers.status (if done.jumped then done.regs else _))
  split
  · exact hdone
  · exact hdone

/-! ## The live register -/

theorem live_enterHandler {r : Registers} (h : r.status.Live) (kind : Interrupt) :
    (r.enterHandler kind).Ensures fun after => after.status.Live := by
  refine (r.enterHandler_status kind).mono fun after hafter => ?_
  rw [hafter]
  exact h.set (by decide)

/-- No mnemonic assigns to Break. -/
theorem action_ne_assign_brk (mnemonic : Mnemonic) (value : Bool) :
    mnemonic.action ≠ .assign .brk value := by
  cases mnemonic <;> simp [Mnemonic.action]

theorem live_execute {r : Registers} (h : r.status.Live) (i : Instruction) :
    (r.execute i).Ensures fun after => after.status.Live := by
  refine status_execute (status_perform Status.unaffected_live h ?_ ?_ ?_)
  · intro flag value haction
    refine h.assign ?_ value
    rintro rfl
    exact action_ne_assign_brk i.mnemonic value haction
  · exact fun _ => h.set (by decide)
  · exact fun _ bits => Status.live_ofStack bits

theorem live_executeNext {r : Registers} (h : r.status.Live) (policy : UndefinedPolicy) :
    (r.executeNext policy).Ensures fun report => report.2.status.Live := by
  refine (Ensures.trivial _).bind fun opcode _ => ?_
  cases decode opcode with
  | some i =>
    refine (live_execute (r := r.setPc (r.pc + 1)) h i).bind fun after hafter => ?_
    exact hafter
  | none => cases policy <;> exact h

theorem live_poll {r : Registers} (h : r.status.Live) (due : Option Interrupt) :
    (r.poll due).Ensures fun after => after.status.Live := by
  cases due with
  | none => exact h
  | some kind => exact live_enterHandler h kind

theorem live_step {r : Registers} (h : r.status.Live) (tracing : Bool) (due : Option Interrupt)
    (policy : UndefinedPolicy) :
    (r.step tracing due policy).Ensures fun report => report.2.status.Live :=
  (live_poll h due).bind fun _ hafter =>
    (Ensures.trivial _).bind fun _ _ => live_executeNext hafter policy

end Registers

/-! ## Operations -/

namespace Cpu

variable {β : Type} [Bus β]

theorem live_step (tracing : Bool) {c : Cpu β} (h : c.regs.status.Live) :
    (c.step tracing).cpu.regs.status.Live := by
  cases hrefuses : c.refuses with
  | true =>
    rw [step_of_refuses tracing hrefuses]
    exact h
  | false =>
    rw [(step_eq tracing hrefuses).2]
    exact (Registers.live_step h tracing c.dueInterrupt c.policy).value c.bus

theorem live_interrupt {c : Cpu β} (h : c.regs.status.Live) (kind : Interrupt) :
    (c.interrupt kind).regs.status.Live := by
  rcases c.interrupt_cases kind with ⟨-, hreset⟩ | ⟨-, -, hkept⟩ | ⟨-, -, hentered⟩
  · rw [hreset]
    exact Status.live_powerOn
  · rwa [hkept]
  · rw [hentered]
    exact (Registers.live_enterHandler h kind).value c.bus

theorem live_continueUntil {σ : Type} (tracing : Bool) (w : Watcher σ β) (rounds executed : Nat)
    (s : σ) (events : Array Event) {c : Cpu β} (h : c.regs.status.Live) :
    (c.continueUntil tracing w rounds executed s events).cpu.regs.status.Live :=
  continueUntil_invariant (I := fun c => c.regs.status.Live) (fun _ => live_step tracing)
    (fun _ h => h) (fun _ h => h) w rounds executed s events h

theorem live_apply (tracing : Bool) (operation : Operation β) {c : Cpu β}
    (h : c.regs.status.Live) : (operation.apply tracing c).cpu.regs.status.Live := by
  cases operation with
  | reset => exact Status.live_powerOn
  | step => exact live_step tracing h
  | runUntil rounds judge => exact live_continueUntil tracing _ rounds 0 0 #[] h
  | runFor limit => exact live_continueUntil tracing _ (limit + 1) 0 0 #[] h
  | run rounds => exact live_continueUntil tracing _ rounds 0 0 #[] h
  | interrupt kind => exact live_interrupt h kind
  -- the others leave the registers alone
  | _ => exact h

/-- A processor that a host can come by. Whether a trace is wanted may change on the way, and so may
the bus. -/
inductive Reachable : Cpu β → Prop
  | powerOn (bus : β) (policy : UndefinedPolicy) : Reachable (powerOn bus policy)
  | apply {c : Cpu β} (h : Reachable c) (tracing : Bool) (operation : Operation β) :
      Reachable (operation.apply tracing c).cpu
  | rewire {c : Cpu β} (h : Reachable c) (bus : β) : Reachable { c with bus := bus }

/-- The status register of a reachable processor is live. -/
theorem Reachable.live {c : Cpu β} (h : c.Reachable) : c.regs.status.Live := by
  induction h with
  | powerOn bus policy => exact Status.live_powerOn
  | apply _ tracing operation ih => exact live_apply tracing operation ih
  | rewire _ bus ih => exact ih

end Cpu

end Nes6502
