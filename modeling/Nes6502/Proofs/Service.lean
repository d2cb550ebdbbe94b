import Nes6502.Proofs.Accesses
import Nes6502.Proofs.History

/-!
# Interrupts that a step services

A step tells of the interrupt that it services, and a bus sees it: before the opcode is fetched, and
before the trace line is made, the return address and the image of the status register are pushed
and the vector is read. Software interrupts are instructions, and not meant here.

## What is proved

* `Cpu.serviced_step`: a step that is not refused services the interrupt that is due, and no other.
* `Cpu.accesses_step`: what it says it services is what the bus sees, before everything else.
* `Moment.nmi_mem_serviced`, `Moment.irq_mem_serviced`: when an interrupt is serviced in a history.
-/

set_option autoImplicit false

namespace Nes6502

variable {β : Type} [Bus β]

/-! ## What a step tells -/

/-- The interrupt that an event tells of, unless software asked for it. -/
def Event.hardware : Event → Option Interrupt
  | .interrupted kind _ _ => if kind = .brk then none else some kind
  | _ => none

/-- The interrupts that a step has serviced, as it tells of them. -/
def StepReport.serviced (report : StepReport β) : List Interrupt :=
  report.events.filterMap Event.hardware

namespace Cpu

omit [Bus β] in
theorem hardware_pollEvents (before after : Cpu β) :
    (pollEvents before after).filterMap Event.hardware = before.dueInterrupt.toList := by
  have hbrk := before.dueInterrupt_ne_brk
  unfold pollEvents
  cases hdue : before.dueInterrupt with
  | none => rfl
  | some kind =>
    have hkind : kind ≠ .brk := fun h => hbrk (by rw [hdue, h])
    simp [Event.hardware, hkind]

theorem hardware_traceEvents (tracing : Bool) (c : Cpu β) :
    (traceEvents tracing c).1.filterMap Event.hardware = [] := by
  cases tracing <;> rfl

theorem hardware_executeNext (c : Cpu β) :
    c.executeNext.events.filterMap Event.hardware = [] := by
  simp only [executeNext]
  cases decode c.fetch.1 with
  | none => rfl
  | some i =>
    by_cases hbrk : i.mnemonic = .brk <;> simp [executeEvents, hbrk, Event.hardware]

/-- A step that is not refused services the interrupt that is due, and no other. -/
theorem serviced_step (tracing : Bool) {c : Cpu β} (h : c.refuses = false) :
    (c.step tracing).serviced = c.dueInterrupt.toList := by
  simp only [StepReport.serviced, step, h, Bool.false_eq_true, if_false, List.filterMap_append,
    hardware_pollEvents, hardware_traceEvents, hardware_executeNext, List.append_nil]

theorem mem_serviced (tracing : Bool) (c : Cpu β) (kind : Interrupt) :
    kind ∈ (c.step tracing).serviced ↔ c.refuses = false ∧ c.dueInterrupt = some kind := by
  cases hrefuses : c.refuses with
  | true =>
    rw [step_of_refuses tracing hrefuses]
    simp [StepReport.serviced]
  | false => simp [serviced_step tracing hrefuses]

theorem length_serviced_le (tracing : Bool) (c : Cpu β) :
    (c.step tracing).serviced.length ≤ 1 := by
  cases hrefuses : c.refuses with
  | true =>
    rw [step_of_refuses tracing hrefuses]
    exact Nat.zero_le 1
  | false =>
    rw [serviced_step tracing hrefuses]
    cases c.dueInterrupt <;> simp

/-- A non-maskable interrupt is serviced whenever it is latched. -/
theorem nmi_mem_serviced (tracing : Bool) (c : Cpu β) :
    Interrupt.nmi ∈ (c.step tracing).serviced ↔ c.refuses = false ∧ c.nmiLatched = true := by
  have hdue : c.dueInterrupt = some .nmi ↔ c.nmiLatched = true := by
    unfold dueInterrupt
    cases c.nmiLatched with
    | true => simp
    | false => cases c.irqLine && !c.regs.status.get .interruptDisable <;> simp
  rw [mem_serviced, hdue]

/-- The interrupt line is heard while nothing is latched and the mask is clear. -/
theorem irq_mem_serviced (tracing : Bool) (c : Cpu β) :
    Interrupt.irq ∈ (c.step tracing).serviced ↔
      c.refuses = false ∧ c.nmiLatched = false ∧ c.irqLine = true ∧
        c.regs.status.get .interruptDisable = false := by
  have hdue : c.dueInterrupt = some .irq ↔ c.nmiLatched = false ∧ c.irqLine = true ∧
      c.regs.status.get .interruptDisable = false := by
    unfold dueInterrupt
    cases c.nmiLatched <;> cases c.irqLine <;> cases c.regs.status.get .interruptDisable <;> decide
  rw [mem_serviced, hdue]

end Cpu

/-! ## What a bus sees -/

/-- The accesses by which a step services the interrupt that is due, and the registers afterwards.
-/
inductive ServiceAccesses (r : Registers) : Option Interrupt → List Access → Registers → Prop
  | idle : ServiceAccesses r none [] r
  | serviced (kind : Interrupt) {log : List Access} {handler : UInt16}
      (h : HandlerAccesses r kind log handler) :
      ServiceAccesses r (some kind) log
        { r with
          sp := r.sp - 3
          pc := handler
          status := r.status.set .interruptDisable
          cycles := r.cycles + UInt64.ofNat Interrupt.entryCycles }

/-- The accesses of a step that is not refused: those of the service come first, then the peeks of
the trace line, and then the instruction starts from the registers that the service has left. -/
inductive ServingAccesses (r : Registers) (due : Option Interrupt) : List Access → Prop
  | intro {entry peeks rest : List Access} {ready : Registers}
      (hentry : ServiceAccesses r due entry ready)
      (hpeeks : ∀ access ∈ peeks, access.kind = .peek) (hrest : FetchAccesses ready rest) :
      ServingAccesses r due (entry ++ peeks ++ rest)

/-- What holds of the accesses of every request that is made holds of all accesses. -/
theorem Conversation.Asks.admits {α : Type} {P : Request → Prop} {Q : Access → Prop}
    {t : Conversation α} (h : t.Asks P)
    (hP : ∀ request : Request, P request → ∀ answer, ∀ access ∈ request.accesses answer, Q access) :
    t.Admits fun _ log => ∀ access ∈ log, Q access := by
  induction t with
  | done value => exact fun access hmem => absurd hmem List.not_mem_nil
  | ask request next ih =>
    intro answer
    refine (ih answer (h.2 answer)).mono fun value log hlog => ?_
    exact List.forall_mem_append.mpr ⟨hP request h.1 answer, hlog⟩

namespace Registers

open Conversation

theorem admits_poll (r : Registers) {due : Option Interrupt} (hdue : due ≠ some .brk) :
    (r.poll due).Admits fun ready log => ServiceAccesses r due log ready := by
  cases due with
  | none => exact .idle
  | some kind =>
    have hkind : kind ≠ .brk := fun h => hdue (by rw [h])
    refine (r.admits_enterHandler kind).mono fun ready log hentry => ?_
    obtain ⟨handler, hlog, rfl⟩ := hentry
    rw [if_neg hkind]
    exact .serviced kind hlog

theorem admits_trace (r : Registers) (tracing : Bool) :
    (r.trace tracing).Admits fun _ log => ∀ access ∈ log, access.kind = .peek := by
  refine (r.asks_trace tracing).admits fun request hpeeks answer => ?_
  cases request with
  | peekByte address => exact List.forall_mem_singleton.mpr rfl
  | _ => cases hpeeks

theorem admits_serving_step (r : Registers) (tracing : Bool) {due : Option Interrupt}
    (hdue : due ≠ some .brk) (policy : UndefinedPolicy) :
    (r.step tracing due policy).Admits fun _ log => ServingAccesses r due log := by
  refine (r.admits_poll hdue).bind fun ready entry hentry => ?_
  refine (ready.admits_trace tracing).bind fun _ peeks hpeeks => ?_
  refine (ready.admits_executeNext policy).mono fun _ rest hrest => ?_
  rw [← List.append_assoc]
  exact .intro hentry hpeeks hrest

end Registers

namespace Cpu

theorem head?_serviced (tracing : Bool) {c : Cpu β} (h : c.refuses = false) :
    (c.step tracing).serviced.head? = c.dueInterrupt := by
  rw [serviced_step tracing h]
  cases c.dueInterrupt <;> rfl

/-- What a step says it services is what a bus sees, before everything else. -/
theorem accesses_step (tracing : Bool) {c : Cpu (Recorded β)} (h : c.refuses = false) :
    ∃ log, (c.step tracing).cpu.bus.accesses = c.bus.accesses ++ log ∧
      ServingAccesses c.regs (c.step tracing).serviced.head? log := by
  obtain ⟨log, hlog, hserving⟩ :=
    (c.regs.admits_serving_step tracing c.dueInterrupt_ne_brk c.policy).accesses c.bus
  refine ⟨log, ?_, ?_⟩
  · rw [(step_eq tracing h).2]
    exact hlog
  · rwa [head?_serviced tracing h]

end Cpu

/-! ## Services in a history -/

namespace Moment

/-- A step that is not refused. -/
def Steps (m : Moment β) : Prop := m.operation = .step ∧ m.before.refuses = false

/-- The interrupts that are serviced in a moment. A direct interrupt is the doing of the host, and
not a service. -/
def serviced (tracing : Bool) (m : Moment β) : List Interrupt :=
  match m.operation with
  | .step => (m.before.step tracing).serviced
  | _ => []

variable (tracing : Bool) (m : Moment β)

theorem mem_serviced (kind : Interrupt) : kind ∈ m.serviced tracing ↔
    m.operation = .step ∧ kind ∈ (m.before.step tracing).serviced := by
  obtain ⟨c, o⟩ := m
  cases o <;> simp [serviced]

theorem length_serviced_le : (m.serviced tracing).length ≤ 1 := by
  unfold serviced
  split
  · exact m.before.length_serviced_le tracing
  · exact Nat.zero_le 1

theorem nmi_mem_serviced :
    Interrupt.nmi ∈ m.serviced tracing ↔ m.Steps ∧ m.before.nmiLatched = true := by
  rw [mem_serviced, Cpu.nmi_mem_serviced, Steps, and_assoc]

theorem irq_mem_serviced :
    Interrupt.irq ∈ m.serviced tracing ↔ m.Steps ∧ m.before.nmiLatched = false ∧
      m.before.irqLine = true ∧ m.before.regs.status.get .interruptDisable = false := by
  rw [mem_serviced, Cpu.irq_mem_serviced, Steps, and_assoc]

end Moment

end Nes6502
