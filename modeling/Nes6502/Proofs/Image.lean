import Nes6502.Proofs.Reachable
import Nes6502.Proofs.Service

/-!
# The status register and its images

The register that the processor holds has two bits without a latch, and the images of it that are
pushed to the stack have a use for one of them: Break tells an image that software asked for from
one that an interrupt has left. A program may put on the stack what it likes and pull it as a status
register, so that the two kinds of byte stay apart has to follow from what is pushed and pulled, not
from what lies there.

A byte on the stack is an image because of who pushed it: an interrupt, or one of two instructions.
Nothing is said about bytes that a program has put there by other means, or has changed since.

## What is proved

* `Status.image_toStack`: an image differs from the register in the two bits alone.
* `Cpu.Steady`: what holds of a processor between any two operations, and `Course.steady`, that it
  does.
* `ServingAccesses.images`: where a step pushes images, and which.
* `status_steady`: the two together, for every history from power-on on.
-/

set_option autoImplicit false

namespace Nes6502

variable {β : Type} [Bus β]

/-! ## Images -/

namespace Status

/-- A byte that stands for the register on the stack: the unused bit is set, Break says whether
software asked for it, and the other six flags are those of the register. -/
structure Image (p : Status) (software : Bool) (image : UInt8) : Prop where
  unused : image &&& Flag.unused.mask = Flag.unused.mask
  brk : image &&& Flag.brk.mask = if software then Flag.brk.mask else 0
  others : ∀ flag : Flag, flag ≠ .unused → flag ≠ .brk →
    image &&& flag.mask = p.stored &&& flag.mask

theorem image_toStack (p : Status) (software : Bool) : p.Image software (p.toStack software) := by
  obtain ⟨⟨bits⟩⟩ := p
  refine ⟨?_, ?_, ?_⟩
  · cases software <;> revert bits <;> decide +kernel
  · cases software <;> revert bits <;> decide +kernel
  · intro flag hunused hbrk
    cases flag
    case unused => exact absurd rfl hunused
    case brk => exact absurd rfl hbrk
    all_goals cases software <;> revert bits <;> decide +kernel

/-- Of a live register the stored byte is the one that a debugger sees. -/
theorem Live.bits {p : Status} (h : p.Live) : p.bits = p.stored := h.faithful.bits

end Status

/-! ## Between operations -/

/-- What holds of a processor between operations. -/
structure Cpu.Steady (c : Cpu β) : Prop where
  live : c.regs.status.Live
  bits : c.regs.status.bits = c.regs.status.stored
  state : c.state = .fetching ∨ c.state = .halted

omit [Bus β] in
theorem Cpu.steady_powerOn (bus : β) (policy : UndefinedPolicy) : (powerOn bus policy).Steady :=
  ⟨Status.live_powerOn, Status.live_powerOn.bits, .inr rfl⟩

namespace Moment

variable {m : Moment β}

/-- No operation leaves the processor within an instruction. -/
theorem state_after (tracing : Bool) (hsingle : m.operation.Single)
    (h : m.before.state = .fetching ∨ m.before.state = .halted) :
    (m.after tracing).state = .fetching ∨ (m.after tracing).state = .halted := by
  obtain ⟨c, o⟩ := m
  unfold Moment.after
  cases o with
  | runUntil | runFor | run => exact hsingle.elim
  | reset => exact .inl rfl
  | halt => exact .inr rfl
  | resume =>
    show (if c.state = .halted then .fetching else c.state) = RunState.fetching ∨ _
    split
    · exact .inl rfl
    next hstate => exact .inl (h.resolve_right hstate)
  | step =>
    show (c.step tracing).cpu.state = _ ∨ (c.step tracing).cpu.state = _
    cases hrefuses : c.refuses with
    | true =>
      rw [Cpu.step_of_refuses tracing hrefuses]
      exact .inr rfl
    | false =>
      rw [(Cpu.step_eq tracing hrefuses).2]
      cases (c.step tracing).result with
      | ok => exact .inl rfl
      | error fault => exact .inr rfl
  | interrupt kind =>
    show (c.interrupt kind).state = _ ∨ (c.interrupt kind).state = _
    rcases c.interrupt_cases kind with ⟨-, hreset⟩ | ⟨-, -, hkept⟩ | ⟨-, -, hentered⟩
    · rw [hreset]
      exact .inl rfl
    · rw [hkept]
      exact h
    · rw [hentered]
      exact h
  -- the others leave the state alone
  | _ => exact h

theorem steady_after (tracing : Bool) (hsingle : m.operation.Single) (h : m.before.Steady) :
    (m.after tracing).Steady := by
  have hlive : (m.after tracing).regs.status.Live :=
    Cpu.live_apply tracing m.operation h.live
  exact ⟨hlive, hlive.bits, m.state_after tracing hsingle h.state⟩

end Moment

theorem Course.steady {tracing : Bool} {c d : Cpu β} {moments : List (Moment β)}
    (h : Course tracing c moments d) (hc : c.Steady) : d.Steady :=
  h.invariant (fun m _ hsingle hsteady => m.steady_after tracing hsingle hsteady) hc

/-! ## What is pushed -/

open Access

/-- The accesses of entering a handler, by the image that is pushed. -/
inductive EntryAccesses (r : Registers) (kind : Interrupt) (image : UInt8) : List Access → Prop
  | intro (low high : UInt8) :
      EntryAccesses r kind image
        [write (stackAddress r.sp) (highByte r.pc),
          write (stackAddress (r.sp - 1)) (lowByte r.pc),
          write (stackAddress (r.sp - 2)) image,
          read kind.vector low, read (kind.vector + 1) high]

/-- Where a step pushes images, and which. An interrupt that is serviced pushes one of the register
before the step; the instruction pushes one of the register that the service has left, if it is one
of the two that do. -/
inductive StepImages (r : Registers) (due : Option Interrupt) : List Access → Prop
  | intro {entry peeks own : List Access} {opcode : UInt8} {ready : Registers}
      (hserved : ServiceAccesses r due entry ready)
      (hentry : ∀ kind, due = some kind →
        ∃ image, EntryAccesses r kind image entry ∧ r.status.Image false image)
      (hpeeks : ∀ access ∈ peeks, access.kind = .peek)
      (hpush : ∀ i, decode opcode = some i → i.mnemonic = .php →
        ∃ image, own = [write (stackAddress ready.sp) image] ∧ ready.status.Image true image)
      (hbreak : ∀ i, decode opcode = some i → i.mnemonic = .brk →
        ∃ image, EntryAccesses { ready with pc := ready.pc + 2 } .brk image own ∧
          ready.status.Image true image) :
      StepImages r due (entry ++ peeks ++ read ready.pc opcode :: own)

theorem HandlerAccesses.image {r : Registers} {kind : Interrupt} {log : List Access}
    {handler : UInt16} (h : HandlerAccesses r kind log handler) :
    ∃ image, EntryAccesses r kind image log ∧ r.status.Image (kind == .brk) image := by
  cases h with
  | intro low high => exact ⟨_, .intro low high, r.status.image_toStack _⟩

/-- The two instructions that push images have no operand. -/
theorem implied_of_decode {opcode : UInt8} {i : Instruction} (hdecode : decode opcode = some i)
    (h : i.mnemonic = .php ∨ i.mnemonic = .brk) : i.mode = .implied :=
  of_decode (P := fun i => i.mnemonic = .php ∨ i.mnemonic = .brk → i.mode = .implied)
    (by decide +kernel) hdecode h

/-- The accesses of an instruction without an operand are those of its action. -/
theorem InstructionAccesses.own {r : Registers} {i : Instruction} {log : List Access}
    (h : InstructionAccesses r (some i) log) (himplied : i.mode = .implied) :
    ActionAccesses r i.mnemonic.action .absent log := by
  cases h with
  | defined i hreads hown =>
    rw [himplied] at hreads
    cases hreads
    exact hown

theorem ServingAccesses.images {r : Registers} {due : Option Interrupt} {log : List Access}
    (hdue : due ≠ some .brk) (h : ServingAccesses r due log) : StepImages r due log := by
  cases h with
  | @intro entry peeks _ ready hserved hpeeks hrest =>
    cases hrest with
    | @intro opcode own hown =>
      refine .intro hserved ?_ hpeeks ?_ ?_
      · rintro kind rfl
        cases hserved with
        | serviced kind hhandler =>
          obtain ⟨image, haccesses, himage⟩ := hhandler.image
          have hkind : (kind == .brk) = false := by
            rw [beq_eq_false_iff_ne]
            exact fun h => hdue (by rw [h])
          exact ⟨image, haccesses, hkind ▸ himage⟩
      · intro i hdecode hphp
        rw [hdecode] at hown
        have hown := hown.own (implied_of_decode hdecode (.inl hphp))
        rw [hphp] at hown
        cases hown
        exact ⟨_, rfl, ready.status.image_toStack true⟩
      · intro i hdecode hbrk
        rw [hdecode] at hown
        have hown := hown.own (implied_of_decode hdecode (.inr hbrk))
        rw [hbrk] at hown
        cases hown with
        | softwareInterrupt _ hhandler => exact hhandler.image

/-- A direct interrupt that is not kept out pushes an image, in the way of its kind. -/
theorem Cpu.accesses_interrupt {c : Cpu (Recorded β)} {kind : Interrupt} (hkind : kind ≠ .reset)
    (hmasks : c.masks kind = false) :
    ∃ log image, (c.interrupt kind).bus.accesses = c.bus.accesses ++ log ∧
      EntryAccesses c.regs kind image log ∧ c.regs.status.Image (kind == .brk) image := by
  obtain ⟨log, hlog, handler, hhandler, -⟩ := (c.regs.admits_enterHandler kind).accesses c.bus
  obtain ⟨image, haccesses, himage⟩ := hhandler.image
  refine ⟨log, image, ?_, haccesses, himage⟩
  rw [interrupt, if_neg hkind, hmasks, if_neg Bool.false_ne_true, enterHandler_eq]
  exact hlog

/-! ## Histories -/

/-- From power-on on, on any bus and after every operation, also within runs, the stored status
register has the unused bit set and Break clear, a debugger sees the same byte, and the processor is
fetching or halted. Every image that it pushes has the unused bit set and Break as it should be: set
if the push is an instruction of its own, a software interrupt or a direct interrupt of that kind,
and clear otherwise. The other six flags are those of the register at that time. What a program has
put on the stack does not matter. -/
theorem status_steady (tracing : Bool) (policy : UndefinedPolicy) :
    (∀ (bus : β) (operations : List (Operation β)),
      let start := Cpu.powerOn bus policy
      (Operation.applyAll tracing start operations).2.Steady ∧
        ∀ m ∈ Operation.history tracing start operations,
          m.before.Steady ∧ (m.after tracing).Steady) ∧
      ∀ (bus : Recorded β) (operations : List (Operation (Recorded β))),
        ∀ m ∈ Operation.history tracing (.powerOn bus policy) operations,
          (m.Steps → ∃ log, (m.after tracing).bus.accesses = m.before.bus.accesses ++ log ∧
            StepImages m.before.regs (m.serviced tracing).head? log) ∧
          ∀ kind, m.operation = .interrupt kind → kind ≠ .reset → m.before.masks kind = false →
            ∃ log image, (m.after tracing).bus.accesses = m.before.bus.accesses ++ log ∧
              EntryAccesses m.before.regs kind image log ∧
              m.before.regs.status.Image (kind == .brk) image := by
  refine ⟨fun bus operations => ?_, fun bus operations m _ => ⟨fun hsteps => ?_, ?_⟩⟩
  · intro start
    have hcourse := Operation.course_history tracing start operations
    have hstart : start.Steady := Cpu.steady_powerOn bus policy
    refine ⟨hcourse.steady hstart, fun m hm => ?_⟩
    obtain ⟨earlier, later, heq⟩ := List.append_of_mem hm
    rw [heq] at hcourse
    obtain ⟨hearlier, hsingle, -⟩ := hcourse.split_cons
    have hbefore := hearlier.steady hstart
    exact ⟨hbefore, m.steady_after tracing hsingle hbefore⟩
  · obtain ⟨c, o⟩ := m
    obtain ⟨rfl, hrefuses⟩ := hsteps
    obtain ⟨log, hlog, hserving⟩ := c.accesses_step tracing hrefuses
    refine ⟨log, hlog, hserving.images ?_⟩
    rw [Cpu.head?_serviced tracing hrefuses]
    exact c.dueInterrupt_ne_brk
  · obtain ⟨c, o⟩ := m
    rintro kind rfl hkind hmasks
    exact Cpu.accesses_interrupt hkind hmasks

/-- A program that pushes its status register; all handlers are at its beginning. -/
def pushingRam : Ram := Ram.zeroed.load 0x0000 [0x08]

/-- The three kinds of image: one of a direct interrupt that passes for a software interrupt, one of
an interrupt that the next step services, and one that the program pushes itself. -/
theorem status_steady_pushing :
    let start := Cpu.powerOn (⟨pushingRam, []⟩ : Recorded Ram) .halt
    let operations := [.reset, .interrupt .brk, .triggerNmi, .step]
    let c := start.reset
    let d := (c.interrupt .brk).triggerNmi
    (Operation.applyAll false start operations).2.Steady ∧
    (∃ image, EntryAccesses c.regs .brk image [write 0x01FD 0x00, write 0x01FC 0x00,
        write 0x01FB 0x34, read 0xFFFE 0x00, read 0xFFFF 0x00] ∧
      c.regs.status.Image true image) ∧
    StepImages d.regs (some .nmi) [write 0x01FA 0x00, write 0x01F9 0x00, write 0x01F8 0x24,
      read 0xFFFA 0x00, read 0xFFFB 0x00, read 0x0000 0x08, write 0x01F7 0x34] := by
  intro start operations c d
  obtain ⟨-, himages⟩ := @status_steady Ram _ false .halt
  obtain ⟨hsteady, -⟩ := @status_steady (Recorded Ram) _ false .halt
  have hdirect : (⟨c, .interrupt .brk⟩ : Moment (Recorded Ram)) ∈
      Operation.history false start operations :=
    .tail _ (.head _)
  have hstep : (⟨d, .step⟩ : Moment (Recorded Ram)) ∈
      Operation.history false start operations :=
    .tail _ (.tail _ (.tail _ (.head _)))
  refine ⟨(hsteady _ operations).1, ?_, ?_⟩
  · have hpushed : (c.interrupt .brk).bus.accesses = c.bus.accesses ++ [write 0x01FD 0x00,
        write 0x01FC 0x00, write 0x01FB 0x34, read 0xFFFE 0x00, read 0xFFFF 0x00] := by
      decide +kernel
    obtain ⟨log, image, hlog, haccesses, himage⟩ :=
      (himages _ _ _ hdirect).2 .brk rfl (by decide) rfl
    obtain rfl := List.append_cancel_left (hlog.symm.trans hpushed)
    exact ⟨image, haccesses, himage⟩
  · have hpushed : (d.step false).cpu.bus.accesses = d.bus.accesses ++ [write 0x01FA 0x00,
        write 0x01F9 0x00, write 0x01F8 0x24, read 0xFFFA 0x00, read 0xFFFB 0x00,
        read 0x0000 0x08, write 0x01F7 0x34] := by
      decide +kernel
    obtain ⟨log, hlog, hstepImages⟩ := (himages _ _ _ hstep).1 ⟨rfl, by decide +kernel⟩
    obtain rfl := List.append_cancel_left (hlog.symm.trans hpushed)
    exact hstepImages

end Nes6502
