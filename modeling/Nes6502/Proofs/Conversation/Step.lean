import Nes6502.Cpu.Step
import Nes6502.Proofs.Conversation.Instruction

/-!
# Steps as conversations

A step that is not refused is one conversation: the interrupt that is due, the peeks of the trace
line, the opcode, and its instruction. What is asked is settled by the registers, the due interrupt,
the policy and whether a trace is wanted; the rest of the processor only sees the outcome.

## What is proved

* `Cpu.pollInterrupts_eq`: taking the due interrupt is a conversation, and clears the latch.
* `Cpu.step_eq`: a step that is not refused holds `Registers.step`, takes over the registers, and is
  between two instructions or halted by its result.
-/

set_option autoImplicit false

namespace Nes6502

/-! ## Peeking -/

namespace Conversation

/-- The listing entry at an address. -/
def entryAt (address : UInt16) : Conversation Listing.Entry := do
  let opcode ← peekByte address
  match decode opcode with
  | none => return ⟨Listing.dataText opcode, 1⟩
  | some i =>
    let low ← if i.length > 1 then peekByte (address + 1) else pure 0
    let high ← if i.length > 2 then peekByte (address + 2) else pure 0
    return ⟨i.mnemonic.letters ++ Listing.operandText i.mode address low high, i.length⟩

/-- The bytes at consecutive addresses. -/
def peekBytes (address : UInt16) : (count : Nat) → Conversation (List UInt8)
  | 0 => return []
  | count + 1 => do
    let byte ← peekByte address
    let rest ← peekBytes (address + 1) count
    return byte :: rest

end Conversation

namespace Registers

/-- The trace line of the instruction at the program counter. -/
def traceLine (r : Registers) : Conversation (List Char) := do
  let entry ← Conversation.entryAt r.pc
  let bytes ← Conversation.peekBytes r.pc entry.length
  return TraceLine.render r bytes entry.text

/-- The trace line, if there is to be one. -/
def trace (r : Registers) (tracing : Bool) : Conversation (List Char) :=
  if tracing then r.traceLine else return []

/-- Takes the interrupt that is due, if any. -/
def poll (r : Registers) : Option Interrupt → Conversation Registers
  | some kind => r.enterHandler kind
  | none => return r

/-- Fetches and executes one instruction. -/
def executeNext (r : Registers) (policy : UndefinedPolicy) :
    Conversation (Except Fault Unit × Registers) := do
  let opcode ← Conversation.readByte r.pc
  let next := r.setPc (r.pc + 1)
  match decode opcode with
  | some i =>
    let after ← next.execute i
    return (.ok (), after)
  | none => return match policy with
    | .halt => (.error (.undefinedOpcode opcode r.pc), r)
    | .nop => (.ok (), { next with cycles := next.cycles + 2 })

/-- Everything that a step asks of the bus, and what it ends with. -/
def step (r : Registers) (tracing : Bool) (due : Option Interrupt) (policy : UndefinedPolicy) :
    Conversation (Except Fault Unit × Registers) := do
  let r ← r.poll due
  let _ ← r.trace tracing
  r.executeNext policy

end Registers

/-! ## What a trace asks -/

/-- Whether a request is a debugger's look at a byte. -/
def Request.peeks : Request → Bool
  | .peekByte _ => true
  | .readByte _ | .writeByte _ _ | .readWord _ | .readSplitWord _ _ => false

namespace Conversation

theorem asks_peekByte (address : UInt16) : (peekByte address).Asks (·.peeks) :=
  ⟨rfl, fun _ => True.intro⟩

theorem asks_entryAt (address : UInt16) : (entryAt address).Asks (·.peeks) := by
  refine (asks_peekByte address).bind fun opcode => ?_
  cases decode opcode with
  | none => exact True.intro
  | some i =>
    by_cases hlow : i.length > 1 <;> by_cases hhigh : i.length > 2 <;>
      simp [hlow, hhigh, peekByte, Asks, Request.peeks]

theorem asks_peekBytes (address : UInt16) (count : Nat) :
    (peekBytes address count).Asks (·.peeks) := by
  induction count generalizing address with
  | zero => exact True.intro
  | succ count ih =>
    exact (asks_peekByte address).bind fun byte => (ih _).bind fun rest => True.intro

end Conversation

/-- Nothing but peeks goes into a trace line. -/
theorem Registers.asks_trace (r : Registers) (tracing : Bool) :
    (r.trace tracing).Asks (·.peeks) := by
  cases tracing with
  | false => exact True.intro
  | true =>
    exact (Conversation.asks_entryAt r.pc).bind fun entry =>
      (Conversation.asks_peekBytes r.pc entry.length).bind fun bytes => True.intro

/-! ## Carrying it out -/

namespace Conversation

variable {β : Type} [Bus β]

theorem transaction_peekByte (address : UInt16) :
    (peekByte address).transaction = (Bus.peekByte address : Transaction β UInt8) :=
  transaction_ask_done (.peekByte address)

theorem transaction_entryAt (address : UInt16) :
    (entryAt address).transaction = (Listing.entryAt address : Transaction β Listing.Entry) := by
  simp only [entryAt, Listing.entryAt, transaction_bind, transaction_peekByte]
  congr 1
  funext opcode
  cases decode opcode with
  | none => rfl
  | some i =>
    by_cases hlow : i.length > 1 <;> by_cases hhigh : i.length > 2 <;>
      simp only [hlow, hhigh, if_true, if_false, transaction_bind, transaction_peekByte] <;> rfl

theorem transaction_peekBytes (address : UInt16) (count : Nat) :
    (peekBytes address count).transaction =
      (Listing.peekBytes address count : Transaction β (List UInt8)) := by
  induction count generalizing address with
  | zero => rfl
  | succ count ih =>
    simp only [peekBytes, Listing.peekBytes, transaction_bind, transaction_peekByte, ih]
    rfl

end Conversation

namespace Cpu

variable {β : Type} [Bus β]

theorem traceLine_eq (c : Cpu β) : c.traceLine = c.converse c.regs.traceLine := by
  simp only [Registers.traceLine, converse_bind, Conversation.pure_eq, converse_done]
  simp only [traceLine, converse, Conversation.transaction_entryAt,
    Conversation.transaction_peekBytes]
  rfl

/-- With or without a trace, what is left of it is what its peeks did to the bus. -/
theorem traceEvents_eq (tracing : Bool) (c : Cpu β) :
    (traceEvents tracing c).2 = (c.converse (c.regs.trace tracing)).2 := by
  cases tracing with
  | true => simp only [traceEvents, Registers.trace, if_true, traceLine_eq]
  | false => simp [traceEvents, Registers.trace]

omit [Bus β] in
/-- Only an instruction asks for a software interrupt. -/
theorem dueInterrupt_ne_brk (c : Cpu β) : c.dueInterrupt ≠ some .brk := by
  simp only [dueInterrupt]
  split
  · decide
  · split <;> decide

/-- The same processor with nothing latched. -/
def unlatched (c : Cpu β) : Cpu β := { c with nmiLatched := false }

omit [Bus β] in
theorem unlatched_eq_self {c : Cpu β} (h : c.nmiLatched = false) : c.unlatched = c := by
  simp only [unlatched, ← h]

/-- Taking the due interrupt is a conversation, and leaves nothing latched. -/
theorem pollInterrupts_eq (c : Cpu β) :
    c.pollInterrupts = (c.settle (c.regs.poll c.dueInterrupt)).unlatched := by
  cases hlatched : c.nmiLatched with
  | true =>
    have hdue : c.dueInterrupt = some .nmi := by simp [dueInterrupt, hlatched]
    simp only [pollInterrupts, hdue, Registers.poll, enterHandler_eq]
    rfl
  | false =>
    rw [unlatched_eq_self (show (c.settle _).nmiLatched = false from hlatched)]
    by_cases hdue : c.irqLine && !c.regs.status.get .interruptDisable
    · have hirq : c.dueInterrupt = some .irq := by simp [dueInterrupt, hlatched, hdue]
      simp only [pollInterrupts, hirq, Registers.poll, enterHandler_eq]
    · have hnone : c.dueInterrupt = none := by simp [dueInterrupt, hlatched, hdue]
      simp [pollInterrupts, hnone, Registers.poll]

/-- What a step makes of its result: the processor is between two instructions, or it is halted. -/
def conclude (c : Cpu β) (result : Except Fault Unit) : Cpu β :=
  c.setState (match result with | .ok () => .fetching | .error _ => .halted)

theorem executeNext_eq (c : Cpu β) :
    c.executeNext.result = (c.deliver (c.regs.executeNext c.policy)).1 ∧
      c.executeNext.cpu =
        (c.deliver (c.regs.executeNext c.policy)).2.conclude c.executeNext.result := by
  -- the policy is a field of its own, so that the branches compute
  obtain ⟨bus, regs, state, policy, requested, latched, line⟩ := c
  simp only [executeNext, fetch, read_eq, Registers.executeNext, deliver, converse_bind]
  cases decode (converse (β := β) _ (.readByte regs.pc)).1 with
  | none => cases policy <;> simp only [Conversation.pure_eq, converse_done] <;> exact ⟨rfl, rfl⟩
  | some i =>
    simp only [execute_eq, converse_bind, Conversation.pure_eq, converse_done]
    exact ⟨trivial, rfl⟩

/-- A step that is not refused is a conversation. -/
theorem step_eq (tracing : Bool) {c : Cpu β} (h : c.refuses = false) :
    (c.step tracing).result =
        (c.deliver (c.regs.step tracing c.dueInterrupt c.policy)).1 ∧
      (c.step tracing).cpu =
        ((c.deliver (c.regs.step tracing c.dueInterrupt c.policy)).2.conclude
          (c.step tracing).result).unlatched := by
  have hready : (traceEvents tracing c.pollInterrupts).2 =
      ((c.settle (c.regs.poll c.dueInterrupt)).converse
        ((c.settle (c.regs.poll c.dueInterrupt)).regs.trace tracing)).2.unlatched := by
    rw [traceEvents_eq, pollInterrupts_eq]
    rfl
  obtain ⟨hresult, hcpu⟩ := executeNext_eq (traceEvents tracing c.pollInterrupts).2
  simp only [step, h, Bool.false_eq_true, if_false]
  simp only [hcpu]
  rw [hresult, hready]
  simp only [Registers.step, deliver, converse_bind]
  exact ⟨rfl, rfl⟩

end Cpu

end Nes6502
