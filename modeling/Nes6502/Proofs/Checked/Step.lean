import Nes6502.Proofs.Checked.Instruction

/-!
# Steps with checked arithmetic

A step with checked arithmetic, and what belongs to it: the interrupt that is due, the trace line
with its listing entry, and the instruction. It does not overflow if the cycle counter has room for
fourteen cycles, since the interrupt and the instruction cost seven at most each.

## What is proved

* `Cpu.listAt?_eq`, `Cpu.traceLine?_eq`: listings and trace lines never overflow.
* `Cpu.step?_eq`: a step with room for its cycles does not overflow.
-/

set_option autoImplicit false

namespace Nes6502

/-- Whether the counter wraps or not, it grows by the cycles at most. -/
theorem toNat_add_ofNat_le (total : UInt64) (cycles : Nat) :
    (total + UInt64.ofNat cycles).toNat ≤ total.toNat + cycles := by
  rw [UInt64.toNat_add, UInt64.toNat_ofNat']
  exact Nat.le_trans (Nat.mod_le _ _) (Nat.add_le_add_left (Nat.mod_le _ _) _)

/-- The length in bytes, opcode included. -/
def Instruction.length? (i : Instruction) : Option UInt8 :=
  Checked.add 1 (UInt8.ofNat i.mode.operandBytes)

theorem Instruction.length?_eq (i : Instruction) :
    ∃ length, i.length? = some length ∧ length.toNat = i.length := by
  obtain ⟨opcode, mnemonic, mode, baseCycles, pagePenalty⟩ := i
  cases mode <;> exact ⟨_, rfl, rfl⟩

namespace Cpu

variable {α γ β : Type}

/-- Carrying out two transactions one after the other is carrying them out. -/
theorem transact_bind (c : Cpu β) (t : Transaction β α) (next : α → Transaction β γ) :
    c.transact (t >>= next) = (c.transact t).2.transact (next (c.transact t).1) := by
  simp [transact, Bind.bind, Transaction.bind, Reply.andThen, Bool.or_assoc]

theorem transact_pure (c : Cpu β) (value : α) :
    c.transact (Pure.pure value : Transaction β α) = (value, c) := by
  simp [transact, Pure.pure, Transaction.pure]

variable [Bus β]

/-! ## Listings and traces -/

/-- The listing entry at an address. -/
def listAt? (c : Cpu β) (address : UInt16) : Option (Listing.Entry × Cpu β) :=
  let (opcode, c) := c.transact (Bus.peekByte address)
  match decode opcode with
  | none => some (⟨Listing.dataText opcode, 1⟩, c)
  | some i => do
    let length ← i.length?
    let (low, c) :=
      if length.toNat > 1 then c.transact (Bus.peekByte (address + 1)) else (0, c)
    let (high, c) :=
      if length.toNat > 2 then c.transact (Bus.peekByte (address + 2)) else (0, c)
    let word ← wordOfBytes? low high
    let operand := Listing.operandText i.mode address (lowByte word) (highByte word)
    return (⟨i.mnemonic.letters ++ operand, length.toNat⟩, c)

/-- The listing of a number of instructions in a row. -/
def disassemble? (c : Cpu β) (start : UInt16) :
    (count : Nat) → Option (List (UInt16 × List Char) × Cpu β)
  | 0 => some ([], c)
  | count + 1 => do
    let (entry, c) ← c.listAt? start
    let (rest, c) ← c.disassemble? (start + UInt16.ofNat entry.length) count
    return ((start, entry.text) :: rest, c)

/-- The trace line of the instruction at the program counter. -/
def traceLine? (c : Cpu β) : Option (List Char × Cpu β) := do
  let (entry, c) ← c.listAt? c.regs.pc
  let (bytes, c) := c.transact (Listing.peekBytes c.regs.pc entry.length)
  return (TraceLine.render c.regs bytes entry.text, c)

/-- The trace line, if there is to be one. -/
def traceEvents? (tracing : Bool) (c : Cpu β) : Option (List Event × Cpu β) :=
  if tracing then do
    let (line, c) ← c.traceLine?
    return ([.traced line], c)
  else some ([], c)

@[simp] theorem listAt?_eq (c : Cpu β) (address : UInt16) :
    c.listAt? address = some (c.transact (Listing.entryAt address)) := by
  simp only [listAt?, Listing.entryAt, transact_bind]
  cases decode (c.transact (Bus.peekByte address)).1 with
  | none => simp only [transact_pure]
  | some i =>
    obtain ⟨length, hlength, hnumber⟩ := i.length?_eq
    simp only [hlength, hnumber, wordOfBytes?_eq, Option.bind_eq_bind, Option.bind_some,
      lowByte_wordOfBytes, highByte_wordOfBytes]
    by_cases hlow : i.length > 1 <;> by_cases hhigh : i.length > 2 <;>
      simp only [hlow, hhigh, if_true, if_false, transact_bind, transact_pure] <;> rfl

@[simp] theorem disassemble?_eq (c : Cpu β) (start : UInt16) (count : Nat) :
    c.disassemble? start count = some (c.transact (Listing.disassemble start count)) := by
  induction count generalizing c start with
  | zero => simp [disassemble?, Listing.disassemble, transact_pure]
  | succ count ih =>
    simp [disassemble?, Listing.disassemble, ih, transact_bind, transact_pure]

@[simp] theorem traceLine?_eq (c : Cpu β) : c.traceLine? = some c.traceLine := by
  simp [traceLine?, traceLine]

@[simp] theorem traceEvents?_eq (tracing : Bool) (c : Cpu β) :
    traceEvents? tracing c = some (traceEvents tracing c) := by
  cases tracing <;> simp [traceEvents?, traceEvents]

/-! ## Steps -/

/-- Takes the interrupt that is due, if any. -/
def pollInterrupts? (c : Cpu β) : Option (Cpu β) :=
  match c.dueInterrupt with
  | some .nmi => { c with nmiLatched := false }.enterHandler? .nmi
  | some kind => c.enterHandler? kind
  | none => some c

/-- Deals with a byte that is no documented opcode. -/
def meetUndefined? (c : Cpu β) (opcode : UInt8) (address : UInt16) :
    Option (Except Fault Unit × Cpu β) :=
  match c.policy with
  | .halt => some (.error (.undefinedOpcode opcode address), (c.setPc address).setState .halted)
  | .nop => do
    let c ← c.spend? 2
    return (.ok (), c.setState .fetching)

/-- Fetches and executes one instruction. -/
def executeNext? (c : Cpu β) : Option (StepReport β) := do
  let address := c.regs.pc
  let (opcode, c) := c.fetch
  let c := c.setState .executing
  match decode opcode with
  | some i =>
    let c ← c.execute? i
    let c := c.setState .fetching
    return ⟨.ok (), c, executeEvents i address c⟩
  | none =>
    let (result, c) ← c.meetUndefined? opcode address
    return ⟨result, c, [.undefined c.policy opcode address]⟩

/-- Takes the interrupt that is due and executes one instruction, unless halted. -/
def step? (tracing : Bool) (c : Cpu β) : Option (StepReport β) := do
  if c.refuses then return ⟨.error .halted, c.setState .halted, []⟩
  else
    let polled ← c.pollInterrupts?
    let (traced, ready) ← traceEvents? tracing polled
    let report ← ready.executeNext?
    return { report with events := pollEvents c polled ++ traced ++ report.events }

theorem pollInterrupts?_eq {c : Cpu β} (hroom : c.regs.cycles.toNat + 7 < 2 ^ 64) :
    c.pollInterrupts? = some c.pollInterrupts := by
  cases hdue : c.dueInterrupt with
  | none => simp only [pollInterrupts?, pollInterrupts, hdue]
  | some kind =>
    cases kind <;> simp only [pollInterrupts?, pollInterrupts, hdue] <;>
      exact enterHandler?_eq hroom

omit [Bus β] in
theorem meetUndefined?_eq {c : Cpu β} (hroom : c.regs.cycles.toNat + 7 < 2 ^ 64) (opcode : UInt8)
    (address : UInt16) :
    c.meetUndefined? opcode address = some (c.meetUndefined opcode address) := by
  have hspent : c.spend? (UInt64.ofNat 2) = some (c.spend 2) :=
    spend?_eq (Nat.lt_of_le_of_lt (Nat.add_le_add_left (by decide) _) hroom)
  cases hpolicy : c.policy with
  | halt => simp only [meetUndefined?, meetUndefined, hpolicy]
  | nop =>
    simp only [meetUndefined?, meetUndefined, hpolicy]
    rw [show (2 : UInt64) = UInt64.ofNat 2 from rfl, hspent]
    rfl

theorem executeNext?_eq {c : Cpu β} (hroom : c.regs.cycles.toNat + 7 < 2 ^ 64) :
    c.executeNext? = some c.executeNext := by
  have hroom : (c.fetch.2.setState .executing).regs.cycles.toNat + 7 < 2 ^ 64 := hroom
  simp only [executeNext?, executeNext]
  cases hdecode : decode c.fetch.1 with
  | some i =>
    simp only [execute?_eq hdecode hroom, Option.bind_eq_bind, Option.bind_some]
    rfl
  | none =>
    simp only [meetUndefined?_eq hroom, Option.bind_eq_bind, Option.bind_some]
    rfl

/-- A refused step costs nothing, and so needs no room. -/
theorem step?_of_refuses (tracing : Bool) {c : Cpu β} (h : c.refuses = true) :
    c.step? tracing = some (c.step tracing) := by
  simp only [step?, step, h, if_true]
  rfl

/-- A step does not overflow if there is room for the cycles of an interrupt and an instruction. -/
theorem step?_eq (tracing : Bool) {c : Cpu β} (hroom : c.regs.cycles.toNat + 14 < 2 ^ 64) :
    c.step? tracing = some (c.step tracing) := by
  cases hrefuses : c.refuses with
  | true => exact step?_of_refuses tracing hrefuses
  | false =>
    have hpolled : c.pollInterrupts.regs.cycles.toNat ≤ c.regs.cycles.toNat + 7 := by
      rw [cycles_pollInterrupts]
      refine Nat.le_trans (toNat_add_ofNat_le _ _) (Nat.add_le_add_left ?_ _)
      split <;> decide
    have hready : (traceEvents tracing c.pollInterrupts).2.regs.cycles.toNat + 7 < 2 ^ 64 := by
      rw [traceEvents_eq, regs_converse]
      omega
    simp only [step?, step, hrefuses, Bool.false_eq_true, if_false,
      pollInterrupts?_eq (show c.regs.cycles.toNat + 7 < 2 ^ 64 by omega), traceEvents?_eq,
      executeNext?_eq hready, Option.bind_eq_bind, Option.bind_some]
    rfl

/-- With a full cycle counter a step overflows. -/
example :
    let c := (Cpu.powerOn Ram.zeroed .nop).reset
    ({ c with regs := { c.regs with cycles := 0xFFFFFFFFFFFFFFFF } }.step? false).isNone := by
  decide +kernel

end Cpu

end Nes6502
