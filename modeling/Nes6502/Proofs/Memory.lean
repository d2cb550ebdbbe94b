import Nes6502.Memory
import Nes6502.Proofs.Conversation.Step

/-!
# The processor on plain memory

`Ram` answers without effects of its own: reading leaves it as it is, writing changes one byte, and
no access asks to halt. A processor on it therefore has no more state than its registers, its lines
and the bytes.

## What is proved

* `wordOfBytes_lowByte_highByte`: a word is its two bytes.
* `Cpu.converse_of_reads`: a conversation that writes nothing leaves the processor as it is.
* `Cpu.step_ram`: a step is a poll and an execution, and a trace makes no difference to it.
* `Cpu.step_defined`: with no interrupt due, it executes the instruction at the program counter.
-/

set_option autoImplicit false

namespace Nes6502

/-! ## Words and bytes -/

theorem toNat_lowByte (word : UInt16) : (lowByte word).toNat = word.toNat % 256 :=
  UInt16.toNat_toUInt8 word

theorem toNat_highByte (word : UInt16) : (highByte word).toNat = word.toNat / 256 := by
  have := word.toNat_lt
  simp only [highByte, UInt16.toNat_toUInt8, UInt16.toNat_shiftRight, UInt16.toNat_ofNat,
    Nat.shiftRight_eq_div_pow, Nat.reducePow, Nat.reduceMod]
  omega

theorem toNat_wordOfBytes (low high : UInt8) :
    (wordOfBytes low high).toNat = high.toNat * 256 + low.toNat := by
  have hlow := low.toNat_lt
  have hhigh := high.toNat_lt
  simp only [wordOfBytes, UInt16.toNat_or, UInt16.toNat_shiftLeft, UInt8.toNat_toUInt16,
    UInt16.toNat_ofNat, Nat.reducePow, Nat.reduceMod]
  -- the two bytes share no bit, so their union is their sum
  rw [Nat.or_comm, Nat.mod_eq_of_lt (by rw [Nat.shiftLeft_eq]; omega),
    ← Nat.shiftLeft_add_eq_or_of_lt (by omega), Nat.shiftLeft_eq]

@[simp] theorem wordOfBytes_lowByte_highByte (word : UInt16) :
    wordOfBytes (lowByte word) (highByte word) = word := by
  rw [← UInt16.toNat_inj, toNat_wordOfBytes, toNat_lowByte, toNat_highByte]
  omega

@[simp] theorem lowByte_wordOfBytes (low high : UInt8) : lowByte (wordOfBytes low high) = low := by
  have := low.toNat_lt
  rw [← UInt8.toNat_inj, toNat_lowByte, toNat_wordOfBytes]
  omega

@[simp] theorem highByte_wordOfBytes (low high : UInt8) :
    highByte (wordOfBytes low high) = high := by
  have := low.toNat_lt
  rw [← UInt8.toNat_inj, toNat_highByte, toNat_wordOfBytes]
  omega

/-- A byte as a signed number. -/
theorem toInt_toInt8 (byte : UInt8) :
    byte.toInt8.toInt = if byte.toNat < 128 then (byte.toNat : Int) else byte.toNat - 256 := by
  have hsigned : byte.toInt8.toInt = _ := BitVec.toInt_eq_toNat_cond byte.toBitVec
  rw [hsigned]
  show (if 2 * byte.toNat < 256 then (byte.toNat : Int) else byte.toNat - 256) = _
  split <;> split <;> omega

/-- The next address within a page: only the low byte counts on. -/
theorem next_in_page (low high : UInt8) :
    (wordOfBytes low high &&& 0xFF00) ||| ((wordOfBytes low high + 1) &&& (0xFF : UInt16)) =
      wordOfBytes (low + 1) high := by
  have hlow : low.toUInt16 &&& (0xFF00 : UInt16) = 0 := by
    obtain ⟨bits⟩ := low
    revert bits
    decide +kernel
  have hhigh : high.toUInt16 <<< 8 &&& (0xFF00 : UInt16) = high.toUInt16 <<< 8 := by
    obtain ⟨bits⟩ := high
    revert bits
    decide +kernel
  have hpage : wordOfBytes low high &&& (0xFF00 : UInt16) = high.toUInt16 <<< 8 := by
    have hsplit : wordOfBytes low high &&& (0xFF00 : UInt16) =
        low.toUInt16 &&& (0xFF00 : UInt16) ||| high.toUInt16 <<< 8 &&& (0xFF00 : UInt16) :=
      UInt16.toBitVec_inj.mp BitVec.and_or_distrib_right
    rw [hsplit, hlow, hhigh, UInt16.zero_or]
  have hnext : (wordOfBytes low high + 1) &&& (0xFF : UInt16) = (low + 1).toUInt16 := by
    rw [← UInt16.toNat_inj, UInt16.toNat_and, UInt16.toNat_add, toNat_wordOfBytes,
      UInt8.toNat_toUInt16, UInt8.toNat_add]
    refine (Nat.and_two_pow_sub_one_eq_mod _ 8).trans ?_
    have := low.toNat_lt
    show (high.toNat * 256 + low.toNat + 1) % 65536 % 256 = (low.toNat + 1) % 256
    omega
  rw [hpage, hnext, UInt16.or_comm]
  rfl

/-! ## Conversations that write nothing -/

/-- Whether a request asks for bytes, and changes none. -/
def Request.reads : Request → Bool
  | .writeByte _ _ => false
  | .readByte _ | .peekByte _ | .readWord _ | .readSplitWord _ _ => true

namespace Conversation

variable {α : Type}

/-- A conversation that writes nothing. -/
def Reads : Conversation α → Prop
  | .done _ => True
  | .ask request next => request.reads = true ∧ ∀ answer, (next answer).Reads

theorem Asks.reads {P : Request → Prop} {t : Conversation α} (h : t.Asks P)
    (hP : ∀ request, P request → request.reads = true) : t.Reads := by
  induction t with
  | done value => exact True.intro
  | ask request next ih => exact ⟨hP request h.1, fun answer => ih answer (h.2 answer)⟩

end Conversation

theorem Request.reads_of_peeks {request : Request} (h : request.peeks = true) :
    request.reads = true := by
  cases request with
  | peekByte address => rfl
  | _ => cases h

theorem Registers.reads_trace (r : Registers) (tracing : Bool) : (r.trace tracing).Reads :=
  (r.asks_trace tracing).reads fun _ => Request.reads_of_peeks

/-! ## Accesses -/

namespace Cpu

theorem transact_of_quiet {α : Type} {c : Cpu Ram} {t : Transaction Ram α}
    (hbus : (t c.bus).bus = c.bus) (hhalt : (t c.bus).haltRaised = false) :
    c.transact t = ((t c.bus).value, c) := by
  simp only [transact, hbus, hhalt, Bool.or_false]

theorem read_ram (c : Cpu Ram) (address : UInt16) : c.read address = (c.bus.read address, c) :=
  transact_of_quiet rfl rfl

theorem readWord_ram (c : Cpu Ram) (address : UInt16) :
    c.transact (Bus.readWord address) =
      (wordOfBytes (c.bus.read address) (c.bus.read (address + 1)), c) :=
  transact_of_quiet rfl rfl

theorem readSplitWord_ram (c : Cpu Ram) (low high : UInt16) :
    c.transact (Bus.readSplitWord low high) =
      (wordOfBytes (c.bus.read low) (c.bus.read high), c) :=
  transact_of_quiet rfl rfl

theorem write_ram (c : Cpu Ram) (address : UInt16) (value : UInt8) :
    c.write address value = { c with bus := c.bus.write address value } := by
  simp only [write, transact, Bus.writeByte, Bool.or_false]

/-- A request that writes nothing leaves memory as it is and asks for no halt. -/
theorem transact_of_reads (c : Cpu Ram) {request : Request} (h : request.reads = true) :
    (c.transact request.transaction).2 = c := by
  cases request with
  | writeByte address value => cases h
  | readByte _ | peekByte _ | readWord _ | readSplitWord _ _ =>
    exact congrArg Prod.snd (transact_of_quiet rfl rfl)

theorem converse_of_reads (c : Cpu Ram) {α : Type} {t : Conversation α} (h : t.Reads) :
    (c.converse t).2 = c := by
  induction t generalizing c with
  | done value => rw [converse_done]
  | ask request next ih =>
    show (c.converse (.ask request .done >>= next)).2 = c
    rw [converse_bind, converse_ask_done, transact_of_reads c h.1]
    exact ih _ c (h.2 _)

theorem traceEvents_ram (tracing : Bool) (c : Cpu Ram) : (traceEvents tracing c).2 = c := by
  rw [traceEvents_eq, converse_of_reads c (c.regs.reads_trace tracing)]

/-- Memory asks for no halt, whatever is said to it. -/
theorem haltRequested_converse {α : Type} (c : Cpu Ram) (t : Conversation α) :
    (c.converse t).2.haltRequested = c.haltRequested := by
  have hmute (request : Request) (ram : Ram) : (request.transaction ram).haltRaised = false := by
    cases request <;> rfl
  simp only [converse, transact, Conversation.haltRaised_transaction hmute, Bool.or_false]

/-! ## Steps -/

/-- A step takes the interrupt that is due and executes one instruction; a trace makes no difference
to either. -/
theorem step_ram (tracing : Bool) {c : Cpu Ram} (h : c.refuses = false) :
    (c.step tracing).result = c.pollInterrupts.executeNext.result ∧
      (c.step tracing).cpu = c.pollInterrupts.executeNext.cpu := by
  simp only [step, h, Bool.false_eq_true, if_false, traceEvents_ram]
  exact ⟨trivial, trivial⟩

theorem executeNext_defined {c : Cpu Ram} {i : Instruction}
    (hdecode : decode (c.bus.read c.regs.pc) = some i) :
    c.executeNext.result = .ok () ∧
      c.executeNext.cpu = (((c.advance 1).setState .executing).execute i).setState .fetching := by
  simp only [executeNext, fetch, read_ram, hdecode]
  exact ⟨trivial, trivial⟩

/-- An undefined opcode under the strict policy changes nothing but the run state. -/
theorem executeNext_strict {c : Cpu Ram} (hdecode : decode (c.bus.read c.regs.pc) = none)
    (hpolicy : c.policy = .halt) :
    c.executeNext.result = .error (.undefinedOpcode (c.bus.read c.regs.pc) c.regs.pc) ∧
      c.executeNext.cpu = c.setState .halted := by
  have hnext : ((c.advance 1).setState .executing).policy = .halt := hpolicy
  simp only [executeNext, fetch, read_ram, hdecode, meetUndefined, hnext]
  exact ⟨trivial, rfl⟩

theorem executeNext_lenient {c : Cpu Ram} (hdecode : decode (c.bus.read c.regs.pc) = none)
    (hpolicy : c.policy = .nop) :
    c.executeNext.result = .ok () ∧
      c.executeNext.cpu = ((c.advance 1).spend 2).setState .fetching := by
  have hnext : ((c.advance 1).setState .executing).policy = .nop := hpolicy
  simp only [executeNext, fetch, read_ram, hdecode, meetUndefined, hnext]
  exact ⟨trivial, rfl⟩

/-- A step with no interrupt due executes the instruction at the program counter. -/
theorem step_defined (tracing : Bool) {c : Cpu Ram} (hrefuses : c.refuses = false)
    (hdue : c.dueInterrupt = none) {i : Instruction}
    (hdecode : decode (c.bus.read c.regs.pc) = some i) :
    (c.step tracing).result = .ok () ∧
      (c.step tracing).cpu =
        (((c.advance 1).setState .executing).execute i).setState .fetching := by
  have hpolled : c.pollInterrupts = c := by simp only [pollInterrupts, hdue]
  obtain ⟨hresult, hcpu⟩ := step_ram tracing hrefuses
  rw [hresult, hcpu, hpolled]
  exact executeNext_defined hdecode

end Cpu

end Nes6502
