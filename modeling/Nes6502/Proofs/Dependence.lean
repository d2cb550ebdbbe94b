import Nes6502.Proofs.Accesses
import Nes6502.Proofs.Tracing

/-!
# What a run depends on

A run sees of its memory the bytes that it reads, and no others. So take two memories, and a run on
the first one that reads only where the two agree or where it has written before. Then the run on
the second memory is the same run, and the differences between the memories are what they were, less
those that it has written over.

A read counts from the state of the log before it. The addresses that a run may read are not fixed
beforehand: each write adds one, and what the program does next may be what it wrote.

## What is proved

* `Linked.transaction`: a conversation that reads only settled bytes has the same value with both
  memories, and leaves them linked.
* `Cpu.Similar.step_of_settled`: so has a step.
* `run_depends_on_reads`: and so a run, with or without a trace.
-/

set_option autoImplicit false

namespace Nes6502

open Access Transaction

/-! ## Logs -/

/-- Every access of a log that is not a write finds a byte that two memories have in common, or one
that was written before. -/
def Settled (ram ram' : Ram) (log : List Access) : Prop :=
  ∀ earlier later access, log = earlier ++ access :: later → access.kind ≠ .write →
    ram.read access.address = ram'.read access.address ∨
      ∃ value, .write access.address value ∈ earlier

/-- To go through a log is to look at each access and what is before it. -/
theorem forall_access {P : List Access → Access → Prop} {log : List Access}
    (h : ∀ i : Fin log.length, P (log.take i) log[i]) :
    ∀ earlier later access, log = earlier ++ access :: later → P earlier access := by
  rintro earlier later access rfl
  simpa using h ⟨earlier.length, by simp⟩

variable {ram ram' : Ram}

theorem Settled.shorten {log whole : List Access} (h : Settled ram ram' whole)
    (hbegins : log <+: whole) : Settled ram ram' log := by
  obtain ⟨rest, rfl⟩ := hbegins
  rintro earlier later access rfl hkind
  exact h earlier (later ++ rest) access (by simp) hkind

/-- A conversation only adds to the record. -/
theorem Conversation.accesses_grow {α β : Type} [Bus β] (t : Conversation α)
    (bus : Recorded β) : bus.accesses <+: (t.transaction bus).bus.accesses := by
  induction t generalizing bus with
  | done value => exact List.prefix_rfl
  | ask request next ih =>
    have hfirst : bus.accesses <+: (request.transaction bus).bus.accesses := by
      rw [accesses_request]
      exact List.prefix_append _ _
    exact hfirst.trans (ih _ _)

/-! ## Two memories -/

/-- Two memories with one record, that differ where they did at first and nothing was written. -/
structure Linked (ram ram' : Ram) (b d : Recorded Ram) : Prop where
  record : b.record = d.record
  differ (address : UInt16) : b.inner.read address ≠ d.inner.read address ↔
    ram.read address ≠ ram'.read address ∧ ∀ value, .write address value ∉ b.record

namespace Linked

variable {b d : Recorded Ram}

theorem accesses (h : Linked ram ram' b d) : b.accesses = d.accesses :=
  congrArg List.reverse h.record

theorem start (ram ram' : Ram) : Linked ram ram' ⟨ram, []⟩ ⟨ram', []⟩ :=
  ⟨rfl, fun address => by simp⟩

/-- A settled byte is the same in both memories. -/
theorem read_eq (h : Linked ram ram' b d) {address : UInt16}
    (hsettled : ram.read address = ram'.read address ∨
      ∃ value, .write address value ∈ b.accesses) :
    b.inner.read address = d.inner.read address := by
  refine Decidable.byContradiction fun hne => ?_
  obtain ⟨hdiffer, hunwritten⟩ := (h.differ address).mp hne
  rcases hsettled with hagree | ⟨value, hwritten⟩
  · exact hdiffer hagree
  · exact hunwritten value (List.mem_reverse.mp hwritten)

/-- An access that writes nothing goes into the record. -/
theorem noted (h : Linked ram ram' b d) {access : Access} (hkind : access.kind ≠ .write) :
    Linked ram ram' ⟨b.inner, access :: b.record⟩ ⟨d.inner, access :: d.record⟩ := by
  refine ⟨congrArg (access :: ·) h.record, fun other => ?_⟩
  have hother (value : UInt8) : .write other value ≠ access := by
    rintro rfl
    exact hkind rfl
  simp only [List.mem_cons, hother, false_or]
  exact h.differ other

/-- The same byte written to both memories is one difference less, if there was one. -/
theorem write (h : Linked ram ram' b d) (address : UInt16) (value : UInt8) :
    Linked ram ram' ⟨b.inner.write address value, .write address value :: b.record⟩
      ⟨d.inner.write address value, .write address value :: d.record⟩ := by
  refine ⟨congrArg (.write address value :: ·) h.record, fun other => ?_⟩
  simp only [Ram.read_write, List.mem_cons, not_or]
  by_cases hother : other = address
  · subst hother
    have hwritten : ¬ ∀ value', Access.write other value' ≠ .write other value ∧
        Access.write other value' ∉ b.record := fun hnone => (hnone value).1 rfl
    simp [hwritten]
  · have hne (value' : UInt8) : Access.write other value' ≠ .write address value :=
      fun heq => hother (congrArg Access.address heq)
    simpa [hother, hne] using h.differ other

theorem reading (h : Linked ram ram' b d) {kind : AccessKind} (hkind : kind ≠ .write)
    {address : UInt16} (hsettled : Settled ram ram'
      (Recorded.reading kind address (Bus.readByte address) b).bus.accesses) :
    (Recorded.reading kind address (Bus.readByte address) b).Matches (Linked ram ram')
      (Recorded.reading kind address (Bus.readByte address) d) := by
  have hvalue : b.inner.read address = d.inner.read address :=
    h.read_eq (hsettled b.accesses [] ⟨kind, address, b.inner.read address⟩
      (Recorded.accesses_cons _ _ _) hkind)
  have hnoted : Linked ram ram' ⟨b.inner, ⟨kind, address, b.inner.read address⟩ :: b.record⟩
      ⟨d.inner, ⟨kind, address, b.inner.read address⟩ :: d.record⟩ := h.noted hkind
  refine ⟨hvalue, ?_, rfl⟩
  rw [hvalue] at hnoted
  show Linked ram ram' ⟨b.inner, ⟨kind, address, b.inner.read address⟩ :: b.record⟩
    ⟨d.inner, ⟨kind, address, d.inner.read address⟩ :: d.record⟩
  rwa [hvalue]

theorem readSplitWord (h : Linked ram ram' b d) {low high : UInt16}
    (hsettled : Settled ram ram' (Bus.readSplitWord low high b).bus.accesses) :
    (Bus.readSplitWord low high b).Matches (Linked ram ram') (Bus.readSplitWord low high d) := by
  let first (bus : Recorded Ram) := Recorded.reading .read low (Bus.readByte low) bus
  have hlow : (first b).Matches (Linked ram ram') (first d) := by
    refine h.reading (by decide) (hsettled.shorten ?_)
    show _ <+: Recorded.accesses ⟨_, _ :: (first b).bus.record⟩
    rw [Recorded.accesses_cons]
    exact List.prefix_append _ _
  have hhigh : (Recorded.reading .read high (Bus.readByte high) (first b).bus).Matches
      (Linked ram ram') (Recorded.reading .read high (Bus.readByte high) (first d).bus) :=
    hlow.bus.reading (by decide) hsettled
  have hword : wordOfBytes (first b).value _ = wordOfBytes (first d).value _ :=
    congr (congrArg wordOfBytes hlow.value) hhigh.value
  exact ⟨hword, hhigh.bus, rfl⟩

/-- What is asked of settled bytes is answered alike. -/
theorem request (h : Linked ram ram' b d) (request : Request)
    (hsettled : Settled ram ram' (request.transaction b).bus.accesses) :
    (request.transaction b).Matches (Linked ram ram') (request.transaction d) := by
  cases request with
  | readByte address => exact h.reading (by decide) hsettled
  | writeByte address value => exact ⟨rfl, h.write address value, rfl⟩
  | peekByte address => exact h.reading (by decide) hsettled
  | readWord address => exact h.readSplitWord hsettled
  | readSplitWord low high => exact h.readSplitWord hsettled

/-- A conversation about settled bytes has the same value with both memories. -/
theorem transaction {α : Type} (h : Linked ram ram' b d) (t : Conversation α)
    (hsettled : Settled ram ram' (t.transaction b).bus.accesses) :
    (t.transaction b).Matches (Linked ram ram') (t.transaction d) := by
  induction t generalizing b d with
  | done value => exact ⟨rfl, h, rfl⟩
  | ask request next ih =>
    have hfirst := h.request request (hsettled.shorten ((next _).accesses_grow _))
    show Reply.Matches _ ((request.transaction b).andThen fun answer => (next answer).transaction)
      ((request.transaction d).andThen fun answer => (next answer).transaction)
    exact hfirst.andThen_of_reply (ih _ hfirst.bus hsettled)

end Linked

/-! ## Untraced steps -/

section NoPeeks

variable {r : Registers} {log : List Access}

theorem HandlerAccesses.ne_peek {kind : Interrupt} {handler : UInt16}
    (h : HandlerAccesses r kind log handler) : ∀ access ∈ log, access.kind ≠ .peek := by
  cases h
  simp [Access.read, Access.write]

theorem OperandAccesses.ne_peek {mode : AddressingMode} {operand : Operand}
    (h : OperandAccesses r mode log operand) : ∀ access ∈ log, access.kind ≠ .peek := by
  cases h <;> simp [Access.read]

theorem ActionAccesses.ne_peek {action : Action} {operand : Operand}
    (h : ActionAccesses r action operand log) : ∀ access ∈ log, access.kind ≠ .peek := by
  cases h with
  | softwareInterrupt operand hentry => exact hentry.ne_peek
  | _ => simp [Access.read, Access.write]

theorem FetchAccesses.ne_peek (h : FetchAccesses r log) : ∀ access ∈ log, access.kind ≠ .peek := by
  obtain ⟨opcode, hrest⟩ := h
  rw [List.forall_mem_cons]
  refine ⟨by simp [Access.read], ?_⟩
  generalize decode opcode = i at hrest
  cases hrest with
  | undefined => simp
  | defined i hreads hown => exact List.forall_mem_append.mpr ⟨hreads.ne_peek, hown.ne_peek⟩

/-- Only traces peek. -/
theorem StepAccesses.ne_peek {due : Option Interrupt} (h : StepAccesses r due log) :
    ∀ access ∈ log, access.kind ≠ .peek := by
  cases h with
  | direct h => exact h.ne_peek
  | interrupted kind hentry h => exact List.forall_mem_append.mpr ⟨hentry.ne_peek, h.ne_peek⟩

end NoPeeks

namespace Cpu

/-- The same processor, with a record of the accesses from now on. -/
def recorded (c : Cpu Ram) : Cpu (Recorded Ram) :=
  ⟨⟨c.bus, []⟩, c.regs, c.state, c.policy, c.haltRequested, c.nmiLatched, c.irqLine⟩

/-- The same processor on other memory. -/
def withBus (c : Cpu Ram) (ram : Ram) : Cpu Ram := { c with bus := ram }

/-- The reads and writes of a number of steps, in order. -/
def accesses (tracing : Bool) (n : Nat) (c : Cpu Ram) : List Access :=
  (c.recorded.afterSteps tracing n).bus.unpeeked

/-- The accesses of a step come after those before it, and none of them is a peek. -/
theorem exists_accesses_step (c : Cpu (Recorded Ram)) :
    ∃ log, (c.step false).cpu.bus.accesses = c.bus.accesses ++ log ∧
      ∀ access ∈ log, access.kind ≠ .peek := by
  cases hrefuses : c.refuses with
  | true =>
    rw [step_of_refuses false hrefuses]
    exact ⟨[], (List.append_nil _).symm, by simp⟩
  | false =>
    obtain ⟨log, hlog, hsheet⟩ :=
      (c.regs.admits_step c.dueInterrupt_ne_brk c.policy).accesses c.bus
    refine ⟨log, ?_, hsheet.ne_peek⟩
    rw [(step_eq false hrefuses).2]
    exact hlog

theorem ne_peek_afterSteps (c : Cpu Ram) (n : Nat) :
    ∀ access ∈ (c.recorded.afterSteps false n).bus.accesses, access.kind ≠ .peek := by
  induction n with
  | zero => simp [afterSteps, recorded, Recorded.accesses]
  | succ n ih =>
    obtain ⟨log, hlog, hkinds⟩ := exists_accesses_step (c.recorded.afterSteps false n)
    rw [afterSteps, hlog]
    exact List.forall_mem_append.mpr ⟨ih, hkinds⟩

theorem prefix_afterSteps (c : Cpu (Recorded Ram)) {k n : Nat} (h : k ≤ n) :
    (c.afterSteps false k).bus.accesses <+: (c.afterSteps false n).bus.accesses := by
  induction h with
  | refl => exact List.prefix_rfl
  | @step n _ ih =>
    obtain ⟨log, hlog, -⟩ := exists_accesses_step (c.afterSteps false n)
    rw [afterSteps, hlog]
    exact ih.trans (List.prefix_append _ _)

/-- The reads and writes of a run are what it does without a trace. -/
theorem accesses_eq (tracing : Bool) (n : Nat) (c : Cpu Ram) :
    c.accesses tracing n = (c.recorded.afterSteps false n).bus.accesses := by
  have huntraced : (c.recorded.afterSteps false n).bus.unpeeked =
      (c.recorded.afterSteps false n).bus.accesses := by
    refine List.filter_eq_self.mpr fun access haccess => ?_
    exact decide_eq_true (c.ne_peek_afterSteps n access haccess)
  rw [← huntraced]
  cases tracing with
  | false => rfl
  | true =>
    have hsimilar : Similar Recorded.PeeksMore c.recorded c.recorded := .refl ⟨rfl, .refl _, rfl⟩
    exact (hsimilar.afterSteps (Recorded.PeeksMore.simulation fun _ _ => ⟨rfl, rfl⟩) n).bus.unpeeked

/-- A record makes no difference to a processor on memory, and nor does a trace. -/
theorem recorded_simulation (tracing : Bool) :
    Simulation (fun ram (bus : Recorded Ram) => bus.inner = ram) tracing false := by
  have hrequest (request : Request) : Matches (fun ram (bus : Recorded Ram) => bus.inner = ram)
      request.transaction request.transaction := by
    rintro ram ⟨_, record⟩ rfl
    cases request <;> exact ⟨rfl, rfl, rfl⟩
  have hword (address word : UInt16) :
      Matches (fun ram (bus : Recorded Ram) => bus.inner = ram)
        (Bus.writeWord address word) (Bus.writeWord address word) := by
    rintro ram ⟨_, record⟩ rfl
    exact ⟨rfl, rfl, rfl⟩
  cases tracing with
  | false => exact .ofMatches false hrequest hword
  | true => exact .ofPeeks hrequest hword fun address ram bus h => ⟨h, rfl⟩

theorem similar_recorded (tracing : Bool) (n : Nat) (c : Cpu Ram) :
    Similar (fun ram (bus : Recorded Ram) => bus.inner = ram) (c.afterSteps tracing n)
      (c.recorded.afterSteps false n) :=
  have hstart : Similar (fun ram (bus : Recorded Ram) => bus.inner = ram) c c.recorded :=
    ⟨rfl, rfl, rfl, rfl, rfl, rfl, rfl⟩
  hstart.afterSteps (recorded_simulation tracing) n

namespace Similar

variable {c d : Cpu (Recorded Ram)}

/-- A step that reads only settled bytes comes to the same with both memories. -/
theorem step_of_settled (h : Similar (Linked ram ram') c d)
    (hsettled : Settled ram ram' (c.step false).cpu.bus.accesses) :
    (c.step false).result = (d.step false).result ∧
      Similar (Linked ram ram') (c.step false).cpu (d.step false).cpu := by
  refine h.step_of_reply fun hfree => h.bus.transaction _ ?_
  rwa [(step_eq false hfree).2] at hsettled

/-- As long as a run reads only settled bytes, it is the same run with both memories. -/
theorem afterSteps_of_settled (h : Similar (Linked ram ram') c d) {n : Nat}
    (hsettled : Settled ram ram' (c.afterSteps false n).bus.accesses) :
    Similar (Linked ram ram') (c.afterSteps false n) (d.afterSteps false n) := by
  induction n with
  | zero => exact h
  | succ n ih =>
    have hbefore := hsettled.shorten (c.prefix_afterSteps n.le_succ)
    exact ((ih hbefore).step_of_settled hsettled).2

end Similar

end Cpu

/-- A run depends on its memory only through the bytes that it reads. Suppose a run reads, be it
for an opcode, an operand, a pointer, data, the stack or a vector, only where another memory holds
the same byte at the start, or where the run itself has written before. Then from the same
registers, and with the same lines, the other memory makes the same run, of steps that succeed or
fail: step by step the results are the same, the registers with the cycles, the state and the lines
are the same, and so are the reads and writes with their values and their order. All along, the two
memories differ exactly at those addresses at which they differed at the start and which have not
been written. -/
theorem run_depends_on_reads (tracing : Bool) (n : Nat) (c : Cpu Ram) (other : Ram)
    (hreads : ∀ earlier later address value,
      c.accesses tracing n = earlier ++ .read address value :: later →
        c.bus.read address = other.read address ∨
          ∃ written, .write address written ∈ earlier) :
    let d := c.withBus other
    (∀ k < n, ((c.afterSteps tracing k).step tracing).result =
        ((d.afterSteps tracing k).step tracing).result) ∧
      ∀ k ≤ n, c.accesses tracing k = d.accesses tracing k ∧
        Cpu.Similar
          (fun ram ram' => ∀ address, ram.read address ≠ ram'.read address ↔
            c.bus.read address ≠ other.read address ∧
              ∀ value, .write address value ∉ c.accesses tracing k)
          (c.afterSteps tracing k) (d.afterSteps tracing k) := by
  intro d
  simp only [Cpu.accesses_eq] at hreads ⊢
  have hsettled : Settled c.bus other (c.recorded.afterSteps false n).bus.accesses := by
    rintro earlier later ⟨kind, address, value⟩ hlog hkind
    have hpeek := c.ne_peek_afterSteps n ⟨kind, address, value⟩ (hlog ▸ by simp)
    cases kind with
    | read => exact hreads earlier later address value hlog
    | write => exact absurd rfl hkind
    | peek => exact absurd rfl hpeek
  have hstart : Cpu.Similar (Linked c.bus other) c.recorded d.recorded :=
    ⟨.start c.bus other, rfl, rfl, rfl, rfl, rfl, rfl⟩
  have hlinked {k : Nat} (hk : k ≤ n) :
      Cpu.Similar (Linked c.bus other) (c.recorded.afterSteps false k)
        (d.recorded.afterSteps false k) :=
    hstart.afterSteps_of_settled (hsettled.shorten (c.recorded.prefix_afterSteps hk))
  constructor
  · intro k hk
    have hstep := (hlinked (Nat.le_of_lt hk)).step_of_settled
      (hsettled.shorten (c.recorded.prefix_afterSteps hk))
    rw [((c.similar_recorded tracing k).step (Cpu.recorded_simulation tracing)).1, hstep.1,
      ((d.similar_recorded tracing k).step (Cpu.recorded_simulation tracing)).1]
  · intro k hk
    have htwo := hlinked hk
    have hone := c.similar_recorded tracing k
    have hother := d.similar_recorded tracing k
    refine ⟨htwo.bus.accesses, ((hone.trans htwo).trans hother.symm).mono ?_⟩
    rintro ⟨⟨hinner, hdiffer⟩, hinner'⟩ address
    have h := hdiffer.differ address
    rw [hinner, hinner'] at h
    rw [h]
    simp only [Recorded.accesses, List.mem_reverse]

/-- A program at `0x0400` that writes the opcode which it executes next. -/
def writtenCode : Ram :=
  (Ram.zeroed.load 0x0400 [0xA2, 0xE8, 0x8E, 0x05, 0x04]).load 0xFFFC [0x00, 0x04]

/-- The other memory has an undefined opcode where the program writes one, and another byte where
the program never looks. That byte is the only difference in the end. -/
theorem run_depends_on_reads_writtenCode :
    let c := (Cpu.powerOn writtenCode .halt).reset
    let other := (writtenCode.write 0x0405 0x02).write 0x0200 0x77
    let d := c.withBus other
    let log := [read 0x0400 0xA2, read 0x0401 0xE8, read 0x0402 0x8E, read 0x0403 0x05,
      read 0x0404 0x04, write 0x0405 0xE8, read 0x0405 0xE8]
    c.accesses true 3 = log ∧ d.accesses true 3 = log ∧
      (d.afterSteps true 3).regs = (c.afterSteps true 3).regs ∧
      ∀ address, (c.afterSteps true 3).bus.read address ≠ (d.afterSteps true 3).bus.read address ↔
        address = 0x0200 := by
  intro c other d log
  have hlog : c.accesses true 3 = log := by decide +kernel
  have hsettled : ∀ earlier later access, log = earlier ++ access :: later → access.kind = .read →
      c.bus.read access.address = other.read access.address ∨
        .write access.address 0xE8 ∈ earlier := by
    refine forall_access ?_
    decide +kernel
  have hall := (run_depends_on_reads true 3 c other fun earlier later address value h =>
    (hsettled earlier later _ (hlog ▸ h) rfl).imp_right fun hwritten => ⟨_, hwritten⟩).2
  obtain ⟨hsame, hsimilar⟩ := hall 3 (Nat.le_refl 3)
  refine ⟨hlog, hsame ▸ hlog, hsimilar.regs.symm, fun address => (hsimilar.bus address).trans ?_⟩
  have hwritten : (∀ value, write address value ∉ log) ↔ address ≠ 0x0405 := by
    simp only [log, Access.read, Access.write, List.mem_cons, Access.mk.injEq, reduceCtorEq,
      List.not_mem_nil, false_and, true_and, or_false, false_or, not_and]
    exact ⟨fun h haddress => h 0xE8 haddress rfl, fun h _ haddress => absurd haddress h⟩
  rw [hlog, hwritten]
  show writtenCode.read address ≠ _ ∧ _ ↔ _
  simp only [other, Ram.read_write]
  by_cases hfar : address = 0x0200
  · subst hfar
    decide +kernel
  · by_cases hcode : address = 0x0405 <;> simp [hfar, hcode]

end Nes6502
