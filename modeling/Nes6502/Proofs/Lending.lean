import Nes6502.Bus.Lent
import Nes6502.Memory
import Nes6502.Proofs.Simulation

/-!
# Lending a bus

A host that keeps its bus lends it to the processor, and takes it back when the processor is done.
Whether the processor owned the bus or had it on loan should make no difference, and for accesses to
single bytes it makes none: these are passed on. Words are not. A bus on loan is asked for the two
bytes of a word, even if the bus underneath has a way of its own to answer words.

So the loan is invisible exactly if the bus has no such way: if its word accesses come to the two
byte accesses that they consist of. A bus that answers words in another way, or only notices that it
was asked for one, is another bus while it is on loan (`lending_shows`).

## What is proved

* `Lent.simulation`: where words are two byte accesses, a processor that owns its bus and one that
  has it on loan stay side by side.
* `Cpu.transaction_ext`: single operations on the bus tell apart any two ways to access it.
* `lending_invisible_iff`: the loan is invisible to every host exactly if words are two byte
  accesses.
-/

set_option autoImplicit false

namespace Nes6502

open Transaction

variable {α γ β : Type}

/-! ## Processors on loan -/

namespace Cpu

/-- The same processor with its bus on loan. -/
def lend (c : Cpu β) : Cpu (Lent β) :=
  ⟨⟨c.bus⟩, c.regs, c.state, c.policy, c.haltRequested, c.nmiLatched, c.irqLine⟩

/-- The same processor with the bus that was on loan. -/
def returned (c : Cpu (Lent β)) : Cpu β :=
  ⟨c.bus.owner, c.regs, c.state, c.policy, c.haltRequested, c.nmiLatched, c.irqLine⟩

theorem lend_inj {c d : Cpu β} : c.lend = d.lend ↔ c = d := by
  constructor
  · intro h
    exact congrArg returned h
  · rintro rfl
    rfl

/-- Similar up to the loan: the one with the bus returned is the other. -/
theorem Similar.eq_returned {c : Cpu β} {d : Cpu (Lent β)}
    (h : Similar (fun (b : β) (d : Lent β) => d.owner = b) c d) : c = d.returned := by
  obtain ⟨bus, regs, state, policy, requested, latched, line⟩ := c
  obtain ⟨rfl, rfl, rfl, rfl, rfl, rfl, rfl⟩ := h
  rfl

/-- Transactions that come to the same from every processor at power-on are the same. -/
theorem transaction_ext {t u : Transaction β α}
    (h : ∀ bus, (powerOn bus .halt).transact t = (powerOn bus .halt).transact u) : t = u := by
  funext bus
  have hboth := h bus
  simp only [transact, powerOn, Bool.false_or, Prod.mk.injEq, Cpu.mk.injEq] at hboth
  obtain ⟨hvalue, hbus, -, -, -, hhalt, -⟩ := hboth
  rcases ht : t bus with ⟨value, after, raised⟩
  rcases hu : u bus with ⟨value', after', raised'⟩
  simp only [ht, hu] at hvalue hbus hhalt
  rw [hvalue, hbus, hhalt]

end Cpu

/-- The same operation for a host that has lent its bus. -/
def Operation.lent : Operation β → Operation (Lent β) := Operation.along Cpu.returned

variable [Bus β]

/-! ## Words as two byte accesses -/

namespace Bus

/-- The bytes at two addresses, read as a word. -/
def readPair (low high : UInt16) : Transaction β UInt16 := do
  let l ← Bus.readByte low
  let h ← Bus.readByte high
  return wordOfBytes l h

/-- The bytes of a word, written to an address and the next one. -/
def writePair (address word : UInt16) : Transaction β Unit := do
  Bus.writeByte address (lowByte word)
  Bus.writeByte (address + 1) (highByte word)

/-- A bus that has no way of its own to answer words: they come to two byte accesses. -/
structure Composed (β : Type) [Bus β] : Prop where
  readSplitWord (low high : UInt16) :
    (Bus.readSplitWord low high : Transaction β UInt16) = Bus.readPair low high
  readWord (address : UInt16) :
    (Bus.readWord address : Transaction β UInt16) = Bus.readPair address (address + 1)
  writeWord (address word : UInt16) :
    (Bus.writeWord address word : Transaction β Unit) = Bus.writePair address word

end Bus

namespace Lent

omit [Bus β] in
theorem through_bind (t : Transaction β α) (next : α → Transaction β γ) :
    (through t >>= fun value => through (next value)) = through (t >>= next) := rfl

/-- On loan every bus is asked for bytes. -/
theorem readSplitWord_eq (low high : UInt16) :
    (Bus.readSplitWord low high : Transaction (Lent β) UInt16) =
      through (Bus.readPair low high) := rfl

theorem readWord_eq (address : UInt16) :
    (Bus.readWord address : Transaction (Lent β) UInt16) =
      through (Bus.readPair address (address + 1)) := rfl

theorem writeWord_eq (address word : UInt16) :
    (Bus.writeWord address word : Transaction (Lent β) Unit) =
      through (Bus.writePair address word) := rfl

omit [Bus β] in
/-- What is passed on comes to the same for the owner. -/
theorem matches_through (t : Transaction β α) :
    Matches (fun (b : β) (d : Lent β) => d.owner = b) t (through t) := by
  rintro b ⟨_⟩ rfl
  exact ⟨rfl, rfl, rfl⟩

/-- Where words are two byte accesses, a processor that owns its bus and one that has it on loan
stay side by side. -/
theorem simulation (h : Bus.Composed β) (tracing : Bool) :
    Simulation (fun (b : β) (d : Lent β) => d.owner = b) tracing tracing := by
  refine .ofMatches tracing (fun request => ?_) fun address word => ?_
  · cases request with
    | readByte | writeByte | peekByte => exact matches_through _
    | readWord address =>
      show Matches _ (Bus.readWord address) (Bus.readWord address)
      rw [h.readWord, readWord_eq]
      exact matches_through _
    | readSplitWord low high =>
      show Matches _ (Bus.readSplitWord low high) (Bus.readSplitWord low high)
      rw [h.readSplitWord, readSplitWord_eq]
      exact matches_through _
  · rw [h.writeWord, writeWord_eq]
    exact matches_through _

/-- A listing looks at single bytes, so it is the same on loan. -/
theorem disassemble_eq (start : UInt16) (count : Nat) :
    (Listing.disassemble start count : Transaction (Lent β) _) =
      through (Listing.disassemble start count) := by
  have hpeek (address : UInt16) :
      (Bus.peekByte address : Transaction (Lent β) UInt8) = through (Bus.peekByte address) := rfl
  have hentry (address : UInt16) :
      (Listing.entryAt address : Transaction (Lent β) _) = through (Listing.entryAt address) := by
    simp only [Listing.entryAt, hpeek, ← through_bind]
    congr 1
    funext opcode
    cases decode opcode with
    | none => rfl
    | some i =>
      by_cases hlow : i.length > 1 <;> by_cases hhigh : i.length > 2 <;>
        simp only [hlow, hhigh, if_true, if_false] <;> rfl
  induction count generalizing start with
  | zero => rfl
  | succ count ih =>
    simp only [Listing.disassemble, hentry, ih]
    rfl

end Lent

/-! ## What a host can tell -/

omit [Bus β] in
/-- An operation on the bus that comes to the same on loan is the same access. -/
theorem Cpu.eq_of_lent {t u : Transaction β α} {answer : α → Answer}
    (hanswer : Function.Injective answer)
    (h : ∀ c : Cpu β,
      (OperationReport.ofTransaction c.lend (Lent.through t) answer).answer =
          (OperationReport.ofTransaction c u answer).answer ∧
        (OperationReport.ofTransaction c.lend (Lent.through t) answer).cpu =
          (OperationReport.ofTransaction c u answer).cpu.lend) : u = t := by
  refine (transaction_ext fun bus => ?_).symm
  obtain ⟨hvalue, hcpu⟩ := h (powerOn bus .halt)
  exact Prod.ext (hanswer hvalue) (lend_inj.mp hcpu)

/-- A host that finds no difference has a bus without a way of its own to answer words. -/
theorem Bus.Composed.of_invisible
    (h : ∀ (c : Cpu β) (operations : List (Operation β)),
      let owning := Operation.applyAll false c operations
      Operation.applyAll false c.lend (operations.map Operation.lent) = (owning.1, owning.2.lend)) :
    Bus.Composed β := by
  have hsingle (c : Cpu β) (o : Operation β) :
      (o.lent.apply false c.lend).answer = (o.apply false c).answer ∧
        (o.lent.apply false c.lend).cpu = (o.apply false c).cpu.lend := by
    obtain ⟨hanswers, hcpu⟩ := Prod.mk.inj (h c [o])
    exact ⟨(List.cons.inj hanswers).1, hcpu⟩
  have hword : Function.Injective Answer.word := fun _ _ => Answer.word.inj
  have hdone : Function.Injective fun _ : Unit => Answer.done := fun _ _ _ => rfl
  exact {
    readSplitWord low high :=
      Cpu.eq_of_lent hword fun c => hsingle c (.readSplitWord low high)
    readWord address := Cpu.eq_of_lent hword fun c => hsingle c (.readWord address)
    writeWord address word := Cpu.eq_of_lent hdone fun c => hsingle c (.writeWord address word) }

/-- Lending a bus is invisible exactly if the bus answers words as two bytes. Then, and only then,
every host gets the same answers from a processor on its own bus and from one that has the bus on
loan, and finds the same processor and the same bus after every operation: what holds of all
sequences of operations holds of all beginnings of a sequence. The judges of the host are shown the
processor with the bus returned. Listings are the same on loan for every bus. -/
theorem lending_invisible_iff :
    ((∀ (tracing : Bool) (c : Cpu β) (operations : List (Operation β)),
        let owning := Operation.applyAll tracing c operations
        Operation.applyAll tracing c.lend (operations.map Operation.lent) =
          (owning.1, owning.2.lend)) ↔ Bus.Composed β) ∧
      ∀ (start : UInt16) (count : Nat), (Listing.disassemble start count : Transaction (Lent β) _) =
        Lent.through (Listing.disassemble start count) := by
  refine ⟨⟨fun h => .of_invisible (h false), fun h tracing c operations => ?_⟩,
    Lent.disassemble_eq⟩
  intro owning
  have hsimilar : Cpu.Similar (fun (b : β) (d : Lent β) => d.owner = b) c c.lend :=
    ⟨rfl, rfl, rfl, rfl, rfl, rfl, rfl⟩
  have hrespects : ∀ o ∈ operations, o.RespectsAlong (fun (b : β) (d : Lent β) => d.owner = b)
      Cpu.returned := by
    intro o _
    cases o with
    | runUntil rounds judge =>
      intro asked c d h
      rw [h.eq_returned]
    | _ => exact True.intro
  obtain ⟨hanswers, hlast⟩ := hsimilar.applyAllAlong (Lent.simulation h tracing) hrespects
  exact Prod.ext hanswers.symm (congrArg Cpu.lend hlast.eq_returned).symm

/-- Memory with a strap that says where the program starts: words at the reset vector are answered
from there, and bytes from memory. -/
structure Strapped where
  memory : Ram
  start : UInt16

instance : Bus Strapped where
  readByte address := fun bus => ⟨bus.memory.read address, bus, false⟩
  writeByte address value := fun bus =>
    ⟨(), { bus with memory := bus.memory.write address value }, false⟩
  readWord address := fun bus =>
    ⟨if address = resetVector then bus.start
      else wordOfBytes (bus.memory.read address) (bus.memory.read (address + 1)), bus, false⟩

/-- With the strapped memory of its own a processor starts where the strap says. With the same
memory on loan it starts at zero, since it asks for the bytes of the vector. -/
theorem lending_shows :
    let c := Cpu.powerOn (⟨.zeroed, 0x8000⟩ : Strapped) .halt
    (Operation.applyAll false c [.reset]).2.regs.pc = 0x8000 ∧
      (Operation.applyAll false c.lend [.reset]).2.regs.pc = 0x0000 ∧
      ¬ ∀ (tracing : Bool) (c : Cpu Strapped) (operations : List (Operation Strapped)),
        let owning := Operation.applyAll tracing c operations
        Operation.applyAll tracing c.lend (operations.map Operation.lent) =
          (owning.1, owning.2.lend) := by
  intro c
  have howning : (Operation.applyAll false c [.reset]).2.regs.pc = 0x8000 := by decide +kernel
  have hlent : (Operation.applyAll false c.lend [.reset]).2.regs.pc = 0x0000 := by decide +kernel
  refine ⟨howning, hlent, fun h => ?_⟩
  have hpc : (Operation.applyAll false c.lend [.reset]).2.regs.pc =
      (Operation.applyAll false c [.reset]).2.regs.pc :=
    congrArg (fun answered => answered.2.regs.pc) (h false c [.reset])
  rw [howning, hlent] at hpc
  exact absurd hpc (by decide)

end Nes6502
