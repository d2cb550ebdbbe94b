import Nes6502.Bus.Recorded
import Nes6502.Memory
import Nes6502.Proofs.Simulation

/-!
# Tracing

A trace line is made in the middle of a step, through the bus that the processor executes from. It
only peeks, and the value of the line goes nowhere but to the host. So where peeks have no effect a
trace has none, and a record of the accesses shows the peeks of the trace and no other difference.

## What is proved

* `Simulation.ofPeeks`: if peeks go unnoticed, a traced processor and an untraced one stay side by
  side.
* `Recorded.PeeksMore.simulation`: so they do on a bus that keeps a record, up to peeks in it.
* `tracing_transparent`: whether trace lines are made changes no answer, no state and no access.
-/

set_option autoImplicit false

namespace Nes6502

open Transaction

variable {β : Type} [Bus β]

theorem Simulation.ofPeeks {δ : Type} [Bus δ] {R : β → δ → Prop}
    (request : ∀ request : Request,
      Matches R (request.transaction : Transaction β _) (request.transaction : Transaction δ _))
    (writeWord : ∀ address word, Matches R (Bus.writeWord address word : Transaction β Unit)
      (Bus.writeWord address word : Transaction δ Unit))
    (hpeek : ∀ address, Unnoticed R (Bus.peekByte address : Transaction β UInt8)) :
    Simulation R true false where
  request := request
  writeWord := writeWord
  trace r := by
    refine (r.asks_trace true).unnoticed fun request hpeeks => ?_
    cases request with
    | peekByte address => exact hpeek address
    | _ => cases hpeeks

namespace Recorded

omit [Bus β] in
theorem accesses_cons (inner : β) (access : Access) (record : List Access) :
    accesses ⟨inner, access :: record⟩ = accesses ⟨inner, record⟩ ++ [access] :=
  List.reverse_cons

/-- The reads and writes of a record, in the order in which they were made. -/
def unpeeked (bus : Recorded β) : List Access := bus.accesses.filter (·.kind ≠ .peek)

/-- The first bus differs from the second one by peeks that only its record shows. -/
structure PeeksMore (b d : Recorded β) : Prop where
  inner : b.inner = d.inner
  accesses : d.accesses.Sublist b.accesses
  unpeeked : b.unpeeked = d.unpeeked

namespace PeeksMore

variable {b d : Recorded β}

omit [Bus β] in
/-- An access that both buses make. -/
theorem both (h : PeeksMore b d) (inner : β) (access : Access) :
    PeeksMore ⟨inner, access :: b.record⟩ ⟨inner, access :: d.record⟩ where
  inner := rfl
  accesses := by
    rw [accesses_cons, accesses_cons]
    exact h.accesses.append_right [access]
  unpeeked := by
    rw [Recorded.unpeeked, Recorded.unpeeked, accesses_cons, accesses_cons, List.filter_append,
      List.filter_append]
    exact congrArg (· ++ _) h.unpeeked

omit [Bus β] in
/-- A peek that only the first bus makes. -/
theorem peek (h : PeeksMore b d) (address : UInt16) (value : UInt8) :
    PeeksMore ⟨b.inner, ⟨.peek, address, value⟩ :: b.record⟩ d where
  inner := h.inner
  accesses := by
    rw [accesses_cons]
    exact h.accesses.trans (List.sublist_append_left _ _)
  unpeeked := by
    rw [Recorded.unpeeked, accesses_cons, List.filter_append]
    exact (List.append_nil _).trans h.unpeeked

omit [Bus β] in
theorem matches_reading (kind : AccessKind) (address : UInt16) (t : Transaction β UInt8) :
    Matches PeeksMore (reading kind address t) (reading kind address t) := by
  rintro ⟨inner, record⟩ ⟨_, record'⟩ h
  obtain rfl : inner = _ := h.inner
  exact ⟨rfl, h.both _ _, rfl⟩

theorem matches_writeByte (address : UInt16) (value : UInt8) :
    Matches PeeksMore (Bus.writeByte address value : Transaction (Recorded β) Unit)
      (Bus.writeByte address value) := by
  rintro ⟨inner, record⟩ ⟨_, record'⟩ h
  obtain rfl : inner = _ := h.inner
  exact ⟨rfl, h.both _ _, rfl⟩

theorem matches_readSplitWord (low high : UInt16) :
    Matches PeeksMore (Bus.readSplitWord low high : Transaction (Recorded β) UInt16)
      (Bus.readSplitWord low high) :=
  (matches_reading .read low _).bind fun _ => (matches_reading .read high _).bind fun _ => .pure _

/-- A traced processor and an untraced one stay side by side on a bus that keeps a record, if the
bus underneath can be peeked at without an effect. -/
theorem simulation
    (hquiet : ∀ address (bus : β), (Bus.peekByte address bus).bus = bus ∧
      (Bus.peekByte address bus).haltRaised = false) :
    Simulation (PeeksMore (β := β)) true false := by
  refine .ofPeeks (fun request => ?_) (fun address word => ?_) fun address => ?_
  · cases request with
    | readByte address => exact matches_reading .read address _
    | writeByte address value => exact matches_writeByte address value
    | peekByte address => exact matches_reading .peek address _
    | readWord address => exact matches_readSplitWord address (address + 1)
    | readSplitWord low high => exact matches_readSplitWord low high
  · exact (matches_writeByte address _).bind fun _ => matches_writeByte (address + 1) _
  · intro b d h
    obtain ⟨hbus, hhalt⟩ := hquiet address b.inner
    refine ⟨?_, hhalt⟩
    show PeeksMore ⟨(Bus.peekByte address b.inner).bus, _⟩ d
    rw [hbus]
    exact h.peek address _

end PeeksMore

end Recorded

/-- Whether trace lines are made makes no difference to what is computed. Let a bus be one that can
be peeked at without an effect, which includes that it does not ask to halt then. Whatever a host
does to a processor on it, the answers are the same with and without trace lines, and so is the
processor after every operation, the bus included. On a bus that keeps a record besides, the reads
and writes are the same and in the same order, and the trace adds nothing but peeks; the judges of
the host must not go by peeks, since these are what the two records differ in. -/
theorem tracing_transparent
    (hquiet : ∀ address (bus : β), (Bus.peekByte address bus).bus = bus ∧
      (Bus.peekByte address bus).haltRaised = false) :
    (∀ (c : Cpu β) (operations : List (Operation β)),
        Operation.applyAll true c operations = Operation.applyAll false c operations) ∧
      ∀ (c : Cpu (Recorded β)) (operations : List (Operation (Recorded β))),
        (∀ o ∈ operations, o.Respects Recorded.PeeksMore) →
          let traced := Operation.applyAll true c operations
          let plain := Operation.applyAll false c operations
          traced.1 = plain.1 ∧ Cpu.Similar Recorded.PeeksMore traced.2 plain.2 := by
  constructor
  · intro c operations
    have hsim : Simulation (Eq (α := β)) true false := by
      refine .ofPeeks (fun request => .refl _) (fun address word => .refl _) ?_
      rintro address b _ rfl
      exact hquiet address b
    have hrespects (o : Operation β) : o.Respects Eq := by
      cases o with
      | runUntil rounds judge => exact fun asked c d hsimilar => congrArg (judge asked) hsimilar.eq
      | _ => exact True.intro
    obtain ⟨hanswers, hlast⟩ :=
      (Cpu.Similar.refl (c := c) rfl).applyAll hsim fun o _ => hrespects o
    exact Prod.ext hanswers hlast.eq
  · intro c operations hrespects
    exact (Cpu.Similar.refl ⟨rfl, .refl _, rfl⟩).applyAll (Recorded.PeeksMore.simulation hquiet)
      hrespects

/-- A handler at `0x0400` that counts at `0x0010` for ever. -/
def countingForEver : Ram :=
  (Ram.zeroed.load 0x0400 [0xE6, 0x10, 0x4C, 0x00, 0x04]).load 0xFFFA [0x00, 0x04]

/-- The host waits for the second count and has a look at it. Its judge goes by memory. -/
theorem tracing_transparent_countingForEver :
    let c := Cpu.powerOn (⟨countingForEver, []⟩ : Recorded Ram) .halt
    let operations : List (Operation (Recorded Ram)) :=
      [.reset, .triggerNmi, .runUntil 9 fun _ c => ⟨c.bus.inner.read 0x0010 == 2, false⟩,
        .peekByte 0x0010]
    let traced := Operation.applyAll true c operations
    let plain := Operation.applyAll false c operations
    plain.1 = [.done, .done, .ran (.finished 3) 4, .byte 2] ∧
      plain.2.bus.accesses.length < traced.2.bus.accesses.length ∧
      traced.1 = plain.1 ∧ Cpu.Similar Recorded.PeeksMore traced.2 plain.2 := by
  intro c operations traced plain
  refine ⟨by decide +kernel, by decide +kernel, ?_⟩
  refine (tracing_transparent fun _ _ => ⟨rfl, rfl⟩).2 c operations ?_
  simp only [operations, List.forall_mem_cons, Operation.Respects, true_and]
  refine ⟨fun asked c d hsimilar => ?_, by simp⟩
  rw [hsimilar.bus.inner]

end Nes6502
