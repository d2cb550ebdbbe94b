import Nes6502.Operation
import Nes6502.Proofs.Loading

/-!
# Where a program is placed

A program is either placed as a whole or not at all. The check before the first access is on numbers
that do not wrap, so a program that passes it ends below the vectors, and its bytes and the reset
vector do not touch each other.

## What is proved

* `Ram.read_load`: what each address holds after bytes were loaded that fit into memory.
* `Program.loadAt_ok_iff`: on any bus, loading succeeds if the program ends below the vectors.
* `Program.placed_loadAt`: on plain memory, what each address holds after a program was placed.
* `loading_exact`: the two together, for the function on the bus and the operation of the host.
-/

set_option autoImplicit false

namespace Nes6502

/-! ## Bytes in memory -/

namespace Ram

/-- Bytes that fit into memory are found at their distance from the start, and the rest is as it
was. -/
theorem read_load (ram : Ram) (start : UInt16) {data : List UInt8}
    (hfits : data.length ≤ 0x10000) (address : UInt16) :
    (ram.load start data).read address =
      data[(address - start).toNat]?.getD (ram.read address) := by
  induction data generalizing ram start with
  | nil => rfl
  | cons byte rest ih =>
    rw [List.length_cons] at hfits
    rw [load, ih _ _ (by omega), read_write]
    by_cases h : address = start
    · -- the first address comes round again only after all others
      have hround : (address - (start + 1)).toNat = 0xFFFF := by
        rw [h, UInt16.toNat_sub, UInt16.toNat_add]
        have hstart := start.toNat_lt
        show (65536 - (start.toNat + 1) % 65536 + start.toNat) % 65536 = 65535
        omega
      rw [hround, List.getElem?_eq_none (by omega), if_pos h, h, UInt16.sub_self]
      rfl
    · have hnext : (address - start).toNat = (address - (start + 1)).toNat + 1 := by
        have hne : address.toNat ≠ start.toNat := fun e => h (UInt16.toNat_inj.mp e)
        have haddress := address.toNat_lt
        have hstart := start.toNat_lt
        simp only [UInt16.toNat_sub, UInt16.toNat_add, UInt16.toNat_one]
        omega
      rw [hnext, List.getElem?_cons_succ, if_neg h]

variable {start : UInt16} {data : List UInt8}

theorem read_load_inside (ram : Ram) (hfits : start.toNat + data.length ≤ 0x10000) {i : Nat}
    (hi : i < data.length) :
    (ram.load start data).read (UInt16.ofNat (start.toNat + i)) = data[i] := by
  have hdistance : (UInt16.ofNat (start.toNat + i) - start).toNat = i := by
    rw [UInt16.ofNat_add, UInt16.ofNat_toNat, UInt16.add_comm, UInt16.add_sub_cancel]
    exact UInt16.toNat_ofNat_of_lt' (show i < 65536 by omega)
  rw [read_load ram start (by omega), hdistance, List.getElem?_eq_getElem hi, Option.getD_some]

theorem read_load_outside (ram : Ram) (hfits : start.toNat + data.length ≤ 0x10000)
    {address : UInt16}
    (h : address.toNat < start.toNat ∨ start.toNat + data.length ≤ address.toNat) :
    (ram.load start data).read address = ram.read address := by
  have hdistance : data.length ≤ (address - start).toNat := by
    have haddress := address.toNat_lt
    have hstart := start.toNat_lt
    rw [UInt16.toNat_sub]
    omega
  rw [read_load ram start (by omega), List.getElem?_eq_none hdistance, Option.getD_none]

end Ram

namespace Program

/-! ## On any bus -/

section

variable {β : Type} [Bus β] {origin : UInt16} {program : List UInt8}

/-- Loading succeeds exactly if the program ends below the vectors. -/
theorem loadAt_ok_iff (bus : β) :
    (loadAt origin program bus).value = .ok () ↔ origin.toNat + program.length ≤ 0xFFFA := by
  by_cases hlong : 0xFFFA < origin.toNat + program.length
  · rw [loadAt_of_long hlong]
    exact ⟨nofun, fun hfits => absurd hlong (Nat.not_lt.mpr hfits)⟩
  · rw [loadAt_of_fits hlong]
    exact ⟨fun _ => Nat.not_lt.mp hlong, fun _ => rfl⟩

end

/-! ## In plain memory -/

/-- Memory before and after a program was placed in it. -/
structure Placed (origin : UInt16) (program : List UInt8) (before after : Ram) : Prop where
  bytes : ∀ i (hi : i < program.length), after.read (UInt16.ofNat (origin.toNat + i)) = program[i]
  /-- The reset vector holds the origin, low byte first. -/
  vector : (after.read 0xFFFC).toNat + 256 * (after.read 0xFFFD).toNat = origin.toNat
  others : ∀ address : UInt16,
    address.toNat < origin.toNat ∨ origin.toNat + program.length ≤ address.toNat →
    address ≠ 0xFFFC → address ≠ 0xFFFD → after.read address = before.read address

variable {origin : UInt16} {program : List UInt8}

/-- The vector is written after the program. -/
theorem read_loadAt (hfits : origin.toNat + program.length ≤ 0xFFFA) (ram : Ram)
    (address : UInt16) :
    (loadAt origin program ram).bus.read address =
      if address = 0xFFFD then highByte origin
      else if address = 0xFFFC then lowByte origin
      else (ram.load origin program).read address := by
  rw [loadAt_fitting (Nat.not_lt.mpr hfits)]
  simp only [Ram.load, Ram.read_write]
  rfl

theorem placed_loadAt (hfits : origin.toNat + program.length ≤ 0xFFFA) (ram : Ram) :
    Placed origin program ram (loadAt origin program ram).bus := by
  have hmemory : origin.toNat + program.length ≤ 0x10000 := by omega
  refine ⟨fun i hi => ?_, ?_, fun address haddress hlow hhigh => ?_⟩
  · -- the program ends below the vector
    have hplace : (UInt16.ofNat (origin.toNat + i)).toNat = origin.toNat + i :=
      UInt16.toNat_ofNat_of_lt' (show origin.toNat + i < 65536 by omega)
    have hne {vector : UInt16} (hvector : 0xFFFA ≤ vector.toNat) :
        UInt16.ofNat (origin.toNat + i) ≠ vector := fun e => by
      rw [e] at hplace
      omega
    rw [read_loadAt hfits, if_neg (hne (by decide)), if_neg (hne (by decide)),
      Ram.read_load_inside ram hmemory hi]
  · have hlow := toNat_lowByte origin
    have hhigh := toNat_highByte origin
    rw [read_loadAt hfits, if_neg (by decide), if_pos rfl, read_loadAt hfits, if_pos rfl]
    omega
  · rw [read_loadAt hfits, if_neg hhigh, if_neg hlow, Ram.read_load_outside ram hmemory haddress]

/-- A reset goes to where the program was placed. -/
theorem Placed.pc_reset {before : Ram} {c : Cpu Ram} (h : Placed origin program before c.bus) :
    c.reset.regs.pc = origin := by
  have hvector : c.reset.regs.pc = wordOfBytes (c.bus.read 0xFFFC) (c.bus.read 0xFFFD) := by
    simp only [Cpu.reset, Cpu.readWord_ram]
    rfl
  have hword := toNat_wordOfBytes (c.bus.read 0xFFFC) (c.bus.read 0xFFFD)
  have horigin := h.vector
  rw [hvector, ← UInt16.toNat_inj]
  omega

end Program

open Program in
/-- Loading a program is exact, and it is all or nothing. On any bus it succeeds if and only if the
program ends below the interrupt vectors; otherwise it is refused with its length, and the bus is
not accessed. In plain memory, the program lies at its origin afterwards, the reset vector holds the
origin, and no other byte has changed: the bytes were loaded, and then the vector was written. A
reset goes to the origin. Where no origin is given, it is `0x8000`. To load a program through the
processor has the effect on the bus that it has without it, and no other than that a request of the
bus to halt is noted. -/
theorem loading_exact (origin : UInt16) (program : List UInt8) :
    (∀ {β : Type} [Bus β] (bus : β), (loadAt origin program bus).value = .ok () ↔
        origin.toNat + program.length ≤ 0xFFFA) ∧
      (0xFFFA < origin.toNat + program.length → ∀ {β : Type} [Bus β],
        (loadAt origin program : Transaction β _) =
          pure (.error (.programTooLarge program.length))) ∧
      (origin.toNat + program.length ≤ 0xFFFA → ∀ ram : Ram,
        let after := (loadAt origin program ram).bus
        Placed origin program ram after ∧
          after = (Bus.writeWord resetVector origin (ram.load origin program)).bus ∧
          ∀ c : Cpu Ram, c.bus = after → c.reset.regs.pc = origin) ∧
      (∀ {β : Type} [Bus β], (load program : Transaction β _) = loadAt 0x8000 program) ∧
      ∀ {β : Type} [Bus β] (tracing : Bool) (c : Cpu β),
        let report := (Operation.load origin program).apply tracing c
        let reply := loadAt origin program c.bus
        report.answer = OperationReport.answerOf reply.value ∧
          report.cpu =
            { c with bus := reply.bus, haltRequested := c.haltRequested || reply.haltRaised } := by
  refine ⟨loadAt_ok_iff, fun hlong => loadAt_of_long hlong, fun hfits ram => ?_, rfl,
    fun tracing c => ⟨rfl, rfl⟩⟩
  intro after
  have hplaced : Placed origin program ram after := placed_loadAt hfits ram
  refine ⟨hplaced, ?_, fun c hbus => ?_⟩
  · simp only [after, loadAt_fitting (Nat.not_lt.mpr hfits)]
    rfl
  · rw [← hbus] at hplaced
    exact hplaced.pc_reset

open Program in
/-- Ten bytes at `0xFFF0` end right below the vectors; the byte after them is one of the vectors of
before. With one byte more nothing is written. -/
theorem loading_exact_highest :
    let program := List.replicate 10 (0xEA : UInt8)
    let ram := Ram.filled 0x55
    let after := (loadAt 0xFFF0 program ram).bus
    after.read 0xFFF9 = 0xEA ∧ after.read 0xFFFA = 0x55 ∧
      (∀ c : Cpu Ram, c.bus = after → c.reset.regs.pc = 0xFFF0) ∧
      (loadAt 0xFFF0 (0xEA :: program) : Transaction Ram _) =
        pure (.error (.programTooLarge 11)) := by
  intro program ram after
  obtain ⟨hplaced, -, hreset⟩ := (loading_exact 0xFFF0 program).2.2.1 (by decide) ram
  refine ⟨hplaced.bytes 9 (by decide), ?_, hreset,
    (loading_exact 0xFFF0 (0xEA :: program)).2.1 (by decide)⟩
  rw [hplaced.others 0xFFFA (by decide) (by decide) (by decide)]
  exact Ram.read_filled 0x55 0xFFFA

end Nes6502
