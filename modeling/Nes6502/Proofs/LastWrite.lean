import Mathlib.Data.List.Induction
import Mathlib.Order.Bounds.Basic
import Nes6502.Proofs.Listing
import Nes6502.Proofs.Placement

/-!
# Loading round and round

Data that is loaded may be longer than memory is. It then comes round to addresses that it has
written already, as often as its length makes it, and what stays at an address is the last byte that
came there. The places in the data are counted without a bound; only their addresses wrap.

The induction is on the data from its end: the byte that is written last decides about its own
address, and the bytes before it about all others.

## What is proved

* `Ram.load_append`: loading goes on where the first part of the data has ended.
* `Ram.read_load_last`: an address holds the last byte that comes to it, or what it held before.
* `Ram.bytesFrom_load`: data that fits into memory is read back.
* `load_lastWriter`: the three together.
-/

set_option autoImplicit false

namespace Nes6502

theorem toNat_add_ofNat (start : UInt16) (i : Nat) :
    (start + UInt16.ofNat i).toNat = (start.toNat + i) % 0x10000 := by
  rw [UInt16.toNat_add, UInt16.toNat_ofNat']
  exact Nat.add_mod_mod _ _ _

namespace Ram

/-- The places in data of a length whose bytes come to an address. -/
def visits (start : UInt16) (length : Nat) (address : UInt16) : Set Nat :=
  {i | i < length ∧ (start.toNat + i) % 0x10000 = address.toNat}

variable {start address : UInt16}

/-- The byte after the data comes to the address where it ends, and there it is the last one. -/
theorem isGreatest_visits (start : UInt16) (length : Nat) :
    IsGreatest (visits start (length + 1) (start + UInt16.ofNat length)) length :=
  ⟨⟨Nat.lt_succ_self length, (toNat_add_ofNat start length).symm⟩,
    fun _ hi => Nat.le_of_lt_succ hi.1⟩

/-- At every other address it makes no difference. -/
theorem visits_succ_of_ne {length : Nat} (h : address ≠ start + UInt16.ofNat length) :
    visits start (length + 1) address = visits start length address := by
  ext i
  refine ⟨fun ⟨hi, hplace⟩ => ⟨?_, hplace⟩, fun ⟨hi, hplace⟩ => ⟨Nat.lt_succ_of_lt hi, hplace⟩⟩
  refine Nat.lt_of_le_of_ne (Nat.le_of_lt_succ hi) ?_
  rintro rfl
  exact h (UInt16.toNat_inj.mp (hplace.symm.trans (toNat_add_ofNat start i).symm))

/-- Loading goes on where the first part of the data has ended. -/
theorem load_append (ram : Ram) (start : UInt16) (front back : List UInt8) :
    ram.load start (front ++ back) =
      (ram.load start front).load (start + UInt16.ofNat front.length) back := by
  induction front generalizing ram start with
  | nil => exact congrArg (ram.load · back) (UInt16.add_zero start).symm
  | cons byte rest ih =>
    have hplace : start + UInt16.ofNat (rest.length + 1) =
        start + 1 + UInt16.ofNat rest.length := by
      rw [Nat.add_comm, UInt16.ofNat_add, ← UInt16.add_assoc]
      rfl
    rw [List.cons_append, load, load, ih, List.length_cons, hplace]

/-- The last byte that comes to an address stays there. An address that no byte comes to is as it
was. -/
theorem read_load_last (ram : Ram) (start : UInt16) (data : List UInt8) (address : UInt16) :
    (∃ i, IsGreatest (visits start data.length address) i ∧
        data[i]? = some ((ram.load start data).read address)) ∨
      visits start data.length address = ∅ ∧
        (ram.load start data).read address = ram.read address := by
  induction data using List.reverseRecOn with
  | nil => exact .inr ⟨Set.eq_empty_of_forall_notMem fun i hi => Nat.not_lt_zero i hi.1, rfl⟩
  | append_singleton front byte ih =>
    rw [load_append, load, load, read_write, List.length_append, List.length_singleton]
    by_cases h : address = start + UInt16.ofNat front.length
    · refine .inl ⟨front.length, h ▸ isGreatest_visits start front.length, ?_⟩
      rw [if_pos h, List.getElem?_concat_length]
    · rw [if_neg h, visits_succ_of_ne h]
      refine ih.imp_left ?_
      rintro ⟨i, hi, hbyte⟩
      exact ⟨i, hi, by rw [List.getElem?_append_left hi.1.1, hbyte]⟩

/-- Data that fits into memory is read back, also past the end of memory. -/
theorem bytesFrom_load (ram : Ram) (start : UInt16) {data : List UInt8}
    (hfits : data.length ≤ 0x10000) :
    (ram.load start data).bytesFrom start data.length = data := by
  refine List.ext_getElem (length_bytesFrom _ _ _) fun k hk hdata => ?_
  have hdistance : (start + UInt16.ofNat k - start).toNat = k := by
    rw [UInt16.add_comm, UInt16.add_sub_cancel]
    exact UInt16.toNat_ofNat_of_lt' (Nat.lt_of_lt_of_le hdata hfits)
  simp only [bytesFrom, List.getElem_map, List.getElem_range]
  rw [read_load ram start hfits, hdistance, List.getElem?_eq_getElem hdata, Option.getD_some]

end Ram

open Ram in
/-- Loading is by the last writer, modulo `2 ^ 16`. Whatever memory held, wherever the data begins
and however long it is, each address holds the byte of the greatest place in the data that comes to
it, if there is one, and what it held before if there is none. So to load data in two parts is to
load the first part and then the second one from where the first has ended; and data that is no
longer than memory is read back from its start on. -/
theorem load_lastWriter (ram : Ram) (start : UInt16) (data : List UInt8) :
    (∀ address,
      (∃ i, IsGreatest (visits start data.length address) i ∧
          data[i]? = some ((ram.load start data).read address)) ∨
        visits start data.length address = ∅ ∧
          (ram.load start data).read address = ram.read address) ∧
      (∀ rest, ram.load start (data ++ rest) =
        (ram.load start data).load (UInt16.ofNat ((start.toNat + data.length) % 0x10000)) rest) ∧
      (data.length ≤ 0x10000 → (ram.load start data).bytesFrom start data.length = data) := by
  refine ⟨read_load_last ram start data, fun rest => ?_, bytesFrom_load ram start⟩
  rw [load_append, ← toNat_add_ofNat, UInt16.ofNat_toNat]

open Ram in
/-- One byte more than memory holds, from its last address on: the byte comes to that address again,
and replaces the first one. Two bytes there are read back over the end of memory. -/
theorem load_lastWriter_secondLap :
    let lap := List.replicate 0x10000 (0x11 : UInt8)
    let pair : List UInt8 := [0x33, 0x44]
    (Ram.zeroed.load 0xFFFF (lap ++ [0x22])).read 0xFFFF = 0x22 ∧ pair.length ≤ 0x10000 ∧
      (Ram.zeroed.load 0xFFFF pair).bytesFrom 0xFFFF pair.length = pair := by
  intro lap pair
  have hlap : lap.length = 0x10000 := List.length_replicate
  clear_value lap
  have hround : (0xFFFF : UInt16) + UInt16.ofNat lap.length = 0xFFFF := by rw [hlap]; decide
  have hlast : IsGreatest (visits 0xFFFF (lap ++ [0x22]).length 0xFFFF) lap.length := by
    have h := isGreatest_visits 0xFFFF lap.length
    rwa [hround, ← List.length_concat, List.concat_eq_append] at h
  refine ⟨?_, by decide, (load_lastWriter Ram.zeroed 0xFFFF pair).2.2 (by decide)⟩
  obtain ⟨i, hi, hbyte⟩ | ⟨hnone, -⟩ :=
    (load_lastWriter Ram.zeroed 0xFFFF (lap ++ [0x22])).1 0xFFFF
  · rw [hi.unique hlast, List.getElem?_concat_length] at hbyte
    exact (Option.some.inj hbyte).symm
  · rw [hnone] at hlast
    exact hlast.1.elim

end Nes6502
