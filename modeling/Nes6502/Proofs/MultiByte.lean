import Mathlib.Data.Nat.Digits.Defs
import Nes6502.Proofs.Flags

/-!
# Multi-byte arithmetic

Numbers of several bytes are added and subtracted byte by byte, from the low end, with the carry
handed on from place to place. The processor knows nothing of such numbers: it has a sum of nine
bits, a trick with the signs for Overflow, and the complement for subtraction. The carries make the
places add up to the sum of the numbers, and Overflow at the top place says whether that sum has
left the range of two's complement.

## What is proved

* `Alu.toNat_addWithCarry`, `Alu.overflow_addWithCarry`: what one place adds up to.
* `Threaded.unsigned_results`: the places of a number add up, by induction on the places.
* `Threaded.overflow_iff`: Overflow at the top place is that of the whole numbers.
* `Threaded.unsigned_difference`: subtraction, from the sum with the complement.
* `multibyte_arithmetic`: sums and differences of numbers of any length.
-/

set_option autoImplicit false

namespace Nes6502

/-! ## Numbers -/

/-- A number by its bytes, from the low end. -/
def unsigned (bytes : List UInt8) : Nat := Nat.ofDigits 256 (bytes.map UInt8.toNat)

/-- The same bytes in two's complement. -/
def signed (bytes : List UInt8) : Int := (unsigned bytes : Int).bmod (256 ^ bytes.length)

/-- Whether a number has a two's complement of so many bytes. -/
def Fits (length : Nat) (value : Int) : Prop :=
  -2 ^ (8 * length - 1) ≤ value ∧ value ≤ 2 ^ (8 * length - 1) - 1

instance (length : Nat) (value : Int) : Decidable (Fits length value) :=
  inferInstanceAs (Decidable (_ ∧ _))

theorem unsigned_cons (low : UInt8) (rest : List UInt8) :
    unsigned (low :: rest) = low.toNat + 256 * unsigned rest := by
  simp only [unsigned, List.map_cons, Nat.ofDigits_cons]

theorem unsigned_lt (bytes : List UInt8) : unsigned bytes < 256 ^ bytes.length := by
  induction bytes with
  | nil => exact Nat.one_pos
  | cons low rest ih =>
    have hlow := low.toNat_lt
    rw [unsigned_cons, List.length_cons, Nat.pow_succ]
    omega

theorem unsigned_append (low high : List UInt8) :
    unsigned (low ++ high) = unsigned low + 256 ^ low.length * unsigned high := by
  rw [unsigned, List.map_append, Nat.ofDigits_append, List.length_map]
  rfl

/-- Bytes are known by their number. -/
theorem unsigned_inj {bytes other : List UInt8} (hlength : bytes.length = other.length)
    (h : unsigned bytes = unsigned other) : bytes = other := by
  have hdigits (list : List UInt8) : ∀ digit ∈ list.map UInt8.toNat, digit < 256 := by
    intro digit hdigit
    obtain ⟨byte, -, rfl⟩ := List.mem_map.mp hdigit
    exact byte.toNat_lt
  have hmap := Nat.ofDigits_inj_of_len_eq (by decide) (by simpa using hlength) (hdigits bytes)
    (hdigits other) h
  exact List.map_inj_right (fun _ _ => UInt8.toNat_inj.mp) |>.mp hmap

/-- Bytes are a negative number from one half of the range on. -/
theorem signed_eq (bytes : List UInt8) :
    signed bytes = if 2 * unsigned bytes < 256 ^ bytes.length then (unsigned bytes : Int)
      else unsigned bytes - ((256 ^ bytes.length : Nat) : Int) := by
  have hlt := unsigned_lt bytes
  rw [signed, Int.bmod_def]
  generalize 256 ^ bytes.length = range at hlt
  have hmod : (unsigned bytes : Int) % (range : Int) = unsigned bytes :=
    Int.emod_eq_of_lt (by omega) (by omega)
  rw [hmod]
  split <;> split <;> omega

theorem signed_singleton (byte : UInt8) : signed [byte] = byte.toInt8.toInt := by
  have hbyte : unsigned [byte] = byte.toNat := by rw [unsigned_cons]; rfl
  rw [signed_eq, hbyte, toInt_toInt8]
  show (if 2 * byte.toNat < 256 then (byte.toNat : Int) else byte.toNat - 256) = _
  split <;> split <;> omega

/-- The range of one byte or more has two halves. -/
theorem exists_half_range {bytes : List UInt8} (hne : bytes ≠ []) :
    ∃ half, 256 ^ bytes.length = 2 * half := by
  obtain ⟨top, rest, rfl⟩ := List.exists_cons_of_ne_nil hne
  exact ⟨128 * 256 ^ rest.length, by rw [List.length_cons, Nat.pow_succ]; omega⟩

/-- The sign is that of the top byte. -/
theorem signed_cons (low : UInt8) {rest : List UInt8} (hne : rest ≠ []) :
    signed (low :: rest) = low.toNat + 256 * signed rest := by
  have hlow := low.toNat_lt
  obtain ⟨half, hhalf⟩ := exists_half_range hne
  rw [signed_eq, signed_eq, unsigned_cons, List.length_cons, Nat.pow_succ, hhalf]
  split <;> split <;> omega

/-- Complementing every byte turns a number over in its range. -/
theorem unsigned_complement (bytes : List UInt8) :
    unsigned (bytes.map (~~~·)) + unsigned bytes + 1 = 256 ^ bytes.length := by
  induction bytes with
  | nil => rfl
  | cons low rest ih =>
    have hlow : (~~~low).toNat = 255 - low.toNat := UInt8.toNat_not low
    have hbyte := low.toNat_lt
    rw [List.map_cons, unsigned_cons, unsigned_cons, List.length_cons, Nat.pow_succ, ← ih, hlow]
    omega

theorem signed_complement {bytes : List UInt8} (hne : bytes ≠ []) :
    signed (bytes.map (~~~·)) = -1 - signed bytes := by
  obtain ⟨half, hhalf⟩ := exists_half_range hne
  have hsum := unsigned_complement bytes
  rw [hhalf] at hsum
  rw [signed_eq, signed_eq, List.length_map, hhalf]
  split <;> split <;> omega

/-- A place below the top one does not bear upon whether a number fits. -/
theorem fits_succ {length : Nat} (hpositive : 0 < length) {low : Nat} (hlow : low < 256)
    (value : Int) : Fits (length + 1) (low + 256 * value) ↔ Fits length value := by
  have hrange : (2 : Int) ^ (8 * (length + 1) - 1) = 256 * 2 ^ (8 * length - 1) := by
    rw [show 8 * (length + 1) - 1 = 8 * length - 1 + 8 by omega, pow_add]
    omega
  rw [Fits, Fits, hrange]
  omega

/-! ## One place -/

namespace Alu

/-- Nine bits are enough for the sum of two bytes and a carry. -/
theorem toNat_sum (a m : UInt8) (p : Status) :
    (a.toUInt16 + m.toUInt16 + (p.bit .carry).toUInt16).toNat =
      a.toNat + m.toNat + (p.get .carry).toNat := by
  have ha := a.toNat_lt
  have hm := m.toNat_lt
  have hcarry : (p.bit .carry).toNat = (p.get .carry).toNat := by
    unfold Status.bit
    cases p.get .carry <;> rfl
  have hbit := (p.get .carry).toNat_le
  simp only [UInt16.toNat_add, UInt8.toNat_toUInt16, hcarry]
  omega

theorem carry_addWithCarry (a m : UInt8) (p : Status) :
    (addWithCarry a m p).2.get .carry =
      decide (256 ≤ a.toNat + m.toNat + (p.get .carry).toNat) := by
  unfold addWithCarry
  rw [Status.get_updateZeroNegative _ _ (by decide), Status.get_assign_of_ne _ (by decide),
    Status.get_assign _ (by decide), ← toNat_sum]
  exact decide_eq_decide.mpr UInt16.lt_iff_toNat_lt

/-- The byte of the result and the carry are the sum. -/
theorem toNat_addWithCarry (a m : UInt8) (p : Status) :
    (addWithCarry a m p).1.toNat + 256 * ((addWithCarry a m p).2.get .carry).toNat =
      a.toNat + m.toNat + (p.get .carry).toNat := by
  have ha := a.toNat_lt
  have hm := m.toNat_lt
  have hbit := (p.get .carry).toNat_le
  have hresult : (addWithCarry a m p).1.toNat =
      (a.toNat + m.toNat + (p.get .carry).toNat) % 256 := by
    rw [← toNat_sum]
    exact UInt16.toNat_toUInt8 _
  rw [hresult, carry_addWithCarry]
  by_cases hcarry : 256 ≤ a.toNat + m.toNat + (p.get .carry).toNat
  · rw [decide_eq_true hcarry, Bool.toNat_true]
    omega
  · rw [decide_eq_false hcarry, Bool.toNat_false]
    omega

/-- Overflow is set if the result has neither the sign of the one byte nor that of the other. That
is when the signed sum does not fit. -/
theorem overflow_addWithCarry (a m : UInt8) (p : Status) :
    (addWithCarry a m p).2.get .overflow = true ↔
      ¬ Fits 1 (a.toInt8.toInt + m.toInt8.toInt + (p.get .carry).toNat) := by
  have hsign (byte : UInt8) : byte.toNat.testBit 7 = decide (128 ≤ byte.toNat) := by
    have hbyte := byte.toNat_lt
    rw [Nat.testBit_eq_decide_div_mod_eq]
    exact decide_eq_decide.mpr (by omega)
  have hsum := toNat_addWithCarry a m p
  have hresult := (addWithCarry a m p).1.toNat_lt
  have ha := a.toNat_lt
  have hm := m.toNat_lt
  have hbit := (p.get .carry).toNat_le
  have hflag : (addWithCarry a m p).2.get .overflow =
      ((decide (128 ≤ a.toNat) ^^ decide (128 ≤ (addWithCarry a m p).1.toNat)) &&
        (decide (128 ≤ m.toNat) ^^ decide (128 ≤ (addWithCarry a m p).1.toNat))) := by
    rw [← hsign, ← hsign, ← hsign, ← Nat.testBit_xor, ← Nat.testBit_xor, ← Nat.testBit_and,
      ← UInt8.toNat_xor, ← UInt8.toNat_xor, ← UInt8.toNat_and, ← Status.and_bit7]
    unfold addWithCarry
    rw [Status.get_updateZeroNegative _ _ (by decide), Status.get_assign _ (by decide)]
  have hcarry := ((addWithCarry a m p).2.get .carry).toNat_le
  have hrange (value : Int) : Fits 1 value ↔ -128 ≤ value ∧ value ≤ 127 := Iff.rfl
  rw [hflag, hrange, toInt_toInt8, toInt_toInt8]
  simp only [Bool.and_eq_true, ← Bool.bne_eq_xor, bne_iff_ne, ne_eq, decide_eq_decide]
  split <;> split <;> omega

end Alu

/-- An instruction that adds to the accumulator what it makes of its operand, and the carry. -/
def Mnemonic.Adds (mnemonic : Mnemonic) (addend : UInt8 → UInt8) : Prop :=
  ∃ op, mnemonic.action = .combine op ∧
    ∀ a m p, Combination.apply op a m p = Alu.addWithCarry a (addend m) p

theorem adds_adc : Mnemonic.adc.Adds id := ⟨.add, rfl, fun _ _ _ => rfl⟩

theorem adds_sbc : Mnemonic.sbc.Adds (~~~·) := ⟨.subtract, rfl, fun _ _ _ => rfl⟩

namespace Cpu

/-- The next step executes an instruction of this name, in whatever mode, on an operand of this
value. -/
def Faces (c : Cpu Ram) (mnemonic : Mnemonic) (value : UInt8) : Prop :=
  ∃ i, c.Executes i ∧ i.mnemonic = mnemonic ∧ c.operandByte i = value

variable {c : Cpu Ram} {value : UInt8}

theorem Faces.load (tracing : Bool) (h : c.Faces .lda value) :
    (c.step tracing).result = .ok () ∧
      SameData (c.step tracing).cpu (c.setResult .a value) := by
  obtain ⟨i, hexecutes, hmnemonic, rfl⟩ := h
  obtain ⟨hresult, hsame, -⟩ := hexecutes.step tracing
  refine ⟨hresult, hsame.trans ?_⟩
  rw [performed, hmnemonic, Mnemonic.action, perform, readOperand_ram]
  exact ⟨rfl, rfl, rfl, rfl, rfl, rfl⟩

/-- A step that adds. -/
theorem Faces.add (tracing : Bool) {mnemonic : Mnemonic} {addend : UInt8 → UInt8}
    (hadds : mnemonic.Adds addend) (h : c.Faces mnemonic value) :
    let sum := Alu.addWithCarry c.regs.a (addend value) c.regs.status
    (c.step tracing).result = .ok () ∧
      SameData (c.step tracing).cpu ((c.setRegister .a sum.1).setStatus sum.2) := by
  obtain ⟨i, hexecutes, rfl, rfl⟩ := h
  obtain ⟨op, haction, happly⟩ := hadds
  obtain ⟨hresult, hsame, -⟩ := hexecutes.step tracing
  refine ⟨hresult, hsame.trans ?_⟩
  rw [performed, haction, perform, readOperand_ram, ← happly]
  exact ⟨rfl, rfl, rfl, rfl, rfl, rfl⟩

end Cpu

/-- One place of two numbers, and the processor that is about to work it out. -/
structure Place where
  start : Cpu Ram
  a : UInt8
  m : UInt8

namespace Place

variable (tracing : Bool)

/-- The processor with the byte of the first number in the accumulator. -/
def loaded (p : Place) : Cpu Ram := (p.start.step tracing).cpu

/-- The processor with the byte of the result in the accumulator. -/
def finish (p : Place) : Cpu Ram := ((p.loaded tracing).step tracing).cpu

def result (p : Place) : UInt8 := (p.finish tracing).regs.a

/-- The byte of the first number is loaded, and that of the second number combined with it. -/
structure Worked (mnemonic : Mnemonic) (p : Place) : Prop where
  loads : p.start.Faces .lda p.a
  combines : (p.loaded tracing).Faces mnemonic p.m

/-- Both steps succeed, Zero and Negative describe the result, and beyond the accumulator and the
flags of the result nothing has changed. -/
structure Tidy (p : Place) : Prop where
  loads : (p.start.step tracing).result = .ok ()
  combines : ((p.loaded tracing).step tracing).result = .ok ()
  describes : (p.finish tracing).regs.status.Describes (p.result tracing)
  x : (p.finish tracing).regs.x = p.start.regs.x
  y : (p.finish tracing).regs.y = p.start.regs.y
  sp : (p.finish tracing).regs.sp = p.start.regs.sp
  decimal : (p.finish tracing).regs.status.get .decimal = p.start.regs.status.get .decimal
  interruptDisable : (p.finish tracing).regs.status.get .interruptDisable =
    p.start.regs.status.get .interruptDisable
  bus : (p.finish tracing).bus = p.start.bus

variable {tracing} {mnemonic : Mnemonic} {addend : UInt8 → UInt8} {p : Place}

/-- The sum that is made at a place. -/
def sum (addend : UInt8 → UInt8) (p : Place) : UInt8 × Status :=
  Alu.addWithCarry p.a (addend p.m) (p.start.regs.status.updateZeroNegative p.a)

theorem Worked.sameData (h : p.Worked tracing mnemonic) (hadds : mnemonic.Adds addend) :
    Cpu.SameData (p.finish tracing)
      ((p.start.setRegister .a (p.sum addend).1).setStatus (p.sum addend).2) := by
  have hload : Cpu.SameData (p.loaded tracing) (p.start.setResult .a p.a) :=
    (h.loads.load tracing).2
  have hadd := (h.combines.add tracing hadds).2
  have ha : (p.loaded tracing).regs.a = p.a := hload.a
  have hstatus : (p.loaded tracing).regs.status = p.start.regs.status.updateZeroNegative p.a :=
    hload.status
  rw [ha, hstatus] at hadd
  exact hadd.trans ⟨hload.bus, rfl, hload.x, hload.y, hload.sp, rfl⟩

theorem carry_loaded (p : Place) :
    (p.start.regs.status.updateZeroNegative p.a).get .carry = p.start.regs.status.get .carry :=
  Status.get_updateZeroNegative _ _ (by decide)

/-- At each place the result and the carry are the sum. -/
theorem Worked.toNat_result (h : p.Worked tracing mnemonic) (hadds : mnemonic.Adds addend) :
    (p.result tracing).toNat + 256 * ((p.finish tracing).regs.status.get .carry).toNat =
      p.a.toNat + (addend p.m).toNat + (p.start.regs.status.get .carry).toNat := by
  have hsame := h.sameData hadds
  rw [result, hsame.a, hsame.status, ← carry_loaded]
  exact Alu.toNat_addWithCarry _ _ _

theorem Worked.overflow_iff (h : p.Worked tracing mnemonic) (hadds : mnemonic.Adds addend) :
    (p.finish tracing).regs.status.get .overflow = true ↔
      ¬ Fits 1 (p.a.toInt8.toInt + (addend p.m).toInt8.toInt +
        (p.start.regs.status.get .carry).toNat) := by
  rw [(h.sameData hadds).status, ← carry_loaded]
  exact Alu.overflow_addWithCarry _ _ _

theorem Worked.tidy (h : p.Worked tracing mnemonic) (hadds : mnemonic.Adds addend) :
    p.Tidy tracing := by
  have hsame := h.sameData hadds
  have hkept {flag : Flag} (hflag : flag ∉ [Flag.carry, .overflow, .zero, .negative]) :
      (p.finish tracing).regs.status.get flag = p.start.regs.status.get flag := by
    have hloaded : flag ∉ [Flag.zero, .negative] := fun hmem =>
      hflag (List.mem_cons_of_mem _ (List.mem_cons_of_mem _ hmem))
    rw [hsame.status]
    exact (Alu.get_addWithCarry _ _ _ hflag).trans (Status.get_updateZeroNegative _ _ hloaded)
  refine ⟨(h.loads.load tracing).1, (h.combines.add tracing hadds).1, ?_, hsame.x, hsame.y,
    hsame.sp, hkept (by decide), hkept (by decide), hsame.bus⟩
  rw [result, hsame.a, hsame.status]
  exact Status.describes_updateZeroNegative _ _

end Place

/-! ## All places -/

section Threaded

variable (tracing : Bool) (mnemonic : Mnemonic)

/-- The processor after all places, or the one before them if there are none. -/
def lastOf (c : Cpu Ram) (places : List Place) : Cpu Ram :=
  places.foldl (fun _ p => p.finish tracing) c

/-- The places are worked out one after the other, from the low end. Each begins with the carry that
the one before it has left, and whatever else has been done in between. -/
def Threaded (c : Cpu Ram) : List Place → Prop
  | [] => True
  | p :: rest => p.start.regs.status.get .carry = c.regs.status.get .carry ∧
      p.Worked tracing mnemonic ∧ Threaded (p.finish tracing) rest

end Threaded

namespace Threaded

variable {tracing : Bool} {mnemonic : Mnemonic} {addend : UInt8 → UInt8} {c : Cpu Ram}
  {places : List Place}

/-- The bytes of the result and the last carry are the sum of the numbers. -/
theorem unsigned_results (hadds : mnemonic.Adds addend) (h : Threaded tracing mnemonic c places) :
    unsigned (places.map (Place.result tracing)) + 256 ^ places.length *
        ((lastOf tracing c places).regs.status.get .carry).toNat =
      unsigned (places.map Place.a) + unsigned (places.map fun p => addend p.m) +
        (c.regs.status.get .carry).toNat := by
  -- the carry that a place leaves is the first one of the places above it
  induction places generalizing c with
  | nil =>
    simp only [List.map_nil, List.length_nil, Nat.pow_zero, Nat.one_mul]
    exact (Nat.zero_add _).trans (Nat.zero_add _).symm
  | cons p rest ih =>
    obtain ⟨hcarry, hworked, hrest⟩ := h
    have hplace := hworked.toNat_result hadds
    have hplaces := ih hrest
    rw [hcarry] at hplace
    have hlast : lastOf tracing c (p :: rest) = lastOf tracing (p.finish tracing) rest := rfl
    simp only [List.map_cons, unsigned_cons, List.length_cons, hlast, Nat.pow_succ',
      Nat.mul_assoc]
    omega

/-- Overflow after the top place says whether the sum of the numbers fits. -/
theorem overflow_iff (hadds : mnemonic.Adds addend) (h : Threaded tracing mnemonic c places)
    (hne : places ≠ []) :
    (lastOf tracing c places).regs.status.get .overflow = true ↔
      ¬ Fits places.length (signed (places.map Place.a) +
        signed (places.map fun p => addend p.m) + (c.regs.status.get .carry).toNat) := by
  induction places generalizing c with
  | nil => exact absurd rfl hne
  | cons p rest ih =>
    obtain ⟨hcarry, hworked, hrest⟩ := h
    rw [← hcarry]
    by_cases hlast : rest = []
    · subst hlast
      simp only [List.map_cons, List.map_nil, signed_singleton]
      exact hworked.overflow_iff hadds
    · have hplace := hworked.toNat_result hadds
      have hlow := (p.result tracing).toNat_lt
      have hmap (f : Place → UInt8) : signed ((p :: rest).map f) =
          (f p).toNat + 256 * signed (rest.map f) :=
        signed_cons (f p) (fun hnil => hlast (List.map_eq_nil_iff.mp hnil))
      -- the bytes at this place leave their result, and a carry for the places above
      have hsum : signed ((p :: rest).map Place.a) + signed ((p :: rest).map fun p => addend p.m) +
            (p.start.regs.status.get .carry).toNat =
          (p.result tracing).toNat + 256 * (signed (rest.map Place.a) +
            signed (rest.map fun p => addend p.m) +
              ((p.finish tracing).regs.status.get .carry).toNat) := by
        rw [hmap, hmap]
        omega
      rw [hsum, List.length_cons, fits_succ (List.length_pos_iff.mpr hlast) hlow]
      exact ih hrest hlast

theorem worked (h : Threaded tracing mnemonic c places) :
    ∀ p ∈ places, p.Worked tracing mnemonic := by
  induction places generalizing c with
  | nil => exact fun p hp => absurd hp List.not_mem_nil
  | cons p rest ih =>
    obtain ⟨-, hworked, hrest⟩ := h
    exact List.forall_mem_cons.mpr ⟨hworked, ih hrest⟩

/-- Subtraction adds the complement, so it borrows where addition has no carry. -/
theorem unsigned_difference (h : Threaded tracing .sbc c places) :
    let r := unsigned (places.map (Place.result tracing))
    let a := unsigned (places.map Place.a)
    let m := unsigned (places.map Place.m)
    let carry := (c.regs.status.get .carry).toNat
    let last := (lastOf tracing c places).regs.status.get .carry
    (r : Int) = (a - m - (1 - carry)) % (256 ^ places.length : Nat) ∧
      (last = true ↔ m + (1 - carry) ≤ a) := by
  intro r a m carry last
  have hbit : carry ≤ 1 := Bool.toNat_le _
  have hlt : r < 256 ^ places.length := by
    simpa using unsigned_lt (places.map (Place.result tracing))
  have hcomplement : unsigned (places.map fun p => ~~~p.m) + m + 1 = 256 ^ places.length := by
    have hplaces := unsigned_complement (places.map Place.m)
    rw [List.map_map, List.length_map] at hplaces
    exact hplaces
  have hsum : r + 256 ^ places.length * last.toNat =
      a + unsigned (places.map fun p => ~~~p.m) + carry := h.unsigned_results adds_sbc
  generalize 256 ^ places.length = range at hlt hcomplement hsum ⊢
  have hdifference : (a - m - (1 - carry) : Int) = r + (range : Int) * (last.toNat - 1) := by
    rw [Int.mul_sub, Int.mul_one]
    have hcast : ((range * last.toNat : Nat) : Int) = range * last.toNat := Int.natCast_mul _ _
    omega
  refine ⟨?_, ?_⟩
  · rw [hdifference, Int.add_mul_emod_self_left]
    exact (Int.emod_eq_of_lt (Int.natCast_nonneg r) (Int.ofNat_lt.mpr hlt)).symm
  · cases hlast : last
    · simp only [hlast, Bool.toNat_false, Nat.mul_zero] at hsum
      simp only [Bool.false_eq_true, false_iff]
      omega
    · simp only [hlast, Bool.toNat_true, Nat.mul_one] at hsum
      simp only [true_iff]
      omega

end Threaded

/-- Sums and differences of two numbers of any number of bytes, worked out from the low end with LDA
and ADC or SBC in whatever modes, whether or not Decimal is set. The bytes of a sum are the sum of
the numbers and the first carry, up to the last carry, and Overflow after the last place says that
the sum in two's complement does not fit. The bytes of a difference are the difference modulo the
range of the numbers, where a carry that is clear is a borrow; the last carry is set exactly if
nothing is borrowed, and Overflow says that the difference in two's complement does not fit. At each
place Zero and Negative describe the byte of the result, and neither the other registers and flags
nor memory have changed. -/
theorem multibyte_arithmetic (tracing : Bool) {mnemonic : Mnemonic}
    (hmnemonic : mnemonic = .adc ∨ mnemonic = .sbc) {c : Cpu Ram} {places : List Place}
    (hne : places ≠ []) (h : Threaded tracing mnemonic c places) :
    let n := places.length
    let a := places.map Place.a
    let m := places.map Place.m
    let r := places.map (Place.result tracing)
    let carry := (c.regs.status.get .carry).toNat
    let status := (lastOf tracing c places).regs.status
    (mnemonic = .adc →
        unsigned r + 2 ^ (8 * n) * (status.get .carry).toNat = unsigned a + unsigned m + carry ∧
          (status.get .overflow = true ↔ ¬ Fits n (signed a + signed m + carry))) ∧
      (mnemonic = .sbc →
        (unsigned r : Int) = (unsigned a - unsigned m - (1 - carry)) % 2 ^ (8 * n) ∧
          (status.get .carry = true ↔ unsigned m + (1 - carry) ≤ unsigned a) ∧
          (status.get .overflow = true ↔ ¬ Fits n (signed a - signed m - (1 - carry)))) ∧
      ∀ p ∈ places, p.Tidy tracing := by
  intro n a m r carry status
  have hrange : 2 ^ (8 * n) = 256 ^ n := Nat.pow_mul 2 8 n
  refine ⟨?_, ?_, ?_⟩
  · rintro rfl
    have hsum := h.unsigned_results adds_adc
    have hoverflow := h.overflow_iff adds_adc hne
    rw [← hrange] at hsum
    exact ⟨hsum, hoverflow⟩
  · rintro rfl
    obtain ⟨hdifference, hborrow⟩ := h.unsigned_difference
    have hcast : (2 : Int) ^ (8 * n) = (256 ^ n : Nat) := by rw [← hrange, Nat.cast_pow]; rfl
    have hbytes : m ≠ [] := fun hnil => hne (List.map_eq_nil_iff.mp hnil)
    have hcomplement : signed (places.map fun p => ~~~p.m) = -1 - signed m := by
      rw [← signed_complement hbytes, List.map_map]
      rfl
    have hsum : signed a + signed (places.map fun p => ~~~p.m) + carry =
        signed a - signed m - (1 - carry) := by omega
    have hoverflow := h.overflow_iff adds_sbc hne
    rw [hsum] at hoverflow
    rw [hcast]
    exact ⟨hdifference, hborrow, hoverflow⟩
  · obtain ⟨addend, hadds⟩ : ∃ addend, mnemonic.Adds addend := by
      rcases hmnemonic with rfl | rfl
      · exact ⟨_, adds_adc⟩
      · exact ⟨_, adds_sbc⟩
    exact fun p hp => (h.worked p hp).tidy hadds

/-- A program that adds two numbers of two bytes and a carry, with Decimal set, and takes the second
number and a borrow away again. Each byte of a result is stored before the next place. -/
def carryingRam : Ram :=
  (Ram.zeroed.load 0x0000 [0xF8, 0x38, 0xA5, 0x40, 0x65, 0x42, 0x85, 0x50, 0xA5, 0x41, 0x69, 0x01,
    0x85, 0x51, 0xA5, 0x50, 0xE5, 0x42, 0x85, 0x50, 0xA5, 0x51, 0xE9, 0x01]).load 0x0040
      [0xFE, 0x7F, 0x01]

/-- The sum leaves the range of two's complement, and the difference comes back into it; both times
Overflow is set. -/
theorem multibyte_arithmetic_thereAndBack :
    let start := (Cpu.powerOn carryingRam .halt).reset
    let before := start.afterSteps false 2
    let sum : List Place := [⟨before, 0xFE, 0x01⟩, ⟨start.afterSteps false 5, 0x7F, 0x01⟩]
    let between := lastOf false before sum
    let difference : List Place :=
      [⟨start.afterSteps false 8, 0x00, 0x01⟩, ⟨start.afterSteps false 11, 0x81, 0x01⟩]
    let last := lastOf false between difference
    Threaded false .adc before sum ∧ Threaded false .sbc between difference ∧
      before.regs.status.get .decimal = true ∧
      sum.map (Place.result false) = [0x00, 0x81] ∧ between.regs.status.get .overflow = true ∧
      difference.map (Place.result false) = [0xFE, 0x7F] ∧ last.regs.status.get .carry = true ∧
      last.regs.status.get .overflow = true ∧ ∀ p ∈ sum ++ difference, p.Tidy false := by
  intro start before sum between difference last
  have hsum : Threaded false .adc before sum :=
    ⟨rfl,
      ⟨⟨⟨0xA5, .lda, .zeroPage, 3, false⟩, by decide +kernel, rfl, by decide +kernel⟩,
        ⟨⟨0x65, .adc, .zeroPage, 3, false⟩, by decide +kernel, rfl, by decide +kernel⟩⟩,
      by decide +kernel,
      ⟨⟨⟨0xA5, .lda, .zeroPage, 3, false⟩, by decide +kernel, rfl, by decide +kernel⟩,
        ⟨⟨0x69, .adc, .immediate, 2, false⟩, by decide +kernel, rfl, by decide +kernel⟩⟩,
      trivial⟩
  have hdifference : Threaded false .sbc between difference :=
    ⟨by decide +kernel,
      ⟨⟨⟨0xA5, .lda, .zeroPage, 3, false⟩, by decide +kernel, rfl, by decide +kernel⟩,
        ⟨⟨0xE5, .sbc, .zeroPage, 3, false⟩, by decide +kernel, rfl, by decide +kernel⟩⟩,
      by decide +kernel,
      ⟨⟨⟨0xA5, .lda, .zeroPage, 3, false⟩, by decide +kernel, rfl, by decide +kernel⟩,
        ⟨⟨0xE9, .sbc, .immediate, 2, false⟩, by decide +kernel, rfl, by decide +kernel⟩⟩,
      trivial⟩
  obtain ⟨hadd, -, htidy⟩ := multibyte_arithmetic false (.inl rfl) (List.cons_ne_nil _ _) hsum
  obtain ⟨-, hsubtract, htidy'⟩ :=
    multibyte_arithmetic false (.inr rfl) (List.cons_ne_nil _ _) hdifference
  obtain ⟨-, hoverflow⟩ := hadd rfl
  obtain ⟨-, hborrow, hoverflow'⟩ := hsubtract rfl
  exact ⟨hsum, hdifference, by decide +kernel, by decide +kernel,
    hoverflow.mpr (by decide +kernel), by decide +kernel, hborrow.mpr (by decide +kernel),
    hoverflow'.mpr (by decide +kernel), List.forall_mem_append.mpr ⟨htidy, htidy'⟩⟩

end Nes6502
