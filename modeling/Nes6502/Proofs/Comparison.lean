import Nes6502.Proofs.MultiByte

/-!
# Comparison

A data sheet explains the comparisons by a subtraction whose difference is thrown away. The
processor has no such thing. A comparison takes Carry from an inequality and the other two flags
from a difference that wraps around, while a subtraction adds the complement and takes Carry from
the ninth bit of the sum. That the two agree is a matter of arithmetic, and it takes a Carry that is
set beforehand, since the subtraction borrows by it.

## What is proved

* `Alu.get_compare_eq_get_subtract`: the flags of a comparison are those of a subtraction.
* `Cpu.sameData_performed_compare`: beyond these flags a comparison changes nothing.
* `comparison_as_subtraction`: both for the steps of a processor.
-/

set_option autoImplicit false

namespace Nes6502

/-- The flags that say how two bytes compare. -/
def Flag.ofComparison : List Flag := [.zero, .negative, .carry]

/-- The register that an instruction compares with its operand. -/
def Mnemonic.compared? : Mnemonic → Option Register
  | .cmp => some .a
  | .cpx => some .x
  | .cpy => some .y
  | _ => none

theorem Mnemonic.action_of_compared {mnemonic : Mnemonic} {register : Register}
    (h : mnemonic.compared? = some register) : mnemonic.action = .compare register := by
  cases mnemonic <;> cases h <;> rfl

/-- The two flags of a result are known once the result is. -/
theorem Status.Describes.get_eq {p q : Status} {value : UInt8} (hp : p.Describes value)
    (hq : q.Describes value) :
    p.get .zero = q.get .zero ∧ p.get .negative = q.get .negative :=
  ⟨Bool.eq_iff_iff.mpr (hp.1.trans hq.1.symm), hp.2.trans hq.2.symm⟩

/-! ## The arithmetic unit -/

namespace Alu

theorem carry_compare (register m : UInt8) (p : Status) :
    (compare register m p).get .carry = decide (m.toNat ≤ register.toNat) := by
  unfold compare
  rw [Status.get_assign _ (by decide)]
  exact decide_eq_decide.mpr UInt8.le_iff_toNat_le

theorem describes_compare (register m : UInt8) (p : Status) :
    (compare register m p).Describes (register - m) := by
  obtain ⟨hzero, hnegative⟩ := p.describes_updateZeroNegative (register - m)
  unfold compare
  constructor
  · rw [Status.get_assign_of_ne _ (by decide)]
    exact hzero
  · rw [Status.get_assign_of_ne _ (by decide)]
    exact hnegative

section Subtraction

variable (a m : UInt8) {p : Status}

/-- Without a borrow the sum with the complement is the difference. -/
theorem addWithCarry_complement (hcarry : p.get .carry = true) :
    (addWithCarry a (~~~m) p).1 = a - m ∧
      (addWithCarry a (~~~m) p).2.get .carry = decide (m.toNat ≤ a.toNat) := by
  have ha := a.toNat_lt
  have hm := m.toNat_lt
  have hcomplement : (~~~m).toNat = 255 - m.toNat := UInt8.toNat_not m
  have hsum := toNat_addWithCarry a (~~~m) p
  have hninth := carry_addWithCarry a (~~~m) p
  have hresult := (addWithCarry a (~~~m) p).1.toNat_lt
  rw [hcomplement, hcarry, Bool.toNat_true] at hsum hninth
  have hborrow : (addWithCarry a (~~~m) p).2.get .carry = decide (m.toNat ≤ a.toNat) :=
    hninth.trans (decide_eq_decide.mpr (by omega))
  refine ⟨UInt8.toNat_inj.mp ?_, hborrow⟩
  rw [hborrow] at hsum
  rw [UInt8.toNat_sub]
  by_cases hle : m.toNat ≤ a.toNat
  · rw [decide_eq_true hle, Bool.toNat_true] at hsum
    omega
  · rw [decide_eq_false hle, Bool.toNat_false] at hsum
    omega

/-- The flags of a comparison are those of a subtraction that borrows nothing, whatever the other
flags were. -/
theorem get_compare_eq_get_subtract (q : Status) (hcarry : p.get .carry = true) :
    ∀ flag ∈ Flag.ofComparison,
      (compare a m q).get flag = (addWithCarry a (~~~m) p).2.get flag := by
  obtain ⟨hdifference, hborrow⟩ := addWithCarry_complement a m hcarry
  have hresult : (addWithCarry a (~~~m) p).2.Describes (a - m) := by
    rw [← hdifference]
    exact Status.describes_updateZeroNegative _ _
  obtain ⟨hzero, hnegative⟩ := (describes_compare a m q).get_eq hresult
  intro flag hflag
  simp only [Flag.ofComparison, List.mem_cons, List.not_mem_nil, or_false] at hflag
  rcases hflag with rfl | rfl | rfl
  · exact hzero
  · exact hnegative
  · exact (carry_compare a m q).trans hborrow.symm

end Subtraction

end Alu

/-! ## Steps -/

namespace Cpu

/-- A comparison changes the status, and nothing else. -/
theorem sameData_performed_compare (c : Cpu Ram) {i : Instruction} {register : Register}
    (hcompares : i.mnemonic.compared? = some register) :
    SameData (c.performed i).cpu
      (c.setStatus (Alu.compare (c.regs.get register) (c.operandByte i) c.regs.status)) := by
  rw [performed, Mnemonic.action_of_compared hcompares, perform, readOperand_ram]
  cases register <;> exact ⟨rfl, rfl, rfl, rfl, rfl, rfl⟩

/-- The next two steps set the carry and take a byte from the accumulator. -/
structure Subtracts (tracing : Bool) (s : Cpu Ram) (m : UInt8) : Prop where
  sets : ∃ i, s.Executes i ∧ i.mnemonic = .sec
  subtracts : (s.step tracing).cpu.Faces .sbc m

theorem Subtracts.sameData {tracing : Bool} {s : Cpu Ram} {m : UInt8} (h : s.Subtracts tracing m) :
    let difference := Alu.addWithCarry s.regs.a (~~~m) (s.regs.status.assign .carry true)
    SameData (s.afterSteps tracing 2) ((s.setRegister .a difference.1).setStatus difference.2) := by
  intro difference
  obtain ⟨i, hexecutes, hmnemonic⟩ := h.sets
  have hset : SameData (s.step tracing).cpu
      (s.setStatus (s.regs.status.assign .carry true)) := by
    refine (hexecutes.step tracing).2.1.trans ?_
    rw [performed, hmnemonic]
    exact ⟨rfl, rfl, rfl, rfl, rfl, rfl⟩
  have ha : (s.step tracing).cpu.regs.a = s.regs.a := hset.a
  have hsubtract := (h.subtracts.add tracing adds_sbc).2
  rw [ha, hset.status] at hsubtract
  exact hsubtract.trans ⟨hset.bus, rfl, hset.x, hset.y, hset.sp, rfl⟩

end Cpu

/-- A step that compares a register `r` with an operand `m`. Carry says that `r` is not less, Zero
that the two are equal, and Negative is the top bit of the difference modulo 256. A processor with
`r` in its accumulator that sets the carry and takes `m` away ends with the same three flags,
whatever it is otherwise. The comparison changes no other flag, no register and no memory. If an
interrupt is due, it is taken first, and all this is meant of the processor that has taken it. -/
theorem comparison_as_subtraction (tracing : Bool) {c : Cpu Ram} {i : Instruction}
    (h : c.Reaches i) {register : Register} (hcompares : i.mnemonic.compared? = some register) :
    let ready := c.pollInterrupts
    let d := (c.step tracing).cpu
    let r := ready.regs.get register
    let m := ready.operandByte i
    (c.step tracing).result = .ok () ∧ (c.dueInterrupt = none → ready = c) ∧
      (d.regs.status.get .carry = true ↔ m.toNat ≤ r.toNat) ∧
      (d.regs.status.get .zero = true ↔ r = m) ∧
      d.regs.status.get .negative = (((r.toNat : Int) - m.toNat) % 256).toNat.testBit 7 ∧
      (∀ s : Cpu Ram, s.regs.a = r → s.Subtracts tracing m → ∀ flag ∈ Flag.ofComparison,
        d.regs.status.get flag = (s.afterSteps tracing 2).regs.status.get flag) ∧
      (∀ flag, flag ∉ Flag.ofComparison →
        d.regs.status.get flag = ready.regs.status.get flag) ∧
      (∀ name, d.regs.get name = ready.regs.get name) ∧ d.bus = ready.bus := by
  intro ready d r m
  obtain ⟨hresult, hstep⟩ := h.step tracing
  have hsame : Cpu.SameData d (ready.setStatus (Alu.compare r m ready.regs.status)) :=
    hstep.trans (ready.sameData_performed_compare hcompares)
  have hstatus : d.regs.status = Alu.compare r m ready.regs.status := hsame.status
  obtain ⟨hzero, hnegative⟩ := Alu.describes_compare r m ready.regs.status
  refine ⟨hresult, Cpu.pollInterrupts_of_idle, ?_, ?_, ?_, ?_, ?_, fun name => ?_, hsame.bus⟩
  · rw [hstatus, Alu.carry_compare, decide_eq_true_iff]
  · have hequal : r - m = 0 ↔ r = m := by grind
    rw [hstatus, hzero, hequal]
  · have hdifference : (r - m).toNat = (((r.toNat : Int) - m.toNat) % 256).toNat := by
      have hr := r.toNat_lt
      have hm := m.toNat_lt
      rw [UInt8.toNat_sub]
      omega
    rw [hstatus, hnegative, hdifference]
  · intro s ha hsubtracts
    rw [hstatus, hsubtracts.sameData.status, ha]
    exact Alu.get_compare_eq_get_subtract r m _ (Status.get_assign _ (by decide) true)
  · intro flag hflag
    rw [hstatus]
    exact Alu.get_compare r m _ hflag
  · exact (hsame.get name).trans (ready.regs.get_setStatus _ name)

/-- A program that compares X with a cell. -/
def comparingRam : Ram :=
  (Ram.zeroed.load 0x0000 [0xA2, 0x10, 0xE4, 0x40]).load 0x0040 [0x90]

/-- The difference leaves the range of two's complement, so the subtraction sets Overflow, and the
comparison does not. -/
theorem comparison_as_subtraction_outOfRange :
    let c := (Cpu.powerOn comparingRam .halt).reset.afterSteps false 1
    let d := (c.step false).cpu
    let s := { c.setRegister .a c.regs.x with bus := c.bus.load 0x0002 [0x38, 0xE5, 0x40] }
    let difference := s.afterSteps false 2
    c.Reaches ⟨0xE4, .cpx, .zeroPage, 3, false⟩ ∧ s.Subtracts false 0x90 ∧
      d.regs.status.get .carry = false ∧ d.regs.status.get .negative = true ∧
      (∀ flag ∈ Flag.ofComparison,
        d.regs.status.get flag = difference.regs.status.get flag) ∧
      d.regs.status.get .overflow = c.regs.status.get .overflow ∧
      difference.regs.status.get .overflow ≠ c.regs.status.get .overflow := by
  intro c d s difference
  have hcompares : c.Reaches ⟨0xE4, .cpx, .zeroPage, 3, false⟩ :=
    Cpu.Executes.reaches (by decide +kernel)
  have hsubtracts : s.Subtracts false 0x90 :=
    ⟨⟨⟨0x38, .sec, .implied, 2, false⟩, by decide +kernel, rfl⟩,
      ⟨0xE5, .sbc, .zeroPage, 3, false⟩, by decide +kernel, rfl, by decide +kernel⟩
  have hoperand : c.pollInterrupts.operandByte ⟨0xE4, .cpx, .zeroPage, 3, false⟩ = 0x90 := by
    decide +kernel
  have hx : c.pollInterrupts.regs.x = 0x10 := by decide +kernel
  obtain ⟨-, hidle, hcarry, -, hnegative, hsame, hkept, -⟩ :=
    comparison_as_subtraction false hcompares (rfl : Mnemonic.cpx.compared? = some .x)
  simp only [hoperand, Registers.get, hx] at hcarry hnegative hsame
  have hclear : d.regs.status.get .carry = false :=
    Bool.eq_false_iff.mpr (mt hcarry.mp (by decide))
  have hready : c.pollInterrupts = c := hidle (by decide +kernel)
  rw [hready] at hkept
  exact ⟨hcompares, hsubtracts, hclear, hnegative.trans (by decide),
    hsame s (by decide +kernel) hsubtracts, hkept .overflow (by decide), by decide +kernel⟩

end Nes6502
