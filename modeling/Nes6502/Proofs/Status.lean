import Nes6502.Alu

/-!
# The register that the processor holds

Two of the eight bits are no latches: the unused one reads as one, and Break exists only in the
images on the stack. `Status.Live` says that the stored byte agrees with that.

## What is proved

* `Status.latch_set_of_ne`, `Status.latch_clear_of_ne`: what is stored for a flag does not depend on
  the others.
* `Status.get_assign`, `Status.get_assign_of_ne`: an assignment gives the flag its value and leaves
  the others alone.
* `Status.ofStack_toStack`: pulling what was pushed gives a live register back, whoever pushed it.
* `Status.Unaffected`: what the four flags that describe results do not bear upon, every operation
  of the arithmetic unit preserves. Being live is of that kind, and so are the other four flags.
-/

set_option autoImplicit false

namespace Nes6502

namespace Status

/-! ## One flag and the others -/

/-- What is stored for a flag, at its place in the byte. -/
def latch (p : Status) (flag : Flag) : UInt8 := p.stored &&& flag.mask

theorem get_eq (p : Status) (flag : Flag) :
    p.get flag = (p.latch flag != 0 || flag == .unused) := rfl

/-- A mask picks from a union what it picks from the parts. -/
theorem or_and_mask (x y mask : UInt8) : (x ||| y) &&& mask = x &&& mask ||| y &&& mask :=
  UInt8.toBitVec_inj.mp BitVec.and_or_distrib_right

/-- Two flags share no bit. -/
theorem mask_and_mask_of_ne {flag other : Flag} (h : other ≠ flag) :
    flag.mask &&& other.mask = 0 := by
  cases flag <;> cases other <;> first | rfl | exact absurd rfl h

theorem latch_set (p : Status) (flag : Flag) : (p.set flag).latch flag = flag.mask := by
  show (p.stored ||| flag.mask) &&& flag.mask = flag.mask
  rw [or_and_mask]
  obtain ⟨⟨bits⟩⟩ := p
  cases flag <;> revert bits <;> decide +kernel

theorem latch_set_of_ne (p : Status) {flag other : Flag} (h : other ≠ flag) :
    (p.set flag).latch other = p.latch other := by
  simp only [latch, set, or_and_mask, mask_and_mask_of_ne h, UInt8.or_zero]

theorem latch_clear (p : Status) {flag : Flag} (h : flag ≠ .unused) :
    (p.clear flag).latch flag = 0 := by
  rw [latch, clear, if_neg h, UInt8.and_assoc]
  cases flag <;> exact UInt8.and_zero

theorem latch_clear_of_ne (p : Status) {flag other : Flag} (h : other ≠ flag) :
    (p.clear flag).latch other = p.latch other := by
  by_cases hflag : flag = .unused
  · rw [clear, if_pos hflag]
  · have hmask : ~~~flag.mask &&& other.mask = other.mask := by
      cases flag <;> cases other <;> first | rfl | exact absurd rfl h
    simp only [latch, clear, if_neg hflag, UInt8.and_assoc, hmask]

theorem get_set (p : Status) {flag : Flag} : (p.set flag).get flag = true := by
  have hmask : (flag.mask != 0) = true := by cases flag <;> rfl
  rw [get_eq, latch_set, hmask, Bool.true_or]

theorem get_set_of_ne (p : Status) {flag other : Flag} (h : other ≠ flag) :
    (p.set flag).get other = p.get other := by
  rw [get_eq, latch_set_of_ne p h, ← get_eq]

theorem get_clear (p : Status) {flag : Flag} (h : flag ≠ .unused) :
    (p.clear flag).get flag = false := by
  rw [get_eq, latch_clear p h, beq_eq_false_iff_ne.mpr h]
  rfl

theorem get_clear_of_ne (p : Status) {flag other : Flag} (h : other ≠ flag) :
    (p.clear flag).get other = p.get other := by
  rw [get_eq, latch_clear_of_ne p h, ← get_eq]

theorem get_assign (p : Status) {flag : Flag} (h : flag ≠ .unused) (value : Bool) :
    (p.assign flag value).get flag = value := by
  cases value with
  | true => exact p.get_set
  | false => exact p.get_clear h

theorem latch_assign_of_ne (p : Status) {flag other : Flag} (h : other ≠ flag) (value : Bool) :
    (p.assign flag value).latch other = p.latch other := by
  cases value with
  | true => exact p.latch_set_of_ne h
  | false => exact p.latch_clear_of_ne h

theorem get_assign_of_ne (p : Status) {flag other : Flag} (h : other ≠ flag) (value : Bool) :
    (p.assign flag value).get other = p.get other := by
  cases value with
  | true => exact p.get_set_of_ne h
  | false => exact p.get_clear_of_ne h

/-! ## What is stored and what is read -/

/-- The unused bit is stored as one, as it reads. -/
def Faithful (p : Status) : Prop := p.latch .unused = Flag.unused.mask

theorem faithful_ofBits (bits : UInt8) : (ofBits bits).Faithful := latch_set ⟨bits⟩ .unused

theorem Faithful.set {p : Status} (h : p.Faithful) (flag : Flag) : (p.set flag).Faithful := by
  by_cases hflag : flag = .unused
  · rw [hflag]
    exact p.latch_set .unused
  · exact (p.latch_set_of_ne (Ne.symm hflag)).trans h

theorem Faithful.clear {p : Status} (h : p.Faithful) (flag : Flag) : (p.clear flag).Faithful := by
  by_cases hflag : flag = .unused
  · rwa [Status.clear, if_pos hflag]
  · exact (p.latch_clear_of_ne (Ne.symm hflag)).trans h

theorem Faithful.assign {p : Status} (h : p.Faithful) (flag : Flag) (value : Bool) :
    (p.assign flag value).Faithful := by
  cases value with
  | true => exact h.set flag
  | false => exact h.clear flag

/-- The byte that is stored is then the one that is read. -/
theorem Faithful.bits {p : Status} (h : p.Faithful) : p.bits = p.stored := by
  obtain ⟨⟨bits⟩⟩ := p
  revert h
  show (⟨bits⟩ : UInt8) &&& Flag.unused.mask = Flag.unused.mask → _
  revert bits
  decide +kernel

/-- The unused bit is stored as one and Break as zero. -/
def Live (p : Status) : Prop :=
  p.stored &&& Flag.unused.mask = Flag.unused.mask ∧ p.stored &&& Flag.brk.mask = 0

instance (p : Status) : Decidable p.Live := inferInstanceAs (Decidable (_ ∧ _))

theorem live_powerOn : powerOn.Live := by decide

theorem Live.faithful {p : Status} (h : p.Live) : p.Faithful := h.1

/-- Whatever byte lay on the stack. -/
theorem live_ofStack (byte : UInt8) : (ofStack byte).Live := by
  obtain ⟨bits⟩ := byte
  revert bits
  decide +kernel

theorem Live.set {p : Status} (h : p.Live) {flag : Flag} (hflag : flag ≠ .brk) :
    (p.set flag).Live :=
  ⟨h.faithful.set flag, (p.latch_set_of_ne (Ne.symm hflag)).trans h.2⟩

theorem Live.clear {p : Status} (h : p.Live) (flag : Flag) : (p.clear flag).Live := by
  refine ⟨h.faithful.clear flag, ?_⟩
  by_cases hflag : flag = .brk
  · rw [hflag]
    exact p.latch_clear (by decide)
  · exact (p.latch_clear_of_ne (Ne.symm hflag)).trans h.2

theorem Live.assign {p : Status} (h : p.Live) {flag : Flag} (hflag : flag ≠ .brk) (value : Bool) :
    (p.assign flag value).Live := by
  cases value with
  | true => exact h.set hflag
  | false => exact h.clear flag

/-- A live register survives the way over the stack. -/
theorem ofStack_toStack {p : Status} (h : p.Live) (software : Bool) :
    ofStack (p.toStack software) = p := by
  obtain ⟨⟨bits⟩⟩ := p
  cases software <;> revert bits <;> decide +kernel

end Status

/-! ## Results -/

/-- Whether a flag describes a result of the arithmetic unit. -/
def Flag.describesResult : Flag → Bool
  | .carry | .zero | .overflow | .negative => true
  | .interruptDisable | .decimal | .brk | .unused => false

/-- What holds of the register whatever the results are: the flags that describe them do not bear
upon it. -/
def Status.Unaffected (P : Status → Prop) : Prop :=
  ∀ (p : Status) (flag : Flag) (value : Bool), flag.describesResult = true → P p →
    P (p.assign flag value)

theorem Status.unaffected_live : Unaffected Live := by
  intro p flag value hflag h
  refine h.assign ?_ value
  rintro rfl
  cases hflag

theorem Status.unaffected_get {other : Flag} (hother : other.describesResult = false)
    (state : Bool) : Unaffected fun p => p.get other = state := by
  intro p flag value hflag h
  have hne : other ≠ flag := by
    rintro rfl
    rw [hother] at hflag
    cases hflag
  rwa [p.get_assign_of_ne hne value]

namespace Status.Unaffected

variable {P : Status → Prop} (hP : Unaffected P) {p : Status} (h : P p)
include hP h

theorem updateZeroNegative (value : UInt8) : P (p.updateZeroNegative value) :=
  hP _ .negative _ rfl (hP _ .zero _ rfl h)

theorem addWithCarry (a m : UInt8) : P (Alu.addWithCarry a m p).2 :=
  hP.updateZeroNegative (hP _ .overflow _ rfl (hP _ .carry _ rfl h)) _

theorem compare (register m : UInt8) : P (Alu.compare register m p) :=
  hP _ .carry _ rfl (hP.updateZeroNegative h _)

theorem testBits (a m : UInt8) : P (Alu.testBits a m p) :=
  hP _ .negative _ rfl (hP _ .overflow _ rfl (hP _ .zero _ rfl h))

theorem combination (op : Combination) (a m : UInt8) : P (op.apply a m p).2 := by
  cases op with
  | add => exact hP.addWithCarry h a m
  | subtract => exact hP.addWithCarry h a (~~~m)
  | and | or | xor => exact hP.updateZeroNegative h _

theorem modification (op : Modification) (m : UInt8) : P (op.apply m p).2 := by
  cases op with
  | increment | decrement => exact hP.updateZeroNegative h _
  | shiftLeft | shiftRight | rotateLeft | rotateRight =>
    exact hP.updateZeroNegative (hP _ .carry _ rfl h) _

end Status.Unaffected

end Nes6502
