import Nes6502.Proofs.Flags

/-!
# The status register as a map of flags

A register is a map from flags to truth values, and what is done to it are assignments to the flags
that are named. A flag reads as the last of them has left it. How often a flag is named in a list,
and in which order, makes no difference.

The unused flag is the exception. It reads as one whatever is assigned to it; and since registers
are compared by the byte that is stored, they are equal if they read the same only because the
unused bit is stored as one from the beginning and by no assignment cleared.

## What is proved

* `Status.Faithful.eq_of_get`: faithful registers that read the same are the same.
* `Status.get_assignAll`: a flag reads as assigned if it is listed, else as before.
* `Status.Update.get_apply`, `Status.Update.faithful_apply`: what one update does.
* `Status.get_updateAll`, `Status.Faithful.updateAll`: what any number of them does.
* `flags_independent`: the register is such a map, wherever it comes from.
-/

set_option autoImplicit false

namespace Nes6502

namespace Status

/-! ## Registers that read the same -/

/-- The byte that is read is the union of the masks of the flags that are set. -/
theorem bits_eq (p : Status) :
    p.bits = (Flag.all.filter p.get).foldl (fun bits flag => bits ||| flag.mask) 0 := by
  obtain ⟨⟨bits⟩⟩ := p
  revert bits
  decide +kernel

theorem bits_eq_of_get {p q : Status} (h : ∀ flag, p.get flag = q.get flag) : p.bits = q.bits := by
  rw [bits_eq, bits_eq, funext h]

theorem Faithful.eq_iff {p q : Status} (hp : p.Faithful) (hq : q.Faithful) :
    p = q ↔ p.bits = q.bits := by
  rw [hp.bits, hq.bits]
  exact ⟨congrArg stored, congrArg mk⟩

theorem Faithful.eq_of_get {p q : Status} (hp : p.Faithful) (hq : q.Faithful)
    (h : ∀ flag, p.get flag = q.get flag) : p = q :=
  (hp.eq_iff hq).mpr (bits_eq_of_get h)

theorem Faithful.testBit {p : Status} (h : p.Faithful) : p.stored.toNat.testBit 5 = true := by
  obtain ⟨⟨bits⟩⟩ := p
  revert h
  show (⟨bits⟩ : UInt8) &&& Flag.unused.mask = Flag.unused.mask → _
  revert bits
  decide +kernel

/-! ## Lists of flags -/

/-- Gives several flags the same value. -/
def assignAll (p : Status) (flags : List Flag) (value : Bool) : Status :=
  flags.foldl (fun p flag => p.assign flag value) p

theorem setAll_eq (p : Status) (flags : List Flag) : p.setAll flags = p.assignAll flags true := rfl

theorem clearAll_eq (p : Status) (flags : List Flag) :
    p.clearAll flags = p.assignAll flags false := rfl

theorem latch_assignAll_of_notMem (p : Status) {flags : List Flag} {flag : Flag} (h : flag ∉ flags)
    (value : Bool) : (p.assignAll flags value).latch flag = p.latch flag := by
  induction flags generalizing p with
  | nil => rfl
  | cons first rest ih =>
    obtain ⟨hfirst, hrest⟩ := List.ne_and_not_mem_of_not_mem_cons h
    exact (ih (p.assign first value) hrest).trans (p.latch_assign_of_ne hfirst value)

theorem get_assignAll (p : Status) (flags : List Flag) {flag : Flag} (h : flag ≠ .unused)
    (value : Bool) :
    (p.assignAll flags value).get flag = if flag ∈ flags then value else p.get flag := by
  induction flags generalizing p with
  | nil => rfl
  | cons first rest ih =>
    refine (ih (p.assign first value)).trans ?_
    by_cases hfirst : flag = first
    · rw [← hfirst, p.get_assign h, ite_self, if_pos List.mem_cons_self]
    · simp only [p.get_assign_of_ne hfirst, List.mem_cons, hfirst, false_or]

theorem Faithful.assignAll {p : Status} (h : p.Faithful) (flags : List Flag) (value : Bool) :
    (p.assignAll flags value).Faithful := by
  induction flags generalizing p with
  | nil => exact h
  | cons first rest ih => exact ih (h.assign first value)

/-- Only which flags are listed makes a difference. -/
theorem Faithful.assignAll_congr {p : Status} (h : p.Faithful) {flags others : List Flag}
    (hsame : ∀ flag, flag ∈ flags ↔ flag ∈ others) (value : Bool) :
    p.assignAll flags value = p.assignAll others value := by
  -- the unused flag may be listed, but it reads as one on both sides
  refine (h.assignAll flags value).eq_of_get (h.assignAll others value) fun flag => ?_
  by_cases hflag : flag = .unused
  · rw [hflag, get_unused, get_unused]
  · simp only [p.get_assignAll _ hflag, hsame flag]

/-! ## Updates -/

/-- Where a register comes from. -/
inductive Origin where
  | powerOn
  | ofBits (bits : UInt8)
  /-- A byte was pulled from the stack. -/
  | ofStack (byte : UInt8)

def Origin.status : Origin → Status
  | .powerOn => Status.powerOn
  | .ofBits bits => Status.ofBits bits
  | .ofStack byte => Status.ofStack byte

theorem Origin.faithful (origin : Origin) : origin.status.Faithful := by
  cases origin with
  | powerOn => exact live_powerOn.faithful
  | ofBits bits => exact faithful_ofBits bits
  | ofStack byte => exact (live_ofStack byte).faithful

/-- What can be done to a register. -/
inductive Update where
  | set (flag : Flag)
  | clear (flag : Flag)
  | assign (flag : Flag) (value : Bool)
  | setAll (flags : List Flag)
  | clearAll (flags : List Flag)
  | zeroNegative (result : UInt8)

namespace Update

def apply (p : Status) : Update → Status
  | .set flag => p.set flag
  | .clear flag => p.clear flag
  | .assign flag value => p.assign flag value
  | .setAll flags => p.setAll flags
  | .clearAll flags => p.clearAll flags
  | .zeroNegative result => p.updateZeroNegative result

/-- The value that an update assigns to a flag, if it names the flag. -/
def assigned? (flag : Flag) : Update → Option Bool
  | .set other => if flag = other then some true else none
  | .clear other => if flag = other then some false else none
  | .assign other value => if flag = other then some value else none
  | .setAll flags => if flag ∈ flags then some true else none
  | .clearAll flags => if flag ∈ flags then some false else none
  | .zeroNegative result =>
    match flag with
    | .zero => some (result == 0)
    | .negative => some (result.toNat.testBit 7)
    | _ => none

variable {p : Status} {flag : Flag}

/-- A flag that an update does not name keeps what is stored for it. -/
theorem latch_apply_of_not_named {update : Update} (h : update.assigned? flag = none) :
    (update.apply p).latch flag = p.latch flag := by
  cases update with
  | set other => exact p.latch_set_of_ne (by simpa [assigned?] using h)
  | clear other => exact p.latch_clear_of_ne (by simpa [assigned?] using h)
  | assign other value => exact p.latch_assign_of_ne (by simpa [assigned?] using h) value
  | setAll flags =>
    rw [apply, setAll_eq]
    exact p.latch_assignAll_of_notMem (by simpa [assigned?] using h) true
  | clearAll flags =>
    rw [apply, clearAll_eq]
    exact p.latch_assignAll_of_notMem (by simpa [assigned?] using h) false
  | zeroNegative result =>
    have hzero : flag ≠ .zero := by
      rintro rfl
      cases h
    have hnegative : flag ≠ .negative := by
      rintro rfl
      cases h
    exact (latch_assign_of_ne _ hnegative _).trans (p.latch_assign_of_ne hzero _)

/-- A flag that an update names reads as assigned. -/
theorem get_apply_of_named (hflag : flag ≠ .unused) {update : Update} {value : Bool}
    (h : update.assigned? flag = some value) : (update.apply p).get flag = value := by
  cases update with
  | set other =>
    obtain ⟨rfl, rfl⟩ : flag = other ∧ true = value := by simpa [assigned?] using h
    exact p.get_set
  | clear other =>
    obtain ⟨rfl, rfl⟩ : flag = other ∧ false = value := by simpa [assigned?] using h
    exact p.get_clear hflag
  | assign other given =>
    obtain ⟨rfl, rfl⟩ : flag = other ∧ given = value := by simpa [assigned?] using h
    exact p.get_assign hflag given
  | setAll flags =>
    obtain ⟨hmem, rfl⟩ : flag ∈ flags ∧ true = value := by simpa [assigned?] using h
    rw [apply, setAll_eq, p.get_assignAll flags hflag, if_pos hmem]
  | clearAll flags =>
    obtain ⟨hmem, rfl⟩ : flag ∈ flags ∧ false = value := by simpa [assigned?] using h
    rw [apply, clearAll_eq, p.get_assignAll flags hflag, if_pos hmem]
  | zeroNegative result =>
    cases flag with
    | zero =>
      cases h
      exact (get_assign_of_ne _ (by decide) _).trans (p.get_assign hflag _)
    | negative =>
      cases h
      exact (get_assign _ hflag _).trans (and_bit7 result)
    | _ => cases h

theorem get_apply (hflag : flag ≠ .unused) (update : Update) :
    (update.apply p).get flag = (update.assigned? flag).getD (p.get flag) := by
  cases h : update.assigned? flag with
  | none => rw [get_eq, latch_apply_of_not_named h, ← get_eq, Option.getD_none]
  | some value => exact get_apply_of_named hflag h

theorem faithful_apply (h : p.Faithful) (update : Update) : (update.apply p).Faithful := by
  cases update with
  | set flag => exact h.set flag
  | clear flag => exact h.clear flag
  | assign flag value => exact h.assign flag value
  | setAll flags => exact h.assignAll flags true
  | clearAll flags => exact h.assignAll flags false
  | zeroNegative result => exact (h.assign .zero _).assign .negative _

end Update

/-! ## Any number of updates -/

/-- Carries updates out, the first one first. -/
def updateAll (p : Status) (updates : List Update) : Status := updates.foldl Update.apply p

/-- The value that was assigned to a flag last, if an update names the flag. -/
def lastAssigned? (flag : Flag) (updates : List Update) : Option Bool :=
  (updates.filterMap (·.assigned? flag)).getLast?

theorem lastAssigned?_cons (flag : Flag) (update : Update) (rest : List Update) :
    lastAssigned? flag (update :: rest) =
      (lastAssigned? flag rest).or (update.assigned? flag) := by
  cases h : update.assigned? flag with
  | none => rw [lastAssigned?, List.filterMap_cons_none h, Option.or_none, lastAssigned?]
  | some value =>
    rw [lastAssigned?, List.filterMap_cons_some h, List.getLast?_cons, lastAssigned?]
    cases (rest.filterMap (·.assigned? flag)).getLast? <;> rfl

/-- A flag reads as it was assigned last, or as at first. -/
theorem get_updateAll (p : Status) {flag : Flag} (hflag : flag ≠ .unused) (updates : List Update) :
    (p.updateAll updates).get flag = (lastAssigned? flag updates).getD (p.get flag) := by
  induction updates generalizing p with
  | nil => rfl
  | cons update rest ih =>
    rw [lastAssigned?_cons, Option.getD_or, ← Update.get_apply hflag update]
    exact ih (update.apply p)

theorem Faithful.updateAll {p : Status} (h : p.Faithful) (updates : List Update) :
    (p.updateAll updates).Faithful := by
  induction updates generalizing p with
  | nil => exact h
  | cons update rest ih => exact ih (Update.faithful_apply h update)

end Status

open Status in
/-- The status register is a map of independent flags. Start from a register at power-on, of given
bits or of a byte from the stack, and carry out any updates. Then each flag but the unused one reads
as the value that was assigned to it last by an update that names it, or as at first if none does.
An update alters no flag that it does not name, neither what is read nor what is stored. The unused
flag reads as one, and is stored as one. Of a list of flags that are set or cleared it only matters
which flags are in it. Two registers that have come about like this are equal if and only if they
read the same as bytes. -/
theorem flags_independent (origin : Origin) (updates : List Update) :
    let p := origin.status.updateAll updates
    (∀ flag, flag ≠ .unused →
        p.get flag = (lastAssigned? flag updates).getD (origin.status.get flag)) ∧
      (∀ (update : Update) (flag : Flag), update.assigned? flag = none →
        (update.apply p).get flag = p.get flag ∧
          (update.apply p).stored &&& flag.mask = p.stored &&& flag.mask) ∧
      (p.get .unused = true ∧ p.bits.toNat.testBit 5 = true ∧ p.stored.toNat.testBit 5 = true) ∧
      (∀ flags others : List Flag, (∀ flag, flag ∈ flags ↔ flag ∈ others) →
        p.setAll flags = p.setAll others ∧ p.clearAll flags = p.clearAll others) ∧
      ∀ (other : Origin) (others : List Update),
        p = other.status.updateAll others ↔ p.bits = (other.status.updateAll others).bits := by
  intro p
  have hfaithful : p.Faithful := origin.faithful.updateAll updates
  refine ⟨fun flag hflag => origin.status.get_updateAll hflag updates, fun update flag h => ?_,
    ⟨p.get_unused, ?_, hfaithful.testBit⟩, fun flags others hsame => ?_, fun other others => ?_⟩
  · have hlatch : (update.apply p).latch flag = p.latch flag := Update.latch_apply_of_not_named h
    exact ⟨by rw [get_eq, hlatch, ← get_eq], hlatch⟩
  · rw [hfaithful.bits]
    exact hfaithful.testBit
  · exact ⟨hfaithful.assignAll_congr hsame true, hfaithful.assignAll_congr hsame false⟩
  · exact hfaithful.eq_iff (other.faithful.updateAll others)

open Status in
/-- Carry is listed twice, cleared, set and cleared again, Overflow is never named, and the unused
flag is cleared in vain. -/
theorem flags_independent_repeated :
    let updates : List Update :=
      [.clearAll [.carry, .unused, .carry], .zeroNegative 0x80, .assign .carry true, .clear .carry]
    let p := (ofBits 0x43).updateAll updates
    p.get .carry = false ∧ p.get .overflow = true ∧ p.get .negative = true ∧
      p.get .unused = true ∧ (p.set .brk).get .carry = p.get .carry ∧
      p.setAll [.carry, .zero, .carry] = p.setAll [.zero, .carry] := by
  intro updates p
  obtain ⟨hlast, hkept, ⟨hunused, -⟩, hlists, -⟩ := flags_independent (.ofBits 0x43) updates
  refine ⟨(hlast .carry (by decide)).trans rfl, (hlast .overflow (by decide)).trans rfl,
    (hlast .negative (by decide)).trans rfl, hunused, (hkept (.set .brk) .carry rfl).1, ?_⟩
  refine (hlists _ _ fun flag => ?_).1
  cases flag <;> decide

end Nes6502
