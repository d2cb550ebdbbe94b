import Nes6502.Proofs.MultiByte

/-!
# Multi-byte shifts

A shift moves every bit of a byte one place up or down. The bit that falls out goes to the carry,
and a rotation takes the carry in at the other end. So the carry links the bytes of a longer number:
from the low end for a shift to the left, which doubles the number, and from the high end for a
shift to the right, which halves it. What is lost to one of the two is in the carry, and the other
one brings it back.

## What is proved

* `Modification.unsigned_chain_left`, `Modification.unsigned_chain_right`: the values, for any
  number of bytes.
* `Cpu.Ahead.run`: a program of shifts that lies apart from its operands is executed as written.
* `multibyte_shifts`: such a program doubles or halves the number in memory, and changes nothing
  else; doubled and halved, or halved and doubled, everything is as it was.
-/

set_option autoImplicit false

namespace Nes6502

/-! ## One place -/

namespace Modification

/-- The bit that is shifted in: a rotation takes it from the carry. -/
def shiftedIn (op : Modification) (p : Status) : Nat :=
  match op with
  | .rotateLeft | .rotateRight => (p.get .carry).toNat
  | .shiftLeft | .shiftRight | .increment | .decrement => 0

/-- The instruction that carries out the operation on its operand. -/
def mnemonic : Modification → Mnemonic
  | .shiftLeft => .asl
  | .shiftRight => .lsr
  | .rotateLeft => .rol
  | .rotateRight => .ror
  | .increment => .inc
  | .decrement => .dec

theorem action_mnemonic (op : Modification) : op.mnemonic.action = .modify op := by
  cases op <;> rfl

/-- The flags that an operation can change. -/
theorem mem_changed {op : Modification} {flag : Flag} (h : flag ∈ (Action.modify op).changed) :
    flag ∈ [Flag.carry, .zero, .negative] := by
  revert h
  cases op <;> cases flag <;> decide

theorem carry_apply {op : Modification} {m : UInt8} {out : Bool} (h : op.shiftedOut m = some out)
    (p : Status) : (op.apply m p).2.get .carry = out := by
  unfold apply
  rw [h]
  exact (Status.get_updateZeroNegative _ _ (by decide)).trans (p.get_assign (by decide) out)

theorem toNat_rotateLeft (m : UInt8) (carry : Bool) :
    (m <<< 1 ||| (if carry then 1 else 0 : UInt8)).toNat + 256 * (m &&& 0x80 != 0).toNat =
      2 * m.toNat + carry.toNat := by
  obtain ⟨bits⟩ := m
  cases carry <;> revert bits <;> decide +kernel

theorem toNat_rotateRight (m : UInt8) (carry : Bool) :
    2 * (m >>> 1 ||| (if carry then 1 else 0 : UInt8) <<< 7).toNat + (m &&& 0x01 != 0).toNat =
      m.toNat + 256 * carry.toNat := by
  obtain ⟨bits⟩ := m
  cases carry <;> revert bits <;> decide +kernel

/-- To the left a byte is doubled. -/
theorem toNat_apply_left {op : Modification} (hop : op ∈ [shiftLeft, rotateLeft]) (m : UInt8)
    (p : Status) :
    (op.apply m p).1.toNat + 256 * ((op.apply m p).2.get .carry).toNat =
      2 * m.toNat + op.shiftedIn p := by
  simp only [List.mem_cons, List.not_mem_nil, or_false] at hop
  rcases hop with rfl | rfl
  · rw [carry_apply rfl]
    have h := toNat_rotateLeft m false
    simp only [Bool.false_eq_true, if_false, UInt8.or_zero] at h
    exact h
  · rw [carry_apply rfl]
    exact toNat_rotateLeft m (p.get .carry)

/-- To the right a byte is halved. -/
theorem toNat_apply_right {op : Modification} (hop : op ∈ [shiftRight, rotateRight]) (m : UInt8)
    (p : Status) :
    2 * (op.apply m p).1.toNat + ((op.apply m p).2.get .carry).toNat =
      m.toNat + 256 * op.shiftedIn p := by
  simp only [List.mem_cons, List.not_mem_nil, or_false] at hop
  rcases hop with rfl | rfl
  · rw [carry_apply rfl]
    have h := toNat_rotateRight m false
    simp only [Bool.false_eq_true, if_false, UInt8.zero_shiftLeft, UInt8.or_zero] at h
    exact h
  · rw [carry_apply rfl]
    exact toNat_rotateRight m (p.get .carry)

/-! ## All places -/

variable {α : Type}

/-- One operation for the first item, and another one for those that follow. -/
def sequence (first next : Modification) : List α → List (Modification × α)
  | [] => []
  | item :: rest => (first, item) :: rest.map (next, ·)

theorem map_sequence {γ : Type} (first next : Modification) (f : α → γ) (items : List α) :
    (sequence first next items).map (fun step => (step.1, f step.2)) =
      sequence first next (items.map f) := by
  cases items with
  | nil => rfl
  | cons item rest => simp [sequence]

theorem map_snd_sequence (first next : Modification) (items : List α) :
    (sequence first next items).map Prod.snd = items := by
  cases items with
  | nil => rfl
  | cons item rest => simp [sequence, Function.comp_def]

theorem length_sequence (first next : Modification) (items : List α) :
    (sequence first next items).length = items.length := by
  rw [← List.length_map, map_snd_sequence]

/-- Operations on one byte after the other. Each finds the flags that the one before it has left. -/
def chain : List (Modification × UInt8) → Status → List UInt8 × Status
  | [], p => ([], p)
  | (op, m) :: rest, p =>
    let (values, last) := chain rest (op.apply m p).2
    ((op.apply m p).1 :: values, last)

theorem length_chain (steps : List (Modification × UInt8)) (p : Status) :
    (chain steps p).1.length = steps.length := by
  induction steps generalizing p with
  | nil => rfl
  | cons step rest ih => exact congrArg (· + 1) (ih _)

/-- A number is doubled from the low end, once the places above the first one are. -/
theorem unsigned_chain_cons_left {op : Modification} (hop : op ∈ [shiftLeft, rotateLeft])
    (low : UInt8) {rest : List UInt8}
    (hrest : ∀ p, unsigned (chain (rest.map (rotateLeft, ·)) p).1 +
        256 ^ rest.length * ((chain (rest.map (rotateLeft, ·)) p).2.get .carry).toNat =
      2 * unsigned rest + (p.get .carry).toNat) (p : Status) :
    let done := chain ((op, low) :: rest.map (rotateLeft, ·)) p
    unsigned done.1 + 256 ^ (rest.length + 1) * (done.2.get .carry).toNat =
      2 * unsigned (low :: rest) + op.shiftedIn p := by
  -- the carry that a place leaves is shifted into the place above it
  have hlow := toNat_apply_left hop low p
  have hplaces := hrest (op.apply low p).2
  simp only [chain, unsigned_cons, Nat.pow_succ', Nat.mul_assoc]
  omega

theorem unsigned_chain_rotateLeft (bytes : List UInt8) (p : Status) :
    unsigned (chain (bytes.map (rotateLeft, ·)) p).1 +
        256 ^ bytes.length * ((chain (bytes.map (rotateLeft, ·)) p).2.get .carry).toNat =
      2 * unsigned bytes + (p.get .carry).toNat := by
  induction bytes generalizing p with
  | nil => simp [chain, unsigned]
  | cons low rest ih =>
    have hleft : rotateLeft ∈ [shiftLeft, rotateLeft] := by decide
    exact unsigned_chain_cons_left hleft low ih p

/-- To the left, from the low end: a number is doubled. -/
theorem unsigned_chain_left {first : Modification} (hfirst : first ∈ [shiftLeft, rotateLeft])
    {bytes : List UInt8} (hne : bytes ≠ []) (p : Status) :
    let done := chain (sequence first rotateLeft bytes) p
    unsigned done.1 + 256 ^ bytes.length * (done.2.get .carry).toNat =
      2 * unsigned bytes + first.shiftedIn p := by
  obtain ⟨low, rest, rfl⟩ := List.exists_cons_of_ne_nil hne
  exact unsigned_chain_cons_left hfirst low (unsigned_chain_rotateLeft rest) p

/-- A number is halved from the high end, once the places below the first one are. -/
theorem unsigned_chain_cons_right {op : Modification} (hop : op ∈ [shiftRight, rotateRight])
    (high : UInt8) {rest : List UInt8}
    (hrest : ∀ p, 2 * unsigned (chain (rest.map (rotateRight, ·)) p).1.reverse +
        ((chain (rest.map (rotateRight, ·)) p).2.get .carry).toNat =
      unsigned rest.reverse + 256 ^ rest.length * (p.get .carry).toNat) (p : Status) :
    let done := chain ((op, high) :: rest.map (rotateRight, ·)) p
    2 * unsigned done.1.reverse + (done.2.get .carry).toNat =
      unsigned (high :: rest).reverse + 256 ^ (rest.length + 1) * op.shiftedIn p := by
  have hhigh := toNat_apply_right hop high p
  have hplaces := hrest (op.apply high p).2
  -- the carry that the highest place leaves is worth the range of the places below it
  have hscaled := congrArg (256 ^ rest.length * ·) hhigh
  have hsingle (byte : UInt8) : unsigned [byte] = byte.toNat := by rw [unsigned_cons]; rfl
  simp only [chain, List.reverse_cons, unsigned_append, hsingle, List.length_reverse,
    length_chain, List.length_map, Nat.pow_succ', Nat.mul_add, Nat.mul_left_comm _ 2,
    Nat.mul_left_comm _ 256, Nat.mul_assoc] at hscaled ⊢
  omega

theorem unsigned_chain_rotateRight (bytes : List UInt8) (p : Status) :
    2 * unsigned (chain (bytes.map (rotateRight, ·)) p).1.reverse +
        ((chain (bytes.map (rotateRight, ·)) p).2.get .carry).toNat =
      unsigned bytes.reverse + 256 ^ bytes.length * (p.get .carry).toNat := by
  induction bytes generalizing p with
  | nil => simp [chain, unsigned]
  | cons high rest ih =>
    have hright : rotateRight ∈ [shiftRight, rotateRight] := by decide
    exact unsigned_chain_cons_right hright high ih p

/-- To the right, from the high end: a number is halved. -/
theorem unsigned_chain_right {first : Modification} (hfirst : first ∈ [shiftRight, rotateRight])
    {bytes : List UInt8} (hne : bytes ≠ []) (p : Status) :
    let done := chain (sequence first rotateRight bytes) p
    2 * unsigned done.1.reverse + (done.2.get .carry).toNat =
      unsigned bytes.reverse + 256 ^ bytes.length * first.shiftedIn p := by
  obtain ⟨high, rest, rfl⟩ := List.exists_cons_of_ne_nil hne
  exact unsigned_chain_cons_right hfirst high (unsigned_chain_rotateRight rest) p

end Modification

/-! ## Steps -/

theorem mode_of_modification {opcode : UInt8} {i : Instruction}
    (hdecode : decode opcode = some i) {op : Modification} (h : i.mnemonic = op.mnemonic) :
    i.mode ∈ [AddressingMode.accumulator, .zeroPage, .zeroPageX, .absolute, .absoluteX] := by
  refine of_decode (P := fun i => i.mnemonic ∈ [Mnemonic.asl, .lsr, .rol, .ror, .inc, .dec] →
    i.mode ∈ [AddressingMode.accumulator, .zeroPage, .zeroPageX, .absolute, .absoluteX])
    (by decide +kernel) hdecode ?_
  rw [h]
  cases op <;> decide

namespace Cpu

/-- The next step is not refused and takes no interrupt. -/
structure Unhindered (c : Cpu Ram) : Prop where
  accepted : c.refuses = false
  undisturbed : c.dueInterrupt = none

instance (c : Cpu Ram) : Decidable c.Unhindered :=
  decidable_of_iff (c.refuses = false ∧ c.dueInterrupt = none)
    ⟨fun h => ⟨h.1, h.2⟩, fun h => ⟨h.accepted, h.undisturbed⟩⟩

/-- Nothing has changed from `c` to `d` but the bytes in these places, the flags that a shift sets,
the program counter and the cycles. -/
structure KeptApart (places : List Operand) (c d : Cpu Ram) : Prop where
  bytes : ∀ place ∉ places, d.byteIn place = c.byteIn place
  x : d.regs.x = c.regs.x
  y : d.regs.y = c.regs.y
  sp : d.regs.sp = c.regs.sp
  flags : ∀ flag ∉ [Flag.carry, .zero, .negative],
    d.regs.status.get flag = c.regs.status.get flag

theorem KeptApart.refl (places : List Operand) (c : Cpu Ram) : KeptApart places c c :=
  ⟨fun _ _ => rfl, rfl, rfl, rfl, fun _ _ => rfl⟩

theorem KeptApart.trans {places : List Operand} {c d e : Cpu Ram} (h : KeptApart places c d)
    (h' : KeptApart places d e) : KeptApart places c e :=
  ⟨fun place hplace => (h'.bytes place hplace).trans (h.bytes place hplace), h'.x.trans h.x,
    h'.y.trans h.y, h'.sp.trans h.sp,
    fun flag hflag => (h'.flags flag hflag).trans (h.flags flag hflag)⟩

theorem KeptApart.mono {places more : List Operand} {c d : Cpu Ram} (h : KeptApart places c d)
    (hsub : places ⊆ more) : KeptApart more c d :=
  { h with bytes := fun place hplace => h.bytes place fun hmem => hplace (hsub hmem) }

/-- The instruction at the program counter applies the operation to the operand. It lies in none of
the places. -/
structure Applies (places : List Operand) (c : Cpu Ram) (op : Modification) (operand : Operand)
    (i : Instruction) : Prop where
  decoded : decode (c.bus.read c.regs.pc) = some i
  mnemonic : i.mnemonic = op.mnemonic
  operand : c.operand i = operand
  apart : ∀ k < i.length, .address (c.regs.pc + UInt16.ofNat k) ∉ places

/-- A program that applies operations to operands lies ahead. It keeps out of the places. -/
def Ahead (places : List Operand) : List (Modification × Operand) → Cpu Ram → Prop
  | [], _ => True
  | (op, operand) :: rest, c => ∃ i, c.Applies places op operand i ∧
      Ahead places rest (c.setPc (c.regs.pc + UInt16.ofNat i.length))

instance (places : List Operand) (c : Cpu Ram) (op : Modification) (operand : Operand)
    (i : Instruction) : Decidable (c.Applies places op operand i) :=
  decidable_of_iff
    (decode (c.bus.read c.regs.pc) = some i ∧ i.mnemonic = op.mnemonic ∧ c.operand i = operand ∧
      ∀ k < i.length, .address (c.regs.pc + UInt16.ofNat k) ∉ places)
    ⟨fun ⟨hdecoded, hmnemonic, hoperand, hapart⟩ => ⟨hdecoded, hmnemonic, hoperand, hapart⟩,
      fun h => ⟨h.decoded, h.mnemonic, h.operand, h.apart⟩⟩

instance Ahead.decidable (places : List Operand) :
    (program : List (Modification × Operand)) → (c : Cpu Ram) → Decidable (Ahead places program c)
  | [], _ => .isTrue trivial
  | (op, operand) :: rest, c =>
    match hdecode : decode (c.bus.read c.regs.pc) with
    | none => .isFalse fun ⟨_, happlies, _⟩ =>
        nomatch hdecode.symm.trans happlies.decoded
    | some i =>
      have := Ahead.decidable places rest (c.setPc (c.regs.pc + UInt16.ofNat i.length))
      decidable_of_iff (c.Applies places op operand i ∧
          Ahead places rest (c.setPc (c.regs.pc + UInt16.ofNat i.length)))
        ⟨fun h => ⟨i, h⟩, fun ⟨j, happlies, hrest⟩ => by
          obtain rfl := Option.some.inj (hdecode.symm.trans happlies.decoded)
          exact ⟨happlies, hrest⟩⟩

section Step

variable {places : List Operand} {c : Cpu Ram} {op : Modification} {operand : Operand}
  {i : Instruction}

theorem Applies.ne_absent (h : c.Applies places op operand i) : operand ≠ .absent := by
  rintro rfl
  have himplied := (operandOf_eq_absent_iff _ _).mp h.operand
  have hmode := mode_of_modification h.decoded h.mnemonic
  rw [himplied] at hmode
  revert hmode
  decide

/-- A step does what its operation does. -/
theorem Applies.step (tracing : Bool) (h : c.Applies places op operand i) (hgoes : c.Unhindered) :
    let d := (c.step tracing).cpu
    let done := op.apply (c.byteIn operand) c.regs.status
    (c.step tracing).result = .ok () ∧ d.byteIn operand = done.1 ∧ d.regs.status = done.2 ∧
      KeptApart [operand] c d ∧ d.regs.pc = c.regs.pc + UInt16.ofNat i.length := by
  intro d done
  have hexecutes : c.Executes i := ⟨hgoes.accepted, hgoes.undisturbed, h.decoded⟩
  obtain ⟨hresult, hsame, hpc⟩ := hexecutes.step tracing
  have hperformed : c.performed i =
      .sequential ((c.atOperands.setStatus done.2).writeOperand operand done.1) := by
    rw [performed, h.mnemonic, op.action_mnemonic, h.operand, perform, readOperand_ram]
    rfl
  rw [hperformed] at hsame hpc
  refine ⟨hresult, ?_, ?_, ⟨fun place hplace => ?_, ?_, ?_, ?_, fun flag hflag => ?_⟩, ?_⟩
  · rw [hsame.byteIn]
    exact byteIn_writeOperand _ h.ne_absent _
  · rw [hsame.status]
    exact status_writeOperand _ operand _
  · rw [hsame.byteIn]
    refine (byteIn_writeOperand_of_ne _ (fun heq => hplace ?_) _).trans ?_
    · rw [heq, List.mem_singleton]
    · cases place <;> rfl
  · rw [hsame.x]
    cases operand <;> rfl
  · rw [hsame.y]
    cases operand <;> rfl
  · rw [hsame.sp]
    cases operand <;> rfl
  · rw [hsame.status]
    refine (congrArg (·.get flag) (status_writeOperand _ operand _)).trans ?_
    exact op.get_apply _ _ fun hmem => hflag (Modification.mem_changed hmem)
  · have hnext : ((c.atOperands.setStatus done.2).writeOperand operand done.1).regs.pc =
        c.regs.pc + UInt16.ofNat 1 := by
      cases operand <;> rfl
    refine hpc.trans ?_
    show _ + UInt16.ofNat i.mode.operandBytes = c.regs.pc + UInt16.ofNat (1 + i.mode.operandBytes)
    rw [UInt16.ofNat_add, ← UInt16.add_assoc, ← hnext]
    rfl

end Step

/-- Where the mask is left alone, the next step is as unhindered as this one. -/
theorem Unhindered.next {tracing : Bool} {c : Cpu Ram} (h : c.Unhindered)
    (hok : (c.step tracing).result = .ok ())
    (hmask : (c.step tracing).cpu.regs.status.get .interruptDisable =
      c.regs.status.get .interruptDisable) : (c.step tracing).cpu.Unhindered := by
  have hfree : c.haltRequested = false := (Bool.or_eq_false_iff.mp h.accepted).1
  have hlatch : (c.step tracing).cpu.nmiLatched = false := by
    rw [(step_eq tracing h.accepted).2]
    rfl
  have hline : (c.step tracing).cpu.irqLine = c.irqLine := by
    rw [(step_eq tracing h.accepted).2]
    rfl
  have hunheard : (c.irqLine && !c.regs.status.get .interruptDisable) = false := by
    have hidle := h.undisturbed
    cases hheard : c.irqLine && !c.regs.status.get .interruptDisable with
    | false => rfl
    | true => cases hlatched : c.nmiLatched <;> simp [dueInterrupt, hheard, hlatched] at hidle
  constructor
  · simp only [refuses, haltRequested_step, hfree, state_of_step_ok hok]
    rfl
  · simp [dueInterrupt, hlatch, hline, hmask, hunheard]

section Transfer

variable {places : List Operand} {c d : Cpu Ram}

/-- The operand of a shift is found from the operand bytes and X. -/
theorem operandOf_congr {mode : AddressingMode}
    (hmode : mode ∈ [AddressingMode.accumulator, .zeroPage, .zeroPageX, .absolute, .absoluteX])
    (hpc : d.regs.pc = c.regs.pc) (hx : d.regs.x = c.regs.x)
    (hbytes : ∀ k < mode.operandBytes,
      d.bus.read (c.regs.pc + UInt16.ofNat k) = c.bus.read (c.regs.pc + UInt16.ofNat k)) :
    d.operandOf mode = c.operandOf mode := by
  have hresolve (e : Cpu Ram) : e.operandOf mode = (e.resolve mode).1.operand := by
    rw [resolve_ram]
  have hlow (h : 0 < mode.operandBytes) : d.bus.read c.regs.pc = c.bus.read c.regs.pc := by
    simpa using hbytes 0 h
  rw [hresolve, hresolve]
  simp only [List.mem_cons, List.not_mem_nil, or_false] at hmode
  rcases hmode with rfl | rfl | rfl | rfl | rfl
  · rfl
  · simp only [resolve, read_ram, hpc, hlow Nat.one_pos]
  · simp only [resolve, read_ram, hpc, hx, hlow Nat.one_pos]
  · have hhigh : d.bus.read (c.regs.pc + 1) = c.bus.read (c.regs.pc + 1) :=
      hbytes 1 Nat.one_lt_two
    simp only [resolve, operandWord_ram, hpc, hlow Nat.two_pos, hhigh]
  · have hhigh : d.bus.read (c.regs.pc + 1) = c.bus.read (c.regs.pc + 1) :=
      hbytes 1 Nat.one_lt_two
    simp only [resolve, operandWord_ram, hpc, hx, hlow Nat.two_pos, hhigh]

theorem Applies.transfer {op : Modification} {operand : Operand} {i : Instruction}
    (h : c.Applies places op operand i) (hpc : d.regs.pc = c.regs.pc)
    (hx : d.regs.x = c.regs.x) (hkept : ∀ address, .address address ∉ places →
      d.bus.read address = c.bus.read address) : d.Applies places op operand i := by
  have hbytes {k : Nat} (hk : k < i.length) := hkept _ (h.apart k hk)
  have hopcode : d.bus.read c.regs.pc = c.bus.read c.regs.pc := by
    simpa using hbytes (k := 0) (Nat.lt_add_right _ Nat.one_pos)
  refine ⟨?_, h.mnemonic, ?_, ?_⟩
  · rw [hpc, hopcode]
    exact h.decoded
  · rw [← h.operand]
    refine operandOf_congr (mode_of_modification h.decoded h.mnemonic) ?_ hx fun k hk => ?_
    · exact congrArg (· + UInt16.ofNat 1) hpc
    · have hbyte := hbytes (k := 1 + k) (Nat.add_lt_add_left hk 1)
      rwa [UInt16.ofNat_add, ← UInt16.add_assoc] at hbyte
  · rw [hpc]
    exact h.apart

theorem Ahead.transfer {program : List (Modification × Operand)} (h : Ahead places program c)
    (hpc : d.regs.pc = c.regs.pc) (hx : d.regs.x = c.regs.x)
    (hkept : ∀ address, .address address ∉ places → d.bus.read address = c.bus.read address) :
    Ahead places program d := by
  induction program generalizing c d with
  | nil => exact trivial
  | cons step rest ih =>
    obtain ⟨i, happlies, hrest⟩ := h
    refine ⟨i, happlies.transfer hpc hx hkept, ih hrest ?_ hx hkept⟩
    exact congrArg (· + UInt16.ofNat i.length) hpc

end Transfer

/-- A program that lies ahead, with an operand of its own for every operation, is executed: it
carries out the operations one after the other, and goes on with what is left. -/
theorem Ahead.run (tracing : Bool) {places : List Operand}
    {program rest : List (Modification × Operand)} {c : Cpu Ram} (hgoes : c.Unhindered)
    (h : Ahead places (program ++ rest) c) (hnodup : (program.map Prod.snd).Nodup)
    (hsub : program.map Prod.snd ⊆ places) :
    let operands := program.map Prod.snd
    let done := Modification.chain (program.map fun step => (step.1, c.byteIn step.2)) c.regs.status
    ∃ d, Steps tracing program.length c d ∧ d.Unhindered ∧ Ahead places rest d ∧
      operands.map d.byteIn = done.1 ∧ d.regs.status = done.2 ∧ KeptApart operands c d := by
  induction program generalizing c with
  | nil => exact ⟨c, .refl c, hgoes, h, rfl, rfl, .refl _ c⟩
  | cons step program ih =>
    obtain ⟨op, operand⟩ := step
    obtain ⟨i, happlies, hahead⟩ := h
    obtain ⟨hfresh, hnodup⟩ := List.nodup_cons.mp hnodup
    obtain ⟨hplace, hsub⟩ := List.cons_subset.mp hsub
    obtain ⟨hok, hbyte, hstatus, hkept, hpc⟩ := happlies.step tracing hgoes
    have hnext := hgoes.next hok (hkept.flags _ (by decide))
    have hother {place : Operand} (hne : place ≠ operand) :=
      hkept.bytes place fun hmem => hne (List.mem_singleton.mp hmem)
    have hstill : Ahead places (program ++ rest) (c.step tracing).cpu := by
      refine hahead.transfer hpc hkept.x fun address haddress => ?_
      have hne : .address address ≠ operand := fun hsame => haddress (by rwa [hsame])
      exact hother hne
    obtain ⟨d, hsteps, hgoes', hrest, hbytes, hlast, hkept'⟩ := ih hnext hstill hnodup hsub
    -- the places that are still to come are as they were
    have hsame : (program.map fun step => (step.1, (c.step tracing).cpu.byteIn step.2)) =
        program.map fun step => (step.1, c.byteIn step.2) := by
      refine List.map_congr_left fun step hstep => congrArg (Prod.mk step.1) (hother ?_)
      intro heq
      have hmem : step.2 ∈ program.map Prod.snd := List.mem_map_of_mem hstep
      rw [heq] at hmem
      exact hfresh hmem
    rw [hsame, hstatus] at hbytes hlast
    refine ⟨d, .step hok hsteps, hgoes', hrest, ?_, hlast, ?_⟩
    · rw [List.map_cons, List.map_cons, hbytes, hkept'.bytes operand hfresh, hbyte]
      rfl
    · have hfirst : [operand] ⊆ operand :: program.map Prod.snd :=
        List.cons_subset.mpr ⟨List.mem_cons_self, List.nil_subset _⟩
      exact (hkept.mono hfirst).trans (hkept'.mono (List.subset_cons_self _ _))

end Cpu

/-! ## Numbers in memory -/

open Modification

/-- A number is shifted to the left from its lowest place on. -/
def leftward (first : Modification) (places : List Operand) : List (Modification × Operand) :=
  sequence first rotateLeft places

/-- A number is shifted to the right from its highest place on. -/
def rightward (first : Modification) (places : List Operand) : List (Modification × Operand) :=
  sequence first rotateRight places.reverse

namespace Cpu

/-- The number whose bytes are in these places, from the low end. -/
def number (c : Cpu Ram) (places : List Operand) : Nat := unsigned (places.map c.byteIn)

/-- The carry as a number. -/
def carry (c : Cpu Ram) : Nat := (c.regs.status.get .carry).toNat

variable {places : List Operand} {first : Modification} {c : Cpu Ram}
  {rest : List (Modification × Operand)}

/-- A number is doubled. -/
theorem Ahead.left (tracing : Bool) (hne : places ≠ []) (hnodup : places.Nodup)
    (hgoes : c.Unhindered) (hfirst : first ∈ [shiftLeft, rotateLeft])
    (h : Ahead places (leftward first places ++ rest) c) :
    ∃ d, Steps tracing places.length c d ∧ d.Unhindered ∧ Ahead places rest d ∧
      d.number places + 256 ^ places.length * d.carry =
        2 * c.number places + first.shiftedIn c.regs.status ∧
      KeptApart places c d := by
  have hrun := Ahead.run tracing hgoes h
  simp only [leftward, map_snd_sequence, length_sequence, map_sequence] at hrun
  obtain ⟨d, hsteps, hgoes', hrest, hbytes, hstatus, hkept⟩ := hrun hnodup (List.Subset.refl _)
  have hbytes' : places.map c.byteIn ≠ [] := mt List.map_eq_nil_iff.mp hne
  have hdoubled := unsigned_chain_left hfirst hbytes' c.regs.status
  simp only [← hbytes, ← hstatus, List.length_map] at hdoubled
  exact ⟨d, hsteps, hgoes', hrest, hdoubled, hkept⟩

/-- A number is halved. -/
theorem Ahead.right (tracing : Bool) (hne : places ≠ []) (hnodup : places.Nodup)
    (hgoes : c.Unhindered) (hfirst : first ∈ [shiftRight, rotateRight])
    (h : Ahead places (rightward first places ++ rest) c) :
    ∃ d, Steps tracing places.length c d ∧ d.Unhindered ∧ Ahead places rest d ∧
      2 * d.number places + d.carry =
        c.number places + 256 ^ places.length * first.shiftedIn c.regs.status ∧
      KeptApart places c d := by
  have hrun := Ahead.run tracing hgoes h
  simp only [rightward, map_snd_sequence, length_sequence, List.length_reverse, map_sequence,
    (List.reverse_perm places).nodup_iff] at hrun
  obtain ⟨d, hsteps, hgoes', hrest, hbytes, hstatus, hkept⟩ :=
    hrun hnodup fun place hplace => List.mem_reverse.mp hplace
  have hbytes' : places.reverse.map c.byteIn ≠ [] := by simpa using hne
  have hhalved := unsigned_chain_right hfirst hbytes' c.regs.status
  simp only [← hbytes, ← hstatus, List.length_map, List.length_reverse, ← List.map_reverse,
    List.reverse_reverse] at hhalved
  exact ⟨d, hsteps, hgoes', hrest, hhalved,
    hkept.mono fun place hplace => List.mem_reverse.mp hplace⟩

/-- The same number in the same places is made of the same bytes. -/
theorem KeptApart.restored {d : Cpu Ram} (h : KeptApart places c d)
    (hnumber : d.number places = c.number places) : KeptApart [] c d := by
  have hbytes : places.map d.byteIn = places.map c.byteIn :=
    unsigned_inj (by rw [List.length_map, List.length_map]) hnumber
  refine { h with bytes := fun place _ => ?_ }
  by_cases hplace : place ∈ places
  · exact List.map_inj_left.mp hbytes place hplace
  · exact h.bytes place hplace

theorem carry_le (c : Cpu Ram) : c.carry ≤ 1 := Bool.toNat_le _

theorem number_lt (c : Cpu Ram) (places : List Operand) :
    c.number places < 256 ^ places.length := by
  have hlt := unsigned_lt (places.map c.byteIn)
  rwa [List.length_map] at hlt

/-- Doubled and halved, a number comes back, and the carry with it. -/
theorem Ahead.leftAndBack (tracing : Bool) (hne : places ≠ []) (hnodup : places.Nodup)
    (hgoes : c.Unhindered)
    (h : Ahead places (leftward rotateLeft places ++ rightward rotateRight places) c) :
    ∃ d, Steps tracing (2 * places.length) c d ∧ KeptApart [] c d ∧ d.carry = c.carry := by
  obtain ⟨d, hsteps, hgoes', hback, hdoubled, hkept⟩ := h.left tracing hne hnodup hgoes (by decide)
  rw [← List.append_nil (rightward _ _)] at hback
  obtain ⟨e, hsteps', -, -, hhalved, hkept'⟩ :=
    hback.right tracing hne hnodup hgoes' (by decide)
  have hsum : 2 * e.number places + e.carry = 2 * c.number places + c.carry := by
    have hshifted : rotateLeft.shiftedIn c.regs.status = c.carry := rfl
    have hshifted' : rotateRight.shiftedIn d.regs.status = d.carry := rfl
    rw [hshifted] at hdoubled
    rw [hshifted'] at hhalved
    omega
  have hcarry := c.carry_le
  have hcarry' := e.carry_le
  refine ⟨e, ?_, (hkept.trans hkept').restored (by omega), by omega⟩
  rw [Nat.two_mul]
  exact hsteps.trans hsteps'

/-- Halved and doubled, both come back as well. -/
theorem Ahead.rightAndBack (tracing : Bool) (hne : places ≠ []) (hnodup : places.Nodup)
    (hgoes : c.Unhindered)
    (h : Ahead places (rightward rotateRight places ++ leftward rotateLeft places) c) :
    ∃ d, Steps tracing (2 * places.length) c d ∧ KeptApart [] c d ∧ d.carry = c.carry := by
  obtain ⟨d, hsteps, hgoes', hback, hhalved, hkept⟩ := h.right tracing hne hnodup hgoes (by decide)
  rw [← List.append_nil (leftward _ _)] at hback
  obtain ⟨e, hsteps', -, -, hdoubled, hkept'⟩ :=
    hback.left tracing hne hnodup hgoes' (by decide)
  have hsum : e.number places + 256 ^ places.length * e.carry =
      c.number places + 256 ^ places.length * c.carry := by
    have hshifted : rotateRight.shiftedIn c.regs.status = c.carry := rfl
    have hshifted' : rotateLeft.shiftedIn d.regs.status = d.carry := rfl
    rw [hshifted] at hhalved
    rw [hshifted'] at hdoubled
    omega
  -- the carry is the digit above the number
  have hcarry : e.carry = c.carry := by
    have hdigit (b : Cpu Ram) :
        (b.number places + 256 ^ places.length * b.carry) / 256 ^ places.length = b.carry := by
      rw [Nat.add_mul_div_left _ _ (Nat.pow_pos (by decide)),
        Nat.div_eq_of_lt (b.number_lt places), Nat.zero_add]
    rw [← hdigit e, hsum, hdigit c]
  rw [hcarry] at hsum
  refine ⟨e, ?_, (hkept.trans hkept').restored (by omega), hcarry⟩
  rw [Nat.two_mul]
  exact hsteps.trans hsteps'

end Cpu

/-- Numbers of any number of bytes, shifted in the places where their bytes are: distinct cells of
memory apart from the program, and the accumulator if a number has a byte there, from the low end in
`places`. A chain of ROL from the lowest place on doubles a number and shifts the carry into it, and
the bit that the number has no room for is the last carry; with ASL on the first place nothing is
shifted in. A chain of ROR from the highest place on halves it, with the carry for its highest bit,
and the last carry is the remainder; with LSR on the first place nothing is shifted in. No other
byte, register or flag changes but Zero, Negative and the program counter. One chain of rotations
after the other restores every byte and the carry. -/
theorem multibyte_shifts (tracing : Bool) {places : List Operand} (hne : places ≠ [])
    (hdistinct : places.Nodup) {c : Cpu Ram} (hgoes : c.Unhindered) :
    let n := places.length
    let shifted := c.afterSteps tracing n
    let restored := c.afterSteps tracing (2 * n)
    (∀ first ∈ [shiftLeft, rotateLeft], c.Ahead places (leftward first places) →
        Cpu.Steps tracing n c shifted ∧ c.KeptApart places shifted ∧
          shifted.number places + 2 ^ (8 * n) * shifted.carry =
            2 * c.number places + first.shiftedIn c.regs.status) ∧
      (∀ first ∈ [shiftRight, rotateRight], c.Ahead places (rightward first places) →
        Cpu.Steps tracing n c shifted ∧ c.KeptApart places shifted ∧
          2 * shifted.number places + shifted.carry =
            c.number places + 2 ^ (8 * n) * first.shiftedIn c.regs.status) ∧
      (c.Ahead places (leftward rotateLeft places ++ rightward rotateRight places) ∨
          c.Ahead places (rightward rotateRight places ++ leftward rotateLeft places) →
        Cpu.Steps tracing (2 * n) c restored ∧ c.KeptApart [] restored ∧
          restored.carry = c.carry) := by
  intro n shifted restored
  have hrange : 2 ^ (8 * n) = 256 ^ n := Nat.pow_mul 2 8 n
  refine ⟨fun first hfirst hahead => ?_, fun first hfirst hahead => ?_, fun hahead => ?_⟩
  · rw [← List.append_nil (leftward _ _)] at hahead
    obtain ⟨d, hsteps, -, -, hdoubled, hkept⟩ := hahead.left tracing hne hdistinct hgoes hfirst
    obtain rfl : shifted = d := hsteps.afterSteps_eq
    rw [hrange]
    exact ⟨hsteps, hkept, hdoubled⟩
  · rw [← List.append_nil (rightward _ _)] at hahead
    obtain ⟨d, hsteps, -, -, hhalved, hkept⟩ := hahead.right tracing hne hdistinct hgoes hfirst
    obtain rfl : shifted = d := hsteps.afterSteps_eq
    rw [hrange]
    exact ⟨hsteps, hkept, hhalved⟩
  · obtain ⟨d, hsteps, hkept, hcarry⟩ : ∃ d, Cpu.Steps tracing (2 * n) c d ∧ c.KeptApart [] d ∧
        d.carry = c.carry := by
      rcases hahead with hleft | hright
      · exact hleft.leftAndBack tracing hne hdistinct hgoes
      · exact hright.rightAndBack tracing hne hdistinct hgoes
    obtain rfl : restored = d := hsteps.afterSteps_eq
    exact ⟨hsteps, hkept, hcarry⟩

/-- A program that sets the carry and shifts a number of three bytes to the left, to the right, and
to the left again. The lowest byte is in the accumulator. -/
def shiftingRam : Ram :=
  ((Ram.zeroed.load 0x0000 [0xA9, 0x81, 0x38, 0x2A, 0x26, 0x40, 0x2E, 0x40, 0x01, 0x6E, 0x40, 0x01,
    0x66, 0x40, 0x6A, 0x0A, 0x26, 0x40, 0x2E, 0x40, 0x01]).load 0x0040 [0x01]).load 0x0140 [0xC0]

/-- The highest bit of the number goes through the carry. -/
theorem multibyte_shifts_leftRightLeft :
    let places : List Operand := [.accumulator, .address 0x0040, .address 0x0140]
    let c := (Cpu.powerOn shiftingRam .halt).reset.afterSteps false 2
    let doubled := c.afterSteps false 3
    let restored := c.afterSteps false 6
    let shifted := restored.afterSteps false 3
    c.Unhindered ∧ c.number places = 0xC00181 ∧ c.carry = 1 ∧
      c.Ahead places (leftward rotateLeft places ++ rightward rotateRight places) ∧
      doubled.number places + 0x1000000 * doubled.carry = 0x1800303 ∧
      doubled.Ahead places (rightward rotateRight places) ∧
      2 * (doubled.afterSteps false 3).number places + (doubled.afterSteps false 3).carry =
        0x1800303 ∧
      c.KeptApart [] restored ∧ restored.carry = 1 ∧
      restored.Ahead places (leftward shiftLeft places) ∧ restored.KeptApart places shifted ∧
      shifted.number places + 0x1000000 * shifted.carry = 0x1800302 := by
  intro places c doubled restored shifted
  have hdistinct : places.Nodup := by decide
  have hgoes : c.Unhindered := by decide +kernel
  have hgoes' : doubled.Unhindered := by decide +kernel
  have hgoes'' : restored.Unhindered := by decide +kernel
  have hahead : c.Ahead places (leftward rotateLeft places) := by decide +kernel
  have hboth : c.Ahead places (leftward rotateLeft places ++ rightward rotateRight places) := by
    decide +kernel
  have hahead' : doubled.Ahead places (rightward rotateRight places) := by decide +kernel
  have hahead'' : restored.Ahead places (leftward shiftLeft places) := by decide +kernel
  have hnumber : c.number places = 0xC00181 := by decide +kernel
  have htwice : 2 * c.number places + rotateLeft.shiftedIn c.regs.status = 0x1800303 := by
    decide +kernel
  have hwhole : doubled.number places + 0x1000000 * rotateRight.shiftedIn doubled.regs.status =
      0x1800303 := by decide +kernel
  have hcarry : c.carry = 1 := by decide +kernel
  have heven : 2 * restored.number places + shiftLeft.shiftedIn restored.regs.status =
      0x1800302 := by decide +kernel
  obtain ⟨hleft, -, hback⟩ := multibyte_shifts false (List.cons_ne_nil _ _) hdistinct hgoes
  obtain ⟨-, hright, -⟩ := multibyte_shifts false (List.cons_ne_nil _ _) hdistinct hgoes'
  obtain ⟨hagain, -, -⟩ := multibyte_shifts false (List.cons_ne_nil _ _) hdistinct hgoes''
  obtain ⟨-, -, hdoubled⟩ := hleft rotateLeft (by decide) hahead
  obtain ⟨-, -, hhalved⟩ := hright rotateRight (by decide) hahead'
  obtain ⟨-, hkept, hshifted⟩ := hagain shiftLeft (by decide) hahead''
  obtain ⟨-, hrestored, hcarry'⟩ := hback (.inl hboth)
  exact ⟨hgoes, hnumber, hcarry, hboth, hdoubled.trans htwice, hahead', hhalved.trans hwhole,
    hrestored, hcarry'.trans hcarry, hahead'', hkept, hshifted.trans heven⟩

end Nes6502
