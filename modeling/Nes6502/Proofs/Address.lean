import Nes6502.Proofs.Cycles
import Nes6502.Proofs.Reset

/-!
# Effective addresses

Where the operand of an instruction lies in memory, as a data sheet has it: addresses and indices
are numbers, sums are taken modulo `2 ^ 16`, and modulo 256 where a mode stays in the first page.
The processor works on words and masks instead. The modes wrap in five different ways, and each of
them comes to the same as its line of the data sheet, also at the end of memory.

## What is proved

* `Cpu.resolve_ram`: a mode finds the operand of the data sheet, and finding it changes nothing.
* `Cpu.effective?_lt`: an effective address is an address.
* `effective_addresses`: the same, with what is noted about crossed pages.
-/

set_option autoImplicit false

namespace Nes6502

/-! ## Memory by numbers -/

namespace Ram

/-- The byte at an address that is given as a number, modulo `2 ^ 16`. -/
def byteAt (ram : Ram) (address : Nat) : Nat := (ram.read (UInt16.ofNat address)).toNat

/-- The little-endian word whose two bytes lie at the given addresses. -/
def wordAt (ram : Ram) (low high : Nat) : Nat := ram.byteAt low + 256 * ram.byteAt high

theorem byteAt_lt (ram : Ram) (address : Nat) : ram.byteAt address < 256 := UInt8.toNat_lt _

theorem wordAt_lt (ram : Ram) (low high : Nat) : ram.wordAt low high < 65536 := by
  have hlow := ram.byteAt_lt low
  have hhigh := ram.byteAt_lt high
  unfold wordAt
  omega

theorem byteAt_toNat (ram : Ram) (address : UInt16) :
    ram.byteAt address.toNat = (ram.read address).toNat := by
  rw [byteAt, UInt16.ofNat_toNat]

theorem byteAt_mod (ram : Ram) (address : Nat) :
    ram.byteAt (address % 65536) = ram.byteAt address :=
  congrArg (fun place => (ram.read place).toNat) UInt16.ofNat_mod_size

/-- A word that is read is the word of the data sheet. -/
theorem toNat_wordOfBytes_read (ram : Ram) (low high : UInt16) :
    (wordOfBytes (ram.read low) (ram.read high)).toNat = ram.wordAt low.toNat high.toNat := by
  rw [toNat_wordOfBytes, wordAt, byteAt_toNat, byteAt_toNat]
  omega

/-- So is a word in two bytes that follow each other, past the end of memory as well. -/
theorem toNat_wordOfBytes_next (ram : Ram) (address : UInt16) :
    (wordOfBytes (ram.read address) (ram.read (address + 1))).toNat =
      ram.wordAt address.toNat (address.toNat + 1) := by
  rw [toNat_wordOfBytes_read, UInt16.toNat_add]
  exact congrArg (ram.byteAt address.toNat + 256 * ·) (ram.byteAt_mod _)

/-- A pointer in the first page wraps within it. -/
theorem toNat_wordOfBytes_zeroPage (ram : Ram) (pointer : UInt8) :
    (wordOfBytes (ram.read pointer.toUInt16) (ram.read (pointer + 1).toUInt16)).toNat =
      ram.wordAt pointer.toNat ((pointer.toNat + 1) % 256) := by
  rw [toNat_wordOfBytes_read, UInt8.toNat_toUInt16, UInt8.toNat_toUInt16, UInt8.toNat_add]
  rfl

end Ram

/-! ## The data sheet -/

namespace Cpu

/-- The address that an indexed mode counts from, where the index can leave the page, for a
processor at the operand bytes. -/
def base? (c : Cpu Ram) (mode : AddressingMode) : Option Nat :=
  let pc := c.regs.pc.toNat
  let pointer := c.bus.byteAt pc
  match mode with
  | .absoluteX | .absoluteY => some (c.bus.wordAt pc (pc + 1))
  | .indirectY => some (c.bus.wordAt pointer ((pointer + 1) % 256))
  | _ => none

/-- The address of the operand, if the mode names one in memory, for a processor at the operand
bytes. -/
def effective? (c : Cpu Ram) (mode : AddressingMode) : Option Nat :=
  let pc := c.regs.pc.toNat
  let x := c.regs.x.toNat
  let y := c.regs.y.toNat
  let byte := c.bus.byteAt pc
  let word := c.bus.wordAt pc (pc + 1)
  match mode with
  | .immediate | .relative => some pc
  | .zeroPage => some byte
  | .zeroPageX => some ((byte + x) % 256)
  | .zeroPageY => some ((byte + y) % 256)
  | .absolute => some word
  | .absoluteX => some ((word + x) % 65536)
  | .absoluteY => some ((word + y) % 65536)
  | .indirect => some (c.bus.wordAt word (word / 256 * 256 + (word + 1) % 256))
  | .indirectX => some (c.bus.wordAt ((byte + x) % 256) ((byte + x + 1) % 256))
  | .indirectY => some ((c.bus.wordAt byte ((byte + 1) % 256) + y) % 65536)
  | .accumulator | .implied => none

/-- Whether indexing leaves the page, for the modes that can. -/
def crossing? (c : Cpu Ram) (mode : AddressingMode) : Option Bool :=
  match c.base? mode, c.effective? mode with
  | some base, some effective => some (effective / 256 != base / 256)
  | _, _ => none

/-- The operand of the data sheet. -/
def operandOf (c : Cpu Ram) (mode : AddressingMode) : Operand :=
  match c.effective? mode with
  | some effective => .address (UInt16.ofNat effective)
  | none => if mode = .accumulator then .accumulator else .absent

theorem effective?_lt {c : Cpu Ram} {mode : AddressingMode} {effective : Nat}
    (h : c.effective? mode = some effective) : effective < 65536 := by
  have hpc := c.regs.pc.toNat_lt
  have hbyte := c.bus.byteAt_lt c.regs.pc.toNat
  cases mode with
  | absolute | indirect | indirectX =>
    cases h
    exact c.bus.wordAt_lt _ _
  | accumulator | implied => cases h
  | _ =>
    cases h
    omega

/-! ## The processor -/

theorem operandWord_ram (c : Cpu Ram) :
    c.operandWord = (wordOfBytes (c.bus.read c.regs.pc) (c.bus.read (c.regs.pc + 1)), c) :=
  c.readWord_ram c.regs.pc

theorem zeroPageWord_ram (c : Cpu Ram) (pointer : UInt8) :
    c.zeroPageWord pointer =
      (wordOfBytes (c.bus.read pointer.toUInt16) (c.bus.read (pointer + 1).toUInt16), c) :=
  c.readSplitWord_ram _ _

/-- The second byte of a pointer to a jump lies in the page of the first. -/
theorem toNat_next_in_page (pointer : UInt16) :
    ((pointer &&& 0xFF00) ||| ((pointer + 1) &&& (0xFF : UInt16))).toNat =
      pointer.toNat / 256 * 256 + (pointer.toNat + 1) % 256 := by
  have h := next_in_page (lowByte pointer) (highByte pointer)
  rw [wordOfBytes_lowByte_highByte] at h
  rw [h, toNat_wordOfBytes, toNat_highByte, UInt8.toNat_add, toNat_lowByte]
  show _ + (_ + 1) % 256 = _
  omega

end Cpu

namespace Resolution

theorem direct_eq {address : UInt16} {effective : Nat} (h : address.toNat = effective) :
    direct address = ⟨.address (UInt16.ofNat effective), false⟩ := by
  rw [← h, UInt16.ofNat_toNat]
  rfl

/-- The processor looks for a carry, and the data sheet for another page. -/
theorem indexed_eq {base : UInt16} {number : Nat} (h : base.toNat = number) (index : UInt8) :
    indexed base index =
      ⟨.address (UInt16.ofNat ((number + index.toNat) % 65536)),
        (number + index.toNat) % 65536 / 256 != number / 256⟩ := by
  have hsum : (base + index.toUInt16).toNat = (number + index.toNat) % 65536 := by
    rw [UInt16.toNat_add, UInt8.toNat_toUInt16, h]
  have hpage : (indexed base index).pageCrossed =
      ((number + index.toNat) % 65536 / 256 != number / 256) := by
    rw [Cpu.pageCrossed_indexed, ← hsum, ← h, Bool.eq_iff_iff, bne_iff_ne, bne_iff_ne,
      ne_eq, ne_eq, ← UInt8.toNat_inj, toNat_highByte, toNat_highByte]
  rw [← hpage, ← hsum, UInt16.ofNat_toNat]
  rfl

end Resolution

namespace Cpu

/-- A mode finds the operand of the data sheet and leaves the processor as it is. -/
theorem resolve_ram (c : Cpu Ram) (mode : AddressingMode) :
    c.resolve mode = (⟨c.operandOf mode, (c.crossing? mode).getD false⟩, c) := by
  have hbyte : (c.bus.read c.regs.pc).toUInt16.toNat = c.bus.byteAt c.regs.pc.toNat := by
    rw [UInt8.toNat_toUInt16, Ram.byteAt_toNat]
  have hword := c.bus.toNat_wordOfBytes_next c.regs.pc
  -- indexing in the first page adds bytes
  have hindexed (index : UInt8) : (c.bus.read c.regs.pc + index).toUInt16.toNat =
      (c.bus.byteAt c.regs.pc.toNat + index.toNat) % 256 := by
    rw [UInt8.toNat_toUInt16, UInt8.toNat_add, ← Ram.byteAt_toNat]
  cases mode with
  | immediate | relative =>
    exact congrArg (·, c) (Resolution.direct_eq rfl)
  | zeroPage =>
    simp only [resolve, read_ram]
    exact congrArg (·, c) (Resolution.direct_eq hbyte)
  | zeroPageX =>
    simp only [resolve, read_ram]
    exact congrArg (·, c) (Resolution.direct_eq (hindexed c.regs.x))
  | zeroPageY =>
    simp only [resolve, read_ram]
    exact congrArg (·, c) (Resolution.direct_eq (hindexed c.regs.y))
  | absolute =>
    simp only [resolve, operandWord_ram]
    exact congrArg (·, c) (Resolution.direct_eq hword)
  | absoluteX =>
    simp only [resolve, operandWord_ram]
    exact congrArg (·, c) (Resolution.indexed_eq hword c.regs.x)
  | absoluteY =>
    simp only [resolve, operandWord_ram]
    exact congrArg (·, c) (Resolution.indexed_eq hword c.regs.y)
  | indirect =>
    simp only [resolve, operandWord_ram, readSplitWord_ram]
    refine congrArg (·, c) (Resolution.direct_eq ?_)
    rw [Ram.toNat_wordOfBytes_read, toNat_next_in_page, hword]
  | indirectX =>
    simp only [resolve, read_ram, zeroPageWord_ram]
    refine congrArg (·, c) (Resolution.direct_eq ?_)
    rw [Ram.toNat_wordOfBytes_zeroPage, UInt8.toNat_add, ← Ram.byteAt_toNat]
    show c.bus.wordAt (_ % 256) ((_ % 256 + 1) % 256) = _
    rw [Nat.mod_add_mod]
  | indirectY =>
    simp only [resolve, read_ram, zeroPageWord_ram]
    refine congrArg (·, c) (Resolution.indexed_eq ?_ c.regs.y)
    rw [Ram.toNat_wordOfBytes_zeroPage, ← Ram.byteAt_toNat]
  | accumulator | implied => rfl

theorem operandOf_eq_address_iff (c : Cpu Ram) (mode : AddressingMode) (address : UInt16) :
    c.operandOf mode = .address address ↔ c.effective? mode = some address.toNat := by
  unfold operandOf
  cases heffective : c.effective? mode with
  | none => simp only [reduceCtorEq, iff_false]; split <;> simp
  | some effective =>
    simp only [Operand.address.injEq, Option.some.injEq]
    constructor
    · rintro rfl
      exact (UInt16.toNat_ofNat_of_lt' (effective?_lt heffective)).symm
    · rintro rfl
      exact UInt16.ofNat_toNat

theorem operandOf_eq_accumulator_iff (c : Cpu Ram) (mode : AddressingMode) :
    c.operandOf mode = .accumulator ↔ mode = .accumulator := by
  cases mode <;> simp [operandOf, effective?]

theorem operandOf_eq_absent_iff (c : Cpu Ram) (mode : AddressingMode) :
    c.operandOf mode = .absent ↔ mode = .implied := by
  cases mode <;> simp [operandOf, effective?]

end Cpu

/-- Every addressing mode finds the operand that the data sheet says, for every program counter,
index and content of memory: an effective address, or the accumulator, or nothing. Finding it leaves
the processor and its memory as they are. Of the latches that a processor has, it touches the one
for crossed pages alone, and that only in the three modes whose index can leave the page of the base
address; there it notes whether the effective address lies in another page. -/
theorem effective_addresses (c : Cpu Ram) (mode : AddressingMode) :
    (c.resolve mode).2 = c ∧
      (∀ address, (c.resolve mode).1.operand = .address address ↔
        c.effective? mode = some address.toNat) ∧
      ((c.resolve mode).1.operand = .accumulator ↔ mode = .accumulator) ∧
      ((c.resolve mode).1.operand = .absent ↔ mode = .implied) ∧
      (c.resolve mode).1.pageCrossed = (c.crossing? mode).getD false ∧
      ∀ notes, (⟨c, notes⟩ : Noting Ram).resolve mode =
        ((c.resolve mode).1.operand,
          ⟨c, { notes with pageCrossed := (c.crossing? mode).getD notes.pageCrossed }⟩) := by
  rw [c.resolve_ram mode]
  refine ⟨rfl, c.operandOf_eq_address_iff mode, c.operandOf_eq_accumulator_iff mode,
    c.operandOf_eq_absent_iff mode, rfl, fun notes => ?_⟩
  unfold Noting.resolve
  rw [c.resolve_ram mode]
  -- the modes that make a note are those that have a base address
  cases mode <;> rfl

end Nes6502
