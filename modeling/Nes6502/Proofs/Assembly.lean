import Nes6502.Proofs.Hex
import Nes6502.Proofs.Listing

/-!
# Assembling a listing

Each line of a listing can be assembled back into the bytes that it was made from. The assembler
takes a line apart: the mnemonic, what stands around the digits of the operand, and the digits. The
mnemonic and the shape of the operand select the opcode. An absolute address and the target of a
branch are written alike, but no mnemonic has both modes.

## What is proved

* `Listing.written_operandText`: the operand that was written is taken apart again.
* `Listing.find?_instructions`: mnemonic and shape select the opcode.
* `Listing.assemble_entryOf`: an entry is assembled into its bytes.
* `disassembly_lossless`: so is a whole listing.
-/

set_option autoImplicit false

namespace Nes6502

namespace Listing

/-! ## Written operands -/

/-- How an operand is written: what stands before the dollar sign, how many digits follow it, and
what stands after them. -/
structure Shape where
  before : List Char
  digits : Nat
  after : List Char
  deriving DecidableEq

/-- How the operands of a mode are written. -/
def shapeOf : AddressingMode → Shape
  | .implied => ⟨[], 0, []⟩
  | .accumulator => ⟨[' ', 'A'], 0, []⟩
  | .immediate => ⟨[' ', '#'], 2, []⟩
  | .zeroPage => ⟨[' '], 2, []⟩
  | .zeroPageX => ⟨[' '], 2, [',', 'X']⟩
  | .zeroPageY => ⟨[' '], 2, [',', 'Y']⟩
  | .absolute | .relative => ⟨[' '], 4, []⟩
  | .absoluteX => ⟨[' '], 4, [',', 'X']⟩
  | .absoluteY => ⟨[' '], 4, [',', 'Y']⟩
  | .indirect => ⟨[' ', '('], 4, [')']⟩
  | .indirectX => ⟨[' ', '('], 2, [',', 'X', ')']⟩
  | .indirectY => ⟨[' ', '('], 2, [')', ',', 'Y']⟩

/-- An operand taken apart. -/
structure Written where
  before : List Char
  digits : List Char
  after : List Char

namespace Written

def shape (w : Written) : Shape := ⟨w.before, w.digits.length, w.after⟩

/-- Takes the text of an operand apart. -/
def ofText (text : List Char) : Written :=
  match text.dropWhile (· != '$') with
  | [] => ⟨text, [], []⟩
  | _ :: rest =>
    ⟨text.takeWhile (· != '$'), rest.takeWhile Hex.isDigit, rest.dropWhile Hex.isDigit⟩

/-- What stands around the digits, and the digits, are found again. -/
theorem ofText_append {before digits after : List Char} (hbefore : ∀ c ∈ before, (c != '$') = true)
    (hdigits : ∀ c ∈ digits, Hex.isDigit c = true)
    (hafter : after.takeWhile Hex.isDigit = []) :
    ofText (before ++ '$' :: (digits ++ after)) = ⟨before, digits, after⟩ := by
  have hnone : after.dropWhile Hex.isDigit = after := by
    have hparts : after.takeWhile Hex.isDigit ++ after.dropWhile Hex.isDigit = after :=
      List.takeWhile_append_dropWhile
    rwa [hafter, List.nil_append] at hparts
  simp only [ofText]
  rw [List.dropWhile_append_of_pos hbefore, List.takeWhile_append_of_pos hbefore]
  show Written.mk (before ++ []) ((digits ++ after).takeWhile _) ((digits ++ after).dropWhile _) = _
  rw [List.takeWhile_append_of_pos hdigits, List.dropWhile_append_of_pos hdigits, hafter, hnone,
    List.append_nil, List.append_nil]

end Written

/-- The number that is written for an operand, by the mode, the address of the instruction and its
two operand bytes. -/
def writtenDigits (mode : AddressingMode) (address : UInt16) (low high : UInt8) : List Char :=
  match mode with
  | .implied | .accumulator => []
  | .absolute | .absoluteX | .absoluteY | .indirect => Hex.word .upper (wordOfBytes low high)
  | .relative => Hex.word .upper (branchTarget (address + 2) low)
  | _ => Hex.byte .upper low

theorem isDigit_writtenDigits (mode : AddressingMode) (address : UInt16) (low high : UInt8) :
    ∀ c ∈ writtenDigits mode address low high, Hex.isDigit c = true := by
  cases mode with
  | implied | accumulator => exact fun c hc => nomatch hc
  | absolute | absoluteX | absoluteY | indirect | relative =>
    exact fun c => Hex.isDigit_of_mem_word
  | _ => exact fun c => Hex.isDigit_of_mem_byte

theorem length_writtenDigits (mode : AddressingMode) (address : UInt16) (low high : UInt8) :
    (writtenDigits mode address low high).length = (shapeOf mode).digits := by
  cases mode <;> rfl

theorem ne_dollar_before (mode : AddressingMode) :
    ∀ c ∈ (shapeOf mode).before, (c != '$') = true := by
  cases mode <;> simp [shapeOf]

theorem takeWhile_after (mode : AddressingMode) :
    (shapeOf mode).after.takeWhile Hex.isDigit = [] := by
  cases mode <;> rfl

/-- The operand that was written is taken apart again. -/
theorem written_operandText (mode : AddressingMode) (address : UInt16) (low high : UInt8) :
    Written.ofText (operandText mode address low high) =
      ⟨(shapeOf mode).before, writtenDigits mode address low high, (shapeOf mode).after⟩ := by
  have hparts := Written.ofText_append (ne_dollar_before mode)
    (isDigit_writtenDigits mode address low high) (takeWhile_after mode)
  cases mode with
  | implied | accumulator => rfl
  | _ => exact hparts

theorem shape_operandText (mode : AddressingMode) (address : UInt16) (low high : UInt8) :
    (Written.ofText (operandText mode address low high)).shape = shapeOf mode := by
  rw [written_operandText, Written.shape, length_writtenDigits]

/-! ## Numbers -/

/-- The operand bytes that a written number stands for, by the mode and the address of the
instruction. A branch is written with the address it goes to and holds the distance. -/
def bytesOfNumber (mode : AddressingMode) (address number : UInt16) : List UInt8 :=
  match mode with
  | .implied | .accumulator => []
  | .absolute | .absoluteX | .absoluteY | .indirect => [lowByte number, highByte number]
  | .relative => [lowByte (number - (address + 2))]
  | _ => [lowByte number]

theorem lowByte_ofNat_toNat (byte : UInt8) : lowByte (UInt16.ofNat byte.toNat) = byte := by
  have hbyte := byte.toNat_lt
  rw [← UInt8.toNat_inj, toNat_lowByte, UInt16.toNat_ofNat_of_lt' (Nat.lt_trans hbyte (by decide))]
  omega

/-- The distance of a branch is found again from its target, modulo `2 ^ 16`. -/
theorem lowByte_branchTarget_sub (next : UInt16) (displacement : UInt8) :
    lowByte (branchTarget next displacement - next) = displacement := by
  have hextended : lowByte (signExtend displacement) = displacement := by
    obtain ⟨bits⟩ := displacement
    revert bits
    decide +kernel
  have hdistance : branchTarget next displacement - next = signExtend displacement := by
    rw [branchTarget]
    grind
  rw [hdistance, hextended]

/-- The digits of an operand stand for the operand bytes. -/
theorem bytesOfNumber_writtenDigits (mode : AddressingMode) (address : UInt16) (low high : UInt8) :
    ∃ number, Hex.value? (writtenDigits mode address low high) = some number ∧
      bytesOfNumber mode address (UInt16.ofNat number) =
        [low, high].take mode.operandBytes := by
  cases mode with
  | implied | accumulator => exact ⟨0, rfl, rfl⟩
  | absolute | absoluteX | absoluteY | indirect =>
    refine ⟨_, Hex.value?_word _ _, ?_⟩
    rw [UInt16.ofNat_toNat, bytesOfNumber, lowByte_wordOfBytes, highByte_wordOfBytes]
    rfl
  | relative =>
    refine ⟨_, Hex.value?_word _ _, ?_⟩
    rw [UInt16.ofNat_toNat, bytesOfNumber, lowByte_branchTarget_sub]
    rfl
  | _ => exact ⟨_, Hex.value?_byte _ _, congrArg (fun byte => [byte]) (lowByte_ofNat_toNat low)⟩

/-! ## The assembler -/

/-- The documented instructions. -/
def instructions : List Instruction :=
  (List.range 256).filterMap fun opcode => decode (UInt8.ofNat opcode)

/-- Whether an instruction is written with these letters and an operand of this shape. -/
def writes (letters : List Char) (shape : Shape) (i : Instruction) : Bool :=
  i.mnemonic.letters == letters && shapeOf i.mode == shape

/-- Assembles a line of a listing, for an instruction at an address. A byte of data is written as a
first-page address is. -/
def assemble (address : UInt16) (text : List Char) : Option (List UInt8) :=
  let letters := text.take 3
  let written := Written.ofText (text.drop 3)
  match Hex.value? written.digits with
  | none => none
  | some number =>
    if letters = ['.', 'd', 'b'] then
      if written.shape = shapeOf .zeroPage then some [lowByte (UInt16.ofNat number)] else none
    else
      (instructions.find? (writes letters written.shape)).map fun i =>
        i.opcode :: bytesOfNumber i.mode address (UInt16.ofNat number)

theorem opcode_of_decode {opcode : UInt8} {i : Instruction} (h : decode opcode = some i) :
    i.opcode = opcode := by
  obtain ⟨cell, -, rfl⟩ := Option.map_eq_some_iff.mp h
  rfl

theorem mem_instructions {opcode : UInt8} {i : Instruction} (h : decode opcode = some i) :
    i ∈ instructions := by
  refine List.mem_filterMap.mpr ⟨opcode.toNat, List.mem_range.mpr opcode.toNat_lt, ?_⟩
  rwa [UInt8.ofNat_toNat]

/-- Mnemonic and shape select the opcode: no two instructions share both. -/
theorem find?_instructions {i : Instruction} (h : i ∈ instructions) :
    instructions.find? (writes i.mnemonic.letters (shapeOf i.mode)) = some i := by
  have hunique : ∀ i ∈ instructions,
      instructions.find? (writes i.mnemonic.letters (shapeOf i.mode)) = some i := by
    decide +kernel
  exact hunique i h

/-- An entry is assembled into the bytes that it was made from. -/
theorem assemble_entryOf (address : UInt16) (opcode low high : UInt8) :
    assemble address (entryOf address opcode low high).text =
      some ([opcode, low, high].take (entryOf address opcode low high).length) := by
  cases hdecode : decode opcode with
  | none =>
    have hletters : (dataText opcode).take 3 = ['.', 'd', 'b'] := rfl
    have hoperand : (dataText opcode).drop 3 = operandText .zeroPage address opcode 0 := rfl
    obtain ⟨number, hnumber, hbytes⟩ := bytesOfNumber_writtenDigits .zeroPage address opcode 0
    simp only [entryOf, hdecode]
    rw [assemble, hletters, hoperand, shape_operandText, written_operandText]
    simp only [hnumber, if_true]
    exact congrArg some hbytes
  | some i =>
    have hletters : i.mnemonic.letters.length = 3 := by cases i.mnemonic <;> rfl
    have hinstruction : i.mnemonic.letters ≠ ['.', 'd', 'b'] := by cases i.mnemonic <;> decide
    obtain ⟨number, hnumber, hbytes⟩ := bytesOfNumber_writtenDigits i.mode address low high
    simp only [entryOf, hdecode]
    rw [assemble, List.take_left' hletters, List.drop_left' hletters, shape_operandText,
      written_operandText]
    simp only [hnumber]
    rw [if_neg hinstruction, find?_instructions (mem_instructions hdecode), Option.map_some,
      opcode_of_decode hdecode, hbytes, Instruction.length, Nat.add_comm, List.take_succ_cons]

/-! ## Listings of memory -/

theorem take_bytesFrom (ram : Ram) (start : UInt16) {k count : Nat} (h : k ≤ count) :
    (ram.bytesFrom start count).take k = ram.bytesFrom start k := by
  rw [Ram.bytesFrom, ← List.map_take, List.take_range, Nat.min_eq_left h]
  rfl

/-- The entry at an address is assembled into the bytes that lie there. -/
theorem assemble_entryIn (ram : Ram) (address : UInt16) :
    assemble address (entryIn ram address).text =
      some (ram.bytesFrom address (entryIn ram address).length) := by
  have hbytes : ram.bytesFrom address 3 =
      [ram.read address, ram.read (address + 1), ram.read (address + 2)] := by
    show [ram.read (address + 0), _, _] = _
    rw [UInt16.add_zero]
    rfl
  rw [← take_bytesFrom ram address (length_entryIn_le ram address), hbytes, entryIn_eq]
  exact assemble_entryOf address _ _ _

/-- The lines of a listing are assembled into the bytes that it covers. -/
theorem assemble_walk (ram : Ram) (start : UInt16) (count : Nat) :
    ∃ pieces, (walk ram start count).mapM (fun line => assemble line.1 line.2) = some pieces ∧
      pieces.flatten = ram.bytesFrom start (span ram start count) := by
  induction count generalizing start with
  | zero => exact ⟨[], rfl, rfl⟩
  | succ count ih =>
    obtain ⟨pieces, hpieces, hflatten⟩ := ih (start + UInt16.ofNat (entryIn ram start).length)
    refine ⟨ram.bytesFrom start (entryIn ram start).length :: pieces, ?_, ?_⟩
    · rw [walk, List.mapM_cons]
      simp only [assemble_entryIn, hpieces]
      rfl
    · rw [List.flatten_cons, hflatten, span, Ram.bytesFrom_add]

end Listing

open Listing in
/-- Nothing is lost in a listing. A line is assembled into the bytes that it was made from, so equal
lines come from equal bytes. A listing has as many entries as were asked for; the first one begins
at its start and each other where the one before it ends, modulo `2 ^ 16`. A longer listing goes on
where a shorter one has ended. Its lines are assembled into the bytes that it covers, without a
gap. -/
theorem disassembly_lossless (ram : Ram) :
    (∀ address, assemble address (entryAt address ram).value.text =
        some (ram.bytesFrom address (entryAt address ram).value.length)) ∧
      (∀ (other : Ram) (address : UInt16),
        (entryAt address other).value.text = (entryAt address ram).value.text →
        (entryAt address other).value.length = (entryAt address ram).value.length ∧
          other.bytesFrom address (entryAt address other).value.length =
            ram.bytesFrom address (entryAt address ram).value.length) ∧
      ∀ (start : UInt16) (count : Nat),
        let listing := (disassemble start count ram).value
        listing.length = count ∧
          reached ram start 0 = start ∧
          (∀ k, reached ram start (k + 1) = reached ram start k +
            UInt16.ofNat (entryAt (reached ram start k) ram).value.length) ∧
          (∀ k < count, listing[k]? =
            some (reached ram start k, (entryAt (reached ram start k) ram).value.text)) ∧
          (∀ more, (disassemble start (count + more) ram).value =
            listing ++ (disassemble (reached ram start count) more ram).value) ∧
          ∃ pieces, listing.mapM (fun line => assemble line.1 line.2) = some pieces ∧
            pieces.flatten = ram.bytesFrom start (span ram start count) := by
  refine ⟨assemble_entryIn ram, fun other address htext => ?_, fun start count => ?_⟩
  · have hsame : some (other.bytesFrom address (entryIn other address).length) =
        some (ram.bytesFrom address (entryIn ram address).length) := by
      rw [← assemble_entryIn, ← assemble_entryIn]
      exact congrArg (assemble address) htext
    have hbytes := Option.some.inj hsame
    refine ⟨?_, hbytes⟩
    have hlength := congrArg List.length hbytes
    rwa [Ram.length_bytesFrom, Ram.length_bytesFrom] at hlength
  · intro listing
    have hlisting : listing = walk ram start count := by
      simp only [listing, disassemble_ram]
    rw [hlisting]
    refine ⟨length_walk ram start count, reached_zero ram start, reached_succ ram start,
      fun k hk => getElem?_walk ram start hk, fun more => ?_, assemble_walk ram start count⟩
    simp only [disassemble_ram]
    exact walk_add ram start count more

/-- Three instructions at the end of memory and past it: an undefined byte, a branch to where it
stands, and an absolute address that is written as the target of the branch is. -/
def wrappingRam : Ram := Ram.zeroed.load 0xFFFE [0x02, 0xD0, 0xFE, 0x4C, 0xFF, 0xFF]

open Listing in
/-- The last line stands at `0x0001`, and the six bytes come back. -/
theorem disassembly_lossless_wrappingRam :
    let listing := (disassemble 0xFFFE 3 wrappingRam).value
    listing.map (fun line => String.ofList line.2) = [".db $02", "BNE $FFFF", "JMP $FFFF"] ∧
      listing[2]? = some (0x0001, (entryAt 0x0001 wrappingRam).value.text) ∧
      ∃ pieces, listing.mapM (fun line => assemble line.1 line.2) = some pieces ∧
        pieces.flatten = [0x02, 0xD0, 0xFE, 0x4C, 0xFF, 0xFF] := by
  intro listing
  have hreached : reached wrappingRam 0xFFFE 2 = 0x0001 := by decide +kernel
  have hcovered : wrappingRam.bytesFrom 0xFFFE (span wrappingRam 0xFFFE 3) =
      [0x02, 0xD0, 0xFE, 0x4C, 0xFF, 0xFF] := by
    decide +kernel
  obtain ⟨-, -, -, hentries, -, hbytes⟩ := (disassembly_lossless wrappingRam).2.2 0xFFFE 3
  rw [← hreached, ← hcovered]
  exact ⟨by decide +kernel, hentries 2 (by decide), hbytes⟩

end Nes6502
