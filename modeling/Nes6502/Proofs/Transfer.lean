import Nes6502.Proofs.Execution
import Nes6502.Proofs.Frames
import Nes6502.Proofs.Hex
import Nes6502.Proofs.Listing

/-!
# Transfers of control

The processor and the listing find the target of a branch each in its own way: the processor from a
program counter that has already moved past the opcode, the listing from the address of the
instruction. Both extend the displacement to a word and let sums wrap. That they agree, and with the
data sheet, whose displacements are signed numbers, is a matter of both ends of memory.

## What is proved

* `toInt_branchTarget`: extending and wrapping comes to adding a signed number modulo `2 ^ 16`.
* `Cpu.names_branchPlace`, `Cpu.names_wordPlace`: what is listed for a branch and for a jump.
* `Cpu.performed_branch`, `Cpu.performed_jmp`, `Cpu.performed_jsr`: what their actions do.
* `transfers_as_listed`: a transfer that is taken goes where the listing says, and what it leaves.
-/

set_option autoImplicit false

namespace Nes6502

/-- The flag that a branch looks at, and the value for which it is taken. -/
def Mnemonic.condition? : Mnemonic → Option (Flag × Bool)
  | .bpl => some (.negative, false)
  | .bmi => some (.negative, true)
  | .bvc => some (.overflow, false)
  | .bvs => some (.overflow, true)
  | .bcc => some (.carry, false)
  | .bcs => some (.carry, true)
  | .bne => some (.zero, false)
  | .beq => some (.zero, true)
  | _ => none

theorem Mnemonic.action_of_condition {mnemonic : Mnemonic} {flag : Flag} {value : Bool}
    (h : mnemonic.condition? = some (flag, value)) : mnemonic.action = .branch flag value := by
  cases mnemonic <;> cases h <;> rfl

/-- In the opcode matrix the operand of a branch is a distance. -/
theorem mode_of_condition {opcode : UInt8} {i : Instruction} (hdecode : decode opcode = some i)
    (h : i.mnemonic.condition?.isSome) : i.mode = .relative :=
  of_decode (P := fun i => i.mnemonic.condition?.isSome → i.mode = .relative)
    (by decide +kernel) hdecode h

/-- A call has one mode. -/
theorem mode_of_jsr {opcode : UInt8} {i : Instruction} (hdecode : decode opcode = some i)
    (h : i.mnemonic = .jsr) : i.mode = .absolute :=
  of_decode (P := fun i => i.mnemonic = .jsr → i.mode = .absolute) (by decide +kernel) hdecode h

/-! ## Targets -/

/-- Extending the sign of a displacement and letting the sum wrap comes to adding a signed number
modulo `2 ^ 16`. -/
theorem toInt_branchTarget (next : UInt16) (displacement : UInt8) :
    ((branchTarget next displacement).toNat : Int) =
      (next.toNat + displacement.toInt8.toInt) % 65536 := by
  have hextended : (signExtend displacement).toNat =
      if displacement.toNat < 128 then displacement.toNat else displacement.toNat + 0xFF00 := by
    have hbyte := displacement.toNat_lt
    unfold signExtend
    by_cases h : displacement.toNat < 128
    · rw [if_pos (UInt8.lt_iff_toNat_lt.mpr h), if_pos h, UInt8.toNat_toUInt16]
    · rw [if_neg (fun hlt => h (UInt8.lt_iff_toNat_lt.mp hlt)), if_neg h, UInt16.toNat_add,
        UInt8.toNat_toUInt16]
      exact Nat.mod_eq_of_lt (Nat.add_lt_add_right hbyte 0xFF00)
  rw [branchTarget, UInt16.toNat_add, hextended, toInt_toInt8]
  split <;> omega

/-- A text that is a mnemonic with an address, in four digits. -/
def Listing.Names (text : List Char) (mnemonic : Mnemonic) (address : UInt16) : Prop :=
  ∃ digits, text = mnemonic.letters ++ [' ', '$'] ++ digits ∧ digits.length = 4 ∧
    Hex.value? digits = some address.toNat

theorem Listing.names_word (mnemonic : Mnemonic) (address : UInt16) :
    Names (mnemonic.letters ++ (' ' :: '$' :: Hex.word .upper address)) mnemonic address :=
  ⟨Hex.word .upper address, (List.append_assoc _ [' ', '$'] _).symm, rfl, Hex.value?_word _ _⟩

namespace Cpu

variable {c : Cpu Ram} {i : Instruction}

/-- The assembly text of the instruction at the program counter. -/
def listed (c : Cpu Ram) : List Char := (Listing.entryIn c.bus c.regs.pc).text

theorem listed_eq (hdecode : decode (c.bus.read c.regs.pc) = some i) :
    c.listed = i.mnemonic.letters ++ Listing.operandText i.mode c.regs.pc
      (c.bus.read (c.regs.pc + 1)) (c.bus.read (c.regs.pc + 2)) := by
  rw [listed, Listing.entryIn_eq]
  simp only [Listing.entryOf, hdecode]

/-- The distance of the branch at the program counter, counted from the next instruction. -/
def displacement (c : Cpu Ram) : Int := (c.bus.read (c.regs.pc + 1)).toInt8.toInt

/-- The target of the branch at the program counter. -/
def branchPlace (c : Cpu Ram) : UInt16 :=
  branchTarget (c.regs.pc + 2) (c.bus.read (c.regs.pc + 1))

/-- The word behind the opcode at the program counter. -/
def wordPlace (c : Cpu Ram) : UInt16 :=
  wordOfBytes (c.bus.read (c.regs.pc + 1)) (c.bus.read (c.regs.pc + 2))

theorem toInt_branchPlace (c : Cpu Ram) :
    (c.branchPlace.toNat : Int) = (c.regs.pc.toNat + 2 + c.displacement) % 65536 := by
  have hnext : (c.regs.pc + 2).toNat = (c.regs.pc.toNat + 2) % 65536 := UInt16.toNat_add _ _
  rw [branchPlace, toInt_branchTarget, hnext, displacement]
  omega

/-- A branch is listed with the place that it goes to. -/
theorem names_branchPlace (hdecode : decode (c.bus.read c.regs.pc) = some i)
    (hmode : i.mode = .relative) : Listing.Names c.listed i.mnemonic c.branchPlace := by
  rw [listed_eq hdecode, hmode]
  exact Listing.names_word i.mnemonic c.branchPlace

/-- A jump and a call are listed with the word behind the opcode. -/
theorem names_wordPlace (hdecode : decode (c.bus.read c.regs.pc) = some i)
    (hmode : i.mode = .absolute) : Listing.Names c.listed i.mnemonic c.wordPlace := by
  rw [listed_eq hdecode, hmode]
  exact Listing.names_word i.mnemonic c.wordPlace

/-! ## The processor -/

theorem operand_of_relative (c : Cpu Ram) (hmode : i.mode = .relative) :
    c.operand i = .address (c.regs.pc + 1) := by
  rw [operand, hmode]
  exact congrArg Operand.address UInt16.ofNat_toNat

theorem operand_of_absolute (c : Cpu Ram) (hmode : i.mode = .absolute) :
    c.operand i = .address c.wordPlace := by
  have hnext : c.regs.pc + 1 + 1 = c.regs.pc + 2 := UInt16.add_assoc _ _ _
  have hword := c.bus.toNat_wordOfBytes_next (c.regs.pc + 1)
  rw [hnext] at hword
  rw [operand, hmode, operandOf_eq_address_iff]
  exact congrArg some hword.symm

theorem toNat_wordPlace (c : Cpu Ram) :
    c.wordPlace.toNat = c.bus.wordAt (c.regs.pc.toNat + 1) (c.regs.pc.toNat + 2) := by
  have hfirst : (c.regs.pc + 1).toNat = (c.regs.pc.toNat + 1) % 65536 := UInt16.toNat_add _ _
  have hsecond : (c.regs.pc + 2).toNat = (c.regs.pc.toNat + 2) % 65536 := UInt16.toNat_add _ _
  rw [wordPlace, Ram.toNat_wordOfBytes_read, Ram.wordAt, hfirst, hsecond, Ram.byteAt_mod,
    Ram.byteAt_mod, Ram.wordAt]

/-- A branch that is taken sets the program counter and nothing else. -/
theorem performed_branch (c : Cpu Ram) (hmode : i.mode = .relative) {flag : Flag} {value : Bool}
    (haction : i.mnemonic.action = .branch flag value) :
    c.performed i = if c.regs.status.get flag = value then
        ⟨c.atOperands.setPc c.branchPlace, true, branchPenalty (c.regs.pc + 2) c.branchPlace⟩
      else .sequential c.atOperands := by
  have hnext : c.regs.pc + 1 + 1 = c.regs.pc + 2 := UInt16.add_assoc _ _ _
  have htaken : c.atOperands.branch (.address (c.regs.pc + 1)) =
      ⟨c.atOperands.setPc c.branchPlace, true, branchPenalty (c.regs.pc + 2) c.branchPlace⟩ := by
    rw [branchPlace, ← hnext, branch, readOperand_ram]
    rfl
  rw [performed, haction, operand_of_relative c hmode]
  exact congrArg (fun taken => if c.regs.status.get flag = value then taken
    else .sequential c.atOperands) htaken

theorem performed_jmp (c : Cpu Ram) (haction : i.mnemonic.action = .jump) :
    c.performed i = .jump (c.atOperands.jumpTo (c.operand i)) := by
  rw [performed, haction]
  rfl

theorem sameData_jumpTo (c : Cpu Ram) (operand : Operand) : SameData (c.jumpTo operand) c := by
  cases operand with
  | address target => exact sameData_setPc c target
  | accumulator | absent => exact ⟨rfl, rfl, rfl, rfl, rfl, rfl⟩

/-- A processor that has pushed the address of the last byte of the call. -/
def called (c : Cpu Ram) : Cpu Ram :=
  { c with
    bus := c.bus.pushed c.regs.sp [highByte (c.regs.pc + 2), lowByte (c.regs.pc + 2)]
    regs := { c.regs with sp := c.regs.sp - 2 } }

theorem performed_jsr (c : Cpu Ram) (hmode : i.mode = .absolute)
    (haction : i.mnemonic.action = .call) :
    (c.performed i).jumped = true ∧ (c.performed i).cpu.regs.pc = c.wordPlace ∧
      SameData (c.performed i).cpu c.called := by
  have hback : c.atOperands.regs.pc + 1 = c.regs.pc + 2 := UInt16.add_assoc _ _ _
  have hsp : c.regs.sp - 1 - 1 = c.regs.sp - 2 := (sub_ofNat_add _ 1 1).symm
  rw [performed, haction, operand_of_absolute c hmode, perform, hback, pushWord_ram]
  exact ⟨rfl, rfl, rfl, rfl, rfl, rfl, hsp, rfl⟩

end Cpu

open Cpu in
/-- Transfers of control go where the listing of the instruction says, for every program counter,
operand and content of memory. A branch goes to the next instruction plus a signed distance, modulo
`2 ^ 16`, exactly if its flag has the value it asks for, and on to the next instruction otherwise; a
jump and a call go to the word behind the opcode. Branches and jumps change none of the registers
for data, nor the status, nor memory, and a call does no more than push the address of its last
byte, high byte first. -/
theorem transfers_as_listed (tracing : Bool) {c : Cpu Ram} {i : Instruction} (h : c.Executes i) :
    let d := (c.step tracing).cpu
    (c.step tracing).result = .ok () ∧
      (∀ flag value, i.mnemonic.condition? = some (flag, value) →
        (c.branchPlace.toNat : Int) = (c.regs.pc.toNat + 2 + c.displacement) % 65536 ∧
          Listing.Names c.listed i.mnemonic c.branchPlace ∧
          d.regs.pc = (if c.regs.status.get flag = value then c.branchPlace else c.regs.pc + 2) ∧
          SameData d c) ∧
      (i.mnemonic = .jmp → SameData d c ∧
        (i.mode = .absolute →
          d.regs.pc.toNat = c.bus.wordAt (c.regs.pc.toNat + 1) (c.regs.pc.toNat + 2) ∧
            Listing.Names c.listed .jmp d.regs.pc)) ∧
      (i.mnemonic = .jsr →
        d.regs.pc.toNat = c.bus.wordAt (c.regs.pc.toNat + 1) (c.regs.pc.toNat + 2) ∧
          Listing.Names c.listed .jsr d.regs.pc ∧ SameData d c.called) := by
  intro d
  obtain ⟨hresult, hsame, hpc⟩ := h.step tracing
  refine ⟨hresult, ?_, ?_, ?_⟩
  · intro flag value hcondition
    have hmode := mode_of_condition h.decoded (Option.isSome_iff_exists.mpr ⟨_, hcondition⟩)
    have hperformed := c.performed_branch hmode (Mnemonic.action_of_condition hcondition)
    refine ⟨c.toInt_branchPlace, names_branchPlace h.decoded hmode, ?_⟩
    have hoperandBytes : i.mode.operandBytes = 1 := by rw [hmode]; rfl
    rw [hperformed] at hpc hsame
    by_cases htaken : c.regs.status.get flag = value
    · simp only [if_pos htaken] at hpc hsame ⊢
      exact ⟨hpc, hsame.trans ((sameData_setPc _ _).trans c.sameData_atOperands)⟩
    · simp only [if_neg htaken, hoperandBytes] at hpc hsame ⊢
      exact ⟨hpc.trans (UInt16.add_assoc _ _ _), hsame.trans c.sameData_atOperands⟩
  · intro hjmp
    have hperformed := c.performed_jmp (i := i) (by rw [hjmp]; rfl)
    rw [hperformed] at hpc hsame
    refine ⟨hsame.trans ((sameData_jumpTo _ _).trans c.sameData_atOperands), ?_⟩
    intro hmode
    have htarget : d.regs.pc = c.wordPlace := by
      rw [operand_of_absolute c hmode] at hpc
      exact hpc
    rw [htarget, ← hjmp]
    exact ⟨c.toNat_wordPlace, names_wordPlace h.decoded hmode⟩
  · intro hjsr
    have hmode := mode_of_jsr h.decoded hjsr
    obtain ⟨hjumped, htarget, hcalled⟩ := c.performed_jsr hmode (by rw [hjsr]; rfl)
    rw [if_pos hjumped, htarget] at hpc
    rw [hpc, ← hjsr]
    exact ⟨c.toNat_wordPlace, names_wordPlace h.decoded hmode, hsame.trans hcalled⟩

/-- A program that branches at the last address of memory, backwards over its beginning, then jumps
and calls. -/
def transferRam : Ram :=
  ((Ram.zeroed.load 0xFFFC [0xFF, 0xFF, 0x00, 0xD0, 0x80]).load 0xFF81 [0x4C, 0x00, 0x03]).load
    0x0300 [0x20, 0x34, 0x12]

open Cpu in
/-- The displacement lies at the beginning of memory, and the way back of the call in its stack. -/
theorem transfers_as_listed_around :
    let c := (Cpu.powerOn transferRam .halt).reset
    let d := (c.step false).cpu
    let e := (d.step false).cpu
    let f := (e.step false).cpu
    (c.Executes ⟨0xD0, .bne, .relative, 2, false⟩ ∧ c.regs.pc = 0xFFFF ∧ d.regs.pc = 0xFF81 ∧
        Listing.Names c.listed .bne 0xFF81 ∧ SameData d c) ∧
      (d.Executes ⟨0x4C, .jmp, .absolute, 3, false⟩ ∧ e.regs.pc = 0x0300 ∧
        Listing.Names d.listed .jmp 0x0300 ∧ SameData e d) ∧
      (e.Executes ⟨0x20, .jsr, .absolute, 6, false⟩ ∧ f.regs.pc = 0x1234 ∧
        Listing.Names e.listed .jsr 0x1234 ∧ SameData f e.called ∧
        f.bus.read 0x01FD = 0x03 ∧ f.bus.read 0x01FC = 0x02) := by
  intro c d e f
  have hbranch : c.Executes ⟨0xD0, .bne, .relative, 2, false⟩ := by
    decide +kernel
  have hjump : d.Executes ⟨0x4C, .jmp, .absolute, 3, false⟩ := by
    decide +kernel
  have hcall : e.Executes ⟨0x20, .jsr, .absolute, 6, false⟩ := by
    decide +kernel
  have hplace : c.branchPlace = 0xFF81 := by decide +kernel
  have hd : d.regs.pc = 0xFF81 := by decide +kernel
  have he : e.regs.pc = 0x0300 := by decide +kernel
  have hf : f.regs.pc = 0x1234 := by decide +kernel
  obtain ⟨-, hbne, -, -⟩ := transfers_as_listed false hbranch
  obtain ⟨-, -, hjmp, -⟩ := transfers_as_listed false hjump
  obtain ⟨-, -, -, hjsr⟩ := transfers_as_listed false hcall
  obtain ⟨-, hbranchNames, -, hbranchSame⟩ := hbne .zero false rfl
  obtain ⟨hjumpSame, habsolute⟩ := hjmp rfl
  have hjumpNames := (habsolute rfl).2
  obtain ⟨-, hcallNames, hcallSame⟩ := hjsr rfl
  rw [hplace] at hbranchNames
  rw [show ((d.step false).cpu.regs.pc) = 0x0300 from he] at hjumpNames
  rw [show ((e.step false).cpu.regs.pc) = 0x1234 from hf] at hcallNames
  exact ⟨⟨hbranch, by decide +kernel, hd, hbranchNames, hbranchSame⟩,
    ⟨hjump, he, hjumpNames, hjumpSame⟩,
    ⟨hcall, hf, hcallNames, hcallSame, by decide +kernel, by decide +kernel⟩⟩

end Nes6502
