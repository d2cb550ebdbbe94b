import Nes6502.Proofs.Dependence
import Nes6502.Proofs.Hex
import Nes6502.Proofs.Listing

/-!
# Reading a trace line back

The parts of a trace line stand in fixed columns, since no instruction has more bytes and no text
more characters than its field has room for. `TraceLine.read?` takes a line apart by its columns
alone; of the number of cycles, which comes last, it takes all the digits there are.

## What is proved

* `TraceLine.layout_render`: how a line is laid out.
* `TraceLine.read?_render`: a line is read back.
* `Cpu.traceLine_ram`, `Cpu.traceLine_recorded`: the line of the instruction at the program counter,
  and the accesses that are made for it.
* `traceLine_lossless`: the three together.
-/

set_option autoImplicit false

namespace Nes6502

namespace TraceLine

/-! ## Columns -/

/-- A text in a field of a line, filled up with blanks. -/
structure Field (line : List Char) (column width : Nat) (text : List Char) : Prop where
  fits : text.length ≤ width
  filled : (line.drop column).take width = text ++ List.replicate (width - text.length) ' '

/-- The columns of a trace line. -/
structure Layout (pc : UInt16) (bytes : List UInt8) (text line : List Char) : Prop where
  pc : Hex.Numeral (line.take 4) 4 pc.toNat
  bytes : Field line 6 8 (bytesText bytes)
  text : Field line 16 30 text
  registers : (line.drop 48).take 2 = ['A', ':']

/-- What a trace line tells. -/
structure Contents where
  pc : UInt16
  bytes : List UInt8
  a : UInt8
  x : UInt8
  y : UInt8
  p : UInt8
  sp : UInt8
  cycles : UInt64
  deriving DecidableEq

/-- Takes a trace line apart. -/
def read? (line : List Char) : Option Contents := do
  let pc ← Hex.value? (line.take 4)
  let a ← Hex.byteAt? line 50
  let x ← Hex.byteAt? line 55
  let y ← Hex.byteAt? line 60
  let p ← Hex.byteAt? line 65
  let sp ← Hex.byteAt? line 71
  return {
    pc := UInt16.ofNat pc
    bytes := Hex.bytesAt line (fun i => 6 + 3 * i) 3
    a, x, y, p, sp
    cycles := UInt64.ofNat (Nat.ofDigitChars 10 (line.drop 78) 0) }

/-! ## The layout of a line -/

theorem length_padRight {width : Nat} {text : List Char} (h : text.length ≤ width) :
    (padRight width text).length = width := by
  rw [padRight, List.length_append, List.length_replicate, Nat.add_sub_cancel' h]

theorem field_of_drop {line rest text : List Char} {column width : Nat}
    (hfits : text.length ≤ width) (hdrop : line.drop column = padRight width text ++ rest) :
    Field line column width text :=
  ⟨hfits, by rw [hdrop, List.take_left' (length_padRight hfits), padRight]⟩

theorem length_bytesText_le {bytes : List UInt8} (h : bytes.length ≤ 3) :
    (bytesText bytes).length ≤ 8 := by
  match bytes, h with
  | [], _ | [_], _ | [_, _], _ | [_, _, _], _ => exact Nat.le_of_ble_eq_true rfl

section

variable {r : Registers} {bytes : List UInt8} {text : List Char}

theorem drop_bytes : (render r bytes text).drop 6 =
    padRight 8 (bytesText bytes) ++ ([' ', ' '] ++ (padRight 30 text ++
      ([' ', ' '] ++ registersText r))) := by
  simp only [render, List.append_assoc]
  rfl

theorem drop_text (hbytes : bytes.length ≤ 3) : (render r bytes text).drop 16 =
    padRight 30 text ++ ([' ', ' '] ++ registersText r) := by
  have hfield := length_padRight (length_bytesText_le hbytes)
  rw [show 16 = 6 + (8 + 2) from rfl, ← List.drop_drop, drop_bytes, ← List.drop_drop,
    List.drop_left' hfield]
  rfl

theorem drop_registers (hbytes : bytes.length ≤ 3) (htext : text.length ≤ 30) (k : Nat) :
    (render r bytes text).drop (48 + k) = (registersText r).drop k := by
  rw [show 48 + k = 16 + (30 + (2 + k)) by omega, ← List.drop_drop, drop_text hbytes,
    ← List.drop_drop, List.drop_left' (length_padRight htext), ← List.drop_drop]
  rfl

theorem layout_render (hbytes : bytes.length ≤ 3) (htext : text.length ≤ 30) :
    Layout r.pc bytes text (render r bytes text) where
  pc := Hex.numeral_word r.pc
  bytes := field_of_drop (length_bytesText_le hbytes) drop_bytes
  text := field_of_drop htext (drop_text hbytes)
  registers := by
    rw [drop_registers hbytes htext 0]
    rfl

/-! ## Reading it -/

/-- The cells of the bytes; those that are not needed are blank. -/
theorem byteAt?_render (hbytes : bytes.length ≤ 3) {i : Nat} (hi : i < 3) :
    Hex.byteAt? (render r bytes text) (6 + 3 * i) = bytes[i]? := by
  match bytes, hbytes, i, hi with
  | [], _, 0, _ | [], _, 1, _ | [], _, 2, _ => exact Hex.byteAt?_of_blank rfl
  | [_], _, 0, _ => exact Hex.byteAt?_of_drop rfl
  | [_], _, 1, _ | [_], _, 2, _ => exact Hex.byteAt?_of_blank rfl
  | [_, _], _, 0, _ | [_, _], _, 1, _ => exact Hex.byteAt?_of_drop rfl
  | [_, _], _, 2, _ => exact Hex.byteAt?_of_blank rfl
  | [_, _, _], _, 0, _ | [_, _, _], _, 1, _ | [_, _, _], _, 2, _ =>
    exact Hex.byteAt?_of_drop rfl

/-- The registers and the bytes that a line was made of. -/
def contents (r : Registers) (bytes : List UInt8) : Contents :=
  ⟨r.pc, bytes, r.a, r.x, r.y, r.status.bits, r.sp, r.cycles⟩

theorem read?_render (hbytes : bytes.length ≤ 3) (htext : text.length ≤ 30) :
    read? (render r bytes text) = some (contents r bytes) := by
  have hdrop := drop_registers (r := r) hbytes htext
  have hpc : Hex.value? ((render r bytes text).take 4) = some r.pc.toNat :=
    Hex.value?_word .upper r.pc
  have ha : Hex.byteAt? (render r bytes text) 50 = some r.a := Hex.byteAt?_of_drop (hdrop 2)
  have hx : Hex.byteAt? (render r bytes text) 55 = some r.x := Hex.byteAt?_of_drop (hdrop 7)
  have hy : Hex.byteAt? (render r bytes text) 60 = some r.y := Hex.byteAt?_of_drop (hdrop 12)
  have hp : Hex.byteAt? (render r bytes text) 65 = some r.status.bits :=
    Hex.byteAt?_of_drop (hdrop 17)
  have hsp : Hex.byteAt? (render r bytes text) 71 = some r.sp := Hex.byteAt?_of_drop (hdrop 23)
  have hcells : Hex.bytesAt (render r bytes text) (fun i => 6 + 3 * i) 3 = bytes := by
    rw [Hex.bytesAt_eq_take fun i => byteAt?_render hbytes, List.take_of_length_le hbytes]
  have hcycles : Nat.ofDigitChars 10 ((render r bytes text).drop 78) 0 = r.cycles.toNat := by
    rw [hdrop 30]
    exact Nat.ofDigitChars_toDigits (by decide) (by decide)
  simp only [read?, hpc, ha, hx, hy, hp, hsp, hcells, hcycles, UInt16.ofNat_toNat,
    UInt64.ofNat_toNat, contents, Option.bind_eq_bind, Option.bind_some, Option.pure_def]

end

end TraceLine

/-! ## Texts -/

namespace Listing

theorem length_operandText_le (mode : AddressingMode) (address : UInt16) (low high : UInt8) :
    (operandText mode address low high).length ≤ 8 := by
  cases mode <;> exact Nat.le_of_ble_eq_true rfl

/-- No text of an instruction is longer than eleven characters. -/
theorem length_text_entryIn_le (ram : Ram) (address : UInt16) :
    (entryIn ram address).text.length ≤ 11 := by
  rw [entryIn_eq]
  simp only [entryOf]
  split
  · exact Nat.le_of_ble_eq_true rfl
  next i _ =>
    have hletters : i.mnemonic.letters.length = 3 := by cases i.mnemonic <;> rfl
    have hoperand := length_operandText_le i.mode address (ram.read (address + 1))
      (ram.read (address + 2))
    rw [List.length_append, hletters]
    omega

end Listing

/-! ## Accesses -/

namespace Recorded

/-- The record of a look at so many bytes, one after the other. -/
def peeks (ram : Ram) (start : UInt16) (count : Nat) : List Access :=
  (List.range count).map fun k =>
    ⟨.peek, start + UInt16.ofNat k, ram.read (start + UInt16.ofNat k)⟩

/-- Memory with a record, after such a look. -/
def peeked (bus : Recorded Ram) (start : UInt16) (count : Nat) : Recorded Ram :=
  ⟨bus.inner, (peeks bus.inner start count).reverse ++ bus.record⟩

theorem looks_peeked (bus : Recorded Ram) (start : UInt16) (count : Nat) :
    Listing.Looks bus.inner start count (bus.peeked start) := by
  intro k _
  have hnext : peeks bus.inner start (k + 1) = peeks bus.inner start k ++
      [⟨.peek, start + UInt16.ofNat k, bus.inner.read (start + UInt16.ofNat k)⟩] := by
    rw [peeks, List.range_succ, List.map_append]
    rfl
  rw [peeked, peeked, hnext, List.reverse_append]
  rfl

theorem accesses_peeked (bus : Recorded Ram) (start : UInt16) (count : Nat) :
    (bus.peeked start count).accesses = bus.accesses ++ peeks bus.inner start count := by
  rw [accesses, peeked, List.reverse_append, List.reverse_reverse]
  rfl

end Recorded

namespace Cpu

theorem transact_of_reply {β α : Type} {c : Cpu β} {t : Transaction β α} {value : α} {last : β}
    (h : t c.bus = ⟨value, last, false⟩) : c.transact t = (value, { c with bus := last }) := by
  simp only [transact, h, Bool.or_false]

theorem traceLine_ram (c : Cpu Ram) :
    let entry := Listing.entryIn c.bus c.regs.pc
    c.traceLine =
      (TraceLine.render c.regs (c.bus.bytesFrom c.regs.pc entry.length) entry.text, c) := by
  intro entry
  have hentry : Listing.entryAt c.regs.pc c.bus = ⟨entry, c.bus, false⟩ := by
    rw [Listing.entryAt_ram, ← Listing.entryIn_eq]
  simp only [traceLine, transact_of_reply hentry,
    transact_of_reply (Listing.peekBytes_ram c.bus c.regs.pc entry.length)]

theorem traceLine_recorded (c : Cpu (Recorded Ram)) :
    let entry := Listing.entryIn c.bus.inner c.regs.pc
    c.traceLine =
      (TraceLine.render c.regs (c.bus.inner.bytesFrom c.regs.pc entry.length) entry.text,
        { c with
          bus := (c.bus.peeked c.regs.pc entry.length).peeked c.regs.pc entry.length }) := by
  intro entry
  have hentry : Listing.entryAt c.regs.pc c.bus =
      ⟨entry, c.bus.peeked c.regs.pc entry.length, false⟩ := by
    have hlooks := Listing.entryAt_of_looks (c.bus.looks_peeked c.regs.pc 3)
    simp only [← Listing.entryIn_eq] at hlooks
    exact hlooks
  have hbytes := Listing.peekBytes_of_looks
    ((c.bus.peeked c.regs.pc entry.length).looks_peeked c.regs.pc entry.length)
  simp only [traceLine, transact_of_reply hentry]
  rw [transact_of_reply hbytes]
  rfl

end Cpu

/-- Nothing is lost in a trace line. In memory, whatever the instruction is and wherever it lies,
the line has the program counter, the bytes of the instruction, its text as it is listed and the
registers in columns of their own; from the line alone, the program counter, the bytes, the
registers and the cycles are found again. Making it changes nothing. The bytes of the instruction
are peeked at in order, once for the text and once to be shown, and there is no other access. -/
theorem traceLine_lossless (c : Cpu Ram) :
    let line := c.traceLine.1
    let r := c.regs
    let entry := (Listing.entryAt r.pc c.bus).value
    let bytes := c.bus.bytesFrom r.pc entry.length
    TraceLine.Layout r.pc bytes entry.text line ∧
      TraceLine.read? line = some ⟨r.pc, bytes, r.a, r.x, r.y, r.status.bits, r.sp, r.cycles⟩ ∧
      c.traceLine.2 = c ∧ c.recorded.traceLine.1 = line ∧
      c.recorded.traceLine.2.bus.accesses =
        Recorded.peeks c.bus r.pc entry.length ++ Recorded.peeks c.bus r.pc entry.length := by
  intro line r entry bytes
  have hbytes : bytes.length ≤ 3 := by
    rw [Ram.length_bytesFrom]
    exact Listing.length_entryIn_le c.bus r.pc
  have htext : entry.text.length ≤ 30 :=
    Nat.le_trans (Listing.length_text_entryIn_le c.bus r.pc) (by decide)
  have hline : line = TraceLine.render r bytes entry.text := congrArg Prod.fst c.traceLine_ram
  refine ⟨?_, ?_, congrArg Prod.snd c.traceLine_ram, ?_, ?_⟩
  · rw [hline]
    exact TraceLine.layout_render hbytes htext
  · rw [hline]
    exact TraceLine.read?_render hbytes htext
  · rw [hline]
    exact congrArg Prod.fst c.recorded.traceLine_recorded
  · rw [c.recorded.traceLine_recorded, Recorded.accesses_peeked, Recorded.accesses_peeked]
    rfl

/-- An instruction of three bytes that goes on past the end of memory. -/
example :
    let ram := Ram.zeroed.load 0xFFFE [0x9D, 0x34, 0x12]
    let c := { Cpu.powerOn ram .halt with regs := { Registers.powerOn with pc := 0xFFFE, x := 7 } }
    String.ofList c.traceLine.1 =
      "FFFE  9D 34 12  STA $1234,X                     A:00 X:07 Y:00 P:24 SP:FD CYC:0" := by
  decide +kernel

end Nes6502
