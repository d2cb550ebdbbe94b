import Nes6502.Hex
import Nes6502.Proofs.Memory

/-!
# Reading hexadecimal digits back

Digits are read from the most significant one on, in either case. What is written with two or four
digits reads back as it was. In a line of text, a byte is found by the column that its digits begin
in; a column that is left blank holds none.

## What is proved

* `Hex.digitValue?_digit`: a digit that is written reads back.
* `Hex.isDigit_of_foldlM`, `Hex.le_of_foldlM`: a text with a value is all digits, and the value of
  its first digits is no larger.
* `Hex.value?_byte`, `Hex.value?_word`: so do bytes and words.
* `Hex.numeral_byte`, `Hex.numeral_word` and those beside them: in either case they are numerals of
  two and four digits.
* `Hex.Numeral.eq`: a number has one numeral.
* `Hex.byteAt?_of_drop`: a byte in a line is found at its column.
-/

set_option autoImplicit false

namespace Nes6502.Hex

/-- Whether a character is a digit, of either case. -/
def isDigit (c : Char) : Bool := (digitValue? c).isSome

/-- Reads one digit more. -/
def shiftIn (number : Nat) (c : Char) : Option Nat := (digitValue? c).map (16 * number + ·)

/-- The number that digits stand for; no digits stand for zero. -/
def value? (digits : List Char) : Option Nat := digits.foldlM shiftIn 0

theorem digitValue?_digit (letters : LetterCase) {value : Nat} (h : value < 16) :
    digitValue? (digit letters value) = some value := by
  revert value
  cases letters <;> decide

theorem isDigit_digit (letters : LetterCase) {value : Nat} (h : value < 16) :
    isDigit (digit letters value) = true := by
  rw [isDigit, digitValue?_digit letters h]
  rfl

theorem isDigit_of_mem_byte {letters : LetterCase} {value : UInt8} {c : Char}
    (h : c ∈ byte letters value) : isDigit c = true := by
  have hvalue := value.toNat_lt
  simp only [byte, List.mem_cons, List.not_mem_nil, or_false] at h
  rcases h with rfl | rfl
  · exact isDigit_digit letters (by omega)
  · exact isDigit_digit letters (by omega)

theorem isDigit_of_mem_word {letters : LetterCase} {value : UInt16} {c : Char}
    (h : c ∈ word letters value) : isDigit c = true := by
  rcases List.mem_append.mp h with h | h
  · exact isDigit_of_mem_byte h
  · exact isDigit_of_mem_byte h

theorem digitValue?_lt {c : Char} {value : Nat} (h : digitValue? c = some value) : value < 16 := by
  simp only [digitValue?, Char.le_def, UInt32.le_iff_toNat_le] at h
  split at h
  · next hdigit =>
      have hlast : c.toNat ≤ 0x39 := hdigit.2
      cases h
      omega
  · split at h
    · next hletter =>
        have hlast : c.toNat ≤ 0x46 := hletter.2
        cases h
        omega
    · split at h
      · next hletter =>
          have hlast : c.toNat ≤ 0x66 := hletter.2
          cases h
          omega
      · cases h

theorem digitValue?_eq_none {c : Char} (h : isDigit c = false) : digitValue? c = none :=
  Option.isNone_iff_eq_none.mp (Option.isSome_eq_false_iff.mp h)

/-! ## The value of a text -/

theorem isDigit_of_shiftIn {number value : Nat} {c : Char} (h : shiftIn number c = some value) :
    isDigit c = true := by
  obtain ⟨digit, hdigit, -⟩ := Option.map_eq_some_iff.mp h
  rw [isDigit, hdigit]
  rfl

theorem le_of_shiftIn {number value : Nat} {c : Char} (h : shiftIn number c = some value) :
    number ≤ value := by
  obtain ⟨digit, -, rfl⟩ := Option.map_eq_some_iff.mp h
  omega

/-- A text with a value begins with a digit, and the other digits count on from it. -/
theorem foldlM_cons_eq_some {number value : Nat} {c : Char} {digits : List Char}
    (h : (c :: digits).foldlM shiftIn number = some value) :
    ∃ next, shiftIn number c = some next ∧ digits.foldlM shiftIn next = some value := by
  rw [List.foldlM_cons] at h
  exact Option.bind_eq_some_iff.mp h

theorem isDigit_of_foldlM {digits : List Char} {number value : Nat}
    (h : digits.foldlM shiftIn number = some value) : ∀ c ∈ digits, isDigit c = true := by
  induction digits generalizing number with
  | nil => simp
  | cons c digits ih =>
    obtain ⟨next, hnext, hrest⟩ := foldlM_cons_eq_some h
    exact List.forall_mem_cons.mpr ⟨isDigit_of_shiftIn hnext, ih hrest⟩

theorem le_of_foldlM {digits : List Char} {number value : Nat}
    (h : digits.foldlM shiftIn number = some value) : number ≤ value := by
  induction digits generalizing number with
  | nil => exact Nat.le_of_eq (Option.some.inj h)
  | cons c digits ih =>
    obtain ⟨next, hnext, hrest⟩ := foldlM_cons_eq_some h
    exact Nat.le_trans (le_of_shiftIn hnext) (ih hrest)

/-! ## Bytes and words -/

/-- The two digits of a byte count on from what was read before them. -/
theorem foldlM_byte (letters : LetterCase) (value : UInt8) (number : Nat) :
    (byte letters value).foldlM shiftIn number = some (256 * number + value.toNat) := by
  have hvalue := value.toNat_lt
  simp only [byte, List.foldlM_cons, List.foldlM_nil, shiftIn,
    digitValue?_digit letters (show value.toNat / 16 < 16 by omega),
    digitValue?_digit letters (show value.toNat % 16 < 16 by omega)]
  show some (16 * (16 * number + value.toNat / 16) + value.toNat % 16) = _
  congr 1
  omega

theorem value?_byte (letters : LetterCase) (value : UInt8) :
    value? (byte letters value) = some value.toNat := by
  rw [value?, foldlM_byte, Nat.mul_zero, Nat.zero_add]

theorem value?_word (letters : LetterCase) (value : UInt16) :
    value? (word letters value) = some value.toNat := by
  have hhigh : (value >>> 8).toUInt8.toNat = value.toNat / 256 := toNat_highByte value
  have hlow : value.toUInt8.toNat = value.toNat % 256 := toNat_lowByte value
  rw [value?, word, List.foldlM_append, foldlM_byte]
  show (byte letters value.toUInt8).foldlM shiftIn _ = _
  rw [foldlM_byte, hhigh, hlow]
  congr 1
  omega

/-! ## Numerals -/

/-- The digits, as they are written in upper case. -/
def upperDigits : List Char :=
  ['0', '1', '2', '3', '4', '5', '6', '7', '8', '9', 'A', 'B', 'C', 'D', 'E', 'F']

/-- The digits, as they are written in lower case. -/
def lowerDigits : List Char :=
  ['0', '1', '2', '3', '4', '5', '6', '7', '8', '9', 'a', 'b', 'c', 'd', 'e', 'f']

/-- A text that writes a number with a fixed number of digits in upper case. -/
structure Numeral (text : List Char) (digits value : Nat) : Prop where
  length : text.length = digits
  upper : ∀ c ∈ text, c ∈ upperDigits
  value : value? text = some value

/-- The digits that are written in one case. -/
def LetterCase.digits : LetterCase → List Char
  | .upper => upperDigits
  | .lower => lowerDigits

theorem digit_mem_digits (letters : LetterCase) {value : Nat} (h : value < 16) :
    digit letters value ∈ letters.digits := by
  revert value
  cases letters <;> decide

theorem mem_digits_of_mem_byte {letters : LetterCase} {value : UInt8} {c : Char}
    (h : c ∈ byte letters value) : c ∈ letters.digits := by
  have hvalue := value.toNat_lt
  simp only [byte, List.mem_cons, List.not_mem_nil, or_false] at h
  rcases h with rfl | rfl
  · exact digit_mem_digits letters (by omega)
  · exact digit_mem_digits letters (by omega)

theorem mem_digits_of_mem_word {letters : LetterCase} {value : UInt16} {c : Char}
    (h : c ∈ word letters value) : c ∈ letters.digits :=
  (List.mem_append.mp h).elim mem_digits_of_mem_byte mem_digits_of_mem_byte

theorem numeral_byte (value : UInt8) : Numeral (byte .upper value) 2 value.toNat :=
  ⟨rfl, fun _ => mem_digits_of_mem_byte, value?_byte .upper value⟩

theorem numeral_word (value : UInt16) : Numeral (word .upper value) 4 value.toNat :=
  ⟨rfl, fun _ => mem_digits_of_mem_word, value?_word .upper value⟩

theorem exists_digit_of_mem_upperDigits {c : Char} (h : c ∈ upperDigits) :
    ∃ value < 16, c = digit .upper value := by
  have hdigits : upperDigits = (List.range 16).map (digit .upper) := rfl
  rw [hdigits] at h
  obtain ⟨value, hvalue, rfl⟩ := List.mem_map.mp h
  exact ⟨value, List.mem_range.mp hvalue, rfl⟩

theorem eq_of_digitValue? {c c' : Char} (hc : c ∈ upperDigits) (hc' : c' ∈ upperDigits)
    (h : digitValue? c = digitValue? c') : c = c' := by
  obtain ⟨value, hvalue, rfl⟩ := exists_digit_of_mem_upperDigits hc
  obtain ⟨value', hvalue', rfl⟩ := exists_digit_of_mem_upperDigits hc'
  rw [digitValue?_digit .upper hvalue, digitValue?_digit .upper hvalue'] at h
  rw [Option.some.inj h]

/-- Texts of the same length that count on to the same number are the same. -/
theorem eq_of_foldlM {text other : List Char} {soFar soFar' value : Nat}
    (hupper : ∀ c ∈ text, c ∈ upperDigits) (hupper' : ∀ c ∈ other, c ∈ upperDigits)
    (hlength : text.length = other.length) (h : text.foldlM shiftIn soFar = some value)
    (h' : other.foldlM shiftIn soFar' = some value) : text = other ∧ soFar = soFar' := by
  induction text generalizing other soFar soFar' with
  | nil =>
    obtain rfl := List.length_eq_zero_iff.mp hlength.symm
    exact ⟨rfl, Option.some.inj (h.trans h'.symm)⟩
  | cons c text ih =>
    cases other with
    | nil => cases hlength
    | cons c' other =>
      obtain ⟨next, hnext, hrest⟩ := foldlM_cons_eq_some h
      obtain ⟨next', hnext', hrest'⟩ := foldlM_cons_eq_some h'
      rw [List.forall_mem_cons] at hupper hupper'
      obtain ⟨rfl, rfl⟩ := ih hupper.2 hupper'.2 (Nat.succ.inj hlength) hrest hrest'
      obtain ⟨digit, hdigit, rfl⟩ := Option.map_eq_some_iff.mp hnext
      obtain ⟨digit', hdigit', heq⟩ := Option.map_eq_some_iff.mp hnext'
      have hlt := digitValue?_lt hdigit
      have hlt' := digitValue?_lt hdigit'
      have hsame : digit = digit' ∧ soFar = soFar' := by omega
      obtain ⟨rfl, rfl⟩ := hsame
      exact ⟨congrArg (· :: text) (eq_of_digitValue? hupper.1 hupper'.1
        (hdigit.trans hdigit'.symm)), rfl⟩

theorem Numeral.eq {text other : List Char} {digits value : Nat} (h : Numeral text digits value)
    (h' : Numeral other digits value) : text = other :=
  (eq_of_foldlM h.upper h'.upper (h.length.trans h'.length.symm) h.value h'.value).1

/-! ## Bytes in columns -/

/-- What begins in a column of a line is followed by what stands from its end on. -/
theorem drop_of_prefix {line first : List Char} {column : Nat} (h : first <+: line.drop column) :
    line.drop column = first ++ line.drop (column + first.length) := by
  obtain ⟨rest, hrest⟩ := h
  rw [← List.drop_drop, ← hrest, List.drop_left]

/-- The byte whose digits begin in a column of a line, if there is one. -/
def byteAt? (line : List Char) (column : Nat) : Option UInt8 :=
  match line.drop column with
  | high :: low :: _ => (value? [high, low]).map UInt8.ofNat
  | _ => none

theorem byteAt?_of_drop {letters : LetterCase} {line rest : List Char} {column : Nat}
    {value : UInt8} (h : line.drop column = byte letters value ++ rest) :
    byteAt? line column = some value := by
  have hvalue : byteAt? line column = (value? (byte letters value)).map UInt8.ofNat := by
    simp only [byteAt?, h]
    rfl
  rw [hvalue, value?_byte, Option.map_some, UInt8.ofNat_toNat]

theorem byteAt?_of_blank {line rest : List Char} {column : Nat}
    (h : line.drop column = ' ' :: ' ' :: rest) : byteAt? line column = none := by
  simp only [byteAt?, h]
  rfl

/-- The bytes in some columns of a line, without those that are left blank. -/
def bytesAt (line : List Char) (column : Nat → Nat) (count : Nat) : List UInt8 :=
  (List.range count).filterMap fun i => byteAt? line (column i)

theorem bytesAt_eq_take {line : List Char} {column : Nat → Nat} {row : List UInt8} {count : Nat}
    (h : ∀ i < count, byteAt? line (column i) = row[i]?) :
    bytesAt line column count = row.take count := by
  rw [bytesAt]
  induction count with
  | zero => rfl
  | succ count ih =>
    rw [List.range_succ, List.filterMap_append, ih fun i hi => h i (Nat.lt_succ_of_lt hi),
      List.take_add_one, List.filterMap_cons, h count (Nat.lt_succ_self count)]
    cases row[count]? <;> rfl

end Nes6502.Hex
