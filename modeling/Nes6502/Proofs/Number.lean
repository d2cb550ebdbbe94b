import Nes6502.CommandLine.Number
import Nes6502.Proofs.Hex

/-!
# Reading hexadecimal numbers

A number is read digit by digit, and the reading ends at the first character that is no digit or
with the first digit that makes the value too large, whichever comes first. The value only grows, so
the digits before that place have a value below the bound, and what comes behind it does not
matter.

## What is proved

* `Number.readDigits_eq_iff`: what comes of reading digits.
* `Number.read_eq_iff`: what comes of reading a number, with a sign or without one.
* `Number.read_eq_ok_iff` and those beside it: the texts with each result.
-/

set_option autoImplicit false

namespace Nes6502.CommandLine

/-! ## Reading digits -/

namespace Number

/-- What comes of reading a text of hexadecimal digits after those that have the value so far. -/
inductive Reading (bound soFar : Nat) (text : List Char) : Except NumberError Nat → Prop where
  | number {value : Nat} (all : text.foldlM Hex.shiftIn soFar = some value)
      (small : value < bound) : Reading bound soFar text (.ok value)
  | offending (digits : List Char) (c : Char) (more : List Char) {value : Nat}
      (split : text = digits ++ c :: more) (read : digits.foldlM Hex.shiftIn soFar = some value)
      (small : value < bound) (bad : Hex.isDigit c = false) :
      Reading bound soFar text (.error .invalidDigit)
  | large (digits more : List Char) {value : Nat}
      (split : text = digits ++ more) (read : digits.foldlM Hex.shiftIn soFar = some value)
      (large : bound ≤ value) : Reading bound soFar text (.error .tooLarge)

theorem digitValue?_sixteen (c : Char) : digitValue? 16 c = Hex.digitValue? c := by
  rw [digitValue?]
  cases h : Hex.digitValue? c with
  | none => rfl
  | some value => rw [Option.filter_some, if_pos (decide_eq_true (Hex.digitValue?_lt h))]

variable {bound soFar : Nat} {c : Char} {rest : List Char}

theorem readDigits_of_not_isDigit (h : Hex.isDigit c = false) :
    readDigits 16 bound soFar (c :: rest) = .error .invalidDigit := by
  rw [readDigits, digitValue?_sixteen, Hex.digitValue?_eq_none h]

theorem readDigits_of_shiftIn {next : Nat} (h : Hex.shiftIn soFar c = some next) :
    readDigits 16 bound soFar (c :: rest) =
      if next < bound then readDigits 16 bound next rest else .error .tooLarge := by
  obtain ⟨digit, hdigit, rfl⟩ := Option.map_eq_some_iff.mp h
  rw [readDigits, digitValue?_sixteen, hdigit]

/-- Digits that stay below the bound are read one after the other. -/
theorem readDigits_append {digits : List Char} {value : Nat}
    (h : digits.foldlM Hex.shiftIn soFar = some value) (hsmall : value < bound) :
    readDigits 16 bound soFar (digits ++ rest) = readDigits 16 bound value rest := by
  induction digits generalizing soFar with
  | nil =>
    cases h
    rfl
  | cons c digits ih =>
    obtain ⟨next, hnext, hrest⟩ := Hex.foldlM_cons_eq_some h
    have hle : next ≤ value := Hex.le_of_foldlM hrest
    rw [List.cons_append, readDigits_of_shiftIn hnext, if_pos (by omega), ih hrest]

/-- Digits that reach the bound end the reading, whatever follows them. -/
theorem readDigits_of_large {digits : List Char} {value : Nat}
    (h : digits.foldlM Hex.shiftIn soFar = some value) (hsoFar : soFar < bound)
    (hlarge : bound ≤ value) :
    readDigits 16 bound soFar (digits ++ rest) = .error .tooLarge := by
  induction digits generalizing soFar with
  | nil =>
    cases h
    omega
  | cons c digits ih =>
    obtain ⟨next, hnext, hrest⟩ := Hex.foldlM_cons_eq_some h
    rw [List.cons_append, readDigits_of_shiftIn hnext]
    by_cases hsmall : next < bound
    · rw [if_pos hsmall, ih hrest hsmall]
    · rw [if_neg hsmall]

theorem Reading.eq {text : List Char} {result : Except NumberError Nat}
    (h : Reading bound soFar text result) (hsoFar : soFar < bound) :
    readDigits 16 bound soFar text = result := by
  cases h with
  | number all small =>
    rw [← List.append_nil text, readDigits_append all small]
    rfl
  | offending digits c more split read small bad =>
    rw [split, readDigits_append read small, readDigits_of_not_isDigit bad]
  | large digits more split read large =>
    rw [split, readDigits_of_large read hsoFar large]

/-- A digit that was read may stand before what came of the rest. -/
theorem Reading.cons {next : Nat} {result : Except NumberError Nat}
    (hnext : Hex.shiftIn soFar c = some next) (h : Reading bound next rest result) :
    Reading bound soFar (c :: rest) result := by
  have hfold : ∀ digits : List Char,
      (c :: digits).foldlM Hex.shiftIn soFar = digits.foldlM Hex.shiftIn next := by
    intro digits
    rw [List.foldlM_cons, hnext]
    rfl
  cases h with
  | number all small => exact .number ((hfold rest).trans all) small
  | offending digits d more split read small bad =>
    exact .offending (c :: digits) d more (congrArg (c :: ·) split) ((hfold digits).trans read)
      small bad
  | large digits more split read large =>
    exact .large (c :: digits) more (congrArg (c :: ·) split) ((hfold digits).trans read) large

theorem reading_readDigits (text : List Char) (hsoFar : soFar < bound) :
    Reading bound soFar text (readDigits 16 bound soFar text) := by
  induction text generalizing soFar with
  | nil => exact .number rfl hsoFar
  | cons c rest ih =>
    cases hshift : Hex.shiftIn soFar c with
    | none =>
      have hbad : Hex.isDigit c = false := by
        rw [Hex.isDigit, Option.map_eq_none_iff.mp hshift]
        rfl
      rw [readDigits_of_not_isDigit hbad]
      exact .offending [] c rest rfl rfl hsoFar hbad
    | some next =>
      rw [readDigits_of_shiftIn hshift]
      by_cases hsmall : next < bound
      · rw [if_pos hsmall]
        exact (ih hsmall).cons hshift
      · rw [if_neg hsmall]
        refine .large [c] rest rfl ?_ (Nat.le_of_not_lt hsmall)
        rw [List.foldlM_cons, hshift]
        rfl

theorem readDigits_eq_iff {text : List Char} {result : Except NumberError Nat}
    (hsoFar : soFar < bound) :
    readDigits 16 bound soFar text = result ↔ Reading bound soFar text result :=
  ⟨fun h => h ▸ reading_readDigits text hsoFar, fun h => h.eq hsoFar⟩

/-! ## The sign -/

/-- A number without the plus sign that may stand before it. -/
def unsigned : List Char → List Char
  | '+' :: digits => digits
  | digits => digits

theorem unsigned_of_head {text : List Char} (h : text.head? ≠ some '+') : unsigned text = text := by
  rw [unsigned.eq_def]
  split
  · exact absurd rfl h
  · rfl

/-- A text is what is left of it without a sign, after a sign or after nothing. -/
theorem exists_sign (text : List Char) :
    ∃ sign, (sign = [] ∨ sign = ['+']) ∧ text = sign ++ unsigned text := by
  rw [unsigned.eq_def]
  split
  · exact ⟨['+'], .inr rfl, rfl⟩
  · exact ⟨[], .inl rfl, rfl⟩

/-- A number is read from its digits, unless there are none. -/
theorem read_of_unsigned {text : List Char} (h : unsigned text ≠ []) :
    read 16 bound text = readDigits 16 bound 0 (unsigned text) := by
  rw [read.eq_def, unsigned.eq_def] at *
  split
  · exact absurd rfl h
  · exact absurd rfl h
  · rfl
  · next hlone hsigned =>
      split
      · exact absurd rfl (hsigned _)
      · rfl

theorem read_of_unsigned_nil {text : List Char} (h : unsigned text = []) :
    text = [] ∧ read 16 bound text = .error .empty ∨
      text = ['+'] ∧ read 16 bound text = .error .invalidDigit := by
  obtain ⟨sign, rfl | rfl, htext⟩ := exists_sign text
  · rw [h] at htext
    subst htext
    exact .inl ⟨rfl, rfl⟩
  · rw [h] at htext
    subst htext
    exact .inr ⟨rfl, rfl⟩

/-- Reading a number fails on no text and on a lone sign, and else comes to reading digits. -/
theorem read_eq_iff {text : List Char} {result : Except NumberError Nat} (hbound : 0 < bound) :
    read 16 bound text = result ↔
      text = [] ∧ result = .error .empty ∨ text = ['+'] ∧ result = .error .invalidDigit ∨
        unsigned text ≠ [] ∧ Reading bound 0 (unsigned text) result := by
  constructor
  · rintro rfl
    by_cases h : unsigned text = []
    · rcases read_of_unsigned_nil h with hempty | hlone
      · exact .inl hempty
      · exact .inr (.inl hlone)
    · exact .inr (.inr ⟨h, (readDigits_eq_iff hbound).mp (read_of_unsigned h).symm⟩)
  · rintro (⟨rfl, rfl⟩ | ⟨rfl, rfl⟩ | ⟨h, hreading⟩)
    · rfl
    · rfl
    · exact (read_of_unsigned h).trans (hreading.eq hbound)

variable {text : List Char}

theorem read_eq_ok_iff {value : Nat} (hbound : 0 < bound) :
    read 16 bound text = .ok value ↔
      unsigned text ≠ [] ∧ Hex.value? (unsigned text) = some value ∧ value < bound := by
  rw [read_eq_iff hbound]
  constructor
  · rintro (⟨-, hresult⟩ | ⟨-, hresult⟩ | ⟨hsome, hreading⟩)
    · cases hresult
    · cases hresult
    · cases hreading with
      | number all small => exact ⟨hsome, all, small⟩
  · rintro ⟨hsome, hvalue, hsmall⟩
    exact .inr (.inr ⟨hsome, .number hvalue hsmall⟩)

theorem read_eq_empty_iff (hbound : 0 < bound) :
    read 16 bound text = .error .empty ↔ text = [] := by
  rw [read_eq_iff hbound]
  constructor
  · rintro (⟨htext, -⟩ | ⟨-, hresult⟩ | ⟨-, hreading⟩)
    · exact htext
    · cases hresult
    · cases hreading
  · rintro rfl
    exact .inl ⟨rfl, rfl⟩

theorem read_eq_invalidDigit_iff (hbound : 0 < bound) :
    read 16 bound text = .error .invalidDigit ↔
      text = ['+'] ∨ ∃ digits c more value, unsigned text = digits ++ c :: more ∧
        Hex.isDigit c = false ∧ Hex.value? digits = some value ∧ value < bound := by
  rw [read_eq_iff hbound]
  constructor
  · rintro (⟨-, hresult⟩ | ⟨htext, -⟩ | ⟨-, hreading⟩)
    · cases hresult
    · exact .inl htext
    · cases hreading with
      | offending digits c more split read small bad =>
        exact .inr ⟨digits, c, more, _, split, bad, read, small⟩
  · rintro (htext | ⟨digits, c, more, value, split, bad, hvalue, hsmall⟩)
    · exact .inr (.inl ⟨htext, rfl⟩)
    · have hsome : unsigned text ≠ [] := by
        rw [split]
        exact List.append_ne_nil_of_right_ne_nil digits (List.cons_ne_nil c more)
      exact .inr (.inr ⟨hsome, .offending digits c more split hvalue hsmall bad⟩)

theorem read_eq_tooLarge_iff (hbound : 0 < bound) :
    read 16 bound text = .error .tooLarge ↔
      ∃ digits more value, unsigned text = digits ++ more ∧ Hex.value? digits = some value ∧
        bound ≤ value := by
  rw [read_eq_iff hbound]
  constructor
  · rintro (⟨-, hresult⟩ | ⟨-, hresult⟩ | ⟨-, hreading⟩)
    · cases hresult
    · cases hresult
    · cases hreading with
      | large digits more split read large => exact ⟨digits, more, _, split, read, large⟩
  · rintro ⟨digits, more, value, split, hvalue, hlarge⟩
    have hsome : unsigned text ≠ [] := by
      intro hnil
      obtain ⟨rfl, rfl⟩ := List.append_eq_nil_iff.mp (split.symm.trans hnil)
      -- no digits stand for zero, which is below every bound
      cases hvalue
      omega
    exact .inr (.inr ⟨hsome, .large digits more split hvalue hlarge⟩)

end Number

end Nes6502.CommandLine
