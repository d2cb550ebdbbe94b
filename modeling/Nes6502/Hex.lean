/-!
# Hexadecimal and decimal text

Bytes and words are written with a fixed number of digits, most significant digit first. Listings
use upper-case letters and error messages lower-case ones. `digitValue?` reads a digit of either
case back.
-/

set_option autoImplicit false

namespace Nes6502.Hex

/-- Which letters stand for the digits from ten to fifteen. -/
inductive LetterCase where
  | upper
  | lower

/-- The character of a digit below sixteen. -/
def digit (letters : LetterCase) (value : Nat) : Char :=
  if value < 10 then Char.ofNat (0x30 + value)
  else match letters with
    | .upper => Char.ofNat (0x37 + value)
    | .lower => Char.ofNat (0x57 + value)

/-- A byte as two digits. -/
def byte (letters : LetterCase) (value : UInt8) : List Char :=
  [digit letters (value.toNat / 16), digit letters (value.toNat % 16)]

/-- A word as four digits. -/
def word (letters : LetterCase) (value : UInt16) : List Char :=
  byte letters (value >>> 8).toUInt8 ++ byte letters value.toUInt8

/-- The value of a hexadecimal digit of either case. -/
def digitValue? (c : Char) : Option Nat :=
  if '0' ≤ c ∧ c ≤ '9' then some (c.toNat - 0x30)
  else if 'A' ≤ c ∧ c ≤ 'F' then some (c.toNat - 0x37)
  else if 'a' ≤ c ∧ c ≤ 'f' then some (c.toNat - 0x57)
  else none

/-- A byte in upper case, as a string. -/
def byteText (value : UInt8) : String := String.ofList (byte .upper value)

/-- A word in upper case, as a string. -/
def wordText (value : UInt16) : String := String.ofList (word .upper value)

end Nes6502.Hex
