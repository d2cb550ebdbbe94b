import Nes6502.Hex

/-!
# Numbers on the command line

An unsigned number is one or more digits, with a plus sign before them if one likes. What is not a
digit is reported before a value that is too large, at the place where either of them shows first.
-/

set_option autoImplicit false

namespace Nes6502.CommandLine

/-- Why a text is no number. -/
inductive NumberError where
  | empty
  | invalidDigit
  | tooLarge
  deriving DecidableEq, Repr

def NumberError.message : NumberError → String
  | .empty => "cannot parse integer from empty string"
  | .invalidDigit => "invalid digit found in string"
  | .tooLarge => "number too large to fit in target type"

namespace Number

/-- The value of a digit in a base of at most sixteen. -/
def digitValue? (base : Nat) (c : Char) : Option Nat := (Hex.digitValue? c).filter (· < base)

/-- Reads digits after those that have the value so far; values are below `bound`. -/
def readDigits (base bound : Nat) : (soFar : Nat) → List Char → Except NumberError Nat
  | soFar, [] => .ok soFar
  | soFar, c :: rest =>
    match digitValue? base c with
    | none => .error .invalidDigit
    | some digit =>
      let value := base * soFar + digit
      if value < bound then readDigits base bound value rest else .error .tooLarge

/-- Reads a number below `bound`. -/
def read (base bound : Nat) (text : List Char) : Except NumberError Nat :=
  match text with
  | [] => .error .empty
  | ['+'] => .error .invalidDigit
  | '+' :: digits => readDigits base bound 0 digits
  | digits => readDigits base bound 0 digits

end Number

end Nes6502.CommandLine
