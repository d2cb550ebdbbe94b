/-!
# Quoted text

A text between double quotes. Quotes of either kind and backslashes have a backslash before them,
the usual control characters have a letter of their own, and the other ones are given by their code
in braces, so a quoted text always stays on its line.
-/

set_option autoImplicit false

namespace Nes6502.CommandLine.Quoted

/-- The digits of a code in hexadecimal, without leading zeros. -/
def codeDigits (c : Char) : List Char := Nat.toDigits 16 c.toNat

/-- Whether a character would disturb the line it is written on. -/
def isControl (c : Char) : Bool := c.toNat < 0x20 || (0x7F ≤ c.toNat && c.toNat < 0xA0)

/-- A character within quotes. -/
def encodeChar (c : Char) : List Char :=
  if c = '"' ∨ c = '\'' ∨ c = '\\' then ['\\', c]
  else if c = '\n' then ['\\', 'n']
  else if c = '\r' then ['\\', 'r']
  else if c = '\t' then ['\\', 't']
  else if c.toNat = 0 then ['\\', '0']
  else if isControl c then ['\\', 'u', '\x7b'] ++ codeDigits c ++ ['\x7d']
  else [c]

/-- A text within quotes. -/
def encode (text : List Char) : List Char := ['"'] ++ text.flatMap encodeChar ++ ['"']

end Nes6502.CommandLine.Quoted
