import Nes6502.CommandLine.Number

/-!
# Addresses on the command line

An address is a hexadecimal number of sixteen bits. Before it may stand any number of dollar signs,
then any number of `0x`, then any number of `0X`.
-/

set_option autoImplicit false

namespace Nes6502.CommandLine

namespace Address

/-- Drops the dollar signs that a text starts with. -/
def dropDollars (text : List Char) : List Char := text.dropWhile (· = '$')

/-- Drops the pairs of a zero and the given letter that a text starts with. -/
def dropMarks (letter : Char) : List Char → List Char
  | '0' :: c :: rest => if c = letter then dropMarks letter rest else '0' :: c :: rest
  | text => text

/-- What remains of a text without the marks that may stand before the digits. -/
def digits (text : List Char) : List Char := dropMarks 'X' (dropMarks 'x' (dropDollars text))

/-- Reads an address. -/
def parse (text : List Char) : Except NumberError UInt16 :=
  (Number.read 16 0x10000 (digits text)).map UInt16.ofNat

end Address

/-- What is said about a text that is no address. -/
def addressMessage (text : String) (cause : NumberError) : String :=
  let reason := cause.message
  s!"invalid address '{text}': {reason}"

end Nes6502.CommandLine
