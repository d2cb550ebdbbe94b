import Nes6502.Hex

/-!
# Hex dumps

Sixteen bytes to a line: the address, the bytes in hexadecimal with a gap in the middle, and the
bytes as characters between two bars. A last line of fewer bytes keeps the columns.
-/

set_option autoImplicit false

namespace Nes6502

namespace HexDump

/-- The number of bytes on a full line. -/
def width : Nat := 16

/-- The cell of the byte in a column; an empty one is blank. -/
def cellText (row : List UInt8) (column : Nat) : List Char :=
  let digits := match row[column]? with
    | some byte => Hex.byte .upper byte
    | none => [' ', ' ']
  let gap := if column = 7 then [' ', ' '] else [' ']
  digits ++ gap

/-- A byte as a character: printable ones stand for themselves, the rest for a dot. -/
def gutterChar (byte : UInt8) : Char :=
  if 0x20 ≤ byte ∧ byte ≤ 0x7E then Char.ofNat byte.toNat else '.'

/-- One line, with the newline that ends it. -/
def line (address : UInt16) (row : List UInt8) : List Char :=
  Hex.word .upper address ++ [':', ' '] ++ (List.range width).flatMap (cellText row) ++
  [' ', '|'] ++ row.map gutterChar ++ ['|', '\n']

/-- The dump of bytes that start at a base address; addresses wrap past the end of memory. -/
def render (bytes : List UInt8) (base : UInt16) : List Char :=
  match bytes with
  | [] => []
  | byte :: rest =>
    line base ((byte :: rest).take width) ++
      render ((byte :: rest).drop width) (base + UInt16.ofNat width)
  termination_by bytes.length
  decreasing_by
    simp only [List.length_drop, List.length_cons, width]
    omega

end HexDump

end Nes6502
