import Nes6502.Pattern.CharSet

/-!
# Sets of characters as bytes

A range of code points is, in bytes, a few sequences of ranges: a text of one character is in the
range if and only if its bytes are, one by one, in the ranges of one of these sequences. A character
takes one byte to four; those after the first one begin at `0x80` and hold six bits each.
-/

set_option autoImplicit false

namespace Nes6502.Utf8

/-- A range of bytes. -/
abbrev ByteRange := Nat × Nat

/-- Any byte after the first one of a character. -/
def anyTail : ByteRange := (0x80, 0xBF)

/-- The sequences for a range of numbers that are written with so many bytes after the first one,
which is counted from `lead`. The numbers that share the first byte with the least or the greatest
one are apart where they do not have all the rest. -/
def spread : (tail : Nat) → (lead least greatest : Nat) → List (List ByteRange)
  | 0, lead, least, greatest => [[(lead + least, lead + greatest)]]
  | tail + 1, lead, least, greatest =>
    let size := 64 ^ (tail + 1)
    let first := least / size
    let last := greatest / size
    let low := least % size
    let high := greatest % size
    let under (number least greatest : Nat) :=
      (spread tail 0x80 least greatest).map ((lead + number, lead + number) :: ·)
    if first = last then under first low high
    else
      let start := if low = 0 then first else first + 1
      let stop := if high = size - 1 then last + 1 else last
      (if low = 0 then [] else under first low (size - 1)) ++
        (if start < stop then
          [(lead + start, lead + stop - 1) :: List.replicate (tail + 1) anyTail] else []) ++
        (if high = size - 1 then [] else under last 0 high)

/-- The code points by the number of bytes after the first one, with what that one is counted from.
Between `0xD7FF` and `0xE000` there are none. -/
def planes : List ((Nat × Nat) × Nat × Nat) :=
  [((0x00, 0x7F), 0, 0x00), ((0x80, 0x7FF), 1, 0xC0), ((0x800, 0xD7FF), 2, 0xE0),
    ((0xE000, 0xFFFF), 2, 0xE0), ((0x10000, 0x10FFFF), 3, 0xF0)]

/-- The sequences for a range of code points. -/
def ofRange (range : (Nat × Nat)) : List (List ByteRange) :=
  planes.flatMap fun (plane, tail, lead) =>
    match CharSet.overlap? plane range with
    | some (least, greatest) => spread tail lead least greatest
    | none => []

/-- The sequences for a set of characters. -/
def ofSet (chars : CharSet) : List (List ByteRange) := chars.ranges.flatMap ofRange

/-- The bytes of a code point. -/
def encode (code : Nat) : List Nat :=
  match ofRange (code, code) with
  | bytes :: _ => bytes.map (·.1)
  | [] => []

end Nes6502.Utf8
