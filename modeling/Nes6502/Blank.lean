/-!
# Blanks

The characters that stand for white space, in any script.
-/

set_option autoImplicit false

namespace Nes6502

/-- The code points of blanks. -/
def blankRanges : List (Nat × Nat) :=
  [(0x09, 0x0D), (0x20, 0x20), (0x85, 0x85), (0xA0, 0xA0), (0x1680, 0x1680), (0x2000, 0x200A),
    (0x2028, 0x2029), (0x202F, 0x202F), (0x205F, 0x205F), (0x3000, 0x3000)]

def isBlank (c : Char) : Bool :=
  blankRanges.any fun (least, greatest) => least ≤ c.toNat && c.toNat ≤ greatest

/-- A text without the blanks around it. -/
def trimBlanks (text : String) : String :=
  let trimmed := text.toList.dropWhile isBlank
  String.ofList (trimmed.reverse.dropWhile isBlank).reverse

end Nes6502
