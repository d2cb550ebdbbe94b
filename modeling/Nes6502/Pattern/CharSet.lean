/-!
# Sets of characters

A set is a list of ranges of code points, in order, of which no two overlap or touch. The code
points from `0xD800` to `0xDFFF` are no characters; a range may go over them.

A set also carries whether it is known to hold every letter in both cases: that is so for the empty
set and the full one, for what `withBothCases` gives, and for what the operations make of such sets.
-/

set_option autoImplicit false

namespace Nes6502

structure CharSet where
  ranges : List (Nat × Nat)
  /-- Whether the set is known to hold every letter in both cases. -/
  bothCases : Bool
  deriving DecidableEq, Repr

namespace CharSet

/-- The code point after another. -/
def after (code : Nat) : Nat := if code = 0xD7FF then 0xE000 else code + 1

/-- The code point before another. -/
def before (code : Nat) : Nat := if code = 0xE000 then 0xD7FF else code - 1

/-- Whether two ranges overlap or touch. -/
def touch (r s : Nat × Nat) : Bool := max r.1 s.1 ≤ min r.2 s.2 + 1

/-- Puts a range among others that are in order. -/
def insertRange (r : Nat × Nat) : List (Nat × Nat) → List (Nat × Nat)
  | [] => [r]
  | s :: rest =>
    if touch r s then insertRange (min r.1 s.1, max r.2 s.2) rest
    else if r.2 < s.1 then r :: s :: rest
    else s :: insertRange r rest

/-- Puts ranges among others that are in order. -/
def insertRanges (ranges new : List (Nat × Nat)) : List (Nat × Nat) :=
  new.foldl (fun ranges r => insertRange r ranges) ranges

def empty : CharSet := ⟨[], true⟩

def ofRanges (ranges : List (Nat × Nat)) : CharSet :=
  ⟨insertRanges [] ranges, ranges.isEmpty⟩

def ofChars (chars : List Char) : CharSet := ofRanges (chars.map fun c => (c.toNat, c.toNat))

def singleton (c : Char) : CharSet := ofChars [c]

/-- The greatest code point. -/
def maxCode : Nat := 0x10FFFF

/-- All characters. -/
def everything : CharSet := ⟨[(0, maxCode)], true⟩

def contains (chars : CharSet) (c : Char) : Bool :=
  chars.ranges.any fun (least, greatest) => least ≤ c.toNat && c.toNat ≤ greatest

def isEmpty (chars : CharSet) : Bool := chars.ranges.isEmpty

/-- The code point of a set that has no other. -/
def only? (chars : CharSet) : Option Nat :=
  match chars.ranges with
  | [(least, greatest)] => if least = greatest then some least else none
  | _ => none

def isAscii (chars : CharSet) : Bool := chars.ranges.all fun (_, greatest) => greatest < 0x80

/-- Adds the characters of a range. -/
def addRange (chars : CharSet) (least greatest : Nat) : CharSet :=
  ⟨insertRange (least, greatest) chars.ranges, false⟩

def union (a b : CharSet) : CharSet :=
  if b.isEmpty || a.ranges = b.ranges then a
  else ⟨insertRanges a.ranges b.ranges, a.bothCases && b.bothCases⟩

/-- What two ranges have in common. -/
def overlap? (r s : Nat × Nat) : Option (Nat × Nat) :=
  if max r.1 s.1 ≤ min r.2 s.2 then some (max r.1 s.1, min r.2 s.2) else none

def intersection (a b : CharSet) : CharSet :=
  if a.isEmpty || b.isEmpty then empty
  else ⟨a.ranges.flatMap fun r => b.ranges.filterMap (overlap? r), a.bothCases && b.bothCases⟩

/-- What is left of a range without another. -/
def cut (s r : Nat × Nat) : List (Nat × Nat) :=
  if (overlap? r s).isNone then [r]
  else
    (if r.1 < s.1 then [(r.1, before s.1)] else []) ++
      (if s.2 < r.2 then [(after s.2, r.2)] else [])

def difference (a b : CharSet) : CharSet :=
  if a.isEmpty || b.isEmpty then a
  else
    ⟨b.ranges.foldl (fun ranges s => ranges.flatMap (cut s)) a.ranges, a.bothCases && b.bothCases⟩

/-- What is in one of two sets, but not in both. -/
def symmetricDifference (a b : CharSet) : CharSet := (a.union b).difference (a.intersection b)

/-- The ranges from a code point on that lie between others, up to a last code point. -/
def gaps (last : Nat) : (start : Nat) → List (Nat × Nat) → List (Nat × Nat)
  | start, [] => if start ≤ last then [(start, last)] else []
  | start, (least, greatest) :: rest =>
    (if start < least then [(start, before least)] else []) ++ gaps last (after greatest) rest

/-- The code points up to a last one that are not in a set. -/
def complement (last : Nat) (chars : CharSet) : CharSet :=
  ⟨gaps last 0 chars.ranges, chars.isEmpty || chars.bothCases⟩

/-- A range of one case, as far as another range goes, in the other case. -/
def shifted (letters r : Nat × Nat) (shift : Nat → Nat) : List (Nat × Nat) :=
  match overlap? letters r with
  | some (least, greatest) => [(shift least, shift greatest)]
  | none => []

/-- A set with the letters of ASCII that differ from its own in case alone. -/
def withBothCases (chars : CharSet) : CharSet :=
  let others := chars.ranges.flatMap fun r =>
    shifted (0x41, 0x5A) r (· + 0x20) ++ shifted (0x61, 0x7A) r (· - 0x20)
  ⟨insertRanges chars.ranges others, true⟩

def digit : CharSet := ofRanges [(0x30, 0x39)]

def upper : CharSet := ofRanges [(0x41, 0x5A)]

def lower : CharSet := ofRanges [(0x61, 0x7A)]

/-- Letters, digits and the low line. -/
def word : CharSet := ofRanges [(0x30, 0x39), (0x41, 0x5A), (0x5F, 0x5F), (0x61, 0x7A)]

/-- The blanks of ASCII. -/
def space : CharSet := ofRanges [(0x09, 0x0D), (0x20, 0x20)]

end CharSet

end Nes6502
