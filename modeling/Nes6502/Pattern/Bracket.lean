import Nes6502.Pattern.Escape

/-!
# Brackets

A bracket is a set of characters, given by its members: characters, ranges, escapes, names between
colons, and other brackets. Between members the operations on sets may stand; they are carried out
from left to right, on all the members between two of them. A caret at the start turns the set into
its complement.
-/

set_option autoImplicit false

namespace Nes6502.Pattern

/-- The operation of a character that is written twice. -/
def Operation.ofChar? : Char → Option Operation
  | '&' => some .intersection
  | '-' => some .difference
  | '~' => some .symmetricDifference
  | _ => none

namespace Bracket

/-- A bracket that has been opened. -/
structure Level where
  /-- The bracket and what belongs to its opening. -/
  opening : Span
  negated : Bool
  /-- What stands before the last operation. -/
  left : Option (Operation × Member)
  /-- Where members may come after that operation. -/
  start : Nat
  /-- The members there, the last one first. -/
  members : List Member
  deriving Repr

namespace Level

def add (level : Level) (member : Member) : Level :=
  { level with members := member :: level.members }

/-- The members after the last operation, as one. -/
def right (level : Level) : Member :=
  match level.members with
  | [] => .nothing ⟨level.start, level.start⟩
  | [member] => member
  | last :: others =>
    let members := (last :: others).reverse
    let start := (members.head?.map (·.span.start)).getD level.start
    .union ⟨start, last.span.stop⟩ members

/-- All there is so far, as one member. -/
def whole (level : Level) : Member :=
  match level.left with
  | none => level.right
  | some (operation, left) =>
    .operation ⟨left.span.start, level.right.span.stop⟩ operation left level.right

/-- Begins the right side of an operation, which stands before an offset. -/
def operate (level : Level) (operation : Operation) (offset : Nat) : Level :=
  { level with left := some (operation, level.whole), start := offset, members := [] }

/-- The span of a bracket that ends before an offset. -/
def spanTo (level : Level) (offset : Nat) : Span := ⟨level.opening.start, offset⟩

end Level

/-- A character without a special meaning. -/
def plain (offset : Nat) (c : Char) : Literal := ⟨⟨offset, offset + 1⟩, c, false⟩

/-- Reads the opening of a bracket: a caret, if there is one, and the members that have no other
meaning there, which are any number of hyphens or one closing bracket. -/
def readOpening (input : Input) : Except Error (Level × Input) :=
  let start := input.offset
  let inside := input.next
  if inside.rest.isEmpty then refuse .unclosedBracket (inside.since start)
  else
    let negated := inside.rest.head? = some '^'
    let inside := if negated then inside.next else inside
    if inside.rest.isEmpty then refuse .unclosedBracket (inside.since start)
    else
      let (hyphens, body) := inside.takePlaced (· = '-')
      let level (behind : Input) (chars : List (Nat × Char)) : Level :=
        let members := chars.reverse.map fun (offset, c) => .literal (plain offset c)
        ⟨behind.since start, negated, none, inside.offset, members⟩
      if body.rest.isEmpty then refuse .unclosedBracket ⟨start, start⟩
      else if hyphens.isEmpty && body.rest.head? = some ']' then
        let after := body.next
        if after.rest.isEmpty then refuse .unclosedBracket (after.since start)
        else .ok (level after [(body.offset, ']')], after)
      else .ok (level body hyphens, body)

/-- The sets that have a name between colons. -/
def names : List (String × CharSet) :=
  [("alnum", .ofRanges [(0x30, 0x39), (0x41, 0x5A), (0x61, 0x7A)]),
    ("alpha", .ofRanges [(0x41, 0x5A), (0x61, 0x7A)]), ("ascii", .ofRanges [(0x00, 0x7F)]),
    ("blank", .ofChars ['\t', ' ']), ("cntrl", .ofRanges [(0x00, 0x1F), (0x7F, 0x7F)]),
    ("digit", .digit), ("graph", .ofRanges [(0x21, 0x7E)]), ("lower", .lower),
    ("print", .ofRanges [(0x20, 0x7E)]),
    ("punct", .ofRanges [(0x21, 0x2F), (0x3A, 0x40), (0x5B, 0x60), (0x7B, 0x7E)]),
    ("space", .space), ("upper", .upper), ("word", .word),
    ("xdigit", .ofRanges [(0x30, 0x39), (0x41, 0x46), (0x61, 0x66)])]

/-- Reads a name between colons in a bracket of its own, if that is what comes next. -/
def readName? (input : Input) : Option (Member × Input) := do
  let body ← input.skip? "[:"
  let negated := body.rest.head? = some '^'
  let body := if negated then body.drop 1 else body
  let name := body.rest.takeWhile (· ≠ ':')
  let after ← (body.drop name.length).skip? ":]"
  let chars ← names.lookup (String.ofList name)
  return (.named (after.since input.offset) chars negated, after)

/-- Reads a character or an escape. -/
def readAtom (input : Input) : Except Error (Tree × Input) :=
  match input.rest with
  | '\\' :: _ => Escape.read input
  | c :: _ => .ok (.literal (plain input.offset c), input.drop 1)
  | [] => refuse .unclosedBracket input.here

/-- The member that a character or an escape makes. -/
def memberOf : Tree → Except Error Member
  | .literal c => .ok (.literal c)
  | .shorthand span kind negated => .ok (.shorthand span kind negated)
  | .property span name => .ok (.property span name)
  | other => refuse .escapeInBracket other.span

/-- The character that stands at an end of a range. -/
def boundOf : Tree → Except Error Literal
  | .literal c => .ok c
  | other => refuse .rangeBound other.span

/-- Reads a member: a character, an escape, or a range. A hyphen before a closing bracket or another
hyphen makes no range. -/
def readMember (level : Level) (input : Input) : Except Error (Member × Input) := do
  let (first, behind) ← readAtom input
  let after := behind.skipBlanks
  if after.rest.isEmpty then refuse .unclosedBracket level.opening
  else if after.rest.head? ≠ some '-' || after.lookBehind = some ']' || after.lookBehind = some '-'
  then return (← memberOf first, after)
  else
    let second := after.next
    if second.rest.isEmpty then refuse .unclosedBracket level.opening
    else
      let (last, after) ← readAtom second
      let span := after.since input.offset
      let least ← boundOf first
      let greatest ← boundOf last
      if least.char ≤ greatest.char then return (.range span least greatest, after)
      else refuse .rangeOrder span

/-- Reads the rest of a bracket, going past so many characters first. -/
def readRest (spaced : Bool) : (skip : Nat) → Level → (outer : List Level) → (offset : Nat) →
    List Char → Except Error (Tree × Input)
  | _, level, _, _, [] => refuse .unclosedBracket level.opening
  | skip + 1, level, outer, offset, _ :: rest => readRest spaced skip level outer (offset + 1) rest
  | 0, level, outer, offset, c :: rest =>
    let input : Input := ⟨offset, c :: rest, spaced⟩
    if 0 < input.blanks then readRest spaced (input.blanks - 1) level outer (offset + 1) rest
    else if c = '[' then
      match readName? input with
      | some (member, after) =>
        readRest spaced (after.offset - offset - 1) (level.add member) outer (offset + 1) rest
      | none => do
        let (inner, after) ← readOpening input
        readRest spaced (after.offset - offset - 1) inner (level :: outer) (offset + 1) rest
    else if c = ']' then
      let span := level.spanTo (offset + 1)
      match outer with
      | [] => .ok (.bracket span level.negated level.whole, input.drop 1)
      | around :: outer =>
        let member := Member.bracket span level.negated level.whole
        readRest spaced 0 (around.add member) outer (offset + 1) rest
    else match (Operation.ofChar? c).filter fun _ => rest.head? = some c with
      | some operation =>
        readRest spaced 1 (level.operate operation (offset + 2)) outer (offset + 1) rest
      | none => do
        let (member, after) ← readMember level input
        readRest spaced (after.offset - offset - 1) (level.add member) outer (offset + 1) rest

/-- Reads a bracket. -/
def read (input : Input) : Except Error (Tree × Input) := do
  let (level, after) ← readOpening input
  readRest input.spaced 0 level [] after.offset after.rest

end Bracket

end Nes6502.Pattern
