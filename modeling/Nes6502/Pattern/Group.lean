import Nes6502.Pattern.Flag
import Nes6502.Pattern.Letter

/-!
# Groups

What a parenthesis opens. A group may begin with a question mark. Then it has a name, or flags that
hold inside it; or it is no group but flags alone, which hold from there to the end of the group
around.
-/

set_option autoImplicit false

namespace Nes6502.Pattern

inductive Opening where
  /-- Flags alone. -/
  | flags (items : List Flags.Item)
  | group (items : List Flags.Item)
  /-- A group whose matches are kept apart, under a name or a number. -/
  | capture (name : Option (String × Span))
  deriving DecidableEq, Repr

namespace Opening

/-- Whether a character may stand in a name. -/
def isNameCharacter (isFirst : Bool) (c : Char) : Bool :=
  c = '_' || Letter.isLetter c ||
    (!isFirst && (c = '.' || c = '[' || c = ']' || Letter.isNumber c))

/-- Reads a name up to the angle behind it. -/
def readName : (isFirst : Bool) → (offset : Nat) → List Char → Except Error (List Char)
  | _, offset, [] => refuse .unfinishedName ⟨offset, offset⟩
  | isFirst, offset, c :: rest =>
    if c = '>' then .ok []
    else if isNameCharacter isFirst c then do
      let name ← readName false (offset + 1) rest
      return c :: name
    else refuse .nameCharacter ⟨offset, offset + 1⟩

/-- Reads the name of a group, of which no earlier group has it. -/
def readNamed (names : List (String × Span)) (input : Input) : Except Error (Opening × Input) := do
  let name ← readName true input.offset input.rest
  let after := input.drop name.length
  let span := after.since input.offset
  if name.isEmpty then refuse .nameMissing span
  else match names.lookup (String.ofList name) with
    | some earlier => .error ⟨.duplicateName, span, some earlier⟩
    | none => return (.capture (some (String.ofList name, span)), after.drop 1)

/-- Reads an opening parenthesis with what belongs to it. -/
def read (names : List (String × Span)) (input : Input) : Except Error (Opening × Input) :=
  let start := input.offset
  let inside := input.next
  match (["?=", "?!", "?<=", "?<!"].filterMap inside.skip?).head? with
  | some after => refuse .lookAround (after.since start)
  | none =>
    match (["?P<", "?<"].filterMap inside.skip?).head? with
    | some body => readNamed names body
    | none =>
      if inside.rest.head? ≠ some '?' then .ok (.capture none, inside)
      else
        let body := inside.drop 1
        if body.rest.isEmpty then refuse .unclosedGroup input.nextSpan
        else do
          let (items, behind) ← Flags.read [] body.offset body.rest
          let last := body.drop (behind - body.offset)
          let after := last.drop 1
          if last.rest.head? = some ':' then return (.group items, after)
          else if items.isEmpty then refuse .nothingToRepeat inside.here
          else return (.flags items, after)

end Opening

end Nes6502.Pattern
