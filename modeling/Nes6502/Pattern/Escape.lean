import Nes6502.Pattern.Tree

/-!
# Escapes

What a backslash and the characters after it stand for: a character that would have a meaning
otherwise, a character by its number, a set of characters, or a place between two characters.
-/

set_option autoImplicit false

namespace Nes6502.Pattern.Escape

def isHex (c : Char) : Bool := c.isDigit || ('a' ≤ c && c ≤ 'f') || ('A' ≤ c && c ≤ 'F')

def hexValue (digits : List Char) : Nat :=
  digits.foldl (fun value c =>
    16 * value + if c.isDigit then c.toNat - 0x30 else c.toUpper.toNat - 0x37) 0

/-- The character of a number. -/
def characterOf? (number : Nat) : Option Char :=
  if number.isValidChar then some (Char.ofNat number) else none

/-- Reads so many hexadecimal digits. -/
def readDigits : Nat → Input → Except Error (List Char × Input)
  | 0, input => .ok ([], input)
  | count + 1, input =>
    match input.rest with
    | [] => refuse .unfinishedEscape input.here
    | c :: _ =>
      if isHex c then do
        let (digits, after) ← readDigits count input.next
        return (c :: digits, after)
      else refuse .hexDigit input.nextSpan

/-- How many digits the number of a character has that stands without braces. -/
def width : Char → Nat
  | 'x' => 2
  | 'u' => 4
  | _ => 8

/-- Reads the number of a character between braces. -/
def readBraced (input : Input) : Except Error (Char × Input) :=
  let (digits, after) := input.next.takeRun isHex
  match after.rest with
  | [] => refuse .unfinishedEscape (after.since input.offset)
  | '}' :: _ =>
    let behind := after.next
    if digits.isEmpty then refuse .hexMissing (behind.since input.offset)
    else match characterOf? (hexValue digits) with
      | some c => .ok (c, behind)
      | none => refuse .hexNoCharacter ⟨input.offset + 1, after.offset⟩
  | _ => refuse .hexDigit after.nextSpan

/-- Reads the number of a character in an escape that starts at a place, from the letter that
announces it. -/
def readNumber (start : Nat) (letter : Char) (input : Input) : Except Error (Tree × Input) :=
  let body := input.next
  match body.rest with
  | [] => refuse .unfinishedEscape body.here
  | '{' :: _ => do
    let (c, after) ← readBraced body
    return (.literal ⟨after.since start, c, false⟩, after)
  | _ => do
    let (digits, after) ← readDigits (width letter) body
    match characterOf? (hexValue digits) with
    | some c => return (.literal ⟨after.since start, c, letter = 'x'⟩, after)
    | none => refuse .hexNoCharacter ⟨body.offset, after.offset⟩

/-- Reads the name of a property, from the letter that announces it: one letter, or any name between
braces. -/
def readPropertyName (input : Input) : Except Error (List Char × Input) :=
  let body := input.next
  match body.rest with
  | [] => refuse .unfinishedEscape body.here
  | '{' :: _ =>
    let (name, after) := body.next.takeRun (· ≠ '}')
    if after.rest.isEmpty then refuse .unfinishedEscape after.here else .ok (name, after.drop 1)
  | '\\' :: _ => refuse .propertyName body.nextSpan
  | c :: _ => .ok ([c], body.next)

/-- The set that a letter stands for, or whose complement it stands for. -/
def shorthand? : Char → Option (Shorthand × Bool)
  | 'd' => some (.digit, false)
  | 'D' => some (.digit, true)
  | 's' => some (.space, false)
  | 'S' => some (.space, true)
  | 'w' => some (.word, false)
  | 'W' => some (.word, true)
  | _ => none

/-- The character that a letter stands for. -/
def control? : Char → Option Char
  | 'a' => some '\x07'
  | 'f' => some '\x0c'
  | 't' => some '\t'
  | 'n' => some '\n'
  | 'r' => some '\r'
  | 'v' => some '\x0b'
  | _ => none

/-- The place that a character stands for, but for boundaries with a name. -/
def anchor? : Char → Option Anchor
  | 'A' => some .textStart
  | 'z' => some .textEnd
  | 'B' => some (.boundary .nowhere)
  | '<' => some (.boundary .start)
  | '>' => some (.boundary .stop)
  | _ => none

/-- The boundaries that have a name. -/
def boundaries : List (String × Boundary) :=
  [("start", .start), ("end", .stop), ("start-half", .startHalf), ("end-half", .stopHalf)]

def isNameCharacter (c : Char) : Bool := c.isAlpha || c = '-'

/-- Reads which boundary is meant, after the letter for it: any, if no name in braces follows. Other
braces are left to be read as a count. -/
def readBoundary (start : Nat) (input : Input) : Except Error (Boundary × Input) :=
  if input.rest.head? ≠ some '{' then .ok (.anywhere, input)
  else
    let inside := input.next
    match inside.rest with
    | [] => refuse .boundaryOrCount (inside.since start)
    | c :: _ =>
      if !isNameCharacter c then .ok (.anywhere, input)
      else
        let (name, after) := inside.takeRun isNameCharacter
        if after.rest.head? ≠ some '}' then refuse .unclosedBoundary (after.since input.offset)
        else match boundaries.lookup (String.ofList name) with
          | some boundary => .ok (boundary, after.drop 1)
          | none => refuse .unknownBoundary ⟨inside.offset, after.offset⟩

/-- Whether a character stands for itself after a backslash: ASCII, but no letter or digit, and
neither of the angles, which stand for places. -/
def standsForItself (c : Char) : Bool := c.toNat < 0x80 && !c.isAlphanum && c ≠ '<' && c ≠ '>'

/-- Reads an escape, from its backslash. -/
def read (input : Input) : Except Error (Tree × Input) :=
  let start := input.offset
  let body := input.drop 1
  match body.rest with
  | [] => refuse .unfinishedEscape (body.since start)
  | c :: _ =>
    let after := body.drop 1
    let span := after.since start
    if c.isDigit then refuse .backreference span
    else if c = 'x' || c = 'u' || c = 'U' then readNumber start c body
    else if c = 'p' || c = 'P' then do
      let (name, after) ← readPropertyName body
      return (.property (after.since start) name, after)
    else if c = 'b' then do
      let (boundary, after) ← readBoundary start after
      return (.anchor (after.since start) (.boundary boundary), after)
    else if standsForItself c then .ok (.literal ⟨span, c, false⟩, after)
    else match shorthand? c, control? c, anchor? c with
      | some (kind, negated), _, _ => .ok (.shorthand span kind negated, after)
      | none, some character, _ => .ok (.literal ⟨span, character, false⟩, after)
      | none, none, some anchor => .ok (.anchor span anchor, after)
      | none, none, none => refuse .unknownEscape span

end Nes6502.Pattern.Escape
