import Nes6502.Pattern.Input

/-!
# Flags

The ways to read a pattern can be turned on and off in a list of letters; those after a hyphen are
turned off.
-/

set_option autoImplicit false

namespace Nes6502.Pattern

inductive Flag where
  | anyCase
  /-- Lines, and not only the text, have a start and an end. -/
  | multiLine
  /-- The dot stands for line ends, too. -/
  | dotForAll
  /-- Repetitions prefer to be short, which changes nothing for a search. -/
  | short
  /-- Characters of all scripts, and not bytes, are looked at. -/
  | unicode
  /-- Carriage returns end lines, too. -/
  | carriageReturn
  /-- Blanks and comments stand for nothing. -/
  | spaced
  deriving DecidableEq, Repr

def Flag.ofLetter? : Char → Option Flag
  | 'i' => some .anyCase
  | 'm' => some .multiLine
  | 's' => some .dotForAll
  | 'U' => some .short
  | 'u' => some .unicode
  | 'R' => some .carriageReturn
  | 'x' => some .spaced
  | _ => none

/-- The flags that are on. -/
structure Flags where
  on : List Flag
  deriving DecidableEq, Repr

namespace Flags

/-- The flags that are on at the start of a pattern. -/
def initial : Flags := ⟨[.unicode]⟩

def has (flags : Flags) (flag : Flag) : Bool := flags.on.contains flag

/-- Turns a flag on or off. -/
def assign (flags : Flags) (flag : Flag) (value : Bool) : Flags :=
  if value then ⟨flag :: flags.on⟩ else ⟨flags.on.filter (· ≠ flag)⟩

/-- An item in a list of flags: a flag, or the hyphen. -/
abbrev Item := Option Flag

/-- Carries out the items of a list. -/
def change : (value : Bool) → List Item → Flags → Flags
  | _, [], flags => flags
  | _, none :: items, flags => change false items flags
  | value, some flag :: items, flags => change value items (flags.assign flag value)

/-- The flags inside a group that has a list of flags. -/
def within (flags : Flags) (items : List Item) : Flags := change true items flags

/-- The item of a letter. -/
def item? (c : Char) : Option Item := if c = '-' then some none else (Flag.ofLetter? c).map some

/-- Reads a list of flags up to the character behind it, with the items before. -/
def read : (before : List (Item × Span)) → (offset : Nat) → List Char →
    Except Error (List Item × Nat)
  | _, offset, [] => refuse .unfinishedFlags ⟨offset, offset⟩
  | before, offset, c :: rest =>
    let span : Span := ⟨offset, offset + 1⟩
    if c = ':' || c = ')' then
      match before.getLast? with
      | some (none, hyphen) => refuse .danglingNegation hyphen
      | _ => .ok (before.map (·.1), offset)
    else match item? c with
      | none => refuse .unknownFlag span
      | some item =>
        match before.lookup item with
        | some earlier =>
          let cause := if item = none then Cause.repeatedNegation else .duplicateFlag
          .error ⟨cause, span, some earlier⟩
        | none => read (before ++ [(item, span)]) (offset + 1) rest

end Flags

end Nes6502.Pattern
