import Nes6502.Pattern.Simplified

/-!
# What a pattern means

The flags that hold at a part of a pattern decide what it means. Where characters of all scripts are
looked at, nothing is known of their case, of their properties, or of the sets that have a letter;
where bytes are looked at, a pattern may stand for those of ASCII alone. What would need more is
refused, and the first part that needs it is reported.
-/

set_option autoImplicit false

namespace Nes6502.Pattern

/-- The last code point of ASCII. -/
def lastAscii : Nat := 0x7F

namespace Flags

/-- All that is not in a set, among the characters or the bytes that are looked at. -/
def complement (flags : Flags) (chars : CharSet) : CharSet :=
  chars.complement (if flags.has .unicode then CharSet.maxCode else 0xFF)

/-- A set that is given at a span, with its letters in both cases where case does not matter. -/
def fold (flags : Flags) (span : Span) (chars : CharSet) : Except Error CharSet :=
  if !flags.has .anyCase || chars.bothCases then .ok chars
  else if flags.has .unicode then refuse .unknownCase span
  else .ok chars.withBothCases

/-- The set of a part that gives some characters or, if it is negated, all others. -/
def close (flags : Flags) (span : Span) (negated : Bool) (chars : CharSet) :
    Except Error CharSet := do
  let folded ← flags.fold span chars
  let closed := if negated then flags.complement folded else folded
  if flags.has .unicode || closed.isAscii then return closed else refuse .notBytes span

/-- The characters that the dot stands for. -/
def dot (flags : Flags) (span : Span) : Except Error CharSet :=
  if !flags.has .unicode then refuse .notBytes span
  else if flags.has .dotForAll then .ok .everything
  else if flags.has .carriageReturn then .ok (flags.complement (.ofChars ['\n', '\r']))
  else .ok (flags.complement (.singleton '\n'))

/-- The characters that words are made of. -/
def alphabet (flags : Flags) : Alphabet := if flags.has .unicode then .all else .ascii

/-- What a sign asserts. -/
def assertion (flags : Flags) : Anchor → Assertion
  | .textStart => .textStart
  | .textEnd => .textEnd
  | .lineStart =>
    if !flags.has .multiLine then .textStart
    else if flags.has .carriageReturn then .anyLineStart
    else .lineStart
  | .lineEnd =>
    if !flags.has .multiLine then .textEnd
    else if flags.has .carriageReturn then .anyLineEnd
    else .lineEnd
  | .boundary kind => .boundary flags.alphabet kind

end Flags

namespace Literal

/-- The code point that a character is written for. -/
def code (c : Literal) (flags : Flags) : Except Error Nat :=
  if !flags.has .unicode && c.isByte && lastAscii < c.char.toNat then refuse .notBytes c.span
  else .ok c.char.toNat

/-- The code point that a character is written for in a bracket. -/
def memberCode (c : Literal) (flags : Flags) : Except Error Nat := do
  let code ← c.code flags
  if flags.has .unicode || code ≤ lastAscii then return code else refuse .notAscii c.span

/-- The characters that a character stands for outside of brackets. -/
def meaning (c : Literal) (flags : Flags) : Except Error CharSet := do
  let code ← c.code flags
  flags.fold c.span (.ofRanges [(code, code)])

end Literal

/-- The characters that a letter stands for. -/
def Shorthand.meaning (kind : Shorthand) (flags : Flags) (span : Span) (negated : Bool) :
    Except Error CharSet :=
  if flags.has .unicode then refuse .unknownSet span
  else if negated then refuse .notBytes span
  else match kind with
    | .digit => .ok .digit
    | .space => .ok .space
    | .word => .ok .word

/-- A name of a property without what does not count in it: blanks, low lines, hyphens, the case of
letters, a leading "is". -/
def propertyKey (name : List Char) : String :=
  let start := (name.take 2).map Char.toLower
  let rest := if start = ['i', 's'] then name.drop 2 else name
  let counts (c : Char) := !" _-".contains c && c.toNat ≤ lastAscii
  String.ofList ((rest.filter counts).map Char.toLower)

/-- Why nothing has the property of a name. Some short names are values of a property, and not names
of one. -/
def propertyError (flags : Flags) (name : List Char) : Cause :=
  if !flags.has .unicode then .notAscii
  else if ["cf", "sc", "lc"].contains (propertyKey name) then .unknownPropertyValue
  else .unknownProperty

/-- The set that an operation makes of two. -/
def Operation.apply : Operation → CharSet → CharSet → CharSet
  | .intersection => .intersection
  | .difference => .difference
  | .symmetricDifference => .symmetricDifference

mutual

/-- Adds a member of a bracket to the characters before it. -/
def Member.addTo (flags : Flags) : Member → CharSet → Except Error CharSet
  | .nothing _, chars => .ok chars
  | .literal c, chars => do
    let code ← c.memberCode flags
    return chars.addRange code code
  | .range _ least greatest, chars => do
    let least ← least.memberCode flags
    let greatest ← greatest.memberCode flags
    return chars.addRange least greatest
  | .named span inner negated, chars => do return chars.union (← flags.close span negated inner)
  | .shorthand span kind negated, chars => do
    return chars.union (← kind.meaning flags span negated)
  | .property span name, _ => refuse (propertyError flags name) span
  | .bracket span negated members, chars => do
    let inner ← members.addTo flags .empty
    return chars.union (← flags.close span negated inner)
  | .union _ members, chars => Member.addAll flags members chars
  | .operation _ kind left right, chars => do
    let leftChars ← left.addTo flags .empty
    let rightChars ← right.addTo flags .empty
    let rightChars ← flags.fold right.span rightChars
    let leftChars ← flags.fold left.span leftChars
    return chars.union (kind.apply leftChars rightChars)

/-- Adds members of a bracket, one after the other. -/
def Member.addAll (flags : Flags) : List Member → CharSet → Except Error CharSet
  | [], chars => .ok chars
  | member :: members, chars => do Member.addAll flags members (← member.addTo flags chars)

end

mutual

/-- The pattern that a tree means, and the flags that hold after it. -/
def Tree.meaning : Tree → Flags → Except Error (Pattern × Flags)
  | .empty _, flags => .ok (.empty, flags)
  | .switch _ items, flags => .ok (.empty, flags.within items)
  | .literal c, flags => do return (.one (← c.meaning flags), flags)
  | .dot span, flags => do return (.one (← flags.dot span), flags)
  | .anchor _ sign, flags => .ok (.gap (flags.assertion sign), flags)
  | .shorthand span kind negated, flags => do
    return (.one (← kind.meaning flags span negated), flags)
  | .property span name, flags => refuse (propertyError flags name) span
  | .bracket span negated members, flags => do
    let chars ← members.addTo flags .empty
    return (.one (← flags.close span negated chars), flags)
  | .repetition _ count body, flags => do
    let (body, flags) ← body.meaning flags
    return (body.times count.least count.most, flags)
  | .group _ items captures body, flags => do
    let (body, _) ← body.meaning (flags.within items)
    return (if captures then .capture body else body, flags)
  | .alternatives _ branches, flags => do
    let (branches, flags) ← Tree.meanings branches flags
    return (anyOf branches, flags)
  | .sequence _ parts, flags => do
    let (parts, flags) ← Tree.meanings parts flags
    return (concat parts, flags)

/-- The patterns that some trees mean, and the flags that hold after the last one. -/
def Tree.meanings : List Tree → Flags → Except Error (List Pattern × Flags)
  | [], flags => .ok ([], flags)
  | tree :: trees, flags => do
    let (pattern, flags) ← tree.meaning flags
    let (patterns, flags) ← Tree.meanings trees flags
    return (pattern :: patterns, flags)

end

end Nes6502.Pattern
