import Nes6502.Pattern.Tree

/-!
# Counts

A count in braces says how often something is repeated: a number of times, at least a number of
times, or between two numbers of times.
-/

set_option autoImplicit false

namespace Nes6502.Pattern.Count

/-- The bound on the numbers in a count. -/
def bound : Nat := 0x100000000

/-- Reads a number with blanks around it. -/
def readNumber (input : Input) : Except Error Nat × Input :=
  let (_, input) := input.takeRun isBlank
  let (digits, behind) := input.takeRun Char.isDigit
  let span := behind.since input.offset
  let value := digits.foldl (fun value c => 10 * value + (c.toNat - 0x30)) 0
  let number :=
    if digits.isEmpty then refuse .missingCount span
    else if value < bound then .ok value
    else refuse .countTooLarge span
  (number, (behind.takeRun isBlank).2)

/-- Reads the numbers between the braces. -/
def readNumbers (start : Nat) (input : Input) : Except Error (Count × Input) := do
  let (least, behind) := readNumber input
  if behind.rest.isEmpty then refuse .unclosedCount (behind.since start)
  else if behind.rest.head? ≠ some ',' then
    let count ← least
    return (⟨count, some count⟩, behind)
  else
    let after := behind.next
    if after.rest.isEmpty then refuse .unclosedCount (after.since start)
    else if after.rest.head? = some '}' then return (⟨← least, none⟩, after)
    else
      let least ← least
      let (most, behind) := readNumber after
      return (⟨least, some (← most)⟩, behind)

/-- Goes past the question mark that makes a repetition prefer to be short. -/
def skipPreference (input : Input) : Input :=
  if input.rest.head? = some '?' then input.drop 1 else input

/-- Reads a count, from its brace. -/
def read (input : Input) : Except Error (Count × Input) :=
  let start := input.offset
  let inside := input.next
  if inside.rest.isEmpty then refuse .unclosedCount (inside.since start)
  else do
    let (count, behind) ← readNumbers start inside
    if behind.rest.head? ≠ some '}' then refuse .unclosedCount (behind.since start)
    else
      let after := skipPreference behind.next
      if count.most.any (· < count.least) then refuse .countOrder (after.since start)
      else return (count, after)

end Nes6502.Pattern.Count
