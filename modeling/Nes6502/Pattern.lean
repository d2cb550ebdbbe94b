import Nes6502.Pattern.Assertion

/-!
# Patterns

A pattern describes texts: characters of a set one after the other, alternatives, repetitions, and
assertions about a gap between two characters.

The search for a pattern works on all places of a text at once. Gap number `i` of a text is the one
before its character number `i`; the last gap is the end. A set of gaps is a list of marks, and
`Pattern.reach` leads from the gaps where a pattern may begin to those where it may then end. A
repetition that has gone round more often than the text has gaps reaches nothing new, so counts need
not be followed further than that.
-/

set_option autoImplicit false

namespace Nes6502

inductive Pattern where
  | empty
  | one (chars : CharSet)
  /-- Nothing, at a gap of which something holds. -/
  | gap (assertion : Assertion)
  /-- A part whose matches are kept apart. -/
  | capture (body : Pattern)
  | sequence (first second : Pattern)
  | either (first second : Pattern)
  /-- A repetition, so many times at least and, if there is a bound, so many times at most. -/
  | repetition (body : Pattern) (least : Nat) (most : Option Nat)
  deriving DecidableEq, Repr

namespace Pattern

/-- The gaps of a text, each by the characters before and after it. -/
def gaps (text : List Char) : List (Option Char × Option Char) :=
  (none :: text.map some).zip (text.map some ++ [none])

/-- The gaps of either set. -/
def join (a b : List Bool) : List Bool := List.zipWith or a b

/-- Takes a step so many times, or until it changes nothing. -/
def iterate (step : List Bool → List Bool) : Nat → List Bool → List Bool
  | 0, marks => marks
  | n + 1, marks =>
    let next := step marks
    if next = marks then marks else iterate step n next

/-- The gaps that a pattern may end at if it begins at one of those marked. -/
def reach (text : List Char) : Pattern → List Bool → List Bool
  | .empty, marks => marks
  | .one chars, marks => false :: List.zipWith (fun mark c => mark && chars.contains c) marks text
  | .gap assertion, marks =>
    List.zipWith (fun mark (before, after) => mark && assertion.holds before after) marks
      (gaps text)
  | .capture body, marks => body.reach text marks
  | .sequence first second, marks => second.reach text (first.reach text marks)
  | .either first second, marks => join (first.reach text marks) (second.reach text marks)
  | .repetition body least most, marks =>
    let bound := text.length + 1
    let further := match most with
      | none => bound
      | some most => min (most - least) bound
    let begun := iterate (body.reach text) (min least bound) marks
    iterate (fun marks => join marks (body.reach text marks)) further begun

/-- Whether a pattern occurs anywhere in a text. -/
def occursIn (pattern : Pattern) (text : String) : Bool :=
  let chars := text.toList
  (pattern.reach chars (List.replicate (chars.length + 1) true)).any id

/-- The least number of characters in what matches, if it is known that something does. -/
def minLength : Pattern → Option Nat
  | .empty | .gap _ => some 0
  | .one chars => if chars.isEmpty then none else some 1
  | .capture body => body.minLength
  | .sequence first second => do return (← first.minLength) + (← second.minLength)
  | .either first second => do return min (← first.minLength) (← second.minLength)
  | .repetition body least _ => do return (← body.minLength) * least

/-- The greatest number of characters in what matches, if there is one and it is known that
something does. -/
def maxLength : Pattern → Option Nat
  | .empty | .gap _ => some 0
  | .one chars => if chars.isEmpty then none else some 1
  | .capture body => body.maxLength
  | .sequence first second => do return (← first.maxLength) + (← second.maxLength)
  | .either first second => do return max (← first.maxLength) (← second.maxLength)
  | .repetition body _ most => do return (← body.maxLength) * (← most)

/-- Whether a pattern matches between characters only. -/
def isGap (pattern : Pattern) : Bool := pattern.maxLength = some 0

end Pattern

end Nes6502
