import Nes6502.Pattern

/-!
# Patterns in simple form

Ways to make a pattern of others that keep it simple: no sequence holds another sequence or nothing,
no alternatives hold others, sets of characters are put together, what branches begin with in common
comes before them, and what matches between characters only is not repeated.

`Pattern.condensed` goes further, for the search alone: it leaves out what does not matter for it,
and makes one repetition of several.
-/

set_option autoImplicit false

namespace Nes6502.Pattern

/-- The parts that a pattern has one after the other. -/
def parts : Pattern → List Pattern
  | .empty => []
  | .sequence first second => first.parts ++ second.parts
  | pattern => [pattern]

/-- The alternatives of a pattern. -/
def branches : Pattern → List Pattern
  | .either first second => first.branches ++ second.branches
  | pattern => [pattern]

def ofParts : List Pattern → Pattern
  | [] => .empty
  | [part] => part
  | part :: others => .sequence part (ofParts others)

/-- One of some branches, given as the first and the others. -/
def ofBranches (first : Pattern) : List Pattern → Pattern
  | [] => first
  | next :: others => .either first (ofBranches next others)

/-- One pattern after the other. -/
def concat (patterns : List Pattern) : Pattern := ofParts (patterns.flatMap parts)

/-- The code point of a pattern that stands for one character. -/
def letter? : Pattern → Option Nat
  | .one chars => chars.only?
  | _ => none

/-- The characters of a pattern that is a set of them. -/
def chars? : Pattern → Option CharSet
  | .one chars => some chars
  | _ => none

/-- The set of characters that some branches are together, if each of them is one character, or each
of them a set that is not one character. -/
def merged? (branches : List Pattern) : Option CharSet := do
  let sets ← branches.mapM chars?
  if branches.all (·.letter?.isSome) || branches.all (·.letter?.isNone) then
    some (sets.foldl CharSet.union .empty)
  else none

/-- The parts of a pattern, where characters that follow on each other are taken together. -/
def blocks (pattern : Pattern) : List (List Pattern) :=
  pattern.parts.splitBy fun first second => first.letter?.isSome && second.letter?.isSome

/-- What two lists begin with in common. -/
def common {α : Type} [DecidableEq α] : List α → List α → List α
  | a :: as, b :: bs => if a = b then a :: common as bs else []
  | _, _ => []

/-- What some branches begin with in common, if each of them has several blocks. -/
def commonStart : List Pattern → List (List Pattern)
  | [] => []
  | first :: others =>
    if (first :: others).all (1 < ·.blocks.length) then
      others.foldl (fun start branch => common start branch.blocks) first.blocks
    else []

/-- One of some patterns, put together into a set of characters where that can be. -/
def choice (patterns : List Pattern) : Pattern :=
  let branches := patterns.flatMap Pattern.branches
  match merged? branches, branches with
  | some chars, _ => .one chars
  | none, [] => .one .empty
  | none, first :: others => ofBranches first others

/-- One of some patterns, with what they begin with in common before them. -/
def anyOf (patterns : List Pattern) : Pattern :=
  let branches := patterns.flatMap Pattern.branches
  match commonStart branches with
  | [] => choice branches
  | start =>
    let ends := branches.map fun branch => ofParts (branch.blocks.drop start.length).flatten
    concat (start.flatten ++ [choice ends])

/-- A pattern a number of times. What matches between characters only need not come twice. -/
def times (body : Pattern) (least : Nat) (most : Option Nat) : Pattern :=
  let (least, most) :=
    if body.isGap then (min least 1, some (min (most.getD 1) 1)) else (least, most)
  if least = 0 && most = some 0 then .empty
  else if least = 1 && most = some 1 then body
  else .repetition body least most

/-- Repeats a pattern; a repetition of a repetition is one repetition if it has no gaps between its
counts. -/
def repeated (body : Pattern) (least : Nat) (most : Option Nat) : Pattern :=
  match body, most with
  | .repetition inner 0 (some (_ + 1)), none => .repetition inner 0 none
  | .repetition inner innerLeast none, most =>
    if most = some 0 || (least = 0 && 1 < innerLeast) then .repetition body least most
    else .repetition inner (innerLeast * least) none
  | body, most => .repetition body least most

/-- A pattern that occurs in the same texts, with nothing kept apart and with fewer repetitions. -/
def condensed : Pattern → Pattern
  | .capture body => body.condensed
  | .sequence first second => .sequence first.condensed second.condensed
  | .either first second => .either first.condensed second.condensed
  | .repetition body least most => body.condensed.repeated least most
  | pattern => pattern

end Nes6502.Pattern
