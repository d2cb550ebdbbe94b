import Nes6502.Pattern
import Nes6502.Pattern.Utf8

/-!
# How large a pattern is

To be searched for, a pattern would be turned into an automaton that reads bytes, and into another
one that reads them backwards. What these two take is limited, and a pattern that takes more is
refused; so is one that asks for boundaries of words beyond ASCII, which no automaton knows.

The automaton is never made. Its parts are put on a bill, and the bill is paid from the left to the
right until the limit is passed. A state takes `state` bytes; one that has several ways on takes
some more for each way.
-/

set_option autoImplicit false

namespace Nes6502.Pattern

/-- What a state takes. -/
def state : Nat := 32

/-- What a state takes from which so many ways lead on without reading anything. -/
def fork (ways : Nat) : Nat := state + 4 * ways

/-- What a state takes that reads a byte of one of so many ranges. -/
def sparse (ranges : Nat) : Nat := state + 8 * ranges

inductive Direction where
  | forward
  | backward
  deriving DecidableEq, Repr

/-- What parts of an automaton take, in the order in which they are made. -/
inductive Bill where
  | bytes (number : Nat)
  /-- A boundary of words that cannot be found. -/
  | boundary
  | both (first second : Bill)
  | times (number : Nat) (bill : Bill)
  deriving Repr

/-- Why a pattern that makes sense is refused. -/
inductive Excess where
  | boundary
  | size (limit : Nat)
  deriving DecidableEq, Repr

namespace Bill

/-- Does something so many times, one after the other, until it fails. -/
def repeatedly (pay : Nat → Except Excess Nat) : Nat → Nat → Except Excess Nat
  | 0, paid => .ok paid
  | n + 1, paid =>
    match pay paid with
    | .ok paid => repeatedly pay n paid
    | .error excess => .error excess

/-- Pays a bill on top of what is paid already, within a limit. -/
def pay (limit : Nat) : Bill → (paid : Nat) → Except Excess Nat
  | .bytes number, paid =>
    if paid + number ≤ limit then .ok (paid + number) else .error (.size limit)
  | .boundary, _ => .error .boundary
  | .both first second, paid => do second.pay limit (← first.pay limit paid)
  | .times number bill, paid => repeatedly (bill.pay limit) number paid

/-- Some bytes before a bill. -/
def add (number : Nat) (bill : Bill) : Bill := .both (.bytes number) bill

/-- A bill with the way to what it is for, if there is one. -/
def way (isBranch : Bool) (bill : Bill) : Bill := if isBranch then bill.add 4 else bill

end Bill

/-- The sequences that begin alike, group by group. -/
def alike {α : Type} [BEq α] (sequences : List (List α)) : List (List (List α)) :=
  sequences.splitBy fun first second => first.head? == second.head?

/-- The inner nodes of the tree of some sequences, each by the sequences from there on. -/
def nodes {α : Type} [BEq α] : (depth : Nat) → List (List α) → List (List (List α))
  | 0, _ => []
  | depth + 1, sequences =>
    if sequences.all (·.isEmpty) then []
    else sequences :: (alike sequences).flatMap fun group => nodes depth (group.map (·.drop 1))

/-- What many parts take together. -/
def total : List Nat → Nat
  | [] => 0
  | size :: sizes => size + total sizes

/-- What a set of characters takes. Beyond ASCII, nodes with the same ways on are one state forward,
but not backward. -/
def setSize (direction : Direction) (chars : CharSet) : Nat :=
  if chars.isAscii then state + sparse chars.ranges.length
  else
    let sequences := Utf8.ofSet chars
    let nodes := nodes 4 sequences
    match direction with
    | .forward => state + total (nodes.eraseDups.map fun node => sparse (alike node).length)
    | .backward =>
      let ways := total (nodes.map fun node => (alike node).length)
      state + fork sequences.length + state * ways

/-- What a set of characters takes; one character is read byte by byte. -/
def charsSize (direction : Direction) (chars : CharSet) : Nat :=
  match chars.only? with
  | some code => state * (Utf8.encode code).length
  | none => setSize direction chars

/-- The bytes of a pattern that is one character after the other. -/
def word? : Pattern → Option (List Nat)
  | .one chars => chars.only?.map Utf8.encode
  | .sequence first second => do return (← first.word?) ++ (← second.word?)
  | _ => none

/-- The words of alternatives that are all of them words. -/
def words? : Pattern → Option (List (List Nat))
  | .either first second => do return (← first.words?) ++ (← second.words?)
  | pattern => do return [← pattern.word?]

/-- The words before, between and after the empty ones. -/
def runs : List (List Nat) → List (List (List Nat))
  | [] => [[]]
  | [] :: words => [] :: runs words
  | word :: words =>
    match runs words with
    | [] => [[word]]
    | run :: others => (word :: run) :: others

/-- What follows the bytes that words start with, byte by byte. -/
def ways (words : List (List Nat)) : List (List (List Nat)) :=
  (words.filterMap List.head?).eraseDups.map fun byte =>
    (words.filter fun word => word.head? = some byte).map (·.drop 1)

/-- What a node takes in the tree of some words. A word that ends there comes before the longer
words that are given after it, so these lead on from a state of their own; that it ends there more
than once at first changes nothing. -/
def treeSize : (depth : Nat) → List (List Nat) → Nat
  | 0, _ => 0
  | depth + 1, words =>
    if words.all (·.isEmpty) then 0
    else
      let longer := words.dropWhile (·.isEmpty)
      let runs := (if longer.length < words.length then [[]] else []) ++ runs longer
      let full := (runs.map ways).filter (!·.isEmpty)
      let reader (count : Nat) := if count = 1 then state else sparse count
      let readers := total (full.map fun ways => reader ways.length)
      let rest := total (full.flatten.map (treeSize depth))
      readers + fork (full.length + (runs.length - 1)) + rest

/-- What some words take, of which one is read. -/
def wordsSize (direction : Direction) (words : List (List Nat)) : Nat :=
  let words := match direction with
    | .forward => words
    | .backward => words.map List.reverse
  let depth := (words.map List.length).foldl max 0
  state + treeSize (depth + 1) words

/-- The bill of a repetition of something that has a bill. -/
def repetitionBill (isFilled : Bool) (body : Bill) : (least : Nat) → (most : Option Nat) → Bill
  | 0, some 1 => .add (fork 2 + state) body
  | 0, none => .add (if isFilled then fork 2 else fork 2 + fork 2 + state) body
  | least, none => .add (fork 2) (.times least body)
  | least, some most =>
    let first := if least = 0 then .bytes state else .times least body
    if least = most then first
    else .both first (.add state (.times (most - least) (.add (fork 2) body)))

/-- The bill of a pattern; one of several alternatives has a way that leads to it. -/
def bill (direction : Direction) : Pattern → (isBranch : Bool) → Bill
  | .either first second, true => .both (first.bill direction true) (second.bill direction true)
  | .either first second, false =>
    match words? (.either first second) with
    | some words => .bytes (wordsSize direction words)
    | none =>
      .add (fork 0 + state) (.both (first.bill direction true) (second.bill direction true))
  | .empty, isBranch => .way isBranch (.bytes state)
  | .one chars, isBranch => .way isBranch (.bytes (charsSize direction chars))
  | .gap (.boundary .all _), _ => .boundary
  | .gap _, isBranch => .way isBranch (.bytes state)
  | .capture body, isBranch =>
    let marks := match direction with
      | .forward => 2 * state
      | .backward => 0
    .way isBranch (.add marks (body.bill direction false))
  | .sequence first second, isBranch =>
    .way isBranch (.both (first.bill direction false) (second.bill direction false))
  | .repetition body least most, isBranch =>
    let isFilled := body.minLength.any (0 < ·)
    .way isBranch (repetitionBill isFilled (body.bill direction false) least most)

/-- Whether a pattern can match at the start of a text only. -/
def isAtStart : Pattern → Bool
  | .gap assertion => assertion = .textStart
  | .capture body => body.isAtStart
  | .sequence first second => first.isAtStart || (first.isGap && second.isAtStart)
  | .either first second => first.isAtStart && second.isAtStart
  | .repetition body least _ => 0 < least && body.isAtStart
  | _ => false

/-- Whether a pattern can match at the end of a text only. -/
def isAtEnd : Pattern → Bool
  | .gap assertion => assertion = .textEnd
  | .capture body => body.isAtEnd
  | .sequence first second => second.isAtEnd || (second.isGap && first.isAtEnd)
  | .either first second => first.isAtEnd && second.isAtEnd
  | .repetition body least _ => 0 < least && body.isAtEnd
  | _ => false

/-- The bill of a whole automaton: what leads to the places where a match may begin, the pattern
with its marks, and the state that is reached at last. -/
def wholeBill (direction : Direction) (pattern : Pattern) : Bill :=
  let isFixed := match direction with
    | .forward => pattern.isAtStart
    | .backward => pattern.isAtEnd
  let leading := if isFixed then state else fork 2 + state + sparse 1
  .add leading (.both (bill direction (.capture pattern) false) (.bytes state))

/-- What an automaton may take. -/
def sizeLimit : Nat := 10 * 0x100000

/-- Refuses a pattern that an automaton cannot be had for. -/
def checkSize (pattern : Pattern) : Except Excess Unit := do
  let _ ← (pattern.wholeBill .forward).pay sizeLimit 0
  let _ ← (pattern.wholeBill .backward).pay sizeLimit 0

end Nes6502.Pattern
