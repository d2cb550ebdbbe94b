import Nes6502.Pattern.Bracket
import Nes6502.Pattern.Count
import Nes6502.Pattern.Group

/-!
# Drafts of patterns

`Tree.parse` reads a pattern from left to right. A draft is what has been read so far: the branches
of the group that is open, and of the groups around it. The first error that is met is the one
reported; that a group is not closed is found at the end.
-/

set_option autoImplicit false

namespace Nes6502.Pattern

namespace Tree

/-- Parts one after the other. -/
def ofParts (span : Span) : List Tree → Tree
  | [] => .empty span
  | [part] => part
  | parts => .sequence span parts

/-- Branches one of which is taken. -/
def ofBranches (span : Span) : List Tree → Tree
  | [branch] => branch
  | branches => .alternatives span branches

/-- Whether a part can be repeated, which flags alone cannot. -/
def canRepeat : Tree → Bool
  | .switch _ _ => false
  | _ => true

end Tree

/-- A group that is being read; the whole pattern is one, too. -/
structure Group where
  /-- The parenthesis that opens it. -/
  opening : Span
  /-- The flags inside it. -/
  items : List Flags.Item
  /-- Whether its matches are kept apart. -/
  captures : Bool
  /-- Whether the pattern is spaced at the place reached. -/
  spaced : Bool
  /-- Where the first branch starts. -/
  start : Nat
  /-- The branches before the one that is being read, the last one first. -/
  branches : List Tree
  /-- Where the branch starts that is being read. -/
  branchStart : Nat
  /-- The parts of that branch, the last one first. -/
  parts : List Tree
  deriving Repr

namespace Group

/-- A group at its start. -/
def opened (opening : Span) (items : List Flags.Item) (captures spaced : Bool) (start : Nat) :
    Group :=
  ⟨opening, items, captures, spaced, start, [], start, []⟩

def push (group : Group) (part : Tree) : Group := { group with parts := part :: group.parts }

/-- The branch that is being read, if it stops at an offset. -/
def branch (group : Group) (stop : Nat) : Tree :=
  .ofParts ⟨group.branchStart, stop⟩ group.parts.reverse

/-- Begins another branch after the bar at an offset. -/
def divide (group : Group) (bar : Nat) : Group :=
  { group with
    branches := group.branch bar :: group.branches
    branchStart := bar + 1
    parts := [] }

/-- What is in a group, if it stops at an offset. -/
def body (group : Group) (stop : Nat) : Tree :=
  .ofBranches ⟨group.start, stop⟩ (group.branch stop :: group.branches).reverse

/-- The group that stops before the parenthesis at an offset. -/
def closed (group : Group) (stop : Nat) : Tree :=
  .group ⟨group.opening.start, stop + 1⟩ group.items group.captures (group.body stop)

end Group

/-- What has been read of a pattern. -/
structure Draft where
  current : Group
  /-- The groups around the current one, from the inside out. -/
  outer : List Group
  /-- The names of groups so far. -/
  names : List (String × Span)
  deriving Repr

namespace Draft

def empty : Draft := ⟨.opened ⟨0, 0⟩ [] false false 0, [], []⟩

def push (d : Draft) (part : Tree) : Draft := { d with current := d.current.push part }

/-- Whether a pattern is spaced behind a list of flags. -/
def spacedAfter (d : Draft) (items : List Flags.Item) : Bool :=
  let flags : Flags := ⟨if d.current.spaced then [.spaced] else []⟩
  (flags.within items).has .spaced

/-- Opens a group. -/
def enter (d : Draft) (opening : Span) (items : List Flags.Item) (captures : Bool) (start : Nat) :
    Draft :=
  { d with
    current := .opened opening items captures (d.spacedAfter items) start
    outer := d.current :: d.outer }

/-- Opens a group, or sets flags. -/
def readOpening (d : Draft) (input : Input) : Except Error (Draft × Input) := do
  let (opening, after) ← Opening.read d.names input
  match opening with
  | .flags items =>
    let current := d.current.push (.switch (after.since input.offset) items)
    return ({ d with current := { current with spaced := d.spacedAfter items } }, after)
  | .group items => return (d.enter input.nextSpan items false after.offset, after)
  | .capture name =>
    let d := { d with names := name.toList ++ d.names }
    return (d.enter input.nextSpan [] true after.offset, after)

/-- Closes the current group. -/
def close (d : Draft) (input : Input) : Except Error (Draft × Input) :=
  match d.outer with
  | [] => refuse .unopenedGroup input.nextSpan
  | group :: outer =>
    let current := group.push (d.current.closed input.offset)
    .ok ({ d with current, outer }, input.drop 1)

/-- Repeats the last part, if there is one that can be repeated. -/
def repeatLast (d : Draft) (input : Input) (readCount : Except Error (Count × Input)) :
    Except Error (Draft × Input) :=
  match d.current.parts with
  | [] => refuse .nothingToRepeat input.here
  | last :: parts =>
    if !last.canRepeat then refuse .nothingToRepeat input.here
    else do
      let (count, after) ← readCount
      let part := Tree.repetition (after.since last.span.start) count last
      return ({ d with current := { d.current with parts := part :: parts } }, after)

/-- Reads one part of a pattern, which begins with the given character. -/
def readPart (d : Draft) (c : Char) (input : Input) : Except Error (Draft × Input) :=
  let after := input.drop 1
  let repeated (least : Nat) (most : Option Nat) :=
    d.repeatLast input (.ok (⟨least, most⟩, Count.skipPreference after))
  match c with
  | '(' => d.readOpening input
  | ')' => d.close input
  | '|' => .ok ({ d with current := d.current.divide input.offset }, after)
  | '[' => do
    let (part, after) ← Bracket.read input
    return (d.push part, after)
  | '?' => repeated 0 (some 1)
  | '*' => repeated 0 none
  | '+' => repeated 1 none
  | '{' => d.repeatLast input (Count.read input)
  | '\\' => do
    let (part, after) ← Escape.read input
    return (d.push part, after)
  | '.' => .ok (d.push (.dot input.nextSpan), after)
  | '^' => .ok (d.push (.anchor input.nextSpan .lineStart), after)
  | '$' => .ok (d.push (.anchor input.nextSpan .lineEnd), after)
  | c => .ok (d.push (.literal (Bracket.plain input.offset c)), after)

/-- Reads the rest of a pattern, going past so many characters first. -/
def readRest : (skip : Nat) → Draft → (offset : Nat) → List Char → Except Error (Draft × Nat)
  | _, d, offset, [] => .ok (d, offset)
  | skip + 1, d, offset, _ :: rest => d.readRest skip (offset + 1) rest
  | 0, d, offset, c :: rest =>
    let input : Input := ⟨offset, c :: rest, d.current.spaced⟩
    if 0 < input.blanks then d.readRest (input.blanks - 1) (offset + 1) rest
    else do
      let (d, after) ← d.readPart c input
      d.readRest (after.offset - offset - 1) (offset + 1) rest

end Draft

/-- Reads a pattern. -/
def Tree.parse (text : List Char) : Except Error Tree := do
  let (d, stop) ← Draft.empty.readRest 0 0 text
  if d.outer.isEmpty then return d.current.body stop else refuse .unclosedGroup d.current.opening

end Nes6502.Pattern
