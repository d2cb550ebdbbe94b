import Nes6502.Pattern.Tree

/-!
# How deep a pattern is

Groups, repetitions, alternatives, sequences and brackets may be inside each other, as may unions
and operations in a bracket, but no deeper than a limit. Of what is too deep the part that comes
first is reported, where what is around a part comes before it.
-/

set_option autoImplicit false

namespace Nes6502.Pattern

/-- How many parts may be around each other. -/
def maxDepth : Nat := 250

/-- The depth of what is in a part, if that is not too much. -/
def deeper (span : Span) (depth : Nat) : Except Error Nat :=
  if depth < maxDepth then .ok (depth + 1) else .error ⟨.tooDeep maxDepth, span, none⟩

mutual

/-- Looks through a member of a bracket for what is too deep. -/
def Member.checkDepth : Member → (depth : Nat) → Except Error Unit
  | .bracket span _ members, depth => do members.checkDepth (← deeper span depth)
  | .union span members, depth => do Member.checkDepths members (← deeper span depth)
  | .operation span _ left right, depth => do
    let depth ← deeper span depth
    left.checkDepth depth
    right.checkDepth depth
  | _, _ => .ok ()

def Member.checkDepths : List Member → (depth : Nat) → Except Error Unit
  | [], _ => .ok ()
  | member :: members, depth => do
    member.checkDepth depth
    Member.checkDepths members depth

end

mutual

/-- Looks through a pattern for what is too deep. -/
def Tree.checkDepth : Tree → (depth : Nat) → Except Error Unit
  | .bracket span _ members, depth => do members.checkDepth (← deeper span depth)
  | .repetition span _ body, depth | .group span _ _ body, depth => do
    body.checkDepth (← deeper span depth)
  | .alternatives span parts, depth | .sequence span parts, depth => do
    Tree.checkDepths parts (← deeper span depth)
  | _, _ => .ok ()

def Tree.checkDepths : List Tree → (depth : Nat) → Except Error Unit
  | [], _ => .ok ()
  | part :: parts, depth => do
    part.checkDepth depth
    Tree.checkDepths parts depth

end

end Nes6502.Pattern
