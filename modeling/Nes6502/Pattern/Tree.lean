import Nes6502.Pattern.CharSet
import Nes6502.Pattern.Flag

/-!
# Patterns as they are written

A tree holds a pattern with the places of its parts. Nothing is said yet of what the parts mean, but
for the names that have one meaning only.
-/

set_option autoImplicit false

namespace Nes6502.Pattern

/-- A character that stands for itself. -/
structure Literal where
  span : Span
  char : Char
  /-- Whether it is given by two hexadecimal digits, which can be meant for a byte. -/
  isByte : Bool
  deriving DecidableEq, Repr

/-- The sets that have a letter. -/
inductive Shorthand where
  | digit
  | space
  | word
  deriving DecidableEq, Repr

/-- The boundaries of words. -/
inductive Boundary where
  | anywhere
  | nowhere
  | start
  | stop
  /-- No character of a word comes before. -/
  | startHalf
  /-- No character of a word comes after. -/
  | stopHalf
  deriving DecidableEq, Repr

/-- The signs that stand for a place between two characters. -/
inductive Anchor where
  | lineStart
  | lineEnd
  | textStart
  | textEnd
  | boundary (kind : Boundary)
  deriving DecidableEq, Repr

/-- The operations on the members of a bracket. -/
inductive Operation where
  | intersection
  | difference
  | symmetricDifference
  deriving DecidableEq, Repr

/-- A member of a bracket, or several. -/
inductive Member where
  | nothing (span : Span)
  | literal (literal : Literal)
  | range (span : Span) (least greatest : Literal)
  /-- A set that has a name between colons. -/
  | named (span : Span) (chars : CharSet) (negated : Bool)
  | shorthand (span : Span) (kind : Shorthand) (negated : Bool)
  | property (span : Span) (name : List Char)
  | bracket (span : Span) (negated : Bool) (members : Member)
  | union (span : Span) (members : List Member)
  | operation (span : Span) (operation : Operation) (left right : Member)
  deriving Repr

def Member.span : Member → Span
  | .literal c => c.span
  | .nothing span | .range span _ _ | .named span _ _ | .shorthand span _ _ | .property span _
  | .bracket span _ _ | .union span _ | .operation span _ _ _ => span

/-- How often something is repeated. -/
structure Count where
  least : Nat
  /-- None stands for any number of times. -/
  most : Option Nat
  deriving DecidableEq, Repr

inductive Tree where
  | empty (span : Span)
  /-- Flags that hold to the end of the group around. -/
  | switch (span : Span) (items : List Flags.Item)
  | literal (literal : Literal)
  | dot (span : Span)
  | anchor (span : Span) (anchor : Anchor)
  | shorthand (span : Span) (kind : Shorthand) (negated : Bool)
  | property (span : Span) (name : List Char)
  | bracket (span : Span) (negated : Bool) (members : Member)
  | repetition (span : Span) (count : Count) (body : Tree)
  /-- A group with the flags inside it; it may be one whose matches are kept apart. -/
  | group (span : Span) (items : List Flags.Item) (captures : Bool) (body : Tree)
  | alternatives (span : Span) (branches : List Tree)
  | sequence (span : Span) (parts : List Tree)
  deriving Repr

def Tree.span : Tree → Span
  | .literal c => c.span
  | .empty span | .switch span _ | .dot span | .anchor span _ | .shorthand span _ _
  | .property span _ | .bracket span _ _ | .repetition span _ _ | .group span _ _ _
  | .alternatives span _ | .sequence span _ => span

end Nes6502.Pattern
