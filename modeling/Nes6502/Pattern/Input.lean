import Nes6502.Blank
import Nes6502.Pattern.Error

/-!
# Reading a pattern

What is left of a pattern, and how it is read character by character. In a spaced pattern blanks and
comments stand for nothing; a comment goes from a number sign to the end of its line.
-/

set_option autoImplicit false

namespace Nes6502.Pattern

structure Input where
  /-- How many characters have been read. -/
  offset : Nat
  rest : List Char
  /-- Whether the pattern is spaced. -/
  spaced : Bool
  deriving DecidableEq, Repr

namespace Input

def drop (input : Input) (count : Nat) : Input :=
  { input with offset := input.offset + count, rest := input.rest.drop count }

/-- The empty span at the place reached. -/
def here (input : Input) : Span := ⟨input.offset, input.offset⟩

/-- The span of the next character. -/
def nextSpan (input : Input) : Span := ⟨input.offset, input.offset + 1⟩

/-- What was read since another place. -/
def since (input : Input) (start : Nat) : Span := ⟨start, input.offset⟩

/-- The number of characters that stand for nothing, in a comment or not. -/
def spacing : Bool → List Char → Nat
  | _, [] => 0
  | true, c :: rest => 1 + spacing (c ≠ '\n') rest
  | false, c :: rest =>
    if isBlank c then 1 + spacing false rest
    else if c = '#' then 1 + spacing true rest
    else 0

/-- The number of characters at the place reached that stand for nothing. -/
def blanks (input : Input) : Nat := if input.spaced then spacing false input.rest else 0

def skipBlanks (input : Input) : Input := input.drop input.blanks

/-- Goes past a character and what stands for nothing after it. -/
def next (input : Input) : Input := (input.drop 1).skipBlanks

/-- What a hyphen is taken to stand before. In a spaced pattern that is the first character after it
which is neither a blank nor a first number sign, though it may belong to a comment. -/
def lookBehind (input : Input) : Option Char :=
  let rest := input.rest.drop 1
  if input.spaced then
    let trimmed := rest.dropWhile isBlank
    let trimmed :=
      if trimmed.head? = some '#' then (trimmed.drop 1).dropWhile isBlank else trimmed
    trimmed.head?.or rest.head?
  else rest.head?

/-- Goes past a text if it comes next. -/
def skip? (input : Input) (text : String) : Option Input :=
  if text.toList.isPrefixOf input.rest then some (input.drop text.length) else none

/-- The offset behind the longest run of characters of a class, and the run, each character with its
offset. -/
def runOf (spaced : Bool) (inClass : Char → Bool) :
    (inComment : Bool) → (offset : Nat) → List Char → Nat × List (Nat × Char)
  | _, offset, [] => (offset, [])
  | true, offset, c :: rest => runOf spaced inClass (c ≠ '\n') (offset + 1) rest
  | false, offset, c :: rest =>
    if spaced && (isBlank c || c = '#') then runOf spaced inClass (c = '#') (offset + 1) rest
    else if inClass c then
      let (stop, run) := runOf spaced inClass false (offset + 1) rest
      (stop, (offset, c) :: run)
    else (offset, [])

/-- Reads the longest run of characters of a class, each with its offset. -/
def takePlaced (input : Input) (inClass : Char → Bool) : List (Nat × Char) × Input :=
  let (stop, run) := runOf input.spaced inClass false input.offset input.rest
  (run, input.drop (stop - input.offset))

/-- Reads the longest run of characters of a class. -/
def takeRun (input : Input) (inClass : Char → Bool) : List Char × Input :=
  let (run, after) := input.takePlaced inClass
  (run.map (·.2), after)

end Input

/-- Fails with a cause at a part of the pattern. -/
def refuse {α : Type} (cause : Cause) (span : Span) : Except Error α :=
  .error ⟨cause, span, none⟩

end Nes6502.Pattern
