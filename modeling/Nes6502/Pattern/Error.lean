/-!
# What can be wrong with a pattern

An error has a cause and points to the part of the pattern that is at fault; some errors point to an
earlier part besides, which the faulty one contradicts. The report shows the pattern with carets
under these parts.
-/

set_option autoImplicit false

namespace Nes6502.Pattern

/-- A part of a text, by the number of characters before its start and before its end. -/
structure Span where
  start : Nat
  stop : Nat
  deriving DecidableEq, Repr

inductive Cause where
  | unclosedGroup
  | unopenedGroup
  | unclosedBracket
  /-- An escape that stands for no set of characters, in a bracket. -/
  | escapeInBracket
  | rangeOrder
  | rangeBound
  | nothingToRepeat
  | unclosedCount
  | missingCount
  | countTooLarge
  | countOrder
  | unfinishedEscape
  | unknownEscape
  | hexDigit
  | hexMissing
  | hexNoCharacter
  | backreference
  | lookAround
  | unknownFlag
  | unfinishedFlags
  | duplicateFlag
  | danglingNegation
  | repeatedNegation
  | nameMissing
  | nameCharacter
  | unfinishedName
  | duplicateName
  | propertyName
  | boundaryOrCount
  | unclosedBoundary
  | unknownBoundary
  /-- More groups and brackets, one inside the other, than there may be. -/
  | tooDeep (limit : Nat)
  | unknownProperty
  | unknownPropertyValue
  /-- A set of characters that is not there for all scripts. -/
  | unknownSet
  /-- Case, which is not known for all scripts. -/
  | unknownCase
  /-- What stands for more than bytes of ASCII, where bytes are looked at. -/
  | notBytes
  /-- A character beyond ASCII, where bytes are looked at. -/
  | notAscii
  deriving DecidableEq, Repr

def Cause.words : Cause → String
  | .unclosedGroup => "unclosed group"
  | .unopenedGroup => "unopened group"
  | .unclosedBracket => "unclosed character class"
  | .escapeInBracket => "invalid escape sequence found in character class"
  | .rangeOrder => "invalid character class range, the start must be <= the end"
  | .rangeBound => "invalid range boundary, must be a literal"
  | .nothingToRepeat => "repetition operator missing expression"
  | .unclosedCount => "unclosed counted repetition"
  | .missingCount => "repetition quantifier expects a valid decimal"
  | .countTooLarge => "decimal literal invalid"
  | .countOrder => "invalid repetition count range, the start must be <= the end"
  | .unfinishedEscape => "incomplete escape sequence, reached end of pattern prematurely"
  | .unknownEscape => "unrecognized escape sequence"
  | .hexDigit => "invalid hexadecimal digit"
  | .hexMissing => "hexadecimal literal empty"
  | .hexNoCharacter => "hexadecimal literal is not a Unicode scalar value"
  | .backreference => "backreferences are not supported"
  | .lookAround => "look-around, including look-ahead and look-behind, is not supported"
  | .unknownFlag => "unrecognized flag"
  | .unfinishedFlags => "expected flag but got end of regex"
  | .duplicateFlag => "duplicate flag"
  | .danglingNegation => "dangling flag negation operator"
  | .repeatedNegation => "flag negation operator repeated"
  | .nameMissing => "empty capture group name"
  | .nameCharacter => "invalid capture group character"
  | .unfinishedName => "unclosed capture group name"
  | .duplicateName => "duplicate capture group name"
  | .propertyName => "invalid Unicode character class"
  | .boundaryOrCount =>
    "found either the beginning of a special word boundary or a bounded repetition on a \\b " ++
      "with an opening brace, but no closing brace"
  | .unclosedBoundary =>
    "special word boundary assertion is either unclosed or contains an invalid character"
  | .unknownBoundary =>
    "unrecognized special word boundary assertion, valid choices are: " ++
      "start, end, start-half or end-half"
  | .tooDeep limit => s!"exceed the maximum number of nested parentheses/brackets ({limit})"
  | .unknownProperty => "Unicode property not found"
  | .unknownPropertyValue => "Unicode property value not found"
  | .unknownSet =>
    "Unicode-aware Perl class not found (make sure the unicode-perl feature is enabled)"
  | .unknownCase =>
    "Unicode-aware case insensitivity matching is not available " ++
      "(make sure the unicode-case feature is enabled)"
  | .notBytes => "pattern can match invalid UTF-8"
  | .notAscii => "Unicode not allowed here"

/-- Something wrong with the way a pattern is written. -/
structure Error where
  cause : Cause
  span : Span
  /-- The earlier part that the faulty one contradicts. -/
  earlier : Option Span
  deriving DecidableEq, Repr

namespace Error

/-- A place in a text of several lines; both numbers count from zero. -/
structure Place where
  line : Nat
  column : Nat
  deriving DecidableEq, Repr

def placeOf (text : List Char) (offset : Nat) : Place :=
  let before := text.take offset
  ⟨before.count '\n', (before.reverse.takeWhile (· ≠ '\n')).length⟩

/-- The lines of a text, without their ends. -/
def linesOf (text : List Char) : List String :=
  let parts := (String.ofList text).splitOn "\n"
  let ended := parts.dropLast.map fun line =>
    if line.endsWith "\r" then (line.dropEnd 1).toString else line
  match parts.getLast? with
  | none | some "" => ended
  | some line => ended ++ [line]

/-- Carets from one column to another, at least one of them, after those that are there. -/
def addCarets (line : String) (first last : Nat) : String :=
  (line.pushn ' ' (first - line.length)).pushn '^' (max 1 (last - first))

/-- The parts that an error points to, in their order, as places where they start and stop. -/
def places (text : List Char) (error : Error) : List (Place × Place) :=
  let spans := match error.earlier with
    | none => [error.span]
    | some span => if span.start ≤ error.span.start then [span, error.span] else [error.span, span]
  spans.map fun span => (placeOf text span.start, placeOf text span.stop)

/-- The carets under a line, if there are any. -/
def carets? (places : List (Place × Place)) (line : Nat) : Option String :=
  match places.filter fun (start, stop) => start.line = line && stop.line = line with
  | [] => none
  | here =>
    some (here.foldl (fun carets (start, stop) => addCarets carets start.column stop.column) "")

/-- The pattern with carets, each line after so many blanks or its number. -/
def notated (text : List Char) (places : List (Place × Place)) : List String :=
  let lines := linesOf text
  let count := if text.getLast? = some '\n' then lines.length + 1 else lines.length
  let width := (toString count).length
  let margin := if count ≤ 1 then "    " else "".pushn ' ' (width + 2)
  lines.zipIdx.flatMap fun (line, i) =>
    let number := toString (i + 1)
    let head := if count ≤ 1 then margin else "".pushn ' ' (width - number.length) ++ number ++ ": "
    (head ++ line) :: match carets? places i with
      | some carets => [margin ++ carets]
      | none => []

/-- What is said of a part that goes over several lines. -/
def longPart? : Place × Place → Option String
  | (start, stop) =>
    if start.line = stop.line then none
    else
      let first := start.line + 1
      let last := stop.line + 1
      let column := start.column + 1
      let lastColumn := stop.column
      some (s!"on line {first} (column {column}) through line {last} (column {lastColumn})")

/-- The report of an error in a pattern. -/
def report (text : List Char) (error : Error) : String :=
  let places := error.places text
  let words := error.cause.words
  let shown := notated text places
  let shown :=
    if text.contains '\n' then
      let divider := "".pushn '~' 79
      [divider] ++ shown ++ [divider] ++ places.filterMap longPart?
    else shown
  String.intercalate "\n" (["regex parse error:"] ++ shown ++ [s!"error: {words}"])

end Error

end Nes6502.Pattern
