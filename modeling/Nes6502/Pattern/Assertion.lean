import Nes6502.Pattern.CharSet
import Nes6502.Pattern.Letter
import Nes6502.Pattern.Tree

/-!
# Assertions

What a pattern can assert of a gap, which is the place between two characters of a text, before its
first or after its last one.
-/

set_option autoImplicit false

namespace Nes6502

/-- The characters that words are made of. -/
inductive Alphabet where
  | ascii
  /-- Letters and numbers of all scripts. -/
  | all
  deriving DecidableEq, Repr

def Alphabet.contains : Alphabet → Char → Bool
  | .ascii, c => CharSet.word.contains c
  | .all, c => c = '_' || Pattern.Letter.isLetter c || Pattern.Letter.isNumber c

inductive Assertion where
  | textStart
  | textEnd
  | lineStart
  | lineEnd
  /-- The start of a line where carriage returns end lines too. -/
  | anyLineStart
  /-- The end of a line where carriage returns end lines too. -/
  | anyLineEnd
  | boundary (alphabet : Alphabet) (kind : Pattern.Boundary)
  deriving DecidableEq, Repr

/-- Whether a gap is a boundary, by whether a character of a word comes before it and after it. -/
def Pattern.Boundary.holds : Pattern.Boundary → (before after : Bool) → Bool
  | .anywhere, before, after => before != after
  | .nowhere, before, after => before == after
  | .start, before, after => !before && after
  | .stop, before, after => before && !after
  | .startHalf, before, _ => !before
  | .stopHalf, _, after => !after

/-- Whether an assertion holds between two characters; at the ends of the text one is missing. -/
def Assertion.holds (assertion : Assertion) (before after : Option Char) : Bool :=
  match assertion with
  | .textStart => before.isNone
  | .textEnd => after.isNone
  | .lineStart => before.isNone || before == some '\n'
  | .lineEnd => after.isNone || after == some '\n'
  | .anyLineStart =>
    before.isNone || before == some '\n' || (before == some '\r' && after != some '\n')
  | .anyLineEnd =>
    after.isNone || after == some '\r' || (after == some '\n' && before != some '\r')
  | .boundary alphabet kind =>
    kind.holds (before.any alphabet.contains) (after.any alphabet.contains)

end Nes6502
