import Nes6502.Pattern.Depth
import Nes6502.Pattern.Draft
import Nes6502.Pattern.Meaning
import Nes6502.Pattern.Size

/-!
# Reading patterns

`Pattern.parse` takes a pattern as it is written to one that can be searched for. It may be refused
because of the way it is written, because of how deep it is, because of what it means, or because of
how large it is, and these are looked at in that order.
-/

set_option autoImplicit false

namespace Nes6502.Pattern

/-- Why a pattern is refused. -/
inductive Refusal where
  | malformed (error : Error)
  | excessive (excess : Excess)
  deriving DecidableEq, Repr

/-- What is reported of a pattern that is refused. -/
def Refusal.report (text : List Char) : Refusal → String
  | .malformed error => error.report text
  | .excessive .boundary => "error building NFA"
  | .excessive (.size limit) => s!"Compiled regex exceeds size limit of {limit} bytes."

/-- The meaning of a pattern that is not too deep. -/
def read (text : List Char) : Except Error Pattern := do
  let tree ← Tree.parse text
  tree.checkDepth 0
  let (pattern, _) ← tree.meaning .initial
  return pattern

/-- Reads a pattern. -/
def parse (text : List Char) : Except Refusal Pattern := do
  let pattern ← (read text).mapError .malformed
  pattern.checkSize.mapError .excessive
  return pattern.condensed

end Nes6502.Pattern
