import Nes6502.CommandLine.Argument
import Nes6502.CommandLine.Emphasis

/-!
# Usage errors

What can be wrong with a command line, and how it is put into words.
-/

set_option autoImplicit false

namespace Nes6502.CommandLine

inductive UsageError where
  | unexpectedArgument (argument : String)
  | unexpectedValue (value : String) (argument : Argument)
  | missingValue (argument : Argument)
  | repeated (argument : Argument)
  | invalidValue (value : String) (argument : Argument) (reason : String)
  | missingProgram
  deriving DecidableEq, Repr

namespace UsageError

/-- An error in words; what the user wrote stands out, and so do the names of arguments. -/
def pieces : UsageError → List Piece
  | .unexpectedArgument argument =>
    [.plain "unexpected argument '", .emphasised argument, .plain "' found"]
  | .unexpectedValue value argument =>
    [.plain "unexpected value '", .emphasised value, .plain "' for '",
      .emphasised argument.display, .plain "' found; no more were expected"]
  | .missingValue argument =>
    [.plain "a value is required for '", .emphasised argument.display,
      .plain "' but none was supplied"]
  | .repeated argument =>
    [.plain "the argument '", .emphasised argument.display,
      .plain "' cannot be used multiple times"]
  | .invalidValue value argument reason =>
    [.plain "invalid value '", .emphasised value, .plain "' for '",
      .emphasised argument.display, .plain "': ", .plain reason]
  | .missingProgram =>
    [.plain "the following required arguments were not provided:\n  ",
      .emphasised Argument.program.display]

/-- An error as it is reported, with a hint where to read on. -/
def report (error : UsageError) : String :=
  Piece.unadorned <|
    [.emphasised "error:", .plain " "] ++ error.pieces ++
      [.plain "\n\nFor more information, try '", .emphasised "--help", .plain "'.\n"]

end UsageError

end Nes6502.CommandLine
