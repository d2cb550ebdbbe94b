import Nes6502.CommandLine.Outcome

/-!
# The program

Reads the environment and the program file, and hands everything else to `Outcome.ofArguments`.
-/

set_option autoImplicit false

namespace Nes6502

open CommandLine

/-- The variable of the environment that holds the log specification. -/
def specificationVariable : String := "RUST_LOG"

/-- The number of a cause; some of them are handed on with a minus sign. -/
def errorNumber (code : UInt32) : Nat := if code < 0x80000000 then code.toNat else (0 - code).toNat

/-- The cause that the system gives for a file it does not read. -/
def fileErrorOf : IO.Error → FileError
  | .noFileOrDirectory _ code words | .interrupted _ code words
  | .permissionDenied _ code words | .inappropriateType _ code words
  | .invalidArgument _ code words | .resourceExhausted _ code words
  | .noSuchThing _ code words | .alreadyExists _ code words
  | .otherError code words | .resourceBusy code words | .hardwareFault code words
  | .illegalOperation code words | .unsupportedOperation code words
  | .resourceVanished code words | .unsatisfiedConstraints code words
  | .protocolError code words | .timeExpired code words => .ofCode (errorNumber code) words
  | .unexpectedEof => .other "unexpected end of file" 0
  | .userError words => .other words 0

/-- The bytes of a file. -/
def readProgram (path : String) : IO (Except FileError (List UInt8)) := do
  try
    let bytes ← IO.FS.readBinFile path
    return .ok bytes.toList
  catch error => return .error (fileErrorOf error)

end Nes6502

open Nes6502 CommandLine in
def main (arguments : List String) : IO UInt32 := do
  let specification ← IO.getEnv specificationVariable
  let outcome ← Outcome.ofArguments readProgram specification arguments
  IO.print outcome.output
  IO.eprint outcome.messages
  return outcome.exitCode
