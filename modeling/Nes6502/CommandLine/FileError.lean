/-!
# Unreadable files

Why a file could not be read, in the system's own words and with its number.
-/

set_option autoImplicit false

namespace Nes6502.CommandLine

inductive FileError where
  | notFound
  | isDirectory
  | notDirectory
  | permissionDenied
  | nameTooLong
  /-- Any other cause, by the system's words for it. -/
  | other (words : String) (code : Nat)
  deriving DecidableEq, Repr

namespace FileError

/-- The system's words for a cause. -/
def words : FileError → String
  | .notFound => "No such file or directory"
  | .isDirectory => "Is a directory"
  | .notDirectory => "Not a directory"
  | .permissionDenied => "Permission denied"
  | .nameTooLong => "File name too long"
  | .other words _ => words

/-- The system's number of a cause. -/
def code : FileError → Nat
  | .notFound => 2
  | .isDirectory => 21
  | .notDirectory => 20
  | .permissionDenied => 13
  | .nameTooLong => 36
  | .other _ code => code

/-- The cause of a number, with the words for it in case it is none of the known ones. -/
def ofCode (code : Nat) (words : String) : FileError :=
  ([.notFound, .isDirectory, .notDirectory, .permissionDenied, .nameTooLong].find?
    (·.code = code)).getD (.other words code)

/-- The cause as it is reported. -/
def message (error : FileError) : String :=
  let words := error.words
  let code := error.code
  s!"{words} (os error {code})"

end FileError

end Nes6502.CommandLine
