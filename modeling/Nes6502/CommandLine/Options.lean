import Nes6502.CommandLine.Address
import Nes6502.CommandLine.UsageError

/-!
# Options of a session

`Options.parse` reads the arguments of a command line. A long option is spelled out after two
hyphens, with its value behind an equals sign or in the next argument. Short options are letters
after one hyphen; several may share it, and what follows the letter of a setting is its value. After
`--` every argument is the program's name.

A value is checked when the next option comes, or at the end: an argument that cannot be placed at
all is reported before a bad value that stands directly in front of it. That the program is missing
is found last.
-/

set_option autoImplicit false

namespace Nes6502.CommandLine

/-- Why the arguments lead to no run. -/
inductive EarlyExit where
  | helpRequested
  | usageError (error : UsageError)
  deriving DecidableEq, Repr

/-- What the arguments ask for. -/
structure Options where
  program : String
  loadAddress : Option UInt16
  maxInstructions : Option Nat
  breakpoint : Option UInt16
  timeout : Option Nat
  illegalAsNop : Bool
  trace : Bool
  json : Bool
  dumpZeroPage : Bool
  deriving DecidableEq, Repr

/-- An argument that was read and not yet checked. -/
inductive Pending where
  | nothing
  | setting (name : Setting) (value : Option String)
  | program (path : String)
  deriving DecidableEq, Repr

/-- The arguments read so far. -/
structure Draft where
  options : Options
  /-- Whether the program has been named. -/
  programGiven : Bool
  pending : Pending
  /-- Whether all that follows is a program's name. -/
  onlyPrograms : Bool
  deriving DecidableEq, Repr

namespace Draft

/-- Before the first argument. -/
def empty : Draft where
  options := ⟨"", none, none, none, none, false, false, false, false⟩
  programGiven := false
  pending := .nothing
  onlyPrograms := false

def usage {α : Type} (error : UsageError) : Except EarlyExit α := .error (.usageError error)

/-- Reads an address as the value of a setting. -/
def readAddress (name : Setting) (value : String) : Except EarlyExit UInt16 :=
  match Address.parse value.toList with
  | .ok address => .ok address
  | .error cause => usage (.invalidValue value (.setting name) (addressMessage value cause))

/-- Reads a number of sixty-four bits as the value of a setting. -/
def readNumber (name : Setting) (value : String) : Except EarlyExit Nat :=
  match Number.read 10 0x10000000000000000 value.toList with
  | .ok number => .ok number
  | .error cause => usage (.invalidValue value (.setting name) cause.message)

/-- Whether a setting has its value already. -/
def hasSetting (d : Draft) : Setting → Bool
  | .loadAddress => d.options.loadAddress.isSome
  | .maxInstructions => d.options.maxInstructions.isSome
  | .breakpoint => d.options.breakpoint.isSome
  | .timeout => d.options.timeout.isSome

/-- Checks the value of a setting and keeps it. -/
def store (d : Draft) (name : Setting) (value : String) : Except EarlyExit Draft := do
  if d.hasSetting name then usage (.repeated (.setting name))
  match name with
  | .loadAddress =>
    let address ← readAddress name value
    return { d with options := { d.options with loadAddress := some address } }
  | .maxInstructions =>
    let number ← readNumber name value
    return { d with options := { d.options with maxInstructions := some number } }
  | .breakpoint =>
    let address ← readAddress name value
    return { d with options := { d.options with breakpoint := some address } }
  | .timeout =>
    let number ← readNumber name value
    return { d with options := { d.options with timeout := some number } }

/-- Checks the argument that waits to be checked. -/
def settle (d : Draft) : Except EarlyExit Draft :=
  let settled := { d with pending := .nothing }
  match d.pending with
  | .nothing => .ok d
  | .setting name none => usage (.missingValue (.setting name))
  | .setting name (some value) => settled.store name value
  | .program "" => usage (.missingValue .program)
  | .program path => .ok { settled with options := { d.options with program := path } }

/-- Whether a switch is on already. -/
def hasSwitch (d : Draft) : Switch → Bool
  | .illegalAsNop => d.options.illegalAsNop
  | .trace => d.options.trace
  | .json => d.options.json
  | .dumpZeroPage => d.options.dumpZeroPage

/-- Turns a switch on. -/
def turnOn (d : Draft) (name : Switch) : Except EarlyExit Draft := do
  let d ← d.settle
  if d.hasSwitch name then usage (.repeated (.switch name))
  match name with
  | .illegalAsNop => return { d with options := { d.options with illegalAsNop := true } }
  | .trace => return { d with options := { d.options with trace := true } }
  | .json => return { d with options := { d.options with json := true } }
  | .dumpZeroPage => return { d with options := { d.options with dumpZeroPage := true } }

/-- Names a setting whose value is to follow. -/
def await (d : Draft) (name : Setting) : Except EarlyExit Draft := do
  let d ← d.settle
  return { d with pending := .setting name none }

/-- Gives a setting the value that is attached to its name. -/
def attach (d : Draft) (name : Setting) (value : String) : Except EarlyExit Draft := do
  let d ← d.settle
  d.store name value

/-- Ends with the help text, if all is well so far. -/
def showHelp (d : Draft) : Except EarlyExit Draft := do
  let _ ← d.settle
  throw .helpRequested

/-- Takes an argument as the program's name. -/
def nameProgram (d : Draft) (argument : String) : Except EarlyExit Draft := do
  if d.programGiven then usage (.unexpectedArgument argument)
  let d ← d.settle
  return { d with programGiven := true, pending := .program argument }

/-- Reads a long option, given without its hyphens. -/
def readLong (d : Draft) (body : List Char) : Except EarlyExit Draft :=
  let name := String.ofList (body.takeWhile (· ≠ '='))
  let value := match body.dropWhile (· ≠ '=') with
    | _ :: value => some (String.ofList value)
    | [] => none
  match Argument.ofName? name, value with
  | some (.setting setting), some value => d.attach setting value
  | some (.setting setting), none => d.await setting
  | some (.switch switch), none => d.turnOn switch
  | some .help, none => d.showHelp
  | some option, some value => usage (.unexpectedValue value option)
  | _, _ => usage (.unexpectedArgument s!"--{name}")

/-- Reads short options that share a hyphen. -/
def readLetters (d : Draft) : List Char → Except EarlyExit Draft
  | [] => .ok d
  | letter :: rest =>
    match Argument.ofLetter? letter with
    | none | some .program => usage (.unexpectedArgument (String.ofList ['-', letter]))
    | some .help => d.showHelp
    | some (.switch switch) => do
      let d ← d.turnOn switch
      d.readLetters rest
    | some (.setting setting) =>
      match rest with
      | [] => d.await setting
      | '=' :: value => d.attach setting (String.ofList value)
      | value => d.attach setting (String.ofList value)

/-- Reads an argument that does not look like an option. -/
def readPlain (d : Draft) (argument : String) : Except EarlyExit Draft :=
  match d.pending with
  | .setting name none => .ok { d with pending := .setting name (some argument) }
  | _ => d.nameProgram argument

/-- Reads the next argument. -/
def readArgument (d : Draft) (argument : String) : Except EarlyExit Draft :=
  if d.onlyPrograms then d.nameProgram argument
  else match argument.toList with
    | ['-', '-'] => .ok { d with onlyPrograms := true }
    | '-' :: '-' :: body => d.readLong body
    | '-' :: letter :: rest => d.readLetters (letter :: rest)
    | _ => d.readPlain argument

end Draft

/-- Reads the arguments of a command line. -/
def Options.parse (arguments : List String) : Except EarlyExit Options := do
  let d ← arguments.foldlM Draft.readArgument Draft.empty
  let d ← d.settle
  if d.programGiven then return d.options else Draft.usage .missingProgram

end Nes6502.CommandLine
