/-!
# Arguments of the command line

The command line names one program and may give options: settings, which take a value, and switches,
which take none. Every option has a long name, some have a letter.
-/

set_option autoImplicit false

namespace Nes6502.CommandLine

/-- The options that take a value. -/
inductive Setting where
  | loadAddress
  | maxInstructions
  | breakpoint
  | timeout
  deriving DecidableEq, Repr

/-- The options that take no value. -/
inductive Switch where
  | illegalAsNop
  | trace
  | json
  | dumpZeroPage
  deriving DecidableEq, Repr

/-- What an argument can be: the program, or an option. -/
inductive Argument where
  | program
  | setting (name : Setting)
  | switch (name : Switch)
  | help
  deriving DecidableEq, Repr

def Setting.longName : Setting → String
  | .loadAddress => "load-address"
  | .maxInstructions => "max-instructions"
  | .breakpoint => "breakpoint"
  | .timeout => "timeout-ms"

/-- The name of the value in messages. -/
def Setting.valueName : Setting → String
  | .loadAddress => "LOAD_ADDRESS"
  | .maxInstructions => "MAX_INSTRUCTIONS"
  | .breakpoint => "BREAKPOINT"
  | .timeout => "TIMEOUT_MS"

def Switch.longName : Switch → String
  | .illegalAsNop => "illegal-as-nop"
  | .trace => "trace"
  | .json => "json"
  | .dumpZeroPage => "dump-zero-page"

/-- An argument as messages write it. -/
def Argument.display : Argument → String
  | .program => "<PROGRAM>"
  | .setting name =>
    let long := name.longName
    let value := name.valueName
    s!"--{long} <{value}>"
  | .switch name =>
    let long := name.longName
    s!"--{long}"
  | .help => "--help"

/-- All options. -/
def Argument.options : List Argument :=
  [.setting .loadAddress, .setting .maxInstructions, .setting .breakpoint, .setting .timeout,
    .switch .illegalAsNop, .switch .trace, .switch .json, .switch .dumpZeroPage, .help]

/-- The name of an option without its hyphens; the program has none. -/
def Argument.longName? : Argument → Option String
  | .program => none
  | .setting name => some name.longName
  | .switch name => some name.longName
  | .help => some "help"

/-- The option of a long name. -/
def Argument.ofName? (name : String) : Option Argument :=
  options.find? (·.longName? = some name)

/-- The option of a letter. -/
def Argument.ofLetter? : Char → Option Argument
  | 'l' => some (.setting .loadAddress)
  | 'n' => some (.setting .maxInstructions)
  | 'b' => some (.setting .breakpoint)
  | 't' => some (.switch .trace)
  | 'h' => some .help
  | _ => none

end Nes6502.CommandLine
