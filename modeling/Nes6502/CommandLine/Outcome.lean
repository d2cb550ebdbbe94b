import Nes6502.CommandLine.Session
import Nes6502.Log.Filter

/-!
# Answering a command line

`Outcome.ofArguments` is the whole command line, apart from how a file is read: it takes the
arguments and the log specification of the environment, asks for the contents of the program file
once the arguments are understood, and gives the exit code, the output and the messages.

The exit code is 0 for success, 1 for a session that failed and 2 for arguments that make no sense.
-/

set_option autoImplicit false

namespace Nes6502.CommandLine

/-- What answering a command line comes to. -/
structure Outcome where
  exitCode : UInt32
  output : String
  /-- What is written to the error stream. -/
  messages : String
  deriving DecidableEq, Repr

/-- Lines as a text: a line end follows each. -/
def unlines (lines : List String) : String := String.join (lines.map (· ++ "\n"))

/-- What the command line can do, for whoever asks. -/
def helpLines : List String :=
  ["Run a raw 6502 program on the NES CPU core",
    "",
    "Usage: nes_cpu_cli [OPTIONS] <PROGRAM>",
    "",
    "Arguments:",
    "  <PROGRAM>  The program file, a raw image",
    "",
    "Options:",
    "  -l, --load-address <LOAD_ADDRESS>          Where the program goes, $8000 by default",
    "  -n, --max-instructions <MAX_INSTRUCTIONS>  Stop after this many instructions",
    "  -b, --breakpoint <BREAKPOINT>              Stop at this address",
    "      --timeout-ms <TIMEOUT_MS>              Stop after this many milliseconds",
    "      --illegal-as-nop                       Treat undefined opcodes as NOP",
    "  -t, --trace                                Write a line for each instruction",
    "      --json                                 Write the registers as JSON",
    "      --dump-zero-page                       Write a dump of the zero page",
    "  -h, --help                                 Print help"]

namespace Outcome

/-- The answer to arguments that lead to no run. -/
def ofEarlyExit : EarlyExit → Outcome
  | .helpRequested => ⟨0, unlines helpLines, ""⟩
  | .usageError error => ⟨2, "", error.report⟩

/-- The log filter of a session: the rules of the specification, and every record of the processor
if its trace is asked for. -/
def filterOf (o : Options) (specification : Log.Filter) : Log.Filter :=
  if o.trace then specification.insert ⟨some Log.Target.processor.name, .upTo .trace⟩
  else specification

/-- The answer that a session gives rise to, with the lines that are shown of what was said. -/
def ofShown (shown : List String) (session : Session) : Outcome :=
  match session.failure with
  | none => ⟨0, session.output, unlines shown⟩
  | some failure => ⟨1, session.output, unlines (shown ++ failure.lines)⟩

/-- The answer that a session gives rise to, if a filter decides what is shown. -/
def ofSession (filter : Log.Filter) (session : Session) : Outcome :=
  ofShown ((filter.select session.records).map Log.Record.line) session

/-- The answer to arguments that were understood. -/
def ofOptions (o : Options) (specification : Option String)
    (contents : Except FileError (List UInt8)) : Outcome :=
  let (rules, warnings) := Log.Filter.parse (specification.getD "")
  let filter := filterOf o rules
  let session := match contents with
    | .ok program => o.session (filter.enabled .trace .processor) program
    | .error cause => ⟨[], "", some (.unreadable o.program cause)⟩
  let outcome := ofSession filter session
  { outcome with messages := unlines warnings ++ outcome.messages }

/-- The answer to a command line, with a way to read files. -/
def ofArguments {m : Type → Type} [Monad m]
    (readFile : String → m (Except FileError (List UInt8))) (specification : Option String)
    (arguments : List String) : m Outcome :=
  match Options.parse arguments with
  | .error exit => return ofEarlyExit exit
  | .ok options => do
    let contents ← readFile options.program
    return ofOptions options specification contents

end Outcome

end Nes6502.CommandLine
