/-!
# Log records

A record has a level, a target and a text. The levels are ordered by how much they tell; the target
names the part of the program that speaks.
-/

set_option autoImplicit false

namespace Nes6502.Log

inductive Level where
  | error
  | warn
  | info
  | debug
  | trace
  deriving DecidableEq, Repr

namespace Level

/-- The place of a level in the order, from the gravest to the most talkative. -/
def rank : Level → Nat
  | .error => 1
  | .warn => 2
  | .info => 3
  | .debug => 4
  | .trace => 5

def name : Level → String
  | .error => "ERROR"
  | .warn => "WARN"
  | .info => "INFO"
  | .debug => "DEBUG"
  | .trace => "TRACE"

/-- All levels, in order. -/
def all : List Level := [.error, .warn, .info, .debug, .trace]

end Level

/-- The parts of the program that speak. -/
inductive Target where
  | processor
  | bus
  | commandLine
  deriving DecidableEq, Repr

/-- The name under which a part speaks. -/
def Target.name : Target → String
  | .processor => "nes_cpu::cpu"
  | .bus => "nes_cpu::bus"
  | .commandLine => "nes_cpu_cli"

structure Record where
  level : Level
  target : Target
  text : String
  deriving DecidableEq, Repr

/-- A record as a line: level, in a field of five characters, and target in brackets. -/
def Record.line (r : Record) : String :=
  let level := r.level.name
  let blanks := "".pushn ' ' (5 - level.length)
  let target := r.target.name
  let text := r.text
  s!"[{level}{blanks} {target}] {text}"

end Nes6502.Log
