import Nes6502.Cpu.Step

/-!
# Runs

A run takes steps until a watcher says to stop, until the processor is asked to halt, or until a
step fails. The watcher is consulted on the state before each instruction; it keeps a state of its
own, and may ask the processor to halt, which ends the run before the instruction.

A run need not end, so `Cpu.runUntil` is given a bound on the number of rounds, and a run that
exceeds the bound has an outcome of its own. `Cpu.runFor` counts instructions and needs no more
rounds than that.
-/

set_option autoImplicit false

namespace Nes6502

/-- What a watcher says about the state before an instruction. -/
structure Verdict where
  /-- Whether the run is over. -/
  stop : Bool
  /-- Whether the processor is to halt. -/
  requestHalt : Bool
  deriving DecidableEq, Repr

/-- An observer of a run, with a state of its own. -/
structure Watcher (σ β : Type) where
  observe : σ → Cpu β → Verdict × σ

/-- How a run ended. -/
inductive RunResult where
  /-- The watcher stopped it, or the processor was asked to halt. -/
  | finished (executed : Nat)
  /-- A step failed. -/
  | failed (fault : Fault)
  /-- The bound on the rounds was reached first. -/
  | unfinished
  deriving DecidableEq, Repr

/-- A run that has ended. -/
structure RunReport (σ β : Type) where
  result : RunResult
  cpu : Cpu β
  /-- The state of the watcher. -/
  watcher : σ
  /-- What happened, in order. -/
  events : Array Event

namespace Watcher

variable {β : Type}

/-- The watcher that judges by the state and by how often it was asked before. As each question is
followed by an instruction, that is the number of instructions executed. -/
def counting (judge : Nat → Cpu β → Verdict) : Watcher Nat β :=
  ⟨fun asked c => (judge asked c, asked + 1)⟩

/-- Never stops a run. -/
def never : Watcher Nat β := counting fun _ _ => ⟨false, false⟩

/-- Stops a run after a number of instructions. -/
def budget (limit : Nat) : Watcher Nat β := counting fun asked _ => ⟨decide (limit ≤ asked), false⟩

end Watcher

namespace Cpu

variable {σ β : Type} [Bus β]

/-- Ends a run because of a request to halt. -/
def stopRun (c : Cpu β) (executed : Nat) (s : σ) (events : Array Event) : RunReport σ β :=
  ⟨.finished executed, c.setState .halted, s, events.push (.stopped executed)⟩

/-- Goes on with a run that has executed some instructions already. -/
def continueUntil (tracing : Bool) (w : Watcher σ β) :
    (rounds executed : Nat) → (s : σ) → (events : Array Event) → Cpu β → RunReport σ β
  | 0, _, s, events, c => ⟨.unfinished, c, s, events⟩
  | rounds + 1, executed, s, events, c =>
    if c.haltRequested then c.stopRun executed s events
    else
      let (verdict, s) := w.observe s c
      let c := if verdict.requestHalt then c.requestHalt else c
      if verdict.stop then ⟨.finished executed, c, s, events⟩
      else
        let report := c.step tracing
        let events := events ++ report.events
        match report.result with
        | .ok () => continueUntil tracing w rounds (executed + 1) s events report.cpu
        | .error fault =>
          -- The watcher asked to halt: the step was refused, and the run is over.
          if fault = .halted && report.cpu.haltRequested then
            report.cpu.stopRun executed s events
          else ⟨.failed fault, report.cpu, s, events⟩

/-- Runs until the watcher stops the run, the processor is asked to halt or a step fails. -/
def runUntil (tracing : Bool) (rounds : Nat) (w : Watcher σ β) (s : σ) (c : Cpu β) :
    RunReport σ β :=
  c.continueUntil tracing w rounds 0 s #[]

/-- Runs until the processor is asked to halt or a step fails. -/
def run (tracing : Bool) (rounds : Nat) (c : Cpu β) : RunReport Nat β :=
  c.runUntil tracing rounds .never 0

/-- Runs a number of instructions at most. -/
def runFor (tracing : Bool) (limit : Nat) (c : Cpu β) : RunReport Nat β :=
  c.runUntil tracing (limit + 1) (.budget limit) 0

end Cpu

end Nes6502
