import Nes6502.Operation
import Nes6502.Proofs.Checked.Step
import Nes6502.Proofs.History
import Nes6502.Proofs.Loading

/-!
# Operations with checked arithmetic

What a host can do to a processor, with checked arithmetic. Loading a program adds the origin to the
length of the program and to the place of each byte in it; a run counts its instructions in
sixty-four bits, and a run with a budget counts once more, before each instruction and once at the
end. Everything else is made of steps and interrupts.

## What is proved

* `Cpu.loadAt?_eq`: loading never overflows, since a program that could is refused.
* `Cpu.continueUntil?_eq`: a run with room for the cycles and the counts of its steps does not.
* `Operation.carryOut?_eq`: nor does any operation with room for the steps that it attempts.
-/

set_option autoImplicit false

namespace Nes6502

/-- One more, counted in sixty-four bits. -/
def Checked.next (count : Nat) : Option Nat := do
  let next ← Checked.add (UInt64.ofNat count) 1
  return next.toNat

theorem Checked.next_eq {count : Nat} (h : count + 1 < 2 ^ 64) :
    Checked.next count = some (count + 1) := by
  have hcount : (UInt64.ofNat count).toNat = count :=
    UInt64.toNat_ofNat_of_lt' (Nat.lt_of_succ_lt h)
  have hsum : (UInt64.ofNat count).toNat + (1 : UInt64).toNat < 2 ^ 64 := by
    rwa [hcount, UInt64.toNat_one]
  simp only [next, Checked.add_counts hsum, Option.bind_eq_bind, Option.bind_some]
  rw [UInt64.toNat_add, Nat.mod_eq_of_lt hsum, hcount]
  rfl

variable {σ β : Type} [Bus β]

namespace Cpu

/-! ## Loading -/

/-- Writes the bytes of a program that are left, from a place in the program on. -/
def writeBytes? (c : Cpu β) (origin : UInt16) (place : Nat) : List UInt8 → Option (Cpu β)
  | [] => some c
  | byte :: rest => do
    let address ← Checked.add origin (UInt16.ofNat place)
    (c.write address byte).writeBytes? origin (place + 1) rest

/-- Copies a program to its origin and points the reset vector at it. -/
def loadAt? (c : Cpu β) (origin : UInt16) (program : List UInt8) :
    Option (Except Fault Unit × Cpu β) := do
  let last ← Checked.add (UInt64.ofNat origin.toNat) (UInt64.ofNat program.length)
  if last > UInt64.ofNat nmiVector.toNat then
    return (.error (.programTooLarge program.length), c)
  else
    let c ← c.writeBytes? origin 0 program
    let (_, c) := c.transact (Bus.writeWord resetVector origin)
    return (.ok (), c)

/-- The places of a program that ends within memory are addresses. -/
theorem writeBytes?_eq (c : Cpu β) {origin : UInt16} {place : Nat} {bytes : List UInt8}
    (h : origin.toNat + place + bytes.length < 2 ^ 16) :
    c.writeBytes? origin place bytes =
      some (c.transact (Program.writeBytes (origin + UInt16.ofNat place) bytes)).2 := by
  induction bytes generalizing c place with
  | nil => exact congrArg some (congrArg Prod.snd (c.transact_pure ())).symm
  | cons byte rest ih =>
    rw [List.length_cons] at h
    have hplace : (UInt16.ofNat place).toNat = place := UInt16.toNat_ofNat_of_lt' (by
      show place < 2 ^ 16
      omega)
    have haddress : Checked.add origin (UInt16.ofNat place) =
        some (origin + UInt16.ofNat place) := by
      refine if_pos ?_
      show origin.toNat + (UInt16.ofNat place).toNat < 2 ^ 16
      omega
    have hnext : origin + UInt16.ofNat (place + 1) = origin + UInt16.ofNat place + 1 := by
      rw [UInt16.ofNat_add, UInt16.add_assoc]
      rfl
    simp only [writeBytes?, haddress, Option.bind_eq_bind, Option.bind_some]
    rw [ih (c.write _ byte) (by omega), hnext, Program.writeBytes_cons, transact_bind]
    rfl

/-- Loading a program never overflows. -/
theorem loadAt?_eq (c : Cpu β) (origin : UInt16) {program : List UInt8}
    (hlength : program.length < 2 ^ 63) :
    c.loadAt? origin program = some (c.transact (Program.loadAt origin program)) := by
  have horigin := origin.toNat_lt
  have hfirst : (UInt64.ofNat origin.toNat).toNat = origin.toNat :=
    UInt64.toNat_ofNat_of_lt' (Nat.lt_trans horigin (by decide))
  have hsecond : (UInt64.ofNat program.length).toNat = program.length :=
    UInt64.toNat_ofNat_of_lt' (Nat.lt_trans hlength (by decide))
  have hroom :
      (UInt64.ofNat origin.toNat).toNat + (UInt64.ofNat program.length).toNat < 2 ^ 64 := by
    omega
  have hlast : UInt64.ofNat origin.toNat + UInt64.ofNat program.length >
      UInt64.ofNat nmiVector.toNat ↔ origin.toNat + program.length > nmiVector.toNat := by
    rw [gt_iff_lt, UInt64.lt_iff_toNat_lt, UInt64.toNat_add, Nat.mod_eq_of_lt hroom, hfirst,
      hsecond]
    rfl
  simp only [loadAt?, Checked.add_counts hroom, Option.bind_eq_bind, Option.bind_some, hlast,
    Program.loadAt]
  split
  next => rw [transact_pure]; rfl
  next hfits =>
    have hend : origin.toNat + program.length ≤ 0xFFFA := Nat.le_of_not_lt hfits
    rw [writeBytes?_eq c (by omega), transact_bind, transact_bind, transact_pure]
    simp

/-! ## Interrupts -/

/-- An interrupt at once, whatever is latched. -/
def interrupt? (c : Cpu β) (kind : Interrupt) : Option (Cpu β) :=
  if kind = .reset then some c.reset
  else if c.masks kind then some c
  else c.enterHandler? kind

theorem interrupt?_eq {c : Cpu β} {kind : Interrupt} (hroom : c.regs.cycles.toNat + 14 < 2 ^ 64) :
    c.interrupt? kind = some (c.interrupt kind) := by
  simp only [interrupt?, interrupt]
  split
  · rfl
  · split
    · rfl
    · exact enterHandler?_eq (by omega)

/-! ## Runs -/

/-- Goes on with a run that has executed some instructions already; the watcher may count as
well. -/
def continueUntil? (tracing : Bool) (observe : σ → Cpu β → Option (Verdict × σ)) :
    (rounds executed : Nat) → (s : σ) → (events : Array Event) → Cpu β → Option (RunReport σ β)
  | 0, _, s, events, c => some ⟨.unfinished, c, s, events⟩
  | rounds + 1, executed, s, events, c =>
    if c.haltRequested then some (c.stopRun executed s events)
    else do
      let (verdict, s) ← observe s c
      let c := if verdict.requestHalt then c.requestHalt else c
      if verdict.stop then return ⟨.finished executed, c, s, events⟩
      else
        let report ← c.step? tracing
        let events := events ++ report.events
        match report.result with
        | .ok () =>
          let executed ← Checked.next executed
          continueUntil? tracing observe rounds executed s events report.cpu
        | .error fault =>
          if fault = .halted && report.cpu.haltRequested then
            return report.cpu.stopRun executed s events
          else return ⟨.failed fault, report.cpu, s, events⟩

end Cpu

/-- Whether an operation attempts a step, or is an interrupt at once. These are the operations that
let cycles pass. -/
def Operation.Spends : Operation β → Bool
  | .step | .interrupt _ => true
  | _ => false

namespace Cpu

/-- The step attempts of a run. -/
def attempts (tracing : Bool) (w : Watcher σ β) (rounds : Nat) (s : σ) (c : Cpu β) : Nat :=
  (Operation.unrollRun tracing w rounds s c).countP Operation.Spends

theorem attempts_go {tracing : Bool} {w : Watcher σ β} {s : σ} {c : Cpu β}
    (hfree : c.haltRequested = false) (hgo : (w.observe s c).1 = ⟨false, false⟩) (rounds : Nat) :
    attempts tracing w (rounds + 1) s c =
      (match (c.step tracing).result with
        | .ok () => attempts tracing w rounds (w.observe s c).2 (c.step tracing).cpu
        | .error _ => 0) + 1 := by
  rw [attempts, Operation.unrollRun_go hfree hgo, List.countP_cons]
  cases (c.step tracing).result <;> rfl

theorem stepCycles_le (tracing : Bool) (c : Cpu β) : c.stepCycles tracing ≤ 14 := by
  have hentry : (if c.dueInterrupt.isSome then 7 else 0) ≤ 7 := by split <;> decide
  show (if c.dueInterrupt.isSome then 7 else 0) + _ ≤ 7 + 7
  refine Nat.add_le_add hentry ?_
  split
  next hdecode => exact (instructionCycles_bounds _ hdecode _).2
  next => split <;> decide

/-- Whatever a step comes to, the cycle counter grows by fourteen at most. -/
theorem cycles_step_le (tracing : Bool) (c : Cpu β) :
    (c.step tracing).cpu.regs.cycles.toNat ≤ c.regs.cycles.toNat + 14 := by
  cases hrefuses : c.refuses with
  | true =>
    rw [step_of_refuses tracing hrefuses]
    exact Nat.le_add_right _ _
  | false =>
    rw [cycles_step tracing hrefuses]
    exact Nat.le_trans (toNat_add_ofNat_le _ _) (Nat.add_le_add_left (stepCycles_le tracing c) _)

/-- A run does not overflow if there is room for the cycles of the steps that it attempts, for the
count of its instructions, and for one question more than that. -/
theorem continueUntil?_eq {tracing : Bool} {w : Watcher σ β}
    {observe : σ → Cpu β → Option (Verdict × σ)} (asked : σ → Nat)
    (hobserve : ∀ s c, asked s + 1 < 2 ^ 64 → observe s c = some (w.observe s c))
    (hasked : ∀ s c, asked (w.observe s c).2 ≤ asked s + 1)
    {rounds executed : Nat} {s : σ} {c : Cpu β}
    (hcycles : c.regs.cycles.toNat + 14 * attempts tracing w rounds s c < 2 ^ 64)
    (hexecuted : executed + attempts tracing w rounds s c < 2 ^ 64)
    (hroom : asked s + attempts tracing w rounds s c + 1 < 2 ^ 64) (events : Array Event) :
    c.continueUntil? tracing observe rounds executed s events =
      some (c.continueUntil tracing w rounds executed s events) := by
  induction rounds generalizing executed s c events with
  | zero => rfl
  | succ rounds ih =>
    simp only [continueUntil?, continueUntil]
    cases hfree : c.haltRequested with
    | true => rfl
    | false =>
      have hquestion := hobserve s c (by omega)
      rcases hverdict : w.observe s c with ⟨⟨stop, ask⟩, next⟩
      simp only [hquestion, hverdict, Option.bind_eq_bind, Option.bind_some, Bool.false_eq_true,
        if_false]
      cases stop with
      | true => rfl
      | false =>
        cases ask with
        | true =>
          have hrefuses : c.requestHalt.refuses = true := rfl
          simp only [if_true, step?_of_refuses tracing hrefuses, step_of_refuses tracing hrefuses]
          rfl
        | false =>
          have hgo : attempts tracing w (rounds + 1) s c = _ :=
            attempts_go hfree (by rw [hverdict]) rounds
          rw [hgo] at hcycles hexecuted hroom
          simp only [step?_eq tracing (c := c) (by omega), Option.bind_some, Bool.false_eq_true,
            if_false]
          cases hresult : (c.step tracing).result with
          | error fault =>
            simp only
            split <;> rfl
          | ok =>
            have hcounted := hasked s c
            have hspent := cycles_step_le tracing c
            rw [hresult] at hcycles hexecuted hroom
            rw [hverdict] at hcycles hexecuted hroom hcounted
            have hexecuted' : executed + 1 < 2 ^ 64 := by omega
            simp only [Checked.next_eq hexecuted', Option.bind_some]
            simp only at hcycles hexecuted hroom hcounted
            exact ih (by omega) (by omega) (by omega) _

end Cpu

/-- The watcher with a budget: it counts its questions. -/
def Watcher.budget? (limit asked : Nat) (_ : Cpu β) : Option (Verdict × Nat) := do
  let next ← Checked.next asked
  return (⟨decide (limit ≤ asked), false⟩, next)

omit [Bus β] in
theorem Watcher.budget?_eq {limit asked : Nat} {c : Cpu β} (h : asked + 1 < 2 ^ 64) :
    budget? limit asked c = some ((budget limit).observe asked c) := by
  simp only [budget?, Checked.next_eq h]
  rfl

namespace Operation

/-! ## Operations -/

open OperationReport in
/-- Carries out an operation. The operations that are not listed compute nothing, or nothing that
could overflow. -/
def carryOut? (tracing : Bool) (c : Cpu β) : Operation β → Option (OperationReport β)
  | .step => do
    let report ← c.step? tracing
    return ⟨answerOf report.result, report.cpu, report.events⟩
  | .runUntil rounds judge => do
    let observe (asked : Nat) (c : Cpu β) := some ((Watcher.counting judge).observe asked c)
    let report ← c.continueUntil? tracing observe rounds 0 0 #[]
    return ofRun report
  | .runFor limit => do
    let report ← c.continueUntil? tracing (Watcher.budget? limit) (limit + 1) 0 0 #[]
    return ofRun report
  | .run rounds => do
    let observe (asked : Nat) (c : Cpu β) := some (Watcher.never.observe asked c)
    let report ← c.continueUntil? tracing observe rounds 0 0 #[]
    return ofRun report
  | .interrupt kind => do
    let after ← c.interrupt? kind
    return ⟨.done, after, [c.interruptEvent after kind]⟩
  | .load origin program => do
    let (result, c) ← c.loadAt? origin program
    return ⟨answerOf result, c, loadEvents program.length origin result⟩
  | .list address => do
    let (entry, c) ← c.listAt? address
    return ⟨.entry entry, c, []⟩
  | .traceLine => do
    let (text, c) ← c.traceLine?
    return ⟨.line text, c, []⟩
  | o => some (o.apply tracing c)

/-- Carries out operations one after the other; the answers are in their order. -/
def carryOutAll? (tracing : Bool) (c : Cpu β) : List (Operation β) → Option (List Answer × Cpu β)
  | [] => some ([], c)
  | o :: rest => do
    let report ← o.carryOut? tracing c
    let (answers, last) ← carryOutAll? tracing report.cpu rest
    return (report.answer :: answers, last)

/-- A program is a slice of memory, and such slices have a length of sixty-three bits. -/
def Fits : Operation β → Prop
  | .load _ program => program.length < 2 ^ 63
  | _ => True

/-- An operation does not overflow if there is room for the steps that it attempts. -/
theorem carryOut?_eq {tracing : Bool} {c : Cpu β} {o : Operation β} (hfits : o.Fits)
    (hcycles : c.regs.cycles.toNat + 14 * (o.unroll tracing c).countP Spends < 2 ^ 64)
    (hroom : (o.unroll tracing c).countP Spends + 1 < 2 ^ 64) :
    o.carryOut? tracing c = some (o.apply tracing c) := by
  -- only a budget is counted by the watcher
  have huncounted {w : Watcher Nat β} {rounds : Nat}
      (hcycles : c.regs.cycles.toNat + 14 * c.attempts tracing w rounds 0 < 2 ^ 64)
      (hroom : c.attempts tracing w rounds 0 + 1 < 2 ^ 64) :
      c.continueUntil? tracing (fun asked c => some (w.observe asked c)) rounds 0 0 #[] =
        some (c.continueUntil tracing w rounds 0 0 #[]) :=
    Cpu.continueUntil?_eq (fun _ => 0) (fun _ _ _ => rfl) (fun _ _ => Nat.zero_le _) hcycles
      (by omega) (by omega) #[]
  cases o with
  | step =>
    have hstep : c.step? tracing = some (c.step tracing) := Cpu.step?_eq tracing hcycles
    simp only [carryOut?, hstep]
    rfl
  | runUntil rounds judge =>
    simp only [carryOut?, huncounted hcycles hroom]
    rfl
  | runFor limit =>
    have hroom : c.attempts tracing (.budget limit) (limit + 1) 0 + 1 < 2 ^ 64 := hroom
    have hrun : c.continueUntil? tracing (Watcher.budget? limit) (limit + 1) 0 0 #[] =
        some (c.runFor tracing limit) :=
      Cpu.continueUntil?_eq (fun asked => asked) (fun _ _ => Watcher.budget?_eq)
        (fun _ _ => Nat.le_refl _) hcycles (by omega) (by omega) #[]
    simp only [carryOut?, hrun]
    rfl
  | run rounds =>
    simp only [carryOut?, huncounted hcycles hroom]
    rfl
  | interrupt kind =>
    have hentered : c.interrupt? kind = some (c.interrupt kind) := Cpu.interrupt?_eq hcycles
    simp only [carryOut?, hentered]
    rfl
  | load origin program =>
    simp only [carryOut?, c.loadAt?_eq origin hfits]
    rfl
  | list | traceLine =>
    simp only [carryOut?, Cpu.listAt?_eq, Cpu.traceLine?_eq]
    rfl
  | _ => rfl

end Operation

end Nes6502
