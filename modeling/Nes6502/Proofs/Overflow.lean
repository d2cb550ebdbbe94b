import Nes6502.HexDump
import Nes6502.Proofs.Checked.Operation

/-!
# No overflow

Nothing that a program does makes a number overflow that is not meant to wrap. For most of them the
range of the operands is enough, whatever the program and the state. The cycle counter is the
exception: it grows with each step and each interrupt, and only a reset sets it back. As both cost
fourteen cycles at most, it takes more than `2 ^ 60` of them from power-on to fill it.

So a host with less than that many gets from a processor with checked arithmetic what it gets from
the processor itself. Steps are counted when they are attempted, those within runs among them.

## What is proved

* `Operation.cycles_apply_le`: by what the cycle counter can grow over an operation.
* `Operation.carryOutAll?_eq`: operations with room for what they spend do not overflow.
* `HexDump.render?_eq`: nor does a dump of memory.
* `never_overflows`: nothing overflows from power-on, for less than `2 ^ 60` steps and interrupts.
-/

set_option autoImplicit false

namespace Nes6502

variable {β : Type} [Bus β]

/-! ## The cycle counter -/

/-- An interrupt at once leaves seven cycles more on the counter at most, or seven after a reset. -/
theorem Cpu.cycles_interrupt_le (c : Cpu β) (kind : Interrupt) :
    (c.interrupt kind).regs.cycles.toNat ≤ max 7 c.regs.cycles.toNat + 7 := by
  have hkept := Nat.le_max_right 7 c.regs.cycles.toNat
  simp only [interrupt]
  split
  · exact Nat.le_trans (Nat.le_max_left _ _) (Nat.le_add_right _ _)
  · split
    · omega
    · have hentered : (c.enterHandler kind).regs.cycles = c.regs.cycles +
          UInt64.ofNat (if kind = .brk then 0 else Interrupt.entryCycles) := by
        rw [enterHandler_eq]
        exact (c.regs.enterHandler_cycles kind).value c.bus
      have hcost : (if kind = .brk then 0 else Interrupt.entryCycles) ≤ 7 := by split <;> decide
      have hgrown := toNat_add_ofNat_le c.regs.cycles
        (if kind = .brk then 0 else Interrupt.entryCycles)
      rw [hentered]
      omega

namespace Operation

/-- A single operation lets fourteen cycles pass at most, and none unless it is a step or an
interrupt. A reset leaves seven on the counter. -/
theorem cycles_single_le (tracing : Bool) (c : Cpu β) {o : Operation β} (hsingle : o.Single) :
    (o.apply tracing c).cpu.regs.cycles.toNat ≤
      max 7 c.regs.cycles.toNat + 14 * [o].countP Spends := by
  have hkept := Nat.le_max_right 7 c.regs.cycles.toNat
  cases o with
  | reset => exact Nat.le_trans (Nat.le_max_left _ _) (Nat.le_add_right _ _)
  | step =>
    have hspent := c.cycles_step_le tracing
    show (c.step tracing).cpu.regs.cycles.toNat ≤ _ + 14
    omega
  | interrupt kind =>
    have hspent := c.cycles_interrupt_le kind
    show (c.interrupt kind).regs.cycles.toNat ≤ _ + 14
    omega
  | runUntil | runFor | run => cases hsingle
  | _ => exact Nat.le_trans hkept (Nat.le_add_right _ _)

/-- So it is for single operations one after the other. -/
theorem cycles_singles_le (tracing : Bool) (c : Cpu β) {singles : List (Operation β)}
    (hsingle : ∀ o ∈ singles, o.Single) :
    (applyAll tracing c singles).2.regs.cycles.toNat ≤
      max 7 c.regs.cycles.toNat + 14 * singles.countP Spends := by
  induction singles generalizing c with
  | nil => exact Nat.le_max_right _ _
  | cons o rest ih =>
    rw [List.forall_mem_cons] at hsingle
    have hfirst := cycles_single_le tracing c hsingle.1
    have hrest := ih (o.apply tracing c).cpu hsingle.2
    have hcount : (o :: rest).countP Spends = [o].countP Spends + rest.countP Spends := by
      rw [← List.singleton_append, List.countP_append]
    show (applyAll tracing (o.apply tracing c).cpu rest).2.regs.cycles.toNat ≤ _
    omega

/-- By what the cycle counter can grow over an operation, by the single operations in it. -/
theorem cycles_apply_le (tracing : Bool) (c : Cpu β) (o : Operation β) :
    (o.apply tracing c).cpu.regs.cycles.toNat ≤
      max 7 c.regs.cycles.toNat + 14 * (o.unroll tracing c).countP Spends := by
  rw [← applyAll_unroll]
  exact cycles_singles_le tracing c fun _ => single_of_mem_unroll

/-! ## Operations one after the other -/

/-- The steps that operations attempt, those within runs among them, and the interrupts at once. -/
def spending (tracing : Bool) (c : Cpu β) : List (Operation β) → Nat
  | [] => 0
  | o :: rest => (o.unroll tracing c).countP Spends + spending tracing (o.apply tracing c).cpu rest

/-- Operations with room for what they spend do not overflow. -/
theorem carryOutAll?_eq (tracing : Bool) {c : Cpu β} {operations : List (Operation β)}
    (hfits : ∀ o ∈ operations, o.Fits)
    (hroom : max 7 c.regs.cycles.toNat + 14 * spending tracing c operations < 2 ^ 64) :
    carryOutAll? tracing c operations = some (applyAll tracing c operations) := by
  induction operations generalizing c with
  | nil => rfl
  | cons o rest ih =>
    rw [List.forall_mem_cons] at hfits
    rw [spending] at hroom
    have hgrown := cycles_apply_le tracing c o
    have hfirst : o.carryOut? tracing c = some (o.apply tracing c) :=
      carryOut?_eq hfits.1 (by omega) (by omega)
    have hrest := ih hfits.2 (c := (o.apply tracing c).cpu) (by omega)
    simp only [carryOutAll?, applyAll, hfirst, hrest, Option.bind_eq_bind, Option.bind_some]
    rfl

end Operation

/-! ## Dumps -/

namespace HexDump

/-- The dump of bytes, from a row on. -/
def render? (bytes : List UInt8) (base : UInt16) (row : UInt64) : Option (List Char) :=
  match bytes with
  | [] => some []
  | byte :: rest => do
    let offset ← Checked.mul row 16
    let below ← render? ((byte :: rest).drop width) base (row + 1)
    return line (base + UInt16.ofNat offset.toNat) ((byte :: rest).take width) ++ below
  termination_by bytes.length
  decreasing_by
    simp only [List.length_drop, List.length_cons, width]
    omega

/-- A dump does not overflow if the bytes can be numbered. -/
theorem render?_eq (bytes : List UInt8) (base : UInt16) (row : UInt64)
    (hroom : bytes ≠ [] → row.toNat * 16 + bytes.length < 2 ^ 64) :
    render? bytes base row = some (render bytes (base + UInt16.ofNat (row.toNat * 16))) := by
  rw [render?.eq_def, render.eq_def]
  match bytes with
  | [] => rfl
  | byte :: rest =>
    have hroom := hroom (List.cons_ne_nil byte rest)
    rw [List.length_cons] at hroom
    have hoffset : Checked.mul row 16 = some (row * 16) := if_pos (by
      show row.toNat * 16 < 2 ^ 64
      omega)
    have hnumber : (row * 16).toNat = row.toNat * 16 := by
      rw [UInt64.toNat_mul]
      exact Nat.mod_eq_of_lt (show row.toNat * 16 < 2 ^ 64 by omega)
    have hnext : (row + 1).toNat = row.toNat + 1 := by
      rw [UInt64.toNat_add]
      exact Nat.mod_eq_of_lt (show row.toNat + 1 < 2 ^ 64 by omega)
    have hbase : base + UInt16.ofNat ((row.toNat + 1) * 16) =
        base + UInt16.ofNat (row.toNat * 16) + UInt16.ofNat width := by
      rw [Nat.add_mul, UInt16.ofNat_add, UInt16.add_assoc]
      rfl
    have hbelow := render?_eq ((byte :: rest).drop width) base (row + 1) (fun hleft => by
      have hlonger := List.length_pos_iff.mpr hleft
      rw [List.length_drop, List.length_cons, width] at hlonger
      rw [hnext, List.length_drop, List.length_cons, width]
      omega)
    simp only [hoffset, hbelow, hnumber, hnext, hbase, Option.bind_eq_bind, Option.bind_some]
    rfl
  termination_by bytes.length
  decreasing_by
    simp only [List.length_drop, List.length_cons, width]
    omega

end HexDump

/-- Nothing overflows that is not meant to wrap. Let a host carry out any operations on a processor
from power-on, on any bus, in which it attempts less than `2 ^ 60` steps, in runs or one by one and
successful or not, and interrupts at once. Compute the addresses of the stack, the pointers into the
first page, the sums of addresses and indices, the sums of additions, the shifts, the cycles, the
counts of a run and the places of the bytes of a program with operations that come to nothing if
they overflow. Then the operations come to what they come to without that. The same is true of the
listings and dumps of memory, and of the words that a bus makes of two bytes or takes apart into
them. -/
theorem never_overflows (tracing : Bool) (policy : UndefinedPolicy) (bus : β)
    {operations : List (Operation β)} (hfits : ∀ o ∈ operations, o.Fits)
    (hfew : Operation.spending tracing (Cpu.powerOn bus policy) operations < 2 ^ 60) :
    let c := Cpu.powerOn bus policy
    Operation.carryOutAll? tracing c operations = some (Operation.applyAll tracing c operations) ∧
      (∀ (d : Cpu β) (start : UInt16) (count : Nat), d.disassemble? start count =
        some (d.transact (Listing.disassemble start count))) ∧
      (∀ (bytes : List UInt8) (base : UInt16), bytes.length < 2 ^ 63 →
        HexDump.render? bytes base 0 = some (HexDump.render bytes base)) ∧
      (∀ low high, wordOfBytes? low high = some (wordOfBytes low high)) ∧
      ∀ word, highByte? word = some (highByte word) := by
  intro c
  refine ⟨?_, Cpu.disassemble?_eq, fun bytes base hlength => ?_, wordOfBytes?_eq, highByte?_eq⟩
  · have hstart : max 7 c.regs.cycles.toNat = 7 := rfl
    have hfew : Operation.spending tracing c operations < 2 ^ 60 := hfew
    exact Operation.carryOutAll?_eq tracing hfits (by omega)
  · rw [HexDump.render?_eq bytes base 0 fun _ => by
      rw [UInt64.toNat_zero]
      omega]
    rw [UInt64.toNat_zero, Nat.zero_mul]
    exact congrArg some (congrArg (HexDump.render bytes) (UInt16.add_zero base))

/-- A program with the largest sum of an addition, an interrupt at once, and a step of the handler
in memory that holds nothing. They spend six steps and interrupts. -/
theorem never_overflows_largestSum :
    let operations : List (Operation Ram) :=
      [.load 0x8000 [0xA9, 0xFF, 0x38, 0x69, 0xFF, 0x48], .reset, .runFor 4, .interrupt .nmi, .step]
    let c := Cpu.powerOn Ram.zeroed .halt
    (∀ o ∈ operations, o.Fits) ∧ Operation.spending false c operations = 6 ∧
      (Operation.carryOutAll? false c operations).map (fun result =>
          (result.1, result.2.regs.a, result.2.regs.cycles)) =
        some ([.done, .done, .ran (.finished 4) 5, .done, .done], 0xFF, 30) := by
  intro operations c
  have hfits : ∀ o ∈ operations, o.Fits := by simp [operations, Operation.Fits]
  have hspending : Operation.spending false c operations = 6 := by decide +kernel
  have hall := (never_overflows false .halt Ram.zeroed hfits (by rw [hspending]; decide)).1
  refine ⟨hfits, hspending, ?_⟩
  rw [hall]
  decide +kernel

end Nes6502
