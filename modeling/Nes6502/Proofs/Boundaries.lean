import Nes6502.Proofs.Flow
import Nes6502.Proofs.Listing
import Nes6502.Proofs.Recovery

/-!
# Instruction boundaries

A listing and the processor walk through a program each in its own way: the listing adds up the
lengths of its entries, and the processor skips the operand bytes of what it has executed. As long
as the program neither jumps nor changes itself, they come to the same addresses, also past the end
of memory and over bytes that are no documented opcodes.

## What is proved

* `Cpu.pc_execute`: an instruction that does not jump is followed by the next one.
* `Cpu.pc_step`: the processor goes from the address of an entry to the end of the entry.
* `Cpu.straight_afterSteps`: a straight run keeps to the walk of the listing.
* `listing_followed`: a straight run goes through the entries of a listing that was made before it.
-/

set_option autoImplicit false

namespace Nes6502

namespace Cpu

/-! ## Straight steps -/

/-- The instruction at the program counter, if it is a documented one, is none of those that always
set the program counter, and no branch that is taken. -/
def FallsThrough (c : Cpu Ram) : Prop :=
  ∀ i ∈ decode (c.bus.read c.regs.pc),
    i.mnemonic ∉ [Mnemonic.jmp, .jsr, .rts, .rti, .brk] ∧
      i.mnemonic.action.takesBranch c.regs.status = false

instance (c : Cpu Ram) : Decidable c.FallsThrough := inferInstanceAs (Decidable (∀ _ ∈ _, _ ∧ _))

theorem jumps_eq_takesBranch {mnemonic : Mnemonic}
    (h : mnemonic ∉ [Mnemonic.jmp, .jsr, .rts, .rti, .brk]) (p : Status) :
    mnemonic.action.jumps p = mnemonic.action.takesBranch p := by
  cases mnemonic <;> first | rfl | exact absurd (by decide) h

/-- An instruction that does not jump is followed by the next one. -/
theorem pc_execute {β : Type} [Bus β] {c : Cpu β} {i : Instruction}
    (h : i.mnemonic.action.jumps c.regs.status = false) :
    (c.execute i).regs.pc = c.regs.pc + UInt16.ofNat i.mode.operandBytes := by
  have hflow := (c.resolve i.mode).2.flow_perform i.mnemonic.action (c.resolve i.mode).1.operand
  rw [regs_resolve] at hflow
  have hjumped := hflow.jumped.trans h
  have hpc := hflow.pc hjumped
  simp only [performance] at hjumped hpc
  simp only [execute, hjumped, Bool.false_eq_true, if_false]
  exact congrArg (· + UInt16.ofNat i.mode.operandBytes) hpc

/-- The processor goes from the address of an entry to the end of the entry. -/
theorem pc_step (tracing : Bool) {c : Cpu Ram} (hquiet : c.Quiet) (hpolicy : c.policy = .nop)
    (hstraight : c.FallsThrough) :
    (c.step tracing).cpu.regs.pc =
      c.regs.pc + UInt16.ofNat (Listing.entryIn c.bus c.regs.pc).length := by
  have hpolled : c.pollInterrupts = c := pollInterrupts_of_idle hquiet.dueInterrupt
  rw [(step_ram tracing hquiet.refuses).2, hpolled, Listing.entryIn_eq]
  simp only [Listing.entryOf]
  cases hdecode : decode (c.bus.read c.regs.pc) with
  | none =>
    rw [(executeNext_lenient hdecode hpolicy).2]
    rfl
  | some i =>
    obtain ⟨hmnemonic, hbranch⟩ := hstraight i hdecode
    have hjumps : i.mnemonic.action.jumps c.regs.status = false :=
      (jumps_eq_takesBranch hmnemonic c.regs.status).trans hbranch
    have hfetched := pc_execute (c := (c.advance 1).setState .executing) hjumps
    rw [(executeNext_defined hdecode).2]
    refine hfetched.trans ?_
    show c.regs.pc + UInt16.ofNat 1 + UInt16.ofNat i.mode.operandBytes =
      c.regs.pc + UInt16.ofNat (1 + i.mode.operandBytes)
    rw [UInt16.ofNat_add, UInt16.add_assoc]

/-- A step that no interrupt comes before leaves the next one just as quiet. -/
theorem Quiet.step (tracing : Bool) {c : Cpu Ram} (h : c.Quiet) (hpolicy : c.policy = .nop) :
    (c.step tracing).result = .ok () ∧ (c.step tracing).cpu.Quiet ∧
      (c.step tracing).cpu.policy = .nop := by
  have hok := (step_lenient tracing h.toReady hpolicy).1
  obtain ⟨hnext, hsame⟩ := h.of_step_ok hok
  exact ⟨hok, hnext, hsame.trans hpolicy⟩

/-! ## Straight runs -/

/-- After some steps of a straight run the processor is at the next entry of the listing, and the
bytes that the listing covers are still the same. -/
theorem straight_afterSteps (tracing : Bool) {n : Nat} {c : Cpu Ram} (hquiet : c.Quiet)
    (hpolicy : c.policy = .nop) (hstraight : ∀ k < n, (c.afterSteps tracing k).FallsThrough)
    (hkept : ∀ k < n, ∀ j < Listing.span c.bus c.regs.pc n,
      (c.afterSteps tracing (k + 1)).bus.read (c.regs.pc + UInt16.ofNat j) =
        (c.afterSteps tracing k).bus.read (c.regs.pc + UInt16.ofNat j))
    {k : Nat} (hk : k ≤ n) :
    let d := c.afterSteps tracing k
    Steps tracing k c d ∧ d.Quiet ∧ d.policy = .nop ∧
      d.regs.pc = Listing.reached c.bus c.regs.pc k ∧
      ∀ j < Listing.span c.bus c.regs.pc n,
        d.bus.read (c.regs.pc + UInt16.ofNat j) = c.bus.read (c.regs.pc + UInt16.ofNat j) := by
  induction k with
  | zero => exact ⟨.refl c, hquiet, hpolicy, (Listing.reached_zero _ _).symm, fun _ _ => rfl⟩
  | succ k ih =>
    obtain ⟨hsteps, hgoes, hnop, hpc, hsame⟩ := ih (Nat.le_of_succ_le hk)
    obtain ⟨hok, hnext, hstill⟩ := hgoes.step tracing hnop
    have hentry := Listing.entryIn_of_covered hk hsame
    refine ⟨hsteps.succ hok, hnext, hstill, ?_, fun j hj => ?_⟩
    · rw [Listing.reached_succ, ← hentry, ← hpc]
      exact pc_step tracing hgoes hnop (hstraight k hk)
    · exact (hkept k hk j hj).trans (hsame j hj)

end Cpu

/-- The processor and a listing agree on where instructions begin. Let a listing of `n` entries be
made at the program counter, with no interrupt to come and undefined opcodes counting as nothing. If
none of the next `n` steps jumps or changes a byte that the listing covers, they all succeed, each
begins at the address of its entry, and the entry there is still the same; after them the program
counter is where the last entry ends. -/
theorem listing_followed (tracing : Bool) (n : Nat) {c : Cpu Ram} (hfetching : c.state = .fetching)
    (hfree : c.haltRequested = false) (hnmi : c.nmiLatched = false) (hirq : c.irqLine = false)
    (hpolicy : c.policy = .nop) (hstraight : ∀ k < n, (c.afterSteps tracing k).FallsThrough)
    (hkept : ∀ k < n, ∀ j < Listing.span c.bus c.regs.pc n,
      (c.afterSteps tracing (k + 1)).bus.read (c.regs.pc + UInt16.ofNat j) =
        (c.afterSteps tracing k).bus.read (c.regs.pc + UInt16.ofNat j)) :
    let listing := (Listing.disassemble c.regs.pc n c.bus).value
    (∀ k < n,
      let d := c.afterSteps tracing k
      Cpu.Steps tracing k c d ∧
        listing[k]? = some (d.regs.pc, (Listing.entryAt d.regs.pc d.bus).value.text)) ∧
      Cpu.Steps tracing n c (c.afterSteps tracing n) ∧
        ∀ address text, listing.getLast? = some (address, text) →
          (c.afterSteps tracing n).regs.pc =
            address + UInt16.ofNat (Listing.entryAt address c.bus).value.length := by
  intro listing
  have hlisting : listing = Listing.walk c.bus c.regs.pc n := by
    simp only [listing, Listing.disassemble_ram]
  have hquiet : c.Quiet := ⟨⟨hfetching, hfree⟩, hnmi, hirq⟩
  have hfollowed {k : Nat} (hk : k ≤ n) :=
    Cpu.straight_afterSteps tracing hquiet hpolicy hstraight hkept hk
  refine ⟨fun k hk => ?_, (hfollowed (Nat.le_refl n)).1, fun address text hlast => ?_⟩
  · obtain ⟨hsteps, -, -, hpc, hsame⟩ := hfollowed (Nat.le_of_lt hk)
    refine ⟨hsteps, ?_⟩
    rw [hlisting, Listing.getElem?_walk c.bus c.regs.pc hk, hpc]
    exact congrArg (fun entry => some (_, Listing.Entry.text entry))
      (Listing.entryIn_of_covered hk hsame).symm
  · obtain ⟨-, -, -, hpc, -⟩ := hfollowed (Nat.le_refl n)
    rw [List.getLast?_eq_getElem?, hlisting, Listing.length_walk] at hlast
    cases n with
    | zero => exact nomatch hlast
    | succ m =>
      rw [Nat.add_sub_cancel, Listing.getElem?_walk c.bus c.regs.pc m.lt_succ_self] at hlast
      obtain ⟨rfl, -⟩ := Prod.mk.inj (Option.some.inj hlast)
      exact hpc.trans (Listing.reached_succ c.bus c.regs.pc m)

/-- A program across the end of memory: a byte that is no opcode, a branch that is taken after a
result of zero, and an increment of another byte. -/
def straightRam : Ram :=
  (Ram.zeroed.load 0x0000 [0x10, 0xEE, 0x00, 0x02]).load 0xFFFC [0xFE, 0xFF, 0x02, 0xF0]

/-- The program goes straight on, since nothing has been zero yet and it leaves itself alone. -/
theorem listing_followed_straightRam :
    let c := (Cpu.powerOn straightRam .nop).reset
    let listing := (Listing.disassemble c.regs.pc 3 c.bus).value
    listing.map Prod.fst = [0xFFFE, 0xFFFF, 0x0001] ∧ (c.afterSteps false 3).regs.pc = 0x0004 ∧
      (c.afterSteps false 3).bus.read 0x0200 ≠ c.bus.read 0x0200 ∧
      ∀ address text, listing.getLast? = some (address, text) →
        (c.afterSteps false 3).regs.pc =
          address + UInt16.ofNat (Listing.entryAt address c.bus).value.length := by
  intro c listing
  refine ⟨by decide +kernel, by decide +kernel, by decide +kernel, ?_⟩
  exact (listing_followed false 3 (c := c) rfl rfl rfl rfl rfl (by decide +kernel)
    (by decide +kernel)).2.2

end Nes6502
