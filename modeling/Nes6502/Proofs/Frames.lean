import Nes6502.Proofs.Reachable
import Nes6502.Proofs.Stack

/-!
# Nested calls and interrupts

A call and an interrupt leave the way back on the stack, and the returns take it from there. On
plain memory this nests: whatever mixture of calls and interrupts has been entered, the returns undo
them from the innermost to the outermost, as long as their bytes fit into the page of the stack. The
page is a ring, so it does not matter where in it the first byte lies.

## What is proved

* `Frame.entered`: entering a frame pushes its image.
* `Frame.pulled`: a return that finds the image restores what the frame was entered with.
* `Frame.descended`, `Frame.ascended`: a whole nest, on the way down and on the way up.
* `frames_unwind`: every frame of a nest is unwound by its return.
-/

set_option autoImplicit false

namespace Nes6502

/-! ## Pushing and pulling -/

namespace Cpu

/-- What neither pushing nor pulling changes. The program counter, the status register, the cycles
and the run state may differ. -/
structure Kept (c d : Cpu Ram) : Prop where
  a : d.regs.a = c.regs.a
  x : d.regs.x = c.regs.x
  y : d.regs.y = c.regs.y
  haltRequested : d.haltRequested = c.haltRequested
  nmiLatched : d.nmiLatched = c.nmiLatched
  irqLine : d.irqLine = c.irqLine

theorem Kept.refl (c : Cpu Ram) : Kept c c := ⟨rfl, rfl, rfl, rfl, rfl, rfl⟩

theorem Kept.trans {c d e : Cpu Ram} (h : Kept c d) (h' : Kept d e) : Kept c e :=
  ⟨h'.a.trans h.a, h'.x.trans h.x, h'.y.trans h.y, h'.haltRequested.trans h.haltRequested,
    h'.nmiLatched.trans h.nmiLatched, h'.irqLine.trans h.irqLine⟩

theorem Kept.quiet {c d : Cpu Ram} (h : Kept c d) (hquiet : c.Quiet)
    (hfetching : d.state = .fetching) : d.Quiet :=
  ⟨⟨hfetching, h.haltRequested.trans hquiet.unrequested⟩, h.nmiLatched.trans hquiet.unlatched,
    h.irqLine.trans hquiet.low⟩

/-- Bytes were pushed. -/
structure Pushed (image : List UInt8) (c d : Cpu Ram) : Prop extends Kept c d where
  bus : d.bus = c.bus.pushed c.regs.sp image
  sp : d.regs.sp = c.regs.sp - UInt8.ofNat image.length

/-- Bytes were pulled. -/
structure Pulled (count : Nat) (c d : Cpu Ram) : Prop extends Kept c d where
  bus : d.bus = c.bus
  sp : d.regs.sp = c.regs.sp + UInt8.ofNat count

theorem pushed_pushWord (c : Cpu Ram) (word : UInt16) :
    Pushed [highByte word, lowByte word] c (c.pushWord word) := by
  have hsp : c.regs.sp - 1 - 1 = c.regs.sp - UInt8.ofNat 2 := (sub_ofNat_add _ 1 1).symm
  rw [pushWord_ram]
  exact ⟨⟨rfl, rfl, rfl, rfl, rfl, rfl⟩, rfl, hsp⟩

theorem pushed_enterHandler (c : Cpu Ram) (kind : Interrupt) :
    Pushed [highByte c.regs.pc, lowByte c.regs.pc, c.regs.status.toStack (kind == .brk)] c
      (c.enterHandler kind) := by
  have hsp : c.regs.sp - 1 - 1 - 1 = c.regs.sp - UInt8.ofNat 3 := by
    rw [sub_ofNat_add _ 2 1, sub_ofNat_add _ 1 1]
    rfl
  simp only [enterHandler, pushWord_ram, pushByte_ram, readWord_ram]
  exact ⟨⟨rfl, rfl, rfl, rfl, rfl, rfl⟩, rfl, hsp⟩

/-! ## The instructions that call and return -/

theorem execute_jsr (c : Cpu Ram) :
    c.execute ⟨0x20, .jsr, .absolute, 6, false⟩ =
      ((c.pushWord (c.regs.pc + 1)).setPc
        (wordOfBytes (c.bus.read c.regs.pc) (c.bus.read (c.regs.pc + 1)))).spend 6 := by
  simp only [execute, resolve, operandWord, readWord_ram, perform, Mnemonic.action]
  rfl

theorem execute_brk (c : Cpu Ram) :
    c.execute ⟨0x00, .brk, .implied, 7, false⟩ = ((c.advance 1).enterHandler .brk).spend 7 := by
  simp only [execute, resolve, perform, Mnemonic.action]
  rfl

theorem execute_rts (c : Cpu Ram) :
    c.execute ⟨0x60, .rts, .implied, 6, false⟩ =
      (c.pullWord.2.setPc (c.pullWord.1 + 1)).spend 6 := by
  simp only [execute, resolve, perform, Mnemonic.action]
  rfl

theorem execute_rti (c : Cpu Ram) :
    c.execute ⟨0x40, .rti, .implied, 6, false⟩ =
      ((c.pullByte.2.setStatus (.ofStack c.pullByte.1)).pullWord.2.setPc
        (c.pullByte.2.setStatus (.ofStack c.pullByte.1)).pullWord.1).spend 6 := by
  simp only [execute, resolve, perform, Mnemonic.action]
  rfl

/-- A return from a subroutine that finds the address of the last byte of the call. -/
theorem step_rts (tracing : Bool) {c : Cpu Ram} (hquiet : c.Quiet)
    (hopcode : c.bus.read c.regs.pc = 0x60) (word : UInt16)
    (hlow : c.bus.read (stackAddress (c.regs.sp + 1)) = lowByte word)
    (hhigh : c.bus.read (stackAddress (c.regs.sp + 1 + 1)) = highByte word) :
    (c.step tracing).result = .ok () ∧ Pulled 2 c (c.step tracing).cpu ∧
      (c.step tracing).cpu.state = .fetching ∧ (c.step tracing).cpu.regs.pc = word + 1 ∧
      (c.step tracing).cpu.regs.status = c.regs.status := by
  have hdecode : decode (c.bus.read c.regs.pc) = some ⟨0x60, .rts, .implied, 6, false⟩ := by
    rw [hopcode]
    rfl
  have hpulled : wordOfBytes (c.bus.read (stackAddress (c.regs.sp + 1)))
      (c.bus.read (stackAddress (c.regs.sp + 1 + 1))) = word := by
    rw [hlow, hhigh, wordOfBytes_lowByte_highByte]
  have hsp : c.regs.sp + 1 + 1 = c.regs.sp + UInt8.ofNat 2 := by
    show _ = c.regs.sp + 2
    grind
  obtain ⟨hresult, hcpu⟩ := step_defined tracing hquiet.refuses hquiet.dueInterrupt hdecode
  refine ⟨hresult, ?_⟩
  simp only [hcpu, execute_rts, pullWord_ram, advance, spend, setPc, setState]
  exact ⟨⟨⟨rfl, rfl, rfl, rfl, rfl, rfl⟩, rfl, hsp⟩, trivial, congrArg (· + 1) hpulled, trivial⟩

/-- A return from an interrupt that finds the image of a status register, and an address. -/
theorem step_rti (tracing : Bool) {c : Cpu Ram} (hquiet : c.Quiet)
    (hopcode : c.bus.read c.regs.pc = 0x40) {p : Status} (hlive : p.Live) (software : Bool)
    (word : UInt16) (hstatus : c.bus.read (stackAddress (c.regs.sp + 1)) = p.toStack software)
    (hlow : c.bus.read (stackAddress (c.regs.sp + 1 + 1)) = lowByte word)
    (hhigh : c.bus.read (stackAddress (c.regs.sp + 1 + 1 + 1)) = highByte word) :
    (c.step tracing).result = .ok () ∧ Pulled 3 c (c.step tracing).cpu ∧
      (c.step tracing).cpu.state = .fetching ∧ (c.step tracing).cpu.regs.pc = word ∧
      (c.step tracing).cpu.regs.status = p := by
  have hdecode : decode (c.bus.read c.regs.pc) = some ⟨0x40, .rti, .implied, 6, false⟩ := by
    rw [hopcode]
    rfl
  have hpulled : wordOfBytes (c.bus.read (stackAddress (c.regs.sp + 1 + 1)))
      (c.bus.read (stackAddress (c.regs.sp + 1 + 1 + 1))) = word := by
    rw [hlow, hhigh, wordOfBytes_lowByte_highByte]
  have hrestored : Status.ofStack (c.bus.read (stackAddress (c.regs.sp + 1))) = p := by
    rw [hstatus, Status.ofStack_toStack hlive]
  have hsp : c.regs.sp + 1 + 1 + 1 = c.regs.sp + UInt8.ofNat 3 := by
    show _ = c.regs.sp + 3
    grind
  obtain ⟨hresult, hcpu⟩ := step_defined tracing hquiet.refuses hquiet.dueInterrupt hdecode
  refine ⟨hresult, ?_⟩
  simp only [hcpu, execute_rti, pullByte_ram, pullWord_ram, advance, spend, setPc, setStatus,
    setState]
  exact ⟨⟨⟨rfl, rfl, rfl, rfl, rfl, rfl⟩, rfl, hsp⟩, trivial, hpulled, hrestored⟩

end Cpu

/-! ## Frames -/

/-- What a return can undo. -/
inductive Frame where
  /-- A subroutine was called. -/
  | call
  /-- Software asked for an interrupt. -/
  | brk
  | nmi
  | irq
  deriving DecidableEq, Repr

namespace Frame

/-- The number of bytes on the stack. -/
def bytes : Frame → Nat
  | .call => 2
  | .brk | .nmi | .irq => 3

/-- Enters a frame: by the next instruction, or by an interrupt from outside. -/
def enter (tracing : Bool) (c : Cpu Ram) : Frame → Cpu Ram
  | .call | .brk => (c.step tracing).cpu
  | .nmi => c.interrupt .nmi
  | .irq => c.interrupt .irq

/-- What entering a frame takes: that the next instruction does so, or that no mask keeps the
interrupt out. -/
def Enterable (c : Cpu Ram) : Frame → Prop
  | .call => c.bus.read c.regs.pc = 0x20
  | .brk => c.bus.read c.regs.pc = 0x00
  | .nmi => c.masks .nmi = false
  | .irq => c.masks .irq = false

/-- The opcode of the instruction that undoes the frame. -/
def returnOpcode : Frame → UInt8
  | .call => 0x60
  | .brk | .nmi | .irq => 0x40

/-- The place that a frame returns to. -/
def resumption (pc : UInt16) : Frame → UInt16
  | .call => pc + 3
  | .brk => pc + 2
  | .nmi | .irq => pc

/-- The bytes on the stack, in the order in which they are pushed. A call pushes the address of its
own last byte. -/
def image (r : Registers) : Frame → List UInt8
  | .call => [highByte (r.pc + 2), lowByte (r.pc + 2)]
  | .brk => [highByte (r.pc + 2), lowByte (r.pc + 2), r.status.toStack true]
  | .nmi | .irq => [highByte r.pc, lowByte r.pc, r.status.toStack false]

theorem length_image (f : Frame) (r : Registers) : (f.image r).length = f.bytes := by
  cases f <;> rfl

/-- Entering a frame pushes its image. A call leaves the status register alone, which its image does
not hold. -/
theorem entered (tracing : Bool) {f : Frame} {c : Cpu Ram} (hquiet : c.Quiet)
    (henter : f.Enterable c) :
    Cpu.Pushed (f.image c.regs) c (f.enter tracing c) ∧ (f.enter tracing c).state = .fetching ∧
      (f = .call → (f.enter tracing c).regs.status = c.regs.status) := by
  have hplace : c.regs.pc + 1 + 1 = c.regs.pc + 2 := by grind
  cases f with
  | call =>
    have hdecode : decode (c.bus.read c.regs.pc) = some ⟨0x20, .jsr, .absolute, 6, false⟩ := by
      rw [show c.bus.read c.regs.pc = 0x20 from henter]
      rfl
    rw [enter, (Cpu.step_defined tracing hquiet.refuses hquiet.dueInterrupt hdecode).2,
      Cpu.execute_jsr, image, ← hplace]
    have h := ((c.advance 1).setState .executing).pushed_pushWord (c.regs.pc + 1 + 1)
    exact ⟨⟨⟨h.a, h.x, h.y, h.haltRequested, h.nmiLatched, h.irqLine⟩, h.bus, h.sp⟩, rfl,
      fun _ => rfl⟩
  | brk =>
    have hdecode : decode (c.bus.read c.regs.pc) = some ⟨0x00, .brk, .implied, 7, false⟩ := by
      rw [show c.bus.read c.regs.pc = 0x00 from henter]
      rfl
    rw [enter, (Cpu.step_defined tracing hquiet.refuses hquiet.dueInterrupt hdecode).2,
      Cpu.execute_brk, image, ← hplace]
    have h := (((c.advance 1).setState .executing).advance 1).pushed_enterHandler .brk
    exact ⟨⟨⟨h.a, h.x, h.y, h.haltRequested, h.nmiLatched, h.irqLine⟩, h.bus, h.sp⟩, rfl,
      fun h => by cases h⟩
  | nmi =>
    have hinterrupt : c.interrupt .nmi = c.enterHandler .nmi := rfl
    rw [enter, hinterrupt]
    exact ⟨c.pushed_enterHandler .nmi, hquiet.fetching, fun h => by cases h⟩
  | irq =>
    have hmask : c.masks .irq = false := henter
    have hinterrupt : c.interrupt .irq = c.enterHandler .irq := by
      simp [Cpu.interrupt, hmask]
    rw [enter, hinterrupt]
    exact ⟨c.pushed_enterHandler .irq, hquiet.fetching, fun h => by cases h⟩

theorem live_enter (tracing : Bool) (f : Frame) {c : Cpu Ram} (h : c.regs.status.Live) :
    (f.enter tracing c).regs.status.Live := by
  cases f with
  | call | brk => exact Cpu.live_step tracing h
  | nmi => exact Cpu.live_interrupt h .nmi
  | irq => exact Cpu.live_interrupt h .irq

end Frame

/-! ## The way back -/

namespace Cpu

/-- Outside the slots of so many pushes, memory is the same. -/
structure KeptOutside (sp : UInt8) (count : Nat) (c d : Cpu Ram) : Prop extends Kept c d where
  memory : ∀ address, ¬ Slot sp count address → d.bus.read address = c.bus.read address

/-- Everything that was entered from a state on has been undone. -/
structure BackTo (count : Nat) (c d : Cpu Ram) : Prop extends KeptOutside c.regs.sp count c d where
  sp : d.regs.sp = c.regs.sp
  status : d.regs.status = c.regs.status
  fetching : d.state = .fetching

theorem KeptOutside.refl (sp : UInt8) (count : Nat) (c : Cpu Ram) : KeptOutside sp count c c :=
  ⟨.refl c, fun _ _ => rfl⟩

theorem KeptOutside.trans {sp : UInt8} {count : Nat} {c d e : Cpu Ram}
    (h : KeptOutside sp count c d) (h' : KeptOutside sp count d e) : KeptOutside sp count c e :=
  ⟨h.toKept.trans h'.toKept, fun address hslot =>
    (h'.memory address hslot).trans (h.memory address hslot)⟩

theorem KeptOutside.mono {sp : UInt8} {j k : Nat} {c d : Cpu Ram} (h : KeptOutside sp j c d)
    (hle : j ≤ k) : KeptOutside sp k c d :=
  ⟨h.toKept, fun address hslot => h.memory address fun hfewer => hslot (hfewer.mono hle)⟩

theorem KeptOutside.later {sp : UInt8} {j k : Nat} {c d : Cpu Ram}
    (h : KeptOutside (sp - UInt8.ofNat j) k c d) : KeptOutside sp (j + k) c d :=
  ⟨h.toKept, fun address hslot => h.memory address fun hlater => hslot hlater.later⟩

theorem Pushed.keptOutside {image : List UInt8} {c d : Cpu Ram} (h : Pushed image c d) :
    KeptOutside c.regs.sp image.length c d :=
  ⟨h.toKept, fun address hslot => by rw [h.bus, Ram.read_pushed_of_not_slot hslot]⟩

theorem Pulled.keptOutside {count : Nat} {c d : Cpu Ram} (h : Pulled count c d) (sp : UInt8)
    (slots : Nat) : KeptOutside sp slots c d :=
  ⟨h.toKept, fun address _ => by rw [h.bus]⟩

end Cpu

namespace Frame

open Cpu

/-- The image of a frame is still there when everything above it has been undone. -/
theorem read_image {f : Frame} {c d e : Cpu Ram} {count : Nat}
    (hpushed : Pushed (f.image c.regs) c d) (hback : BackTo count d e)
    (hroom : f.bytes + count ≤ 256) {k : Nat} {byte : UInt8}
    (hbyte : (f.image c.regs)[k]? = some byte) :
    e.bus.read (stackAddress (c.regs.sp - UInt8.ofNat k)) = byte := by
  have hlength := f.length_image c.regs
  obtain ⟨hk, hbyte⟩ := List.getElem?_eq_some_iff.mp hbyte
  have hslot : ¬ Slot d.regs.sp count (stackAddress (c.regs.sp - UInt8.ofNat k)) := by
    rw [hpushed.sp, hlength]
    exact not_slot_of_earlier (by omega) hroom
  rw [hback.memory _ hslot, hpushed.bus, ← hbyte]
  exact Ram.read_pushed (by omega) hk

/-- A return that finds the image of its frame takes the bytes off the stack, and goes on where the
frame was entered with the status register of that time. -/
theorem pulled (tracing : Bool) {f : Frame} {c d e : Cpu Ram} {count : Nat}
    (hlive : c.regs.status.Live) (hpushed : Pushed (f.image c.regs) c d)
    (hcall : f = .call → d.regs.status = c.regs.status) (hback : BackTo count d e)
    (hroom : f.bytes + count ≤ 256) (hquiet : e.Quiet)
    (hopcode : e.bus.read e.regs.pc = f.returnOpcode) :
    (e.step tracing).result = .ok () ∧ Pulled f.bytes e (e.step tracing).cpu ∧
      (e.step tracing).cpu.state = .fetching ∧
      (e.step tracing).cpu.regs.pc = f.resumption c.regs.pc ∧
      (e.step tracing).cpu.regs.status = c.regs.status := by
  have hsp : e.regs.sp = c.regs.sp - UInt8.ofNat f.bytes := by
    rw [hback.sp, hpushed.sp, f.length_image]
  have hup (k : Nat) : c.regs.sp - UInt8.ofNat (k + 1) + 1 = c.regs.sp - UInt8.ofNat k := by
    rw [sub_ofNat_add]
    show _ - 1 + 1 = _
    grind
  have hread {k : Nat} {byte : UInt8} (hbyte : (f.image c.regs)[k]? = some byte) :=
    read_image hpushed hback hroom hbyte
  -- the three kinds of interrupt differ in the address and in the Break bit of the image
  have hinterrupt (word : UInt16) (software : Bool) (hbytes : f.bytes = 3)
      (hopcode : e.bus.read e.regs.pc = 0x40)
      (himage : f.image c.regs =
        [highByte word, lowByte word, c.regs.status.toStack software]) :=
    have hone : e.regs.sp + 1 = c.regs.sp - UInt8.ofNat 2 := by rw [hsp, hbytes, hup 2]
    have htwo : e.regs.sp + 1 + 1 = c.regs.sp - UInt8.ofNat 1 := by rw [hone, hup 1]
    have hthree : e.regs.sp + 1 + 1 + 1 = c.regs.sp - UInt8.ofNat 0 := by rw [htwo, hup 0]
    step_rti tracing hquiet hopcode hlive software word
      (by rw [hone]; exact hread (by rw [himage]; rfl))
      (by rw [htwo]; exact hread (by rw [himage]; rfl))
      (by rw [hthree]; exact hread (by rw [himage]; rfl))
  cases f with
  | call =>
    have hone : e.regs.sp + 1 = c.regs.sp - UInt8.ofNat 1 := by rw [hsp]; exact hup 1
    have htwo : e.regs.sp + 1 + 1 = c.regs.sp - UInt8.ofNat 0 := by rw [hone, hup 0]
    obtain ⟨hresult, hpulled, hfetching, hpc, hstatus⟩ :=
      step_rts tracing hquiet hopcode (c.regs.pc + 2) (by rw [hone]; exact hread rfl)
        (by rw [htwo]; exact hread rfl)
    refine ⟨hresult, hpulled, hfetching, hpc.trans ?_, ?_⟩
    · show c.regs.pc + 2 + 1 = c.regs.pc + 3
      grind
    · rw [hstatus, hback.status, hcall rfl]
  | brk => exact hinterrupt (c.regs.pc + 2) true rfl hopcode rfl
  | nmi | irq => exact hinterrupt c.regs.pc false rfl hopcode rfl

/-- One level of a nest: what was undone down to `d` is undone down to `c` by one more return. -/
theorem undone (tracing : Bool) {f : Frame} {c e : Cpu Ram} {count : Nat}
    (hlive : c.regs.status.Live) (hquiet : c.Quiet) (henter : f.Enterable c)
    (hback : BackTo count (f.enter tracing c) e) (hroom : f.bytes + count ≤ 256)
    (hopcode : e.bus.read e.regs.pc = f.returnOpcode) :
    (e.step tracing).result = .ok () ∧
      (e.step tracing).cpu.regs.pc = f.resumption c.regs.pc ∧
      BackTo (f.bytes + count) c (e.step tracing).cpu := by
  obtain ⟨hpushed, -, hcall⟩ := entered tracing hquiet henter
  have hkept : KeptOutside c.regs.sp (f.bytes + count) c e := by
    have hdown := hpushed.keptOutside
    have hup := hback.toKeptOutside
    rw [hpushed.sp] at hup
    rw [f.length_image] at hdown hup
    exact (hdown.mono (Nat.le_add_right _ _)).trans hup.later
  have hagain : e.Quiet := hkept.toKept.quiet hquiet hback.fetching
  obtain ⟨hresult, hpulled, hfetching, hpc, hstatus⟩ :=
    pulled tracing hlive hpushed hcall hback hroom hagain hopcode
  have hsp : (e.step tracing).cpu.regs.sp = c.regs.sp := by
    rw [hpulled.sp, hback.sp, hpushed.sp, f.length_image]
    grind
  exact ⟨hresult, hpc, hkept.trans (hpulled.keptOutside _ _), hsp, hstatus, hfetching⟩

/-! ## Nests of frames -/

/-- The bytes of a nest on the stack. -/
def total : List Frame → Nat
  | [] => 0
  | f :: rest => f.bytes + total rest

theorem total_append (outer inner : List Frame) :
    total (outer ++ inner) = total outer + total inner := by
  induction outer with
  | nil => exact (Nat.zero_add _).symm
  | cons f rest ih => simp only [List.cons_append, total, ih, Nat.add_assoc]

/-- Enters frames, the outermost first. -/
def descend (tracing : Bool) (c : Cpu Ram) (frames : List Frame) : Cpu Ram :=
  frames.foldl (enter tracing) c

/-- Takes so many steps. -/
def ascend (tracing : Bool) (c : Cpu Ram) : Nat → Cpu Ram
  | 0 => c
  | count + 1 => ((ascend tracing c count).step tracing).cpu

/-- Every frame can be entered where the frames around it lead. -/
def AllEnterable (tracing : Bool) (c : Cpu Ram) (frames : List Frame) : Prop :=
  ∀ outer f inner, frames = outer ++ f :: inner → f.Enterable (descend tracing c outer)

/-- Every step on the way back finds the opcode that undoes the frame whose turn it is. -/
def AllReturnable (tracing : Bool) (c : Cpu Ram) (frames : List Frame) : Prop :=
  ∀ outer f inner, frames = outer ++ f :: inner →
    let last := ascend tracing (descend tracing c frames) inner.length
    last.bus.read last.regs.pc = f.returnOpcode

variable {tracing : Bool}

theorem allEnterable_nil (c : Cpu Ram) : AllEnterable tracing c [] :=
  fun outer f inner h => by simp at h

theorem allReturnable_nil (c : Cpu Ram) : AllReturnable tracing c [] :=
  fun outer f inner h => by simp at h

theorem allEnterable_cons {c : Cpu Ram} {f : Frame} {rest : List Frame} :
    AllEnterable tracing c (f :: rest) ↔
      f.Enterable c ∧ AllEnterable tracing (f.enter tracing c) rest := by
  constructor
  · intro h
    exact ⟨h [] f rest rfl, fun outer g inner hrest => h (f :: outer) g inner (by rw [hrest]; rfl)⟩
  · rintro ⟨hfirst, hrest⟩ outer g inner hsplit
    cases outer with
    | nil =>
      cases hsplit
      exact hfirst
    | cons first outer =>
      cases hsplit
      exact hrest outer g inner rfl

theorem allReturnable_cons {c : Cpu Ram} {f : Frame} {rest : List Frame} :
    AllReturnable tracing c (f :: rest) ↔
      (let last := ascend tracing (descend tracing (f.enter tracing c) rest) rest.length
       last.bus.read last.regs.pc = f.returnOpcode) ∧
      AllReturnable tracing (f.enter tracing c) rest := by
  constructor
  · intro h
    exact ⟨h [] f rest rfl, fun outer g inner hrest => h (f :: outer) g inner (by rw [hrest]; rfl)⟩
  · rintro ⟨hfirst, hrest⟩ outer g inner hsplit
    cases outer with
    | nil =>
      cases hsplit
      exact hfirst
    | cons first outer =>
      cases hsplit
      exact hrest outer g inner rfl

theorem allEnterable_append {c : Cpu Ram} {outer inner : List Frame} :
    AllEnterable tracing c (outer ++ inner) ↔
      AllEnterable tracing c outer ∧ AllEnterable tracing (descend tracing c outer) inner := by
  induction outer generalizing c with
  | nil => exact ⟨fun h => ⟨allEnterable_nil c, h⟩, And.right⟩
  | cons f outer ih =>
    rw [List.cons_append, allEnterable_cons, allEnterable_cons, ih, and_assoc]
    rfl

/-- The inner frames of a nest are a nest of their own. -/
theorem AllReturnable.inner {c : Cpu Ram} {outer inner : List Frame}
    (h : AllReturnable tracing c (outer ++ inner)) :
    AllReturnable tracing (descend tracing c outer) inner := by
  induction outer generalizing c with
  | nil => exact h
  | cons f outer ih => exact ih (allReturnable_cons.mp h).2

/-- Going down: what the frames push lies in their slots, and nothing else changes. -/
theorem descended {c : Cpu Ram} (hlive : c.regs.status.Live) (hquiet : c.Quiet)
    {frames : List Frame} (henter : AllEnterable tracing c frames) :
    KeptOutside c.regs.sp (total frames) c (descend tracing c frames) ∧
      (descend tracing c frames).regs.sp = c.regs.sp - UInt8.ofNat (total frames) ∧
      (descend tracing c frames).regs.status.Live ∧ (descend tracing c frames).Quiet := by
  induction frames generalizing c with
  | nil =>
    refine ⟨.refl _ _ c, ?_, hlive, hquiet⟩
    show c.regs.sp = c.regs.sp - 0
    grind
  | cons f rest ih =>
    obtain ⟨hfirst, hrest⟩ := allEnterable_cons.mp henter
    obtain ⟨hpushed, hfetching, -⟩ := entered tracing hquiet hfirst
    obtain ⟨hkept, hsp, hdeep⟩ :=
      ih (live_enter tracing f hlive) (hpushed.toKept.quiet hquiet hfetching) hrest
    have hdown := hpushed.keptOutside
    rw [hpushed.sp] at hkept hsp
    rw [f.length_image] at hdown hkept hsp
    rw [← sub_ofNat_add] at hsp
    exact ⟨(hdown.mono (Nat.le_add_right _ _)).trans hkept.later, hsp, hdeep⟩

/-- Down and up again: as many returns as frames lead back to the start. -/
theorem ascended {c : Cpu Ram} (hlive : c.regs.status.Live) (hquiet : c.Quiet)
    {frames : List Frame} (hroom : total frames ≤ 256) (henter : AllEnterable tracing c frames)
    (hreturn : AllReturnable tracing c frames) :
    BackTo (total frames) c (ascend tracing (descend tracing c frames) frames.length) := by
  induction frames generalizing c with
  | nil => exact ⟨.refl _ _ c, rfl, rfl, hquiet.fetching⟩
  | cons f rest ih =>
    have htotal : total (f :: rest) = f.bytes + total rest := rfl
    obtain ⟨hfirst, hrest⟩ := allEnterable_cons.mp henter
    obtain ⟨hopcode, hreturns⟩ := allReturnable_cons.mp hreturn
    obtain ⟨hpushed, hfetching, -⟩ := entered tracing hquiet hfirst
    have hback := ih (live_enter tracing f hlive) (hpushed.toKept.quiet hquiet hfetching)
      (by omega) hrest hreturns
    exact (undone tracing hlive hquiet hfirst hback (by omega) hopcode).2.2

end Frame

open Nes6502.Frame in
/-- Nested calls and interrupts unwind exactly. Start anywhere, with the stack pointer anywhere, and
enter frames whose bytes fit into the page of the stack; then take as many steps, each of which
finds the return that is due. Every one of them succeeds and is back where its frame was entered: at
the place where the frame returns to, with the stack pointer and the status register of that time,
with A, X and Y as they were all along, and with the same memory but for the slots that this frame
and the frames within it were pushed to. -/
theorem frames_unwind (tracing : Bool) {c : Cpu Ram} (hreachable : c.Reachable) (hquiet : c.Quiet)
    (sp : UInt8) {frames : List Frame} (hroom : total frames ≤ 256)
    (henter : AllEnterable tracing (c.setRegister .sp sp) frames)
    (hreturn : AllReturnable tracing (c.setRegister .sp sp) frames) :
    let start := c.setRegister .sp sp
    start.KeptOutside sp (total frames) (descend tracing start frames) ∧
      ∀ outer f inner, frames = outer ++ f :: inner →
        let before := descend tracing start outer
        let last := ascend tracing (descend tracing start frames) inner.length
        let after := (last.step tracing).cpu
        (last.step tracing).result = .ok () ∧ after.regs.pc = f.resumption before.regs.pc ∧
          before.BackTo (total (f :: inner)) after ∧
          start.KeptOutside sp (total frames) before ∧
          start.KeptOutside sp (total frames) after := by
  intro start
  have hlive : start.regs.status.Live := hreachable.live
  have hagain : start.Quiet :=
    ⟨⟨hquiet.fetching, hquiet.unrequested⟩, hquiet.unlatched, hquiet.low⟩
  refine ⟨(descended hlive hagain henter).1, ?_⟩
  rintro outer f inner rfl before last after
  have htotal := total_append outer (f :: inner)
  have hcons : total (f :: inner) = f.bytes + total inner := rfl
  obtain ⟨houter, hrest⟩ := allEnterable_append.mp henter
  obtain ⟨hfirst, hinner⟩ := allEnterable_cons.mp hrest
  obtain ⟨hopcode, hreturns⟩ := allReturnable_cons.mp hreturn.inner
  obtain ⟨hdown, hsp, hdeep, hstill⟩ := descended hlive hagain houter
  obtain ⟨hpushed, hfetching, -⟩ := entered tracing hstill hfirst
  -- what lies within the frame has been undone when its return is due
  have hback := ascended (live_enter tracing f hdeep) (hpushed.toKept.quiet hstill hfetching)
    (by omega) hinner hreturns
  have hlast : last = ascend tracing (descend tracing (f.enter tracing before) inner)
      inner.length := by
    show ascend tracing (descend tracing start (outer ++ f :: inner)) inner.length = _
    rw [descend, List.foldl_append]
    rfl
  rw [← hlast] at hopcode hback
  obtain ⟨hresult, hpc, hundone⟩ :=
    undone tracing hdeep hstill hfirst hback (by omega) hopcode
  have hbefore : start.KeptOutside sp (total (outer ++ f :: inner)) before :=
    hdown.mono (by omega)
  have hsince := hundone.toKeptOutside
  rw [hsp] at hsince
  refine ⟨hresult, hpc, hundone, hbefore, hbefore.trans ?_⟩
  rw [htotal]
  exact hsince.later

/-- A call at the bottom of memory, of a subroutine at `0x0300` that begins with a BRK. There is one
handler for all interrupts, at `0x0400`. -/
def nestRam : Ram :=
  (((Ram.zeroed.load 0x0000 [0x20, 0x00, 0x03]).load 0x0300 [0x00, 0xEA, 0x60]).load 0x0400
    [0x40]).load 0xFFFA [0x00, 0x04, 0x00, 0x00, 0x00, 0x04]

open Nes6502.Frame in
/-- Three frames that are pushed over the lower edge of the page of the stack. -/
theorem frames_unwind_nestRam :
    let start := (Cpu.powerOn nestRam .halt).reset.setRegister .sp 0x02
    let last := ascend false (descend false start [.call, .brk, .nmi]) [brk, nmi].length
    (last.step false).result = .ok () ∧ (last.step false).cpu.regs.pc = 0x0003 ∧
      start.BackTo 8 (last.step false).cpu := by
  intro start last
  have hreachable : (Cpu.powerOn nestRam .halt).reset.Reachable :=
    (Cpu.Reachable.powerOn nestRam .halt).apply false .reset
  have hcall : start.bus.read start.regs.pc = 0x20 := by decide +kernel
  have hbrk : (call.enter false start).bus.read (call.enter false start).regs.pc = 0x00 := by
    decide +kernel
  have henter : AllEnterable false start [.call, .brk, .nmi] :=
    allEnterable_cons.mpr ⟨hcall, allEnterable_cons.mpr ⟨hbrk,
      allEnterable_cons.mpr ⟨rfl, allEnterable_nil _⟩⟩⟩
  have hreturn : AllReturnable false start [.call, .brk, .nmi] :=
    allReturnable_cons.mpr ⟨by decide +kernel, allReturnable_cons.mpr ⟨by decide +kernel,
      allReturnable_cons.mpr ⟨by decide +kernel, allReturnable_nil _⟩⟩⟩
  have hplace : call.resumption start.regs.pc = 0x0003 := by decide +kernel
  obtain ⟨hresult, hpc, hback, -⟩ :=
    (frames_unwind false hreachable ⟨⟨rfl, rfl⟩, rfl, rfl⟩ 0x02 (by decide) henter hreturn).2
      [] .call [.brk, .nmi] rfl
  refine ⟨hresult, ?_, hback⟩
  rw [hpc]
  exact hplace

end Nes6502
