import Nes6502.Proofs.Memory

/-!
# The stack as a ring

The stack pointer counts in one byte, so the stack never leaves its page, and the 256 bytes of the
page form a ring. On plain memory the ring holds the last 256 bytes that were pushed, whatever the
stack pointer was at first: more bytes than that may be pushed, but then the oldest ones are lost.
Pulling reads the ring from the newest byte on and changes nothing but the stack pointer.

## What is proved

* `Slot.mem_page`: the slots of the stack lie in page one.
* `Ram.read_pushed`, `Ram.read_pushed_of_not_slot`: what pushes that fit into the page leave in
  memory.
* `Cpu.topmost_pushByte`, `Cpu.topmost_pushBytes`: what one push puts on top of the stack, and what
  any number of pushes does.
* `Cpu.pullBytes_ram`: pulling gives what is on top, in this order.
* `stack_lifo`: the ring gives back what was pushed, the last byte first.
-/

set_option autoImplicit false

namespace Nes6502

/-! ## Counting the stack pointer -/

theorem stackAddress_inj {a b : UInt8} (h : stackAddress a = stackAddress b) : a = b := by
  have h := congrArg UInt16.toNat h
  simp only [stackAddress, UInt16.toNat_add, UInt8.toNat_toUInt16, UInt16.toNat_ofNat] at h
  have := a.toNat_lt
  have := b.toNat_lt
  exact UInt8.toNat_inj.mp (by omega)

theorem sub_ofNat_add (sp : UInt8) (j k : Nat) :
    sp - UInt8.ofNat (j + k) = sp - UInt8.ofNat j - UInt8.ofNat k := by
  rw [UInt8.ofNat_add]
  grind

theorem sub_one_add_ofNat (sp : UInt8) (k : Nat) :
    sp - 1 + UInt8.ofNat (k + 1) = sp + UInt8.ofNat k := by
  rw [UInt8.ofNat_add k 1]
  show sp - 1 + (_ + 1) = _
  grind

/-- The stack pointer after pushing and pulling, as a number. -/
theorem toNat_sub_add (sp : UInt8) (pushed pulled : Nat) :
    ((sp - UInt8.ofNat pushed + UInt8.ofNat pulled).toNat : Int) =
      ((sp.toNat : Int) - pushed + pulled) % 256 := by
  rw [UInt8.toNat_add, UInt8.toNat_sub, UInt8.toNat_ofNat', UInt8.toNat_ofNat']
  have := sp.toNat_lt
  omega

/-- A byte that is on the stack does not lie where the next one goes, unless the ring is full. -/
theorem stackAddress_add_ne (sp : UInt8) {k : Nat} (hpos : 0 < k) (hring : k < 256) :
    stackAddress (sp + UInt8.ofNat k) ≠ stackAddress sp := by
  intro e
  have hzero : UInt8.ofNat k = 0 := by
    have := stackAddress_inj e
    grind
  have hnat := congrArg UInt8.toNat hzero
  rw [UInt8.toNat_ofNat_of_lt' (show k < 256 from hring)] at hnat
  exact Nat.ne_of_gt hpos hnat

/-! ## Slots -/

/-- The slots that so many pushes from a stack pointer write to. -/
def Slot (sp : UInt8) (count : Nat) (address : UInt16) : Prop :=
  ∃ k < count, address = stackAddress (sp - UInt8.ofNat k)

theorem Slot.mono {sp : UInt8} {j k : Nat} {address : UInt16} (h : Slot sp j address)
    (hle : j ≤ k) : Slot sp k address := by
  obtain ⟨i, hi, haddress⟩ := h
  exact ⟨i, Nat.lt_of_lt_of_le hi hle, haddress⟩

/-- The slots of later pushes are slots of all the pushes together. -/
theorem Slot.later {sp : UInt8} {j k : Nat} {address : UInt16}
    (h : Slot (sp - UInt8.ofNat j) k address) : Slot sp (j + k) address := by
  obtain ⟨i, hi, haddress⟩ := h
  exact ⟨j + i, Nat.add_lt_add_left hi j, by rw [haddress, sub_ofNat_add]⟩

/-- Pushes that fit into the page leave earlier slots alone. -/
theorem not_slot_of_earlier {sp : UInt8} {i j k : Nat} (hi : i < j) (hroom : j + k ≤ 256) :
    ¬ Slot (sp - UInt8.ofNat j) k (stackAddress (sp - UInt8.ofNat i)) := by
  rintro ⟨m, hm, haddress⟩
  rw [← sub_ofNat_add] at haddress
  have hsame : UInt8.ofNat i = UInt8.ofNat (j + m) := by
    have := stackAddress_inj haddress
    grind
  have hnat := congrArg UInt8.toNat hsame
  rw [UInt8.toNat_ofNat_of_lt' (show i < 256 by omega),
    UInt8.toNat_ofNat_of_lt' (show j + m < 256 by omega)] at hnat
  omega

/-- The slots of the stack lie in page one. -/
theorem Slot.mem_page {sp : UInt8} {count : Nat} {address : UInt16} (h : Slot sp count address) :
    0x0100 ≤ address ∧ address ≤ 0x01FF := by
  obtain ⟨k, -, rfl⟩ := h
  have hlow := (sp - UInt8.ofNat k).toNat_lt
  rw [UInt16.le_iff_toNat_le, UInt16.le_iff_toNat_le, stackAddress, UInt16.toNat_add,
    UInt8.toNat_toUInt16]
  show 256 ≤ (256 + _) % 65536 ∧ (256 + _) % 65536 ≤ 511
  omega

namespace Ram

/-- Memory after bytes were pushed from a stack pointer on. -/
def pushed (ram : Ram) (sp : UInt8) : List UInt8 → Ram
  | [] => ram
  | byte :: rest => (ram.write (stackAddress sp) byte).pushed (sp - 1) rest

theorem read_pushed_of_not_slot {ram : Ram} {sp : UInt8} {bytes : List UInt8} {address : UInt16}
    (h : ¬ Slot sp bytes.length address) :
    (ram.pushed sp bytes).read address = ram.read address := by
  induction bytes generalizing ram sp with
  | nil => rfl
  | cons byte rest ih =>
    have hhere : address ≠ stackAddress sp := fun haddress =>
      h ⟨0, Nat.succ_pos _, by rw [haddress]; congr 1; grind⟩
    have hlater : ¬ Slot (sp - 1) rest.length address := fun hslot =>
      h (by rw [List.length_cons, Nat.add_comm]; exact Slot.later hslot)
    rw [pushed, ih hlater, read_write, if_neg hhere]

theorem read_pushed {ram : Ram} {sp : UInt8} {bytes : List UInt8} (hroom : bytes.length ≤ 256)
    {k : Nat} (hk : k < bytes.length) :
    (ram.pushed sp bytes).read (stackAddress (sp - UInt8.ofNat k)) = bytes[k] := by
  induction bytes generalizing ram sp k with
  | nil => exact absurd hk (Nat.not_lt_zero k)
  | cons byte rest ih =>
    rw [List.length_cons] at hroom hk
    cases k with
    | zero =>
      have hkept : ¬ Slot (sp - 1) rest.length (stackAddress (sp - UInt8.ofNat 0)) :=
        not_slot_of_earlier (i := 0) (j := 1) (by decide) (by omega)
      have hhere : stackAddress (sp - UInt8.ofNat 0) = stackAddress sp := by congr 1; grind
      rw [pushed, read_pushed_of_not_slot hkept, read_write, if_pos hhere]
      rfl
    | succ k =>
      have hplace : sp - UInt8.ofNat (k + 1) = sp - 1 - UInt8.ofNat k := by
        rw [Nat.add_comm, sub_ofNat_add]
        rfl
      rw [hplace]
      exact ih (by omega) (by omega)

end Ram

/-! ## Pushing and pulling -/

namespace Cpu

theorem pushByte_ram (c : Cpu Ram) (value : UInt8) :
    c.pushByte value = { c with
      bus := c.bus.pushed c.regs.sp [value]
      regs := { c.regs with sp := c.regs.sp - 1 } } := by
  simp only [pushByte, write_ram]
  rfl

theorem pushWord_ram (c : Cpu Ram) (word : UInt16) :
    c.pushWord word = { c with
      bus := c.bus.pushed c.regs.sp [highByte word, lowByte word]
      regs := { c.regs with sp := c.regs.sp - 1 - 1 } } := by
  simp only [pushWord, pushByte_ram]
  rfl

theorem pullByte_ram (c : Cpu Ram) :
    c.pullByte = (c.bus.read (stackAddress (c.regs.sp + 1)),
      { c with regs := { c.regs with sp := c.regs.sp + 1 } }) := by
  simp only [pullByte, read_ram]
  rfl

theorem pullWord_ram (c : Cpu Ram) :
    c.pullWord = (wordOfBytes (c.bus.read (stackAddress (c.regs.sp + 1)))
        (c.bus.read (stackAddress (c.regs.sp + 1 + 1))),
      { c with regs := { c.regs with sp := c.regs.sp + 1 + 1 } }) := by
  simp only [pullWord, pullByte_ram]

end Cpu

/-! ## Any number of bytes -/

namespace Cpu

section

variable {β : Type} [Bus β]

/-- Pushes bytes, the first one first. -/
def pushBytes (c : Cpu β) (bytes : List UInt8) : Cpu β := bytes.foldl pushByte c

/-- Pulls so many bytes, in the order in which they come. -/
def pullBytes (c : Cpu β) : Nat → List UInt8 × Cpu β
  | 0 => ([], c)
  | count + 1 =>
    let (byte, c) := c.pullByte
    let (rest, c) := c.pullBytes count
    (byte :: rest, c)

end

/-- So many bytes from the top of the stack, the newest first. -/
def topmost (c : Cpu Ram) (count : Nat) : List UInt8 :=
  (List.range count).map fun k => c.bus.read (stackAddress (c.regs.sp + UInt8.ofNat (k + 1)))

theorem take_topmost (c : Cpu Ram) {k count : Nat} (h : k ≤ count) :
    (c.topmost count).take k = c.topmost k := by
  rw [topmost, ← List.map_take, List.take_range, Nat.min_eq_left h]
  rfl

/-- A push puts its byte on top of as many others as the ring still holds. -/
theorem topmost_pushByte (c : Cpu Ram) (byte : UInt8) {count : Nat} (h : count ≤ 256) :
    (c.pushByte byte).topmost count = (byte :: c.topmost count).take count := by
  cases count with
  | zero => rfl
  | succ count =>
    -- the byte on top lies where the stack pointer was, every other one where it has lain before
    have hread (k : Nat) :
        (c.pushByte byte).bus.read (stackAddress (c.regs.sp - 1 + UInt8.ofNat (k + 1))) =
          if stackAddress (c.regs.sp + UInt8.ofNat k) = stackAddress c.regs.sp then byte
          else c.bus.read (stackAddress (c.regs.sp + UInt8.ofNat k)) := by
      rw [sub_one_add_ofNat, pushByte_ram, Ram.pushed, Ram.pushed, Ram.read_write]
    have hnew : (c.pushByte byte).bus.read (stackAddress (c.regs.sp - 1 + UInt8.ofNat 1)) = byte :=
      (hread 0).trans (if_pos (congrArg stackAddress (UInt8.add_zero _)))
    have hold (k : Nat) (hk : k < count) :
        (c.pushByte byte).bus.read (stackAddress (c.regs.sp - 1 + UInt8.ofNat (k + 1 + 1))) =
          c.bus.read (stackAddress (c.regs.sp + UInt8.ofNat (k + 1))) :=
      (hread (k + 1)).trans (if_neg (stackAddress_add_ne _ (Nat.succ_pos k) (by omega)))
    rw [List.take_succ_cons, c.take_topmost (Nat.le_succ count), topmost,
      List.range_succ_eq_map, List.map_cons, List.map_map]
    exact List.cons_eq_cons.mpr
      ⟨hnew, List.map_congr_left fun k hk => hold k (List.mem_range.mp hk)⟩

/-- Pushes put their bytes on top of what was on the stack, the last one on top of all. What the
ring cannot hold is lost. -/
theorem topmost_pushBytes (c : Cpu Ram) (bytes : List UInt8) {count : Nat} (h : count ≤ 256) :
    (c.pushBytes bytes).topmost count = (bytes.reverse ++ c.topmost count).take count := by
  induction bytes generalizing c with
  | nil => exact (c.take_topmost (Nat.le_refl count)).symm
  | cons byte rest ih =>
    show ((c.pushByte byte).pushBytes rest).topmost count = _
    rw [ih, c.topmost_pushByte byte h, List.reverse_cons, List.append_assoc, List.singleton_append]
    simp only [List.take_append, List.take_take, Nat.min_eq_left (Nat.sub_le _ _)]

/-- The bytes lie in the slots, and apart from that only the stack pointer has changed. -/
theorem pushBytes_ram (c : Cpu Ram) (bytes : List UInt8) :
    c.pushBytes bytes = { c with
      bus := c.bus.pushed c.regs.sp bytes
      regs := { c.regs with sp := c.regs.sp - UInt8.ofNat bytes.length } } := by
  induction bytes generalizing c with
  | nil =>
    have hsp : c.regs.sp - UInt8.ofNat 0 = c.regs.sp := UInt8.sub_zero _
    rw [List.length_nil, hsp]
    rfl
  | cons byte rest ih =>
    show (c.pushByte byte).pushBytes rest = _
    rw [ih, pushByte_ram, List.length_cons, Nat.add_comm, sub_ofNat_add]
    rfl

/-- Pulling gives what is on top of the stack, and only the stack pointer changes. -/
theorem pullBytes_ram (c : Cpu Ram) (count : Nat) :
    c.pullBytes count = (c.topmost count,
      { c with regs := { c.regs with sp := c.regs.sp + UInt8.ofNat count } }) := by
  induction count generalizing c with
  | zero =>
    have hsp : c.regs.sp + UInt8.ofNat 0 = c.regs.sp := UInt8.add_zero _
    rw [hsp]
    rfl
  | succ count ih =>
    have hplace (k : Nat) : c.regs.sp + 1 + UInt8.ofNat k = c.regs.sp + UInt8.ofNat (k + 1) := by
      rw [UInt8.ofNat_add k 1]
      show _ = _ + (_ + 1)
      grind
    simp only [pullBytes, pullByte_ram, ih, topmost, hplace, List.range_succ_eq_map, List.map_cons,
      List.map_map]
    rfl

/-- Pushes do not leave the page of the stack. -/
theorem read_pushBytes_of_outside (c : Cpu Ram) (bytes : List UInt8) {address : UInt16}
    (h : address < 0x0100 ∨ 0x01FF < address) :
    (c.pushBytes bytes).bus.read address = c.bus.read address := by
  have hslot : ¬ Slot c.regs.sp bytes.length address := by
    intro hslot
    obtain ⟨hlow, hhigh⟩ := hslot.mem_page
    rcases h with h | h
    · exact absurd hlow (UInt16.not_le.mpr h)
    · exact absurd hhigh (UInt16.not_le.mpr h)
  rw [pushBytes_ram]
  exact Ram.read_pushed_of_not_slot hslot

theorem sp_pullBytes_pushBytes (c : Cpu Ram) (bytes : List UInt8) (count : Nat) :
    ((c.pushBytes bytes).pullBytes count).2.regs.sp =
      c.regs.sp - UInt8.ofNat bytes.length + UInt8.ofNat count := by
  rw [pullBytes_ram, pushBytes_ram]

/-- As many bytes as were pushed, up to the whole ring, come in the reverse order. -/
theorem pullBytes_pushBytes (c : Cpu Ram) (bytes : List UInt8) {count : Nat}
    (h : count ≤ min bytes.length 256) :
    ((c.pushBytes bytes).pullBytes count).1 = bytes.reverse.take count := by
  obtain ⟨hpushed, hring⟩ := Nat.le_min.mp h
  rw [pullBytes_ram, c.topmost_pushBytes bytes hring,
    List.take_append_of_le_length (by rwa [List.length_reverse])]

/-! ## Words -/

theorem pushWord_eq_pushBytes (c : Cpu Ram) (word : UInt16) :
    c.pushWord word = c.pushBytes [highByte word, lowByte word] := rfl

theorem exists_pullBytes_two (c : Cpu Ram) :
    ∃ low high, c.pullBytes 2 = ([low, high], c.pullWord.2) ∧
      c.pullWord.1 = wordOfBytes low high :=
  ⟨c.pullByte.1, c.pullByte.2.pullByte.1, rfl, rfl⟩

theorem pullWord_pushWord (c : Cpu Ram) (word : UInt16) :
    (c.pushWord word).pullWord = (word, (c.pushWord word).setRegister .sp c.regs.sp) := by
  obtain ⟨low, high, hpulled, hword⟩ := (c.pushWord word).exists_pullBytes_two
  have hbytes : [low, high] = [lowByte word, highByte word] :=
    (congrArg Prod.fst hpulled).symm.trans
      (c.pullBytes_pushBytes [highByte word, lowByte word] (show 2 ≤ min 2 256 by decide))
  cases hbytes
  refine Prod.ext (hword.trans (wordOfBytes_lowByte_highByte word)) ?_
  have hsp : c.regs.sp - 1 - 1 + 1 + 1 = c.regs.sp := by grind
  rw [pullWord_ram, pushWord_ram, hsp]
  rfl

/-- The high byte is pushed first. The low byte goes to the next slot, and that is the highest of
the page if the first one is the lowest. -/
theorem read_pushWord (c : Cpu Ram) (word : UInt16) :
    (c.pushWord word).bus.read (stackAddress c.regs.sp) = highByte word ∧
      (c.pushWord word).bus.read (stackAddress (c.regs.sp - 1)) = lowByte word := by
  have hread (k : Nat) (hk : k < 2) :
      (c.bus.pushed c.regs.sp [highByte word, lowByte word]).read
          (stackAddress (c.regs.sp - UInt8.ofNat k)) = [highByte word, lowByte word][k] := by
    refine Ram.read_pushed ?_ hk
    show 2 ≤ 256
    decide
  have hfirst : c.regs.sp - UInt8.ofNat 0 = c.regs.sp := UInt8.sub_zero _
  have hhigh := hread 0 (by decide)
  rw [hfirst] at hhigh
  rw [pushWord_ram]
  exact ⟨hhigh, hread 1 (by decide)⟩

end Cpu

open Cpu in
/-- The stack is a ring of 256 bytes in page one that gives back last what it was given first. Push
any number of bytes, from any stack pointer: the stack pointer has counted down by their number,
modulo 256, no address outside `0x0100` to `0x01FF` has changed, and nothing else of the processor
has. Then pull as many bytes as were pushed, or 256 if they are more: they come in the reverse
order, the stack pointer counts up again, and memory stays as it is. If no more than 256 bytes were
pushed, it is then where it was at first. A word is pushed and pulled as its two bytes, the high
byte first, wherever the two of them lie. -/
theorem stack_lifo (c : Cpu Ram) (bytes : List UInt8) :
    let full := c.pushBytes bytes
    ((full.regs.sp.toNat : Int) = ((c.regs.sp.toNat : Int) - bytes.length) % 256 ∧
      (∀ address : UInt16, address < 0x0100 ∨ 0x01FF < address →
        full.bus.read address = c.bus.read address) ∧
      full = { c with bus := full.bus }.setRegister .sp full.regs.sp) ∧
    (∀ count ≤ min bytes.length 256,
      (full.pullBytes count).1 = bytes.reverse.take count ∧
        ((full.pullBytes count).2.regs.sp.toNat : Int) =
          ((c.regs.sp.toNat : Int) - bytes.length + count) % 256 ∧
        (full.pullBytes count).2 = full.setRegister .sp (full.pullBytes count).2.regs.sp) ∧
    (bytes.length ≤ 256 → (full.pullBytes bytes.length).2.regs.sp = c.regs.sp) ∧
    ∀ word,
      c.pushWord word = c.pushBytes [highByte word, lowByte word] ∧
        (c.pushWord word).bus.read (stackAddress c.regs.sp) = highByte word ∧
        (c.pushWord word).bus.read (stackAddress (c.regs.sp - 1)) = lowByte word ∧
        (∃ low high, c.pullBytes 2 = ([low, high], c.pullWord.2) ∧
          c.pullWord.1 = wordOfBytes low high) ∧
        (c.pushWord word).pullWord = (word, (c.pushWord word).setRegister .sp c.regs.sp) := by
  intro full
  have hnumber (count : Nat) : ((full.pullBytes count).2.regs.sp.toNat : Int) =
      ((c.regs.sp.toNat : Int) - bytes.length + count) % 256 := by
    rw [c.sp_pullBytes_pushBytes, toNat_sub_add]
  refine ⟨⟨?_, fun _ => c.read_pushBytes_of_outside bytes, ?_⟩,
    fun count hcount => ⟨c.pullBytes_pushBytes bytes hcount, hnumber count, ?_⟩,
    fun _ => ?_, fun word => ?_⟩
  · simpa [pullBytes] using hnumber 0
  · simp only [full, pushBytes_ram]
    rfl
  · rw [pullBytes_ram]
    rfl
  · rw [c.sp_pullBytes_pushBytes]
    grind
  · obtain ⟨hhigh, hlow⟩ := c.read_pushWord word
    exact ⟨c.pushWord_eq_pushBytes word, hhigh, hlow, c.exists_pullBytes_two,
      c.pullWord_pushWord word⟩

open Cpu in
/-- Three hundred bytes are more than the ring holds. The newest of them come back, and the
addresses next to the page are untouched. Two bytes, pushed over the lower edge of the page, bring
the stack pointer back as well. -/
theorem stack_lifo_overfull :
    let c := (powerOn Ram.zeroed .halt).setRegister .sp 0x00
    let bytes := (List.range 300).map UInt8.ofNat
    let full := c.pushBytes bytes
    full.regs.sp = 0xD4 ∧ full.bus.read 0x00FF = 0 ∧ full.bus.read 0x0200 = 0 ∧
      3 ≤ min bytes.length 256 ∧ (full.pullBytes 3).1 = [43, 42, 41] ∧
      [(0xBE : UInt8), 0xEF].length ≤ 256 ∧
      ((c.pushBytes [0xBE, 0xEF]).pullBytes 2).2.regs.sp = 0x00 := by
  intro c bytes full
  have hlength : bytes.length = 300 := by simp [bytes]
  have hthree : 3 ≤ min bytes.length 256 := by
    rw [hlength]
    decide
  obtain ⟨⟨hsp, houtside, -⟩, hpulled, -⟩ := stack_lifo c bytes
  refine ⟨?_, (houtside 0x00FF (by decide)).trans (Ram.read_filled _ _),
    (houtside 0x0200 (by decide)).trans (Ram.read_filled _ _), hthree, ?_, by decide,
    (stack_lifo c [0xBE, 0xEF]).2.2.1 (by decide)⟩
  · rw [hlength] at hsp
    exact UInt8.toNat_inj.mp (Int.ofNat.inj hsp)
  · rw [(hpulled 3 hthree).1]
    decide +kernel

end Nes6502
