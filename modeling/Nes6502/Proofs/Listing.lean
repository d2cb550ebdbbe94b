import Nes6502.Listing
import Nes6502.Memory

/-!
# Listings of memory

On plain memory a listing is a walk: each entry begins where the one before it ends, modulo
`2 ^ 16`. How far a walk of so many entries comes is its `span`.

## What is proved

* `Listing.entryAt_of_looks`, `Listing.peekBytes_of_looks`: what is looked at to list an entry and
  to show its bytes, on any bus that answers as memory does.
* `Listing.entryAt_ram`: an entry is settled by three bytes, and looking at them changes nothing.
* `Listing.disassemble_ram`: a listing is the walk, and making it changes nothing either.
* `Listing.getElem?_walk`: the entries of a walk, by their place.
* `Listing.walk_add`: a walk goes on where a shorter one has ended.
* `Listing.entryIn_of_covered`: where the bytes are the same that a walk covers, so are its entries.
-/

set_option autoImplicit false

namespace Nes6502

/-- A transaction that does not ask to halt hands its value and the bus on. -/
theorem Transaction.bind_of_quiet {β α γ : Type} {t : Transaction β α} {bus last : β} {value : α}
    (h : t bus = ⟨value, last, false⟩) (next : α → Transaction β γ) :
    (t >>= next) bus = next value last := by
  show (t bus).andThen next = _
  rw [h]
  rfl

/-- The bytes at consecutive addresses, past the end of memory from its beginning on. -/
def Ram.bytesFrom (ram : Ram) (start : UInt16) (count : Nat) : List UInt8 :=
  (List.range count).map fun k => ram.read (start + UInt16.ofNat k)

namespace Ram

@[simp] theorem length_bytesFrom (ram : Ram) (start : UInt16) (count : Nat) :
    (ram.bytesFrom start count).length = count := by
  simp [bytesFrom]

theorem bytesFrom_add (ram : Ram) (start : UInt16) (m n : Nat) :
    ram.bytesFrom start (m + n) =
      ram.bytesFrom start m ++ ram.bytesFrom (start + UInt16.ofNat m) n := by
  simp only [bytesFrom, List.range_add, List.map_append, List.map_map]
  congr 1
  refine List.map_congr_left fun k _ => ?_
  rw [Function.comp_apply, UInt16.ofNat_add, UInt16.add_assoc]

theorem bytesFrom_succ (ram : Ram) (start : UInt16) (count : Nat) :
    ram.bytesFrom start (count + 1) = ram.read start :: ram.bytesFrom (start + 1) count := by
  have hfirst : ram.bytesFrom start 1 = [ram.read start] :=
    congrArg (fun address => [ram.read address]) (UInt16.add_zero start)
  rw [Nat.add_comm, bytesFrom_add, hfirst]
  rfl

end Ram

namespace Listing

/-! ## Single entries -/

/-- The entry that three bytes make. -/
def entryOf (address : UInt16) (opcode low high : UInt8) : Entry :=
  match decode opcode with
  | none => ⟨dataText opcode, 1⟩
  | some i => ⟨i.mnemonic.letters ++ operandText i.mode address low high, i.length⟩

/-- An operand is written from as many bytes as it has. -/
theorem operandText_congr (mode : AddressingMode) (address : UInt16) {low high low' high' : UInt8}
    (hlow : 0 < mode.operandBytes → low = low') (hhigh : 1 < mode.operandBytes → high = high') :
    operandText mode address low high = operandText mode address low' high' := by
  cases mode with
  | implied | accumulator => rfl
  | absolute | absoluteX | absoluteY | indirect =>
    rw [hlow Nat.zero_lt_two, hhigh Nat.one_lt_two]
  | _ =>
    rw [hlow Nat.one_pos]
    rfl

/-- From an address on, a bus answers peeks with the bytes of a memory; `after k` is the bus after
`k` of them. -/
def Looks {β : Type} [Bus β] (ram : Ram) (address : UInt16) (count : Nat) (after : Nat → β) :
    Prop :=
  ∀ k < count, (Bus.peekByte (address + UInt16.ofNat k) : Transaction β UInt8) (after k) =
    ⟨ram.read (address + UInt16.ofNat k), after (k + 1), false⟩

theorem looks_ram (ram : Ram) (address : UInt16) (count : Nat) :
    Looks ram address count fun _ => ram :=
  fun _ _ => rfl

section

variable {β : Type} [Bus β] {ram : Ram} {address : UInt16} {after : Nat → β}

theorem Looks.first {count : Nat} (h : Looks ram address count after) (hpos : 0 < count) :
    (Bus.peekByte address : Transaction β UInt8) (after 0) =
      ⟨ram.read address, after 1, false⟩ := by
  have hlook := h 0 hpos
  rwa [show address + UInt16.ofNat 0 = address from UInt16.add_zero address] at hlook

theorem Looks.rest {count : Nat} (h : Looks ram address (count + 1) after) :
    Looks ram (address + 1) count fun k => after (k + 1) := fun k hk => by
  have hlook := h (k + 1) (Nat.succ_lt_succ hk)
  rwa [Nat.add_comm k 1, UInt16.ofNat_add, ← UInt16.add_assoc, Nat.add_comm 1 k] at hlook

/-- As many bytes are looked at as the entry is long. -/
theorem entryAt_of_looks (h : Looks ram address 3 after) :
    let entry :=
      entryOf address (ram.read address) (ram.read (address + 1)) (ram.read (address + 2))
    entryAt address (after 0) = ⟨entry, after entry.length, false⟩ := by
  intro entry
  have hsecond : (Bus.peekByte (address + 1) : Transaction β UInt8) (after 1) =
      ⟨ram.read (address + 1), after 2, false⟩ := h 1 (by decide)
  have hthird : (Bus.peekByte (address + 2) : Transaction β UInt8) (after 2) =
      ⟨ram.read (address + 2), after 3, false⟩ := h 2 (by decide)
  rw [entryAt, Transaction.bind_of_quiet (h.first (by decide))]
  cases hdecode : decode (ram.read address) with
  | none =>
    simp only [entry, entryOf, hdecode]
    rfl
  | some i =>
    -- bytes that are no operands are not looked at
    have htext : operandText i.mode address
          (if i.length > 1 then ram.read (address + 1) else 0)
          (if i.length > 2 then ram.read (address + 2) else 0) =
        operandText i.mode address (ram.read (address + 1)) (ram.read (address + 2)) :=
      operandText_congr i.mode address (fun h => if_pos (Nat.lt_add_of_pos_right h))
        (fun h => if_pos (by rw [Instruction.length]; omega))
    have hlength : i.length = 1 ∨ i.length = 2 ∨ i.length = 3 := by
      rw [Instruction.length]
      cases i.mode <;> decide
    simp only [entry, entryOf, hdecode, ← htext]
    rcases hlength with hlength | hlength | hlength
    · simp only [hlength, if_neg (show ¬ 1 > 1 by decide), if_neg (show ¬ 1 > 2 by decide)]
      rfl
    · simp only [hlength, if_pos (show 2 > 1 by decide), if_neg (show ¬ 2 > 2 by decide)]
      rw [Transaction.bind_of_quiet hsecond]
      rfl
    · simp only [hlength, if_pos (show 3 > 1 by decide), if_pos (show 3 > 2 by decide)]
      rw [Transaction.bind_of_quiet hsecond, Transaction.bind_of_quiet hthird]
      rfl

theorem peekBytes_of_looks {count : Nat} (h : Looks ram address count after) :
    peekBytes address count (after 0) = ⟨ram.bytesFrom address count, after count, false⟩ := by
  induction count generalizing address after with
  | zero => rfl
  | succ count ih =>
    rw [peekBytes, Transaction.bind_of_quiet (h.first (Nat.zero_lt_succ count)),
      Transaction.bind_of_quiet (ih h.rest), Ram.bytesFrom_succ]
    rfl

end

theorem entryAt_ram (ram : Ram) (address : UInt16) :
    entryAt address ram =
      ⟨entryOf address (ram.read address) (ram.read (address + 1)) (ram.read (address + 2)), ram,
        false⟩ := by
  have hentry := entryAt_of_looks (looks_ram ram address 3)
  exact hentry

theorem peekBytes_ram (ram : Ram) (address : UInt16) (count : Nat) :
    peekBytes address count ram = ⟨ram.bytesFrom address count, ram, false⟩ :=
  peekBytes_of_looks (looks_ram ram address count)

/-- The entry of the instruction at an address of memory. -/
def entryIn (ram : Ram) (address : UInt16) : Entry := (entryAt address ram).value

theorem entryIn_eq (ram : Ram) (address : UInt16) :
    entryIn ram address =
      entryOf address (ram.read address) (ram.read (address + 1)) (ram.read (address + 2)) := by
  rw [entryIn, entryAt_ram]

theorem length_entryIn_pos (ram : Ram) (address : UInt16) : 0 < (entryIn ram address).length := by
  rw [entryIn_eq]
  simp only [entryOf]
  split
  · exact Nat.one_pos
  · exact Nat.add_pos_left Nat.one_pos _

theorem length_entryIn_le (ram : Ram) (address : UInt16) : (entryIn ram address).length ≤ 3 := by
  rw [entryIn_eq]
  simp only [entryOf]
  split
  · exact Nat.le_add_left 1 2
  next i _ =>
    show 1 + i.mode.operandBytes ≤ 3
    cases i.mode <;> decide

/-- An entry is settled by the bytes that it occupies. -/
theorem entryIn_congr {ram other : Ram} {address : UInt16}
    (h : ∀ k < (entryIn ram address).length,
      other.read (address + UInt16.ofNat k) = ram.read (address + UInt16.ofNat k)) :
    entryIn other address = entryIn ram address := by
  have hopcode : other.read address = ram.read address := by
    have hfirst := h 0 (length_entryIn_pos ram address)
    rwa [show address + UInt16.ofNat 0 = address from UInt16.add_zero address] at hfirst
  rw [entryIn_eq] at h
  rw [entryIn_eq, entryIn_eq]
  simp only [entryOf, hopcode] at h ⊢
  cases hdecode : decode (ram.read address) with
  | none => rfl
  | some i =>
    simp only [hdecode] at h ⊢
    have htext := operandText_congr i.mode address
      (fun hbytes => h 1 (Nat.lt_add_of_pos_right hbytes))
      (fun hbytes => h 2 (by rw [Instruction.length]; omega))
    exact congrArg (fun text => Entry.mk (i.mnemonic.letters ++ text) i.length) htext

/-! ## Walks -/

/-- The listing of so many instructions in memory. -/
def walk (ram : Ram) (start : UInt16) : (count : Nat) → List (UInt16 × List Char)
  | 0 => []
  | count + 1 =>
    let entry := entryIn ram start
    (start, entry.text) :: walk ram (start + UInt16.ofNat entry.length) count

/-- The number of bytes that a listing covers. -/
def span (ram : Ram) (start : UInt16) : (count : Nat) → Nat
  | 0 => 0
  | count + 1 =>
    let length := (entryIn ram start).length
    length + span ram (start + UInt16.ofNat length) count

/-- The address that a listing reaches. -/
def reached (ram : Ram) (start : UInt16) (count : Nat) : UInt16 :=
  start + UInt16.ofNat (span ram start count)

theorem disassemble_ram (ram : Ram) (start : UInt16) (count : Nat) :
    disassemble start count ram = ⟨walk ram start count, ram, false⟩ := by
  induction count generalizing start with
  | zero => rfl
  | succ count ih =>
    have hentry : entryAt start ram = ⟨entryIn ram start, ram, false⟩ := by
      rw [entryAt_ram, entryIn_eq]
    rw [disassemble, Transaction.bind_of_quiet hentry, Transaction.bind_of_quiet (ih _)]
    rfl

theorem length_walk (ram : Ram) (start : UInt16) (count : Nat) :
    (walk ram start count).length = count := by
  induction count generalizing start with
  | zero => rfl
  | succ count ih => rw [walk, List.length_cons, ih]

theorem reached_zero (ram : Ram) (start : UInt16) : reached ram start 0 = start :=
  UInt16.add_zero start

theorem reached_succ' (ram : Ram) (start : UInt16) (count : Nat) :
    reached ram start (count + 1) =
      reached ram (start + UInt16.ofNat (entryIn ram start).length) count := by
  simp only [reached, span, UInt16.ofNat_add, UInt16.add_assoc]

/-- A longer walk goes on where a shorter one has ended. -/
theorem span_add (ram : Ram) (start : UInt16) (m n : Nat) :
    span ram start (m + n) = span ram start m + span ram (reached ram start m) n := by
  induction m generalizing start with
  | zero => rw [Nat.zero_add, reached_zero, span, Nat.zero_add]
  | succ m ih => rw [Nat.succ_add, span, span, reached_succ', ih, Nat.add_assoc]

theorem walk_add (ram : Ram) (start : UInt16) (m n : Nat) :
    walk ram start (m + n) = walk ram start m ++ walk ram (reached ram start m) n := by
  induction m generalizing start with
  | zero => rw [Nat.zero_add, reached_zero, walk, List.nil_append]
  | succ m ih => rw [Nat.succ_add, walk, walk, reached_succ', ih, List.cons_append]

/-- The next entry begins where the last one ends. -/
theorem reached_succ (ram : Ram) (start : UInt16) (count : Nat) :
    reached ram start (count + 1) =
      reached ram start count +
        UInt16.ofNat (entryIn ram (reached ram start count)).length := by
  rw [reached, span_add, UInt16.ofNat_add, ← UInt16.add_assoc]
  rfl

theorem span_le {ram : Ram} {start : UInt16} {m n : Nat} (h : m ≤ n) :
    span ram start m ≤ span ram start n := by
  obtain ⟨more, rfl⟩ := Nat.exists_eq_add_of_le h
  rw [span_add]
  exact Nat.le_add_right _ _

/-- Where the bytes that a listing covers are the same, so are its entries. -/
theorem entryIn_of_covered {ram other : Ram} {start : UInt16} {k count : Nat} (h : k < count)
    (hsame : ∀ j < span ram start count,
      other.read (start + UInt16.ofNat j) = ram.read (start + UInt16.ofNat j)) :
    entryIn other (reached ram start k) = entryIn ram (reached ram start k) := by
  refine entryIn_congr fun j hj => ?_
  have hcovered : span ram start k + j < span ram start count := by
    have hnext : span ram start (k + 1) =
        span ram start k + ((entryIn ram (reached ram start k)).length + 0) := span_add ..
    have hmost : span ram start (k + 1) ≤ span ram start count := span_le h
    omega
  have hread := hsame _ hcovered
  rwa [UInt16.ofNat_add, ← UInt16.add_assoc] at hread

/-- The entries of a walk, by their place. -/
theorem getElem?_walk (ram : Ram) (start : UInt16) {k count : Nat} (h : k < count) :
    (walk ram start count)[k]? =
      some (reached ram start k, (entryIn ram (reached ram start k)).text) := by
  obtain ⟨rest, rfl⟩ := Nat.exists_eq_add_of_lt h
  rw [Nat.add_assoc, walk_add, List.getElem?_append_right (Nat.le_of_eq (length_walk ..)),
    length_walk, Nat.sub_self]
  rfl

end Listing

end Nes6502
