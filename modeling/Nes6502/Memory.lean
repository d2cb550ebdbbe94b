import Nes6502.Bus

/-!
# Plain memory

`Cells d` is a perfect binary tree with a byte for each address of `d` bits; the lowest bit of an
address chooses the half. A write rebuilds the sixteen nodes on one path and shares all others, so
an earlier state of the memory stays available at no cost, and zeroed memory is seventeen nodes.
Since the shape is fixed, two memories that read the same everywhere are equal.

`Ram` is such a tree of depth sixteen: flat memory, with a cell of its own for each address. The
view of a memory is `Ram.read`; `Ram.read_write` says what a write does to it.
-/

set_option autoImplicit false

namespace Nes6502

/-- One byte for each address of `depth` bits. -/
inductive Cells : Nat → Type where
  | byte (value : UInt8) : Cells 0
  /-- The bytes at even addresses and the bytes at odd ones. -/
  | fork {depth : Nat} (even odd : Cells depth) : Cells (depth + 1)

namespace Cells

/-- The number of addresses of `depth` bits. -/
def count : (depth : Nat) → Nat
  | 0 => 1
  | depth + 1 => 2 * count depth

/-- The same byte everywhere. -/
def fill (value : UInt8) : (depth : Nat) → Cells depth
  | 0 => .byte value
  | depth + 1 => let half := fill value depth; .fork half half

/-- The byte at an address. -/
def get {depth : Nat} : Cells depth → Nat → UInt8
  | .byte value, _ => value
  | .fork even odd, address =>
    if address % 2 = 0 then even.get (address / 2) else odd.get (address / 2)

/-- The same bytes but one. -/
def set {depth : Nat} : Cells depth → Nat → UInt8 → Cells depth
  | .byte _, _, value => .byte value
  | .fork even odd, address, value =>
    if address % 2 = 0 then .fork (even.set (address / 2) value) odd
    else .fork even (odd.set (address / 2) value)

@[simp] theorem get_fill (value : UInt8) (depth address : Nat) :
    (fill value depth).get address = value := by
  induction depth generalizing address with
  | zero => rfl
  | succ depth ih => simp [fill, get, ih]

theorem get_set_self {depth : Nat} (cells : Cells depth) (address : Nat) (value : UInt8) :
    (cells.set address value).get address = value := by
  induction cells generalizing address with
  | byte => rfl
  | fork even odd ihEven ihOdd =>
    by_cases h : address % 2 = 0 <;> simp [set, get, h, ihEven, ihOdd]

theorem get_set_of_ne {depth : Nat} (cells : Cells depth) {address other : Nat} (value : UInt8)
    (hAddress : address < count depth) (hOther : other < count depth) (h : other ≠ address) :
    (cells.set address value).get other = cells.get other := by
  induction cells generalizing address other with
  | byte =>
    simp only [count] at hAddress hOther
    omega
  | fork even odd ihEven ihOdd =>
    rw [count] at hAddress hOther
    by_cases ha : address % 2 = 0 <;> by_cases ho : other % 2 = 0
    · simp [set, get, ha, ho, ihEven (by omega) (by omega) (show other / 2 ≠ address / 2 by omega)]
    · simp [set, get, ha, ho]
    · simp [set, get, ha, ho]
    · simp [set, get, ha, ho, ihOdd (by omega) (by omega) (show other / 2 ≠ address / 2 by omega)]

/-- Cells that read the same everywhere are the same. -/
theorem ext_get {depth : Nat} (a b : Cells depth)
    (h : ∀ address < count depth, a.get address = b.get address) : a = b := by
  induction a with
  | byte value =>
    cases b with
    | byte other => exact congrArg byte (h 0 (by decide))
  | @fork depth even odd ihEven ihOdd =>
    cases b with
    | fork even' odd' =>
      have hEven : even = even' := ihEven even' fun k hk => by
        have := h (2 * k) (by rw [count]; omega)
        simpa [get] using this
      have hOdd : odd = odd' := ihOdd odd' fun k hk => by
        have := h (2 * k + 1) (by rw [count]; omega)
        simpa [get, show (2 * k + 1) % 2 = 1 by omega, show (2 * k + 1) / 2 = k by omega] using this
      rw [hEven, hOdd]

end Cells

/-- Sixty-four kibibytes of memory. -/
structure Ram where
  cells : Cells 16

namespace Ram

/-- Memory that holds one value at every address. -/
def filled (value : UInt8) : Ram := ⟨.fill value 16⟩

/-- Memory at power-on. -/
def zeroed : Ram := filled 0

def read (ram : Ram) (address : UInt16) : UInt8 := ram.cells.get address.toNat

def write (ram : Ram) (address : UInt16) (value : UInt8) : Ram :=
  ⟨ram.cells.set address.toNat value⟩

/-- Writes bytes to consecutive addresses, from `start` on and past the end of memory to its
beginning. -/
def load (ram : Ram) (start : UInt16) : List UInt8 → Ram
  | [] => ram
  | byte :: rest => (ram.write start byte).load (start + 1) rest

/-- The bytes from an address given as a number, up to the end of memory. -/
def slice (ram : Ram) (start length : Nat) : List UInt8 :=
  (List.range length).map fun i => ram.cells.get (start + i)

@[simp] theorem read_filled (value : UInt8) (address : UInt16) :
    (filled value).read address = value := by
  simp [filled, read]

theorem toNat_lt_count (address : UInt16) : address.toNat < Cells.count 16 := address.toNat_lt

/-- A write changes the byte at its address and no other. -/
@[simp] theorem read_write (ram : Ram) (address other : UInt16) (value : UInt8) :
    (ram.write address value).read other = if other = address then value else ram.read other := by
  by_cases h : other = address
  · subst h
    simp [read, write, Cells.get_set_self]
  · have hne : other.toNat ≠ address.toNat := fun e => h (UInt16.toNat_inj.mp e)
    simp [read, write, h,
      Cells.get_set_of_ne _ value (toNat_lt_count address) (toNat_lt_count other) hne]

/-- Memories that read the same at every address are the same. -/
theorem ext_read {a b : Ram} (h : ∀ address, a.read address = b.read address) : a = b := by
  cases a with
  | mk cells =>
    cases b with
    | mk cells' =>
      have hcells : cells = cells' := Cells.ext_get cells cells' fun address hlt => by
        have hread :
            cells.get (UInt16.ofNat address).toNat = cells'.get (UInt16.ofNat address).toNat :=
          h (UInt16.ofNat address)
        rwa [UInt16.toNat_ofNat_of_lt' hlt] at hread
      rw [hcells]

end Ram

/-- Memory as a bus: no access has an effect of its own, and none asks to halt. -/
instance : Bus Ram where
  readByte address := fun ram => ⟨ram.read address, ram, false⟩
  writeByte address value := fun ram => ⟨(), ram.write address value, false⟩

end Nes6502
