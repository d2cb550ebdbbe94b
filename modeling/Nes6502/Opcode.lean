import Nes6502.Instruction

/-!
# The opcode matrix

The sixteen by sixteen matrix of opcodes, as it is printed on a data sheet: the high digit of an
opcode selects the row and the low digit the column. A cell is empty where the processor has no
documented instruction, and `decode` says so instead of guessing.
-/

set_option autoImplicit false

namespace Nes6502

namespace Opcode

/-- A cell of the matrix: mnemonic, mode, cycles, and whether a crossed page costs a cycle. -/
structure Cell where
  mnemonic : Mnemonic
  mode : AddressingMode
  baseCycles : Nat
  pagePenalty : Bool

/-- A cell whose time does not depend on page boundaries. -/
def plain (mnemonic : Mnemonic) (mode : AddressingMode) (cycles : Nat) : Option Cell :=
  some ⟨mnemonic, mode, cycles, false⟩

/-- A cell that takes one cycle more when indexing crosses a page boundary. -/
def paged (mnemonic : Mnemonic) (mode : AddressingMode) (cycles : Nat) : Option Cell :=
  some ⟨mnemonic, mode, cycles, true⟩

/-- The rows of the matrix, by the high digit of the opcode. -/
def row : Nat → List (Option Cell)
  | 0 =>
    [ plain .brk .implied 7, plain .ora .indirectX 6, none, none, none, plain .ora .zeroPage 3,
      plain .asl .zeroPage 5, none, plain .php .implied 3, plain .ora .immediate 2,
      plain .asl .accumulator 2, none, none, plain .ora .absolute 4, plain .asl .absolute 6,
      none]
  | 1 =>
    [ plain .bpl .relative 2, paged .ora .indirectY 5, none, none, none, plain .ora .zeroPageX 4,
      plain .asl .zeroPageX 6, none, plain .clc .implied 2, paged .ora .absoluteY 4, none, none,
      none, paged .ora .absoluteX 4, plain .asl .absoluteX 7, none]
  | 2 =>
    [ plain .jsr .absolute 6, plain .and .indirectX 6, none, none, plain .bit .zeroPage 3,
      plain .and .zeroPage 3, plain .rol .zeroPage 5, none, plain .plp .implied 4,
      plain .and .immediate 2, plain .rol .accumulator 2, none, plain .bit .absolute 4,
      plain .and .absolute 4, plain .rol .absolute 6, none]
  | 3 =>
    [ plain .bmi .relative 2, paged .and .indirectY 5, none, none, none, plain .and .zeroPageX 4,
      plain .rol .zeroPageX 6, none, plain .sec .implied 2, paged .and .absoluteY 4, none, none,
      none, paged .and .absoluteX 4, plain .rol .absoluteX 7, none]
  | 4 =>
    [ plain .rti .implied 6, plain .eor .indirectX 6, none, none, none, plain .eor .zeroPage 3,
      plain .lsr .zeroPage 5, none, plain .pha .implied 3, plain .eor .immediate 2,
      plain .lsr .accumulator 2, none, plain .jmp .absolute 3, plain .eor .absolute 4,
      plain .lsr .absolute 6, none]
  | 5 =>
    [ plain .bvc .relative 2, paged .eor .indirectY 5, none, none, none, plain .eor .zeroPageX 4,
      plain .lsr .zeroPageX 6, none, plain .cli .implied 2, paged .eor .absoluteY 4, none, none,
      none, paged .eor .absoluteX 4, plain .lsr .absoluteX 7, none]
  | 6 =>
    [ plain .rts .implied 6, plain .adc .indirectX 6, none, none, none, plain .adc .zeroPage 3,
      plain .ror .zeroPage 5, none, plain .pla .implied 4, plain .adc .immediate 2,
      plain .ror .accumulator 2, none, plain .jmp .indirect 5, plain .adc .absolute 4,
      plain .ror .absolute 6, none]
  | 7 =>
    [ plain .bvs .relative 2, paged .adc .indirectY 5, none, none, none, plain .adc .zeroPageX 4,
      plain .ror .zeroPageX 6, none, plain .sei .implied 2, paged .adc .absoluteY 4, none, none,
      none, paged .adc .absoluteX 4, plain .ror .absoluteX 7, none]
  | 8 =>
    [ none, plain .sta .indirectX 6, none, none, plain .sty .zeroPage 3, plain .sta .zeroPage 3,
      plain .stx .zeroPage 3, none, plain .dey .implied 2, none, plain .txa .implied 2, none,
      plain .sty .absolute 4, plain .sta .absolute 4, plain .stx .absolute 4, none]
  | 9 =>
    [ plain .bcc .relative 2, plain .sta .indirectY 6, none, none, plain .sty .zeroPageX 4,
      plain .sta .zeroPageX 4, plain .stx .zeroPageY 4, none, plain .tya .implied 2,
      plain .sta .absoluteY 5, plain .txs .implied 2, none, none, plain .sta .absoluteX 5, none,
      none]
  | 10 =>
    [ plain .ldy .immediate 2, plain .lda .indirectX 6, plain .ldx .immediate 2, none,
      plain .ldy .zeroPage 3, plain .lda .zeroPage 3, plain .ldx .zeroPage 3, none,
      plain .tay .implied 2, plain .lda .immediate 2, plain .tax .implied 2, none,
      plain .ldy .absolute 4, plain .lda .absolute 4, plain .ldx .absolute 4, none]
  | 11 =>
    [ plain .bcs .relative 2, paged .lda .indirectY 5, none, none, plain .ldy .zeroPageX 4,
      plain .lda .zeroPageX 4, plain .ldx .zeroPageY 4, none, plain .clv .implied 2,
      paged .lda .absoluteY 4, plain .tsx .implied 2, none, paged .ldy .absoluteX 4,
      paged .lda .absoluteX 4, paged .ldx .absoluteY 4, none]
  | 12 =>
    [ plain .cpy .immediate 2, plain .cmp .indirectX 6, none, none, plain .cpy .zeroPage 3,
      plain .cmp .zeroPage 3, plain .dec .zeroPage 5, none, plain .iny .implied 2,
      plain .cmp .immediate 2, plain .dex .implied 2, none, plain .cpy .absolute 4,
      plain .cmp .absolute 4, plain .dec .absolute 6, none]
  | 13 =>
    [ plain .bne .relative 2, paged .cmp .indirectY 5, none, none, none, plain .cmp .zeroPageX 4,
      plain .dec .zeroPageX 6, none, plain .cld .implied 2, paged .cmp .absoluteY 4, none, none,
      none, paged .cmp .absoluteX 4, plain .dec .absoluteX 7, none]
  | 14 =>
    [ plain .cpx .immediate 2, plain .sbc .indirectX 6, none, none, plain .cpx .zeroPage 3,
      plain .sbc .zeroPage 3, plain .inc .zeroPage 5, none, plain .inx .implied 2,
      plain .sbc .immediate 2, plain .nop .implied 2, none, plain .cpx .absolute 4,
      plain .sbc .absolute 4, plain .inc .absolute 6, none]
  | 15 =>
    [ plain .beq .relative 2, paged .sbc .indirectY 5, none, none, none, plain .sbc .zeroPageX 4,
      plain .inc .zeroPageX 6, none, plain .sed .implied 2, paged .sbc .absoluteY 4, none, none,
      none, paged .sbc .absoluteX 4, plain .inc .absoluteX 7, none]
  | _ => []

/-- The cell of an opcode. -/
def cell (opcode : UInt8) : Option Cell :=
  ((row (opcode.toNat / 16))[opcode.toNat % 16]?).join

end Opcode

/-- The instruction of an opcode, if it is a documented one. -/
def decode (opcode : UInt8) : Option Instruction :=
  (Opcode.cell opcode).map fun c => ⟨opcode, c.mnemonic, c.mode, c.baseCycles, c.pagePenalty⟩

/-- What can be checked of each opcode in turn holds of every documented instruction. -/
theorem of_decode {P : Instruction → Prop} (hmatrix : ∀ bits : BitVec 8, ∀ i ∈ decode ⟨bits⟩, P i)
    {opcode : UInt8} {i : Instruction} (hdecode : decode opcode = some i) : P i :=
  hmatrix opcode.toBitVec i hdecode

end Nes6502
