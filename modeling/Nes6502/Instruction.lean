/-!
# Instructions

The documented instruction set of the 6502: fifty-six mnemonics and thirteen addressing modes. An
`Instruction` is what one opcode means; which opcodes have a meaning is settled by the opcode
matrix. The mode alone decides how many operand bytes follow the opcode.
-/

set_option autoImplicit false

namespace Nes6502

/-- How an instruction names its operand. -/
inductive AddressingMode where
  /-- The byte after the opcode is the operand. -/
  | immediate
  /-- An address in the first page. -/
  | zeroPage
  /-- The same, plus X, wrapping within the page. -/
  | zeroPageX
  /-- The same, plus Y, wrapping within the page. -/
  | zeroPageY
  /-- A full address. -/
  | absolute
  /-- A full address plus X. -/
  | absoluteX
  /-- A full address plus Y. -/
  | absoluteY
  /-- The address of the address, used by JMP alone. -/
  | indirect
  /-- A first-page pointer at the operand plus X. -/
  | indirectX
  /-- A first-page pointer, plus Y after the look-up. -/
  | indirectY
  /-- A signed distance from the next instruction. -/
  | relative
  /-- The accumulator is the operand. -/
  | accumulator
  /-- No operand. -/
  | implied
  deriving DecidableEq, Repr

namespace AddressingMode

/-- The number of operand bytes that follow the opcode. -/
def operandBytes : AddressingMode → Nat
  | .accumulator | .implied => 0
  | .absolute | .absoluteX | .absoluteY | .indirect => 2
  | _ => 1

end AddressingMode

/-- The name of an instruction, independent of its addressing mode. -/
inductive Mnemonic where
  | adc | and | asl | bcc | bcs | beq | bit | bmi
  | bne | bpl | brk | bvc | bvs | clc | cld | cli
  | clv | cmp | cpx | cpy | dec | dex | dey | eor
  | inc | inx | iny | jmp | jsr | lda | ldx | ldy
  | lsr | nop | ora | pha | php | pla | plp | rol
  | ror | rti | rts | sbc | sec | sed | sei | sta
  | stx | sty | tax | tay | tsx | txa | txs | tya
  deriving DecidableEq, Repr

namespace Mnemonic

/-- The three letters of a mnemonic. -/
def letters : Mnemonic → List Char
  | .adc => ['A', 'D', 'C']
  | .and => ['A', 'N', 'D']
  | .asl => ['A', 'S', 'L']
  | .bcc => ['B', 'C', 'C']
  | .bcs => ['B', 'C', 'S']
  | .beq => ['B', 'E', 'Q']
  | .bit => ['B', 'I', 'T']
  | .bmi => ['B', 'M', 'I']
  | .bne => ['B', 'N', 'E']
  | .bpl => ['B', 'P', 'L']
  | .brk => ['B', 'R', 'K']
  | .bvc => ['B', 'V', 'C']
  | .bvs => ['B', 'V', 'S']
  | .clc => ['C', 'L', 'C']
  | .cld => ['C', 'L', 'D']
  | .cli => ['C', 'L', 'I']
  | .clv => ['C', 'L', 'V']
  | .cmp => ['C', 'M', 'P']
  | .cpx => ['C', 'P', 'X']
  | .cpy => ['C', 'P', 'Y']
  | .dec => ['D', 'E', 'C']
  | .dex => ['D', 'E', 'X']
  | .dey => ['D', 'E', 'Y']
  | .eor => ['E', 'O', 'R']
  | .inc => ['I', 'N', 'C']
  | .inx => ['I', 'N', 'X']
  | .iny => ['I', 'N', 'Y']
  | .jmp => ['J', 'M', 'P']
  | .jsr => ['J', 'S', 'R']
  | .lda => ['L', 'D', 'A']
  | .ldx => ['L', 'D', 'X']
  | .ldy => ['L', 'D', 'Y']
  | .lsr => ['L', 'S', 'R']
  | .nop => ['N', 'O', 'P']
  | .ora => ['O', 'R', 'A']
  | .pha => ['P', 'H', 'A']
  | .php => ['P', 'H', 'P']
  | .pla => ['P', 'L', 'A']
  | .plp => ['P', 'L', 'P']
  | .rol => ['R', 'O', 'L']
  | .ror => ['R', 'O', 'R']
  | .rti => ['R', 'T', 'I']
  | .rts => ['R', 'T', 'S']
  | .sbc => ['S', 'B', 'C']
  | .sec => ['S', 'E', 'C']
  | .sed => ['S', 'E', 'D']
  | .sei => ['S', 'E', 'I']
  | .sta => ['S', 'T', 'A']
  | .stx => ['S', 'T', 'X']
  | .sty => ['S', 'T', 'Y']
  | .tax => ['T', 'A', 'X']
  | .tay => ['T', 'A', 'Y']
  | .tsx => ['T', 'S', 'X']
  | .txa => ['T', 'X', 'A']
  | .txs => ['T', 'X', 'S']
  | .tya => ['T', 'Y', 'A']

end Mnemonic

/-- What one opcode means. -/
structure Instruction where
  opcode : UInt8
  mnemonic : Mnemonic
  mode : AddressingMode
  /-- The cycles it always takes, before the penalties for crossed pages and taken branches. -/
  baseCycles : Nat
  /-- Whether indexing across a page boundary takes one cycle more. -/
  pagePenalty : Bool
  deriving DecidableEq, Repr

namespace Instruction

/-- The length in bytes, opcode included. -/
def length (i : Instruction) : Nat := 1 + i.mode.operandBytes

end Instruction

end Nes6502
