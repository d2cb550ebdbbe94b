import Nes6502.Alu
import Nes6502.Instruction

/-!
# What mnemonics do

The fifty-six mnemonics fall into a few kinds. An `Action` is such a kind with its parameters: which
register is loaded, which flag a branch consults, which operation the arithmetic unit performs.
`Mnemonic.action` is the only place where a mnemonic gets its meaning.
-/

set_option autoImplicit false

namespace Nes6502

/-- The byte registers that instructions name. -/
inductive Register where
  | a
  | x
  | y
  | sp
  deriving DecidableEq, Repr

/-- What an instruction does once its operand is known. -/
inductive Action where
  /-- Operand to register. -/
  | load (destination : Register)
  /-- Register to operand. -/
  | store (source : Register)
  /-- Accumulator and operand to accumulator. -/
  | combine (op : Combination)
  /-- Flags from register and operand. -/
  | compare (register : Register)
  /-- Flags from accumulator and operand, bit by bit. -/
  | testBits
  /-- Operand to operand. -/
  | modify (op : Modification)
  /-- Register to itself, one more or one less. -/
  | count (register : Register) (op : Modification)
  /-- Register to register. -/
  | transfer (source destination : Register)
  /-- Constant to flag. -/
  | assign (flag : Flag) (value : Bool)
  /-- Jump by the operand if the flag has the value. -/
  | branch (flag : Flag) (value : Bool)
  | jump
  | call
  | returnFromCall
  | softwareInterrupt
  | returnFromInterrupt
  | pushAccumulator
  | pullAccumulator
  | pushStatus
  | pullStatus
  | nothing
  deriving DecidableEq, Repr

/-- The meaning of a mnemonic. -/
def Mnemonic.action : Mnemonic → Action
  | .lda => .load .a
  | .ldx => .load .x
  | .ldy => .load .y
  | .sta => .store .a
  | .stx => .store .x
  | .sty => .store .y
  | .adc => .combine .add
  | .sbc => .combine .subtract
  | .and => .combine .and
  | .ora => .combine .or
  | .eor => .combine .xor
  | .cmp => .compare .a
  | .cpx => .compare .x
  | .cpy => .compare .y
  | .bit => .testBits
  | .asl => .modify .shiftLeft
  | .lsr => .modify .shiftRight
  | .rol => .modify .rotateLeft
  | .ror => .modify .rotateRight
  | .inc => .modify .increment
  | .dec => .modify .decrement
  | .inx => .count .x .increment
  | .dex => .count .x .decrement
  | .iny => .count .y .increment
  | .dey => .count .y .decrement
  | .tax => .transfer .a .x
  | .tay => .transfer .a .y
  | .txa => .transfer .x .a
  | .tya => .transfer .y .a
  | .txs => .transfer .x .sp
  | .tsx => .transfer .sp .x
  | .clc => .assign .carry false
  | .sec => .assign .carry true
  | .cli => .assign .interruptDisable false
  | .sei => .assign .interruptDisable true
  | .clv => .assign .overflow false
  | .cld => .assign .decimal false
  | .sed => .assign .decimal true
  | .bpl => .branch .negative false
  | .bmi => .branch .negative true
  | .bvc => .branch .overflow false
  | .bvs => .branch .overflow true
  | .bcc => .branch .carry false
  | .bcs => .branch .carry true
  | .bne => .branch .zero false
  | .beq => .branch .zero true
  | .jmp => .jump
  | .jsr => .call
  | .rts => .returnFromCall
  | .brk => .softwareInterrupt
  | .rti => .returnFromInterrupt
  | .pha => .pushAccumulator
  | .pla => .pullAccumulator
  | .php => .pushStatus
  | .plp => .pullStatus
  | .nop => .nothing

end Nes6502
