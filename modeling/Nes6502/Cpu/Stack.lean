import Nes6502.Cpu

/-!
# The stack

The stack lies in page one and grows downwards. The stack pointer names the next free byte and
wraps within the page, so the 256 bytes of the page form a ring. A word is pushed high byte first.
-/

set_option autoImplicit false

namespace Nes6502

/-- The address of a byte of the stack. -/
def stackAddress (sp : UInt8) : UInt16 := 0x0100 + sp.toUInt16

namespace Cpu

variable {β : Type} [Bus β]

def pushByte (c : Cpu β) (value : UInt8) : Cpu β :=
  let sp := c.regs.sp
  (c.write (stackAddress sp) value).setRegister .sp (sp - 1)

def pullByte (c : Cpu β) : UInt8 × Cpu β :=
  let sp := c.regs.sp + 1
  (c.setRegister .sp sp).read (stackAddress sp)

def pushWord (c : Cpu β) (word : UInt16) : Cpu β :=
  (c.pushByte (highByte word)).pushByte (lowByte word)

def pullWord (c : Cpu β) : UInt16 × Cpu β :=
  let (low, c) := c.pullByte
  let (high, c) := c.pullByte
  (wordOfBytes low high, c)

end Cpu

end Nes6502
