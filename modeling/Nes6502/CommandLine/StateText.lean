import Nes6502.Cpu
import Nes6502.Hex
import Nes6502.HexDump
import Nes6502.Memory

/-!
# The state at the end of a session

The registers are written on one line or as a JSON object; a dump of the first page of memory may
follow.
-/

set_option autoImplicit false

namespace Nes6502.CommandLine

namespace StateText

/-- The registers on one line. -/
def line (r : Registers) : String :=
  let pc := Hex.wordText r.pc
  let a := Hex.byteText r.a
  let x := Hex.byteText r.x
  let y := Hex.byteText r.y
  let p := Hex.byteText r.status.bits
  let flags := String.ofList r.status.letters
  let sp := Hex.byteText r.sp
  let cycles := r.cycles.toNat
  s!"PC:{pc} A:{a} X:{x} Y:{y} P:{p} [{flags}] SP:{sp} CYC:{cycles}\n"

/-- The registers by name, as numbers. -/
def fields (r : Registers) : List (String × Nat) :=
  [("a", r.a.toNat), ("x", r.x.toNat), ("y", r.y.toNat), ("sp", r.sp.toNat), ("pc", r.pc.toNat),
    ("p", r.status.bits.toNat), ("cycles", r.cycles.toNat)]

/-- A field of a JSON object, on a line of its own. -/
def field (name : String) (value : Nat) : String := s!"  \"{name}\": {value}"

/-- The registers as a JSON object, one field a line. -/
def json (r : Registers) : String :=
  "\x7b\n" ++ ",\n".intercalate ((fields r).map fun (name, value) => field name value) ++ "\n\x7d\n"

/-- The dump of the first page. -/
def zeroPage (memory : Ram) : String := String.ofList (HexDump.render (memory.slice 0 0x100) 0)

end StateText

/-- How the state is to be written. -/
structure StateFormat where
  json : Bool
  /-- Whether a dump of the first page follows. -/
  dumpZeroPage : Bool
  deriving DecidableEq, Repr

/-- The state of a processor, as it is written at the end of a session. -/
def StateFormat.render (format : StateFormat) (c : Cpu Ram) : String :=
  let registers := if format.json then StateText.json c.regs else StateText.line c.regs
  let dump := if format.dumpZeroPage then StateText.zeroPage c.bus else ""
  registers ++ dump

end Nes6502.CommandLine
