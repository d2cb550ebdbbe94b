import Nes6502.Bus.Recorded
import Nes6502.Proofs.Memory

/-!
# The bus accesses of a step

Devices on the bus notice every access, so it matters which ones a step makes and in which order.
Here they are written down as a data sheet would have it: those of entering a handler, those that
find the operand, and those of the instruction itself. What a read gives is up to the bus, and may
be another value each time.

## What is proved

* `Conversation.Admits.accesses`: the record of a bus holds the accesses of a conversation.
* `Registers.admits_resolve`, `Registers.admits_perform`: every addressing mode and every action
  makes the accesses of the data sheet.
* `step_accesses`: so does every step that is not refused.
-/

set_option autoImplicit false

namespace Nes6502

/-! ## The accesses of a conversation -/

namespace Access

def read (address : UInt16) (value : UInt8) : Access := ⟨.read, address, value⟩

def write (address : UInt16) (value : UInt8) : Access := ⟨.write, address, value⟩

end Access

/-- The accesses that a request makes; a word is two bytes, low byte first. -/
def Request.accesses : (request : Request) → request.Answer → List Access
  | .readByte address, value => [.read address value]
  | .writeByte address value, _ => [.write address value]
  | .peekByte address, value => [⟨.peek, address, value⟩]
  | .readWord address, word =>
    [.read address (lowByte word), .read (address + 1) (highByte word)]
  | .readSplitWord low high, word => [.read low (lowByte word), .read high (highByte word)]

namespace Conversation

variable {α γ : Type}

/-- Whatever the bus answers, the value and the accesses of the conversation are as said. -/
def Admits (P : α → List Access → Prop) : Conversation α → Prop
  | .done value => P value []
  | .ask request next => ∀ answer,
      (next answer).Admits fun value log => P value (request.accesses answer ++ log)

theorem Admits.mono {P Q : α → List Access → Prop} {t : Conversation α} (h : t.Admits P)
    (hle : ∀ value log, P value log → Q value log) : t.Admits Q := by
  induction t generalizing P Q with
  | done value => exact hle value [] h
  | ask request next ih => exact fun answer => ih answer (h answer) fun value log => hle value _

theorem Admits.bind {P : α → List Access → Prop} {Q : γ → List Access → Prop} {t : Conversation α}
    {next : α → Conversation γ} (h : t.Admits P)
    (hnext : ∀ value log, P value log →
      (next value).Admits fun last rest => Q last (log ++ rest)) :
    (t >>= next).Admits Q := by
  induction t generalizing P Q with
  | done value => exact hnext value [] h
  | ask request rest ih =>
    intro answer
    refine ih answer (h answer) fun value log hlog => ?_
    simp only [← List.append_assoc]
    exact hnext value _ hlog

/-- A word is read as two bytes. -/
theorem accesses_readSplitWord {β : Type} [Bus β] (low high : UInt16) (bus : Recorded β) :
    (Bus.readSplitWord low high bus).bus.accesses =
      bus.accesses ++
        [.read low (lowByte (Bus.readSplitWord low high bus).value),
          .read high (highByte (Bus.readSplitWord low high bus).value)] := by
  simp only [Bus.readSplitWord, Bind.bind, Pure.pure, Transaction.bind, Transaction.pure,
    Reply.andThen, Recorded.reading, Recorded.accesses, List.reverse_cons, lowByte_wordOfBytes,
    highByte_wordOfBytes, List.append_assoc]
  rfl

/-- A request writes its accesses down. -/
theorem accesses_request {β : Type} [Bus β] (request : Request) (bus : Recorded β) :
    (request.transaction bus).bus.accesses =
      bus.accesses ++ request.accesses (request.transaction bus).value := by
  cases request with
  | readByte address | writeByte address value | peekByte address => exact List.reverse_cons
  | readWord address => exact accesses_readSplitWord address (address + 1) bus
  | readSplitWord low high => exact accesses_readSplitWord low high bus

theorem Admits.accesses {β : Type} [Bus β] {P : α → List Access → Prop} {t : Conversation α}
    (h : t.Admits P) (bus : Recorded β) :
    ∃ log, (t.transaction bus).bus.accesses = bus.accesses ++ log ∧
      P (t.transaction bus).value log := by
  induction t generalizing P bus with
  | done value => exact ⟨[], (List.append_nil _).symm, h⟩
  | ask request next ih =>
    obtain ⟨log, hlog, hvalue⟩ := ih _ (h _) (request.transaction bus).bus
    refine ⟨_, ?_, hvalue⟩
    show ((next _).transaction (request.transaction bus).bus).bus.accesses = _
    rw [hlog, accesses_request, List.append_assoc]

end Conversation

/-! ## The data sheet -/

open Access

/-- Entering a handler: the program counter and the image of the status register are pushed, and the
two bytes of the vector are read. -/
inductive HandlerAccesses (r : Registers) (kind : Interrupt) : List Access → UInt16 → Prop
  | intro (low high : UInt8) :
      HandlerAccesses r kind
        [write (stackAddress r.sp) (highByte r.pc),
          write (stackAddress (r.sp - 1)) (lowByte r.pc),
          write (stackAddress (r.sp - 2)) (r.status.toStack (kind == .brk)),
          read kind.vector low, read (kind.vector + 1) high]
        (wordOfBytes low high)

/-- The accesses that find an operand, and the operand, for an instruction at the program counter.
-/
inductive OperandAccesses (r : Registers) : AddressingMode → List Access → Operand → Prop
  | immediate : OperandAccesses r .immediate [] (.address (r.pc + 1))
  | relative : OperandAccesses r .relative [] (.address (r.pc + 1))
  | zeroPage (base : UInt8) :
      OperandAccesses r .zeroPage [read (r.pc + 1) base] (.address base.toUInt16)
  | zeroPageX (base : UInt8) :
      OperandAccesses r .zeroPageX [read (r.pc + 1) base] (.address (base + r.x).toUInt16)
  | zeroPageY (base : UInt8) :
      OperandAccesses r .zeroPageY [read (r.pc + 1) base] (.address (base + r.y).toUInt16)
  | absolute (low high : UInt8) :
      OperandAccesses r .absolute [read (r.pc + 1) low, read (r.pc + 2) high]
        (.address (wordOfBytes low high))
  | absoluteX (low high : UInt8) :
      OperandAccesses r .absoluteX [read (r.pc + 1) low, read (r.pc + 2) high]
        (.address (wordOfBytes low high + r.x.toUInt16))
  | absoluteY (low high : UInt8) :
      OperandAccesses r .absoluteY [read (r.pc + 1) low, read (r.pc + 2) high]
        (.address (wordOfBytes low high + r.y.toUInt16))
  /-- The pointer does not carry into the next page. -/
  | indirect (low high targetLow targetHigh : UInt8) :
      OperandAccesses r .indirect
        [read (r.pc + 1) low, read (r.pc + 2) high, read (wordOfBytes low high) targetLow,
          read (wordOfBytes (low + 1) high) targetHigh]
        (.address (wordOfBytes targetLow targetHigh))
  | indirectX (base low high : UInt8) :
      OperandAccesses r .indirectX
        [read (r.pc + 1) base, read (base + r.x).toUInt16 low, read (base + r.x + 1).toUInt16 high]
        (.address (wordOfBytes low high))
  | indirectY (base low high : UInt8) :
      OperandAccesses r .indirectY
        [read (r.pc + 1) base, read base.toUInt16 low, read (base + 1).toUInt16 high]
        (.address (wordOfBytes low high + r.y.toUInt16))
  | accumulator : OperandAccesses r .accumulator [] .accumulator
  | implied : OperandAccesses r .implied [] .absent

/-- The accesses of an instruction at the program counter itself, once its operand is found. -/
inductive ActionAccesses (r : Registers) : Action → Operand → List Access → Prop
  | load (destination : Register) (address : UInt16) (m : UInt8) :
      ActionAccesses r (.load destination) (.address address) [read address m]
  | store (source : Register) (address : UInt16) :
      ActionAccesses r (.store source) (.address address) [write address (r.get source)]
  | combine (op : Combination) (address : UInt16) (m : UInt8) :
      ActionAccesses r (.combine op) (.address address) [read address m]
  | compare (register : Register) (address : UInt16) (m : UInt8) :
      ActionAccesses r (.compare register) (.address address) [read address m]
  | testBits (address : UInt16) (m : UInt8) :
      ActionAccesses r .testBits (.address address) [read address m]
  | modify (op : Modification) (address : UInt16) (m : UInt8) :
      ActionAccesses r (.modify op) (.address address)
        [read address m, write address (op.apply m r.status).1]
  | modifyAccumulator (op : Modification) : ActionAccesses r (.modify op) .accumulator []
  | count (register : Register) (op : Modification) (operand : Operand) :
      ActionAccesses r (.count register op) operand []
  | transfer (source destination : Register) (operand : Operand) :
      ActionAccesses r (.transfer source destination) operand []
  | assign (flag : Flag) (value : Bool) (operand : Operand) :
      ActionAccesses r (.assign flag value) operand []
  /-- Only a branch that is taken reads its displacement. -/
  | taken (flag : Flag) (value : Bool) (h : r.status.get flag = value) (address : UInt16)
      (displacement : UInt8) :
      ActionAccesses r (.branch flag value) (.address address) [read address displacement]
  | untaken (flag : Flag) (value : Bool) (h : r.status.get flag ≠ value) (address : UInt16) :
      ActionAccesses r (.branch flag value) (.address address) []
  | jump (address : UInt16) : ActionAccesses r .jump (.address address) []
  | call (address : UInt16) :
      ActionAccesses r .call (.address address)
        [write (stackAddress r.sp) (highByte (r.pc + 2)),
          write (stackAddress (r.sp - 1)) (lowByte (r.pc + 2))]
  | returnFromCall (operand : Operand) (low high : UInt8) :
      ActionAccesses r .returnFromCall operand
        [read (stackAddress (r.sp + 1)) low, read (stackAddress (r.sp + 2)) high]
  | softwareInterrupt (operand : Operand) {log : List Access} {handler : UInt16}
      (h : HandlerAccesses { r with pc := r.pc + 2 } .brk log handler) :
      ActionAccesses r .softwareInterrupt operand log
  | returnFromInterrupt (operand : Operand) (bits low high : UInt8) :
      ActionAccesses r .returnFromInterrupt operand
        [read (stackAddress (r.sp + 1)) bits, read (stackAddress (r.sp + 2)) low,
          read (stackAddress (r.sp + 3)) high]
  | pushAccumulator (operand : Operand) :
      ActionAccesses r .pushAccumulator operand [write (stackAddress r.sp) r.a]
  | pullAccumulator (operand : Operand) (value : UInt8) :
      ActionAccesses r .pullAccumulator operand [read (stackAddress (r.sp + 1)) value]
  | pushStatus (operand : Operand) :
      ActionAccesses r .pushStatus operand [write (stackAddress r.sp) (r.status.toStack true)]
  | pullStatus (operand : Operand) (bits : UInt8) :
      ActionAccesses r .pullStatus operand [read (stackAddress (r.sp + 1)) bits]
  | nothing (operand : Operand) : ActionAccesses r .nothing operand []

/-- The accesses of an instruction, after its opcode was read. -/
inductive InstructionAccesses (r : Registers) : Option Instruction → List Access → Prop
  | undefined : InstructionAccesses r none []
  | defined (i : Instruction) {reads own : List Access} {operand : Operand}
      (hreads : OperandAccesses r i.mode reads operand)
      (hown : ActionAccesses r i.mnemonic.action operand own) :
      InstructionAccesses r (some i) (reads ++ own)

/-- The accesses of a step that takes no interrupt. -/
inductive FetchAccesses (r : Registers) : List Access → Prop
  | intro (opcode : UInt8) {rest : List Access} (h : InstructionAccesses r (decode opcode) rest) :
      FetchAccesses r (read r.pc opcode :: rest)

/-- The accesses of a step, by the interrupt that is due. -/
inductive StepAccesses (r : Registers) : Option Interrupt → List Access → Prop
  | direct {log : List Access} (h : FetchAccesses r log) : StepAccesses r none log
  | interrupted (kind : Interrupt) {log rest : List Access} {handler : UInt16}
      (hentry : HandlerAccesses r kind log handler)
      (h : FetchAccesses
        { r with
          sp := r.sp - 3
          pc := handler
          status := r.status.set .interruptDisable
          cycles := r.cycles + UInt64.ofNat Interrupt.entryCycles } rest) :
      StepAccesses r (some kind) (log ++ rest)

/-! ## The opcode matrix -/

/-- Whether an action can be carried out on an operand. -/
def Operand.suits : Operand → Action → Bool
  | .address _, _ => true
  | .accumulator, action =>
    match action with
    | .load _ | .store _ | .combine _ | .compare _ | .testBits | .branch _ _ | .jump
    | .call => false
    | _ => true
  | .absent, action =>
    match action with
    | .load _ | .store _ | .combine _ | .compare _ | .testBits | .branch _ _ | .jump
    | .call | .modify _ => false
    | _ => true

theorem Operand.eq_address {operand : Operand} {action : Action} (h : operand.suits action = true)
    (hmemory : Operand.suits .accumulator action = false) :
    ∃ address, operand = .address address := by
  cases operand with
  | address address => exact ⟨address, rfl⟩
  | accumulator =>
    rw [h] at hmemory
    cases hmemory
  | absent => cases action <;> simp [Operand.suits] at h hmemory

/-- An operand of the kind that a mode names. -/
def AddressingMode.sample : AddressingMode → Operand
  | .accumulator => .accumulator
  | .implied => .absent
  | _ => .address 0

/-- The opcode matrix gives no action an operand that it cannot use. -/
theorem suits_of_decode {opcode : UInt8} {i : Instruction} (hdecode : decode opcode = some i)
    {r : Registers} {log : List Access} {operand : Operand}
    (h : OperandAccesses r i.mode log operand) : operand.suits i.mnemonic.action = true := by
  have hmatrix : i.mode.sample.suits i.mnemonic.action = true :=
    of_decode (P := fun i => i.mode.sample.suits i.mnemonic.action = true)
      (by decide +kernel) hdecode
  rw [← hmatrix]
  generalize i.mode = mode at h
  generalize i.mnemonic.action = action
  -- whether an operand suits depends on its kind alone
  cases h <;> cases action <;> rfl

/-! ## Parts of a step -/

namespace Registers

theorem admits_enterHandler (r : Registers) (kind : Interrupt) :
    (r.enterHandler kind).Admits fun after log => ∃ handler,
      HandlerAccesses r kind log handler ∧
        after = { r with
          sp := r.sp - 3
          pc := handler
          status := r.status.set .interruptDisable
          cycles := r.cycles +
            UInt64.ofNat (if kind = .brk then 0 else Interrupt.entryCycles) } := by
  have htwo : r.sp - 1 - 1 = r.sp - 2 := by grind
  have hthree : r.sp - 1 - 1 - 1 = r.sp - 3 := by grind
  intro _ _ _ handler
  refine ⟨wordOfBytes (lowByte handler) (highByte handler), ?_, ?_⟩
  · have h : HandlerAccesses r kind _ _ := .intro (lowByte handler) (highByte handler)
    rw [← htwo] at h
    exact h
  · rw [wordOfBytes_lowByte_highByte, ← hthree]
    rfl

/-- Every addressing mode makes the accesses of the data sheet. -/
theorem admits_resolve (r : Registers) (mode : AddressingMode) :
    ((r.setPc (r.pc + 1)).resolve mode).Admits fun resolution log =>
      OperandAccesses r mode log resolution.operand := by
  have hnext : r.pc + 1 + 1 = r.pc + 2 := by grind
  -- a full address is asked for as a word and read as its two bytes
  have hword {mode : AddressingMode} (operand : UInt16 → Operand)
      (h : ∀ low high, OperandAccesses r mode [read (r.pc + 1) low, read (r.pc + 2) high]
        (operand (wordOfBytes low high))) (base : UInt16) :
      OperandAccesses r mode [read (r.pc + 1) (lowByte base), read (r.pc + 1 + 1) (highByte base)]
        (operand base) := by
    have hbytes := h (lowByte base) (highByte base)
    rwa [wordOfBytes_lowByte_highByte, ← hnext] at hbytes
  cases mode with
  | immediate => exact .immediate
  | relative => exact .relative
  | zeroPage => exact fun base => .zeroPage base
  | zeroPageX => exact fun base => .zeroPageX base
  | zeroPageY => exact fun base => .zeroPageY base
  | absolute => exact hword .address .absolute
  | absoluteX => exact hword (fun base => .address (base + r.x.toUInt16)) .absoluteX
  | absoluteY => exact hword (fun base => .address (base + r.y.toUInt16)) .absoluteY
  | indirect =>
    intro pointer target
    have h := OperandAccesses.indirect (r := r) (lowByte pointer) (highByte pointer)
      (lowByte target) (highByte target)
    rw [← next_in_page, wordOfBytes_lowByte_highByte, wordOfBytes_lowByte_highByte, ← hnext] at h
    exact h
  | indirectX =>
    intro base target
    have h := OperandAccesses.indirectX (r := r) base (lowByte target) (highByte target)
    rw [wordOfBytes_lowByte_highByte] at h
    exact h
  | indirectY =>
    intro base target
    have h := OperandAccesses.indirectY (r := r) base (lowByte target) (highByte target)
    rw [wordOfBytes_lowByte_highByte] at h
    exact h
  | accumulator => exact .accumulator
  | implied => exact .implied

/-- Every action makes the accesses of the data sheet. -/
theorem admits_perform (r : Registers) {action : Action} {operand : Operand}
    (hsuits : operand.suits action = true) :
    ((r.setPc (r.pc + 1)).perform action operand).Admits fun _ log =>
      ActionAccesses r action operand log := by
  have hpc : r.pc + 1 + 1 = r.pc + 2 := by grind
  have htwo : r.sp + 1 + 1 = r.sp + 2 := by grind
  have hthree : r.sp + 1 + 1 + 1 = r.sp + 3 := by grind
  cases action with
  | load destination =>
    obtain ⟨address, rfl⟩ := Operand.eq_address hsuits rfl
    exact fun m => .load destination address m
  | store source =>
    obtain ⟨address, rfl⟩ := Operand.eq_address hsuits rfl
    have hsource : (r.setPc (r.pc + 1)).get source = r.get source := by cases source <;> rfl
    have h := ActionAccesses.store (r := r) source address
    rw [← hsource] at h
    exact fun _ => h
  | combine op =>
    obtain ⟨address, rfl⟩ := Operand.eq_address hsuits rfl
    exact fun m => .combine op address m
  | compare register =>
    obtain ⟨address, rfl⟩ := Operand.eq_address hsuits rfl
    exact fun m => .compare register address m
  | testBits =>
    obtain ⟨address, rfl⟩ := Operand.eq_address hsuits rfl
    exact fun m => .testBits address m
  | modify op =>
    cases operand with
    | address address => exact fun m _ => .modify op address m
    | accumulator => exact .modifyAccumulator op
    | absent => cases hsuits
  | count register op => exact .count register op operand
  | transfer source destination => exact .transfer source destination operand
  | assign flag value => exact .assign flag value operand
  | branch flag value =>
    obtain ⟨address, rfl⟩ := Operand.eq_address hsuits rfl
    show Conversation.Admits _ (if r.status.get flag = value then _ else _)
    split
    next htaken => exact fun displacement => .taken flag value htaken address displacement
    next huntaken => exact .untaken flag value huntaken address
  | jump =>
    obtain ⟨address, rfl⟩ := Operand.eq_address hsuits rfl
    exact .jump address
  | call =>
    obtain ⟨address, rfl⟩ := Operand.eq_address hsuits rfl
    have h := ActionAccesses.call (r := r) address
    rw [← hpc] at h
    exact fun _ _ => h
  | returnFromCall =>
    intro low high
    have h := ActionAccesses.returnFromCall (r := r) operand low high
    rw [← htwo] at h
    exact h
  | softwareInterrupt =>
    refine (admits_enterHandler _ .brk).bind fun after log hentry => ?_
    obtain ⟨handler, hlog, -⟩ := hentry
    show ActionAccesses r .softwareInterrupt operand (log ++ [])
    rw [List.append_nil]
    have hplace : (r.setPc (r.pc + 1)).setPc (r.pc + 1 + 1) = { r with pc := r.pc + 2 } := by
      rw [hpc]
      rfl
    exact .softwareInterrupt operand (hplace ▸ hlog)
  | returnFromInterrupt =>
    intro bits low high
    have h := ActionAccesses.returnFromInterrupt (r := r) operand bits low high
    rw [← hthree, ← htwo] at h
    exact h
  | pushAccumulator => exact fun _ => .pushAccumulator operand
  | pullAccumulator => exact fun value => .pullAccumulator operand value
  | pushStatus => exact fun _ => .pushStatus operand
  | pullStatus => exact fun bits => .pullStatus operand bits
  | nothing => exact .nothing operand

theorem admits_execute (r : Registers) {opcode : UInt8} {i : Instruction}
    (hdecode : decode opcode = some i) :
    ((r.setPc (r.pc + 1)).execute i).Admits fun _ log => InstructionAccesses r (some i) log := by
  refine (r.admits_resolve i.mode).bind fun resolution reads hreads => ?_
  refine (r.admits_perform (suits_of_decode hdecode hreads)).bind fun done own hown => ?_
  show InstructionAccesses r (some i) (reads ++ (own ++ []))
  rw [List.append_nil]
  exact .defined i hreads hown

theorem admits_executeNext (r : Registers) (policy : UndefinedPolicy) :
    (r.executeNext policy).Admits fun _ log => FetchAccesses r log := by
  have hfetch : (Conversation.readByte r.pc).Admits fun opcode log => log = [read r.pc opcode] :=
    fun _ => rfl
  refine hfetch.bind fun opcode log hlog => ?_
  subst hlog
  cases hdecode : decode opcode with
  | none => exact .intro opcode (hdecode ▸ .undefined)
  | some i =>
    refine (r.admits_execute hdecode).bind fun after rest hrest => ?_
    show FetchAccesses r ([read r.pc opcode] ++ (rest ++ []))
    rw [List.append_nil]
    exact .intro opcode (hdecode ▸ hrest)

theorem admits_step (r : Registers) {due : Option Interrupt} (hdue : due ≠ some .brk)
    (policy : UndefinedPolicy) :
    (r.step false due policy).Admits fun _ log => StepAccesses r due log := by
  cases due with
  | none =>
    refine (r.admits_executeNext policy).mono fun _ log h => ?_
    exact .direct h
  | some kind =>
    have hkind : kind ≠ .brk := fun h => hdue (by rw [h])
    refine (r.admits_enterHandler kind).bind fun after log hentry => ?_
    obtain ⟨handler, hlog, hafter⟩ := hentry
    rw [if_neg hkind] at hafter
    refine (after.admits_executeNext policy).mono fun _ rest hrest => ?_
    exact .interrupted kind hlog (hafter ▸ hrest)

end Registers

end Nes6502
