import Nes6502.Cpu

/-!
# Conversations with a bus

The processor deals with its bus by asking for one thing after another, and what it asks next
depends on the answers so far. `Conversation` is such an exchange as data: a tree that branches on
the answers and holds no bus. `Conversation.transaction` carries it out on a bus, and `Cpu.converse`
does so for a processor.

A fact about all buses at once is then an induction over the tree.

## What is proved

* `Cpu.converse_bind`: carrying out a conversation in two parts is carrying it out.
* `Conversation.simulates`: two buses that answer every request alike, and stay related by it, give
  a conversation the same value and are related afterwards. Requests to halt play no part in this.
* `Conversation.Ensures.value`: what holds at every leaf of the tree holds of the value, whatever
  the bus answers.
* `Conversation.Alongside.reply`: two conversations that ask for the same have the same effect on a
  bus.
-/

set_option autoImplicit false

namespace Nes6502

/-- What a processor asks of its bus. -/
inductive Request where
  | readByte (address : UInt16)
  | writeByte (address : UInt16) (value : UInt8)
  | peekByte (address : UInt16)
  | readWord (address : UInt16)
  | readSplitWord (low high : UInt16)
  deriving DecidableEq, Repr

namespace Request

/-- What the bus answers to a request. -/
@[reducible] def Answer : Request → Type
  | .readByte _ | .peekByte _ => UInt8
  | .writeByte _ _ => Unit
  | .readWord _ | .readSplitWord _ _ => UInt16

/-- The access to the bus that a request stands for. A bus may answer words in its own way, so
they are requests of their own. -/
def transaction {β : Type} [Bus β] : (request : Request) → Transaction β request.Answer
  | .readByte address => Bus.readByte address
  | .writeByte address value => Bus.writeByte address value
  | .peekByte address => Bus.peekByte address
  | .readWord address => Bus.readWord address
  | .readSplitWord low high => Bus.readSplitWord low high

end Request

/-- An exchange with a bus: it ends with a value, or asks and goes on by the answer. -/
inductive Conversation (α : Type) where
  | done (value : α)
  | ask (request : Request) (next : request.Answer → Conversation α)

namespace Conversation

variable {α γ : Type}

/-- A conversation that goes on where another has ended. -/
protected def bind : Conversation α → (α → Conversation γ) → Conversation γ
  | .done value, next => next value
  | .ask request rest, next => .ask request fun answer => (rest answer).bind next

instance : Monad Conversation where
  pure := .done
  bind := Conversation.bind

@[simp] theorem pure_eq (value : α) : (pure value : Conversation α) = .done value := rfl

@[simp] theorem done_bind (value : α) (next : α → Conversation γ) :
    (Conversation.done value >>= next) = next value := rfl

@[simp] theorem ask_bind (request : Request) (rest : request.Answer → Conversation α)
    (next : α → Conversation γ) :
    (Conversation.ask request rest >>= next) = .ask request fun answer => rest answer >>= next :=
  rfl

/-! ## Single requests -/

def readByte (address : UInt16) : Conversation UInt8 := .ask (.readByte address) .done

def writeByte (address : UInt16) (value : UInt8) : Conversation Unit :=
  .ask (.writeByte address value) .done

def peekByte (address : UInt16) : Conversation UInt8 := .ask (.peekByte address) .done

def readWord (address : UInt16) : Conversation UInt16 := .ask (.readWord address) .done

def readSplitWord (low high : UInt16) : Conversation UInt16 := .ask (.readSplitWord low high) .done

/-! ## Carrying a conversation out -/

section Bus

variable {β : Type} [Bus β]

/-- The conversation with a given bus. -/
def transaction : Conversation α → Transaction β α
  | .done value => Transaction.pure value
  | .ask request next => request.transaction.bind fun answer => (next answer).transaction

/-- A conversation in two parts is a transaction after a transaction: the bus passes from the one to
the other, and a request to halt from either one stands. -/
theorem transaction_bind (t : Conversation α) (next : α → Conversation γ) :
    (t >>= next).transaction =
      (t.transaction >>= fun value => (next value).transaction : Transaction β γ) := by
  show (t >>= next).transaction = t.transaction.bind fun value => (next value).transaction
  induction t with
  | done value =>
    funext bus
    simp [transaction, Transaction.bind, Transaction.pure, Reply.andThen]
  | ask request rest ih =>
    funext bus
    simp only [ask_bind, transaction, ih, Transaction.bind, Reply.andThen, Bool.or_assoc]

/-- A single request is carried out by its own access. -/
@[simp] theorem transaction_ask_done (request : Request) :
    (Conversation.ask request .done).transaction = (request.transaction : Transaction β _) := by
  funext bus
  simp [transaction, Transaction.bind, Transaction.pure, Reply.andThen]

/-- A bus that never asks to halt is not made to by a conversation. -/
theorem haltRaised_transaction
    (hmute : ∀ (request : Request) (bus : β), (request.transaction bus).haltRaised = false)
    (t : Conversation α) (bus : β) : (t.transaction bus).haltRaised = false := by
  induction t generalizing bus with
  | done value => rfl
  | ask request next ih =>
    simp only [transaction, Transaction.bind, Reply.andThen, hmute, ih, Bool.or_false]

/-! ## Two buses -/

variable {δ : Type} [Bus δ]

/-- A relation between two buses that every request respects: the answers are the same, and the
buses are still related. -/
def Respected (related : β → δ → Prop) : Prop :=
  ∀ (request : Request) (b : β) (d : δ), related b d →
    (request.transaction b).value = (request.transaction d).value ∧
      related (request.transaction b).bus (request.transaction d).bus

/-- A conversation has the same value on buses that answer alike, and leaves them answering
alike. -/
theorem simulates {related : β → δ → Prop} (h : Respected related) (t : Conversation α) :
    ∀ {b : β} {d : δ}, related b d → (t.transaction b).value = (t.transaction d).value ∧
      related (t.transaction b).bus (t.transaction d).bus := by
  induction t with
  | done value => exact fun hr => ⟨rfl, hr⟩
  | ask request next ih =>
    intro b d hr
    obtain ⟨hvalue, hbus⟩ := h request b d hr
    simp only [transaction, Transaction.bind, Reply.andThen]
    rw [← hvalue]
    exact ih _ hbus

end Bus

/-! ## What holds whatever the bus answers -/

/-- A property that every value has that the conversation can end with. -/
def Ensures (P : α → Prop) : Conversation α → Prop
  | .done value => P value
  | .ask _ next => ∀ answer, (next answer).Ensures P

theorem Ensures.value {β : Type} [Bus β] {P : α → Prop} {t : Conversation α} (h : t.Ensures P)
    (bus : β) : P (t.transaction bus).value := by
  induction t generalizing bus with
  | done value => exact h
  | ask request next ih => exact ih _ (h _) _

theorem Ensures.mono {P Q : α → Prop} {t : Conversation α} (h : t.Ensures P)
    (hle : ∀ value, P value → Q value) : t.Ensures Q := by
  induction t with
  | done value => exact hle value h
  | ask request next ih => exact fun answer => ih answer (h answer)

theorem Ensures.trivial (t : Conversation α) : t.Ensures fun _ => True := by
  induction t with
  | done value => exact True.intro
  | ask request next ih => exact ih

theorem Ensures.bind {P : α → Prop} {Q : γ → Prop} {t : Conversation α} {next : α → Conversation γ}
    (h : t.Ensures P) (hnext : ∀ value, P value → (next value).Ensures Q) :
    (t >>= next).Ensures Q := by
  induction t with
  | done value => exact hnext value h
  | ask request rest ih => exact fun answer => ih answer (h answer)

/-! ## What is asked -/

/-- A property of every request that the conversation can make. -/
def Asks (P : Request → Prop) : Conversation α → Prop
  | .done _ => True
  | .ask request next => P request ∧ ∀ answer, (next answer).Asks P

theorem Asks.bind {P : Request → Prop} {t : Conversation α} {next : α → Conversation γ}
    (h : t.Asks P) (hnext : ∀ value, (next value).Asks P) : (t >>= next).Asks P := by
  induction t with
  | done value => exact hnext value
  | ask request rest ih => exact ⟨h.1, fun answer => ih answer (h.2 answer)⟩

/-! ## Two conversations -/

/-- Two conversations that ask for the same as long as they are answered alike, and end with related
values. -/
inductive Alongside (Q : α → γ → Prop) : Conversation α → Conversation γ → Prop
  | done {value : α} {value' : γ} (h : Q value value') : Alongside Q (.done value) (.done value')
  | ask {request : Request} {next : request.Answer → Conversation α}
      {next' : request.Answer → Conversation γ}
      (h : ∀ answer, Alongside Q (next answer) (next' answer)) :
      Alongside Q (.ask request next) (.ask request next')

namespace Alongside

theorem refl {Q : α → α → Prop} (hQ : ∀ value, Q value value) (t : Conversation α) :
    Alongside Q t t := by
  induction t with
  | done value => exact .done (hQ value)
  | ask request next ih => exact .ask ih

variable {ε ζ : Type} {Q : α → γ → Prop} {t : Conversation α} {u : Conversation γ}

theorem bind {S : ε → ζ → Prop} {next : α → Conversation ε} {next' : γ → Conversation ζ}
    (h : Alongside Q t u)
    (hnext : ∀ value value', Q value value' → Alongside S (next value) (next' value')) :
    Alongside S (t >>= next) (u >>= next') := by
  induction h with
  | done h => exact hnext _ _ h
  | ask _ ih => exact .ask ih

/-- Two conversations may begin with the same one. -/
theorem after {S : ε → ζ → Prop} (t : Conversation α) {next : α → Conversation ε}
    {next' : α → Conversation ζ} (h : ∀ value, Alongside S (next value) (next' value)) :
    Alongside S (t >>= next) (t >>= next') :=
  (refl (Q := Eq) (fun _ => rfl) t).bind fun value _ hvalue => hvalue ▸ h value

/-- On one bus they have related values, and the same effect. -/
theorem reply {β : Type} [Bus β] (h : Alongside Q t u) (bus : β) :
    Q (t.transaction bus).value (u.transaction bus).value ∧
      (t.transaction bus).bus = (u.transaction bus).bus ∧
      (t.transaction bus).haltRaised = (u.transaction bus).haltRaised := by
  induction h generalizing bus with
  | done h => exact ⟨h, rfl, rfl⟩
  | ask _ ih =>
    obtain ⟨hvalue, hbus, hhalt⟩ := ih _ _
    exact ⟨hvalue, hbus, congrArg (_ || ·) hhalt⟩

end Alongside

end Conversation

namespace Cpu

variable {β α γ : Type} [Bus β]

/-- Carries out a conversation with the bus of the processor. -/
def converse (c : Cpu β) (t : Conversation α) : α × Cpu β := c.transact t.transaction

@[simp] theorem converse_done (c : Cpu β) (value : α) : c.converse (.done value) = (value, c) := by
  simp [converse, transact, Conversation.transaction, Transaction.pure]

theorem converse_bind (c : Cpu β) (t : Conversation α) (next : α → Conversation γ) :
    c.converse (t >>= next) = (c.converse t).2.converse (next (c.converse t).1) := by
  simp only [converse, transact, Conversation.transaction_bind]
  simp [Bind.bind, Transaction.bind, Reply.andThen, Bool.or_assoc]

end Cpu

end Nes6502
