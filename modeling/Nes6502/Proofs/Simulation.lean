import Nes6502.Operation
import Nes6502.Proofs.Loading
import Nes6502.Proofs.Run

/-!
# Simulations

Two processors with the same registers, on buses that answer alike, stay side by side whatever a
host does to them. Which buses count as answering alike is a relation between them: accesses from
related buses have to give the same values, ask to halt alike and lead to related buses. Whether
trace lines are made may differ from the one processor to the other, if the peeks for them lead to
related buses too.

## What is proved

* `Conversation.matches_of_requests`: what holds of single requests holds of conversations.
* `Cpu.Similar.step`, `Cpu.Similar.continueUntil`: similar processors take the same steps, and their
  runs end alike if their watchers agree on similar processors.
* `Cpu.Similar.applyAllAlong`: they give their hosts the same answers, and are similar after every
  operation. `Cpu.Similar.applyAll` says so for buses of one kind.
-/

set_option autoImplicit false

namespace Nes6502

variable {α β γ δ σ : Type} {R : β → δ → Prop}

/-! ## Transactions -/

/-- Two replies that differ at most in the buses, and those are related. -/
structure Reply.Matches (R : β → δ → Prop) (r : Reply β α) (s : Reply δ α) : Prop where
  value : r.value = s.value
  bus : R r.bus s.bus
  haltRaised : r.haltRaised = s.haltRaised

theorem Reply.Matches.andThen_of_reply {r : Reply β α} {s : Reply δ α} (h : r.Matches R s)
    {next : α → Transaction β γ} {next' : α → Transaction δ γ}
    (hnext : (next r.value r.bus).Matches R (next' r.value s.bus)) :
    (r.andThen next).Matches R (s.andThen next') := by
  simp only [Reply.andThen, ← h.value, ← h.haltRaised]
  exact ⟨hnext.value, hnext.bus, congrArg (r.haltRaised || ·) hnext.haltRaised⟩

theorem Reply.Matches.andThen {r : Reply β α} {s : Reply δ α} (h : r.Matches R s)
    {next : α → Transaction β γ} {next' : α → Transaction δ γ}
    (hnext : ∀ value b d, R b d → (next value b).Matches R (next' value d)) :
    (r.andThen next).Matches R (s.andThen next') :=
  h.andThen_of_reply (hnext r.value r.bus s.bus h.bus)

namespace Transaction

/-- Two transactions whose replies match from related buses. -/
def Matches (R : β → δ → Prop) (t : Transaction β α) (u : Transaction δ α) : Prop :=
  ∀ b d, R b d → (t b).Matches R (u d)

/-- A transaction matches itself from the same bus. -/
theorem Matches.refl (t : Transaction β α) : Matches Eq t t := by
  rintro b _ rfl
  exact ⟨rfl, rfl, rfl⟩

theorem Matches.pure (value : α) :
    Matches R (Pure.pure value : Transaction β α) (Pure.pure value : Transaction δ α) :=
  fun _ _ hbus => ⟨rfl, hbus, rfl⟩

theorem Matches.bind {t : Transaction β α} {u : Transaction δ α} (h : Matches R t u)
    {next : α → Transaction β γ} {next' : α → Transaction δ γ}
    (hnext : ∀ value, Matches R (next value) (next' value)) :
    Matches R (t >>= next) (u >>= next') :=
  fun b d hbus => (h b d hbus).andThen hnext

/-- Two transactions that match but for their values. -/
def SameEffect (R : β → δ → Prop) (t : Transaction β α) (u : Transaction δ γ) : Prop :=
  ∀ b d, R b d → R (t b).bus (u d).bus ∧ (t b).haltRaised = (u d).haltRaised

/-- Values that are thrown away need not be the same. -/
theorem SameEffect.bind {ε : Type} {t : Transaction β α} {u : Transaction δ γ}
    (h : SameEffect R t u) {next : Transaction β ε} {next' : Transaction δ ε}
    (hnext : Matches R next next') : Matches R (t >>= fun _ => next) (u >>= fun _ => next') := by
  intro b d hbus
  obtain ⟨hrelated, hhalt⟩ := h b d hbus
  have hlast := hnext _ _ hrelated
  refine ⟨hlast.value, hlast.bus, ?_⟩
  show ((t b).haltRaised || _) = ((u d).haltRaised || _)
  rw [hhalt, hlast.haltRaised]

/-- A transaction that the other side need not answer with anything. -/
def Unnoticed (R : β → δ → Prop) (t : Transaction β α) : Prop :=
  ∀ b d, R b d → R (t b).bus d ∧ (t b).haltRaised = false

end Transaction

open Transaction

variable [Bus β] [Bus δ]

omit [Bus δ] in
/-- What nobody notices of single requests, nobody notices of a conversation that makes no
others. -/
theorem Conversation.Asks.unnoticed {P : Request → Prop} {t : Conversation α} (h : t.Asks P)
    (hP : ∀ request : Request, P request → Unnoticed R (request.transaction : Transaction β _)) :
    Unnoticed R (t.transaction : Transaction β α) := by
  induction t with
  | done value => exact fun b d hbus => ⟨hbus, rfl⟩
  | ask request next ih =>
    intro b d hbus
    obtain ⟨hafter, hhalt⟩ := hP request h.1 b d hbus
    obtain ⟨hlast, hfree⟩ := ih _ (h.2 _) _ d hafter
    refine ⟨hlast, ?_⟩
    show ((request.transaction b).haltRaised || _) = false
    rw [hhalt, hfree]
    rfl

/-- What holds of single requests holds of conversations. -/
theorem Conversation.matches_of_requests
    (hrequest : ∀ request : Request,
      Matches R (request.transaction : Transaction β _) (request.transaction : Transaction δ _))
    (t : Conversation α) :
    Matches R (t.transaction : Transaction β α) (t.transaction : Transaction δ α) := by
  induction t with
  | done value => exact .pure value
  | ask request next ih => exact (hrequest request).bind ih

/-- What a relation between buses has to satisfy so that processors on them stay side by side, the
one with trace lines if `tracing` says so and the other if `tracing'` does. -/
structure Simulation (R : β → δ → Prop) (tracing tracing' : Bool) : Prop where
  request (request : Request) :
    Matches R (request.transaction : Transaction β _) (request.transaction : Transaction δ _)
  writeWord (address word : UInt16) :
    Matches R (Bus.writeWord address word : Transaction β Unit)
      (Bus.writeWord address word : Transaction δ Unit)
  trace (r : Registers) :
    SameEffect R ((r.trace tracing).transaction : Transaction β _)
      ((r.trace tracing').transaction : Transaction δ _)

namespace Simulation

variable {tracing tracing' : Bool}

/-- If both make trace lines, or neither does, single accesses are all there is to check. -/
theorem ofMatches (tracing : Bool)
    (request : ∀ request : Request,
      Matches R (request.transaction : Transaction β _) (request.transaction : Transaction δ _))
    (writeWord : ∀ address word, Matches R (Bus.writeWord address word : Transaction β Unit)
      (Bus.writeWord address word : Transaction δ Unit)) : Simulation R tracing tracing where
  request := request
  writeWord := writeWord
  trace r b d hbus :=
    have hreply := Conversation.matches_of_requests request (r.trace tracing) b d hbus
    ⟨hreply.bus, hreply.haltRaised⟩

theorem conversation (sim : Simulation R tracing tracing') (t : Conversation α) :
    Matches R (t.transaction : Transaction β α) (t.transaction : Transaction δ α) :=
  t.matches_of_requests sim.request

/-- The two steps ask for different trace lines, and the rest of them is the same. -/
theorem step (sim : Simulation R tracing tracing') (r : Registers) (due : Option Interrupt)
    (policy : UndefinedPolicy) :
    Matches R ((r.step tracing due policy).transaction : Transaction β _)
      ((r.step tracing' due policy).transaction : Transaction δ _) := by
  simp only [Registers.step, Conversation.transaction_bind]
  exact (sim.conversation _).bind fun polled =>
    (sim.trace polled).bind (sim.conversation _)

theorem writeBytes (sim : Simulation R tracing tracing') (origin : UInt16) (bytes : List UInt8) :
    Matches R (Program.writeBytes origin bytes : Transaction β Unit)
      (Program.writeBytes origin bytes : Transaction δ Unit) := by
  induction bytes generalizing origin with
  | nil => exact .pure ()
  | cons byte rest ih =>
    rw [Program.writeBytes_cons, Program.writeBytes_cons]
    exact (sim.request (.writeByte origin byte)).bind fun _ => ih (origin + 1)

theorem loadAt (sim : Simulation R tracing tracing') (origin : UInt16) (program : List UInt8) :
    Matches R (Program.loadAt origin program : Transaction β _)
      (Program.loadAt origin program : Transaction δ _) := by
  simp only [Program.loadAt]
  split
  · exact .pure _
  · exact (sim.writeBytes origin program).bind fun _ =>
      (sim.writeWord resetVector origin).bind fun _ => .pure _

end Simulation

/-! ## Processors -/

namespace Cpu

/-- Two processors that differ at most in their buses, and those are related. -/
structure Similar (R : β → δ → Prop) (c : Cpu β) (d : Cpu δ) : Prop where
  bus : R c.bus d.bus
  regs : c.regs = d.regs
  state : c.state = d.state
  policy : c.policy = d.policy
  haltRequested : c.haltRequested = d.haltRequested
  nmiLatched : c.nmiLatched = d.nmiLatched
  irqLine : c.irqLine = d.irqLine

namespace Similar

variable {tracing tracing' : Bool} {c : Cpu β} {d : Cpu δ}

omit [Bus β] in
theorem refl {R : β → β → Prop} (h : R c.bus c.bus) : Similar R c c :=
  ⟨h, rfl, rfl, rfl, rfl, rfl, rfl⟩

omit [Bus β] in
theorem eq {d : Cpu β} (h : Similar Eq c d) : c = d := by
  obtain ⟨bus, regs, state, policy, requested, latched, line⟩ := c
  obtain ⟨rfl, rfl, rfl, rfl, rfl, rfl, rfl⟩ := h
  rfl

omit [Bus β] [Bus δ] in
theorem mono {S : β → δ → Prop} (h : Similar R c d) (hbus : R c.bus d.bus → S c.bus d.bus) :
    Similar S c d :=
  { h with bus := hbus h.bus }

omit [Bus β] [Bus δ] in
theorem symm (h : Similar R c d) : Similar (flip R) d c :=
  ⟨h.bus, h.regs.symm, h.state.symm, h.policy.symm, h.haltRequested.symm, h.nmiLatched.symm,
    h.irqLine.symm⟩

omit [Bus β] [Bus δ] in
theorem trans {ε : Type} {S : δ → ε → Prop} {e : Cpu ε} (h : Similar R c d) (h' : Similar S d e) :
    Similar (fun b e => R b d.bus ∧ S d.bus e) c e :=
  ⟨⟨h.bus, h'.bus⟩, h.regs.trans h'.regs, h.state.trans h'.state, h.policy.trans h'.policy,
    h.haltRequested.trans h'.haltRequested, h.nmiLatched.trans h'.nmiLatched,
    h.irqLine.trans h'.irqLine⟩

omit [Bus β] [Bus δ] in
theorem refuses (h : Similar R c d) : c.refuses = d.refuses := by
  rw [Cpu.refuses, Cpu.refuses, h.haltRequested, h.state]

omit [Bus β] [Bus δ] in
theorem dueInterrupt (h : Similar R c d) : c.dueInterrupt = d.dueInterrupt := by
  simp only [Cpu.dueInterrupt, h.nmiLatched, h.irqLine, h.regs]

omit [Bus β] [Bus δ] in
theorem setState (h : Similar R c d) (state : RunState) :
    Similar R (c.setState state) (d.setState state) :=
  { h with state := rfl }

omit [Bus β] [Bus δ] in
theorem requestHalt (h : Similar R c d) : Similar R c.requestHalt d.requestHalt :=
  { h with haltRequested := rfl }

omit [Bus β] [Bus δ] in
theorem transact_of_reply (h : Similar R c d) {t : Transaction β α} {u : Transaction δ α}
    (hreply : (t c.bus).Matches R (u d.bus)) :
    (c.transact t).1 = (d.transact u).1 ∧ Similar R (c.transact t).2 (d.transact u).2 := by
  refine ⟨hreply.value, { h with bus := hreply.bus, haltRequested := ?_ }⟩
  show (c.haltRequested || _) = (d.haltRequested || _)
  rw [h.haltRequested, hreply.haltRaised]

omit [Bus β] [Bus δ] in
theorem transact (h : Similar R c d) {t : Transaction β α} {u : Transaction δ α}
    (hmatch : Matches R t u) :
    (c.transact t).1 = (d.transact u).1 ∧ Similar R (c.transact t).2 (d.transact u).2 :=
  h.transact_of_reply (hmatch c.bus d.bus h.bus)

/-- Two steps come to the same if the two buses answer alike in these. -/
theorem step_of_reply (h : Similar R c d) (hreply : c.refuses = false →
      (((c.regs.step tracing c.dueInterrupt c.policy).transaction : Transaction β _)
        c.bus).Matches R
        (((c.regs.step tracing' c.dueInterrupt c.policy).transaction : Transaction δ _) d.bus)) :
    (c.step tracing).result = (d.step tracing').result ∧
      Similar R (c.step tracing).cpu (d.step tracing').cpu := by
  cases hrefuses : c.refuses with
  | true =>
    rw [step_of_refuses tracing hrefuses, step_of_refuses tracing' (h.refuses ▸ hrefuses)]
    exact ⟨rfl, h.setState .halted⟩
  | false =>
    obtain ⟨hresult, hcpu⟩ := step_eq tracing hrefuses
    obtain ⟨hresult', hcpu'⟩ := step_eq tracing' (h.refuses ▸ hrefuses)
    obtain ⟨hvalue, hafter⟩ := h.transact_of_reply (hreply hrefuses)
    rw [← h.regs, ← h.dueInterrupt, ← h.policy] at hresult' hcpu'
    have hsame : (c.step tracing).result = (d.step tracing').result := by
      rw [hresult, hresult']
      exact congrArg Prod.fst hvalue
    refine ⟨hsame, ?_⟩
    rw [hcpu, hcpu', hsame]
    exact { hafter with regs := congrArg Prod.snd hvalue, state := rfl, nmiLatched := rfl }

theorem step (sim : Simulation R tracing tracing') (h : Similar R c d) :
    (c.step tracing).result = (d.step tracing').result ∧
      Similar R (c.step tracing).cpu (d.step tracing').cpu :=
  h.step_of_reply fun _ => sim.step c.regs c.dueInterrupt c.policy c.bus d.bus h.bus

theorem afterSteps (sim : Simulation R tracing tracing') (h : Similar R c d) (k : Nat) :
    Similar R (c.afterSteps tracing k) (d.afterSteps tracing' k) := by
  induction k with
  | zero => exact h
  | succ k ih => exact (ih.step sim).2

/-! ## Runs -/

/-- The last round of a run is the last round of the other one. -/
theorem runEnd (sim : Simulation R tracing tracing') {w : Watcher σ β} {w' : Watcher σ δ}
    (hwatch : ∀ s c d, Similar R c d → w.observe s c = w'.observe s d) (h : Similar R c d)
    {executed : Nat} {s t : σ} {result : RunResult} {e : Cpu β}
    (hend : RunEnd tracing w executed s c result e t) :
    ∃ e', RunEnd tracing' w' executed s d result e' t ∧ Similar R e e' := by
  have hobserve := hwatch s c d h
  cases hend with
  | requested hrequested =>
    exact ⟨_, .requested (h.haltRequested ▸ hrequested), h.setState .halted⟩
  | stopped hfree hstop =>
    rw [hobserve] at hstop ⊢
    refine ⟨_, .stopped (h.haltRequested ▸ hfree) hstop, ?_⟩
    split
    · exact h.requestHalt
    · exact h
  | asked hfree hask =>
    rw [hobserve] at hask ⊢
    exact ⟨_, .asked (h.haltRequested ▸ hfree) hask, h.requestHalt.setState .halted⟩
  | failed hfree hgo hfault =>
    rw [hobserve] at hgo ⊢
    obtain ⟨hresult, hnext⟩ := h.step sim
    exact ⟨_, .failed (h.haltRequested ▸ hfree) hgo (hresult ▸ hfault), hnext⟩

/-- Runs of similar processors end alike, if the watchers do not tell such processors apart. -/
theorem continueUntil (sim : Simulation R tracing tracing') {w : Watcher σ β} {w' : Watcher σ δ}
    (hwatch : ∀ s c d, Similar R c d → w.observe s c = w'.observe s d) (h : Similar R c d)
    (rounds executed : Nat) (s : σ) (events events' : Array Event) :
    let report := c.continueUntil tracing w rounds executed s events
    let report' := d.continueUntil tracing' w' rounds executed s events'
    report.result = report'.result ∧ report.watcher = report'.watcher ∧
      Similar R report.cpu report'.cpu := by
  induction rounds generalizing executed s events events' c d with
  | zero => exact ⟨rfl, rfl, h⟩
  | succ rounds ih =>
    intro report report'
    have hobserve := hwatch s c d h
    rcases round_or_end tracing w executed s c with ⟨hfree, hgo, hok⟩ | ⟨result, e, t, hend⟩
    · obtain ⟨hresult, hnext⟩ := h.step sim
      have hround := continueUntil_round hfree hgo hok rounds executed events
      have hround' := continueUntil_round (h.haltRequested ▸ hfree) (hobserve ▸ hgo)
        (hresult ▸ hok) rounds executed events'
      simp only [report, report', hround, hround', hobserve]
      exact ih hnext _ _ _ _
    · obtain ⟨e', hend', hsimilar⟩ := h.runEnd sim hwatch hend
      obtain ⟨_, hreport⟩ := continueUntil_end hend events
      obtain ⟨_, hreport'⟩ := continueUntil_end hend' events'
      simp only [report, report', hreport, hreport']
      exact ⟨trivial, trivial, hsimilar⟩

end Similar

end Cpu

/-! ## Operations -/

/-- The same operation, for a host of other processors: what its judge, if it has one, is shown of
them is what `view` makes of them. -/
def Operation.along (view : Cpu δ → Cpu β) : Operation β → Operation δ
  | .reset => .reset
  | .step => .step
  | .runUntil rounds judge => .runUntil rounds fun asked d => judge asked (view d)
  | .runFor limit => .runFor limit
  | .run rounds => .run rounds
  | .halt => .halt
  | .requestHalt => .requestHalt
  | .resume => .resume
  | .triggerNmi => .triggerNmi
  | .setIrq asserted => .setIrq asserted
  | .interrupt kind => .interrupt kind
  | .setPolicy policy => .setPolicy policy
  | .load origin program => .load origin program
  | .readByte address => .readByte address
  | .writeByte address value => .writeByte address value
  | .peekByte address => .peekByte address
  | .readWord address => .readWord address
  | .readSplitWord low high => .readSplitWord low high
  | .writeWord address word => .writeWord address word
  | .list address => .list address
  | .traceLine => .traceLine

omit [Bus β] in
theorem Operation.along_id (o : Operation β) : o.along id = o := by
  cases o <;> rfl

/-- The judge of an operation, if it has one, does not tell a processor from what `view` makes of a
similar one. -/
def Operation.RespectsAlong (R : β → δ → Prop) (view : Cpu δ → Cpu β) : Operation β → Prop
  | .runUntil _ judge => ∀ asked c d, Cpu.Similar R c d → judge asked c = judge asked (view d)
  | _ => True

/-- The judge of an operation, if it has one, does not tell similar processors apart. -/
def Operation.Respects (R : β → β → Prop) : Operation β → Prop
  | .runUntil _ judge => ∀ asked c d, Cpu.Similar R c d → judge asked c = judge asked d
  | _ => True

/-- What a host sees of an operation is the same, and the processors are similar after it. -/
def OperationReport.Similar (R : β → δ → Prop) (report : OperationReport β)
    (report' : OperationReport δ) : Prop :=
  report.answer = report'.answer ∧ Cpu.Similar R report.cpu report'.cpu

namespace Cpu.Similar

variable {tracing tracing' : Bool} {c : Cpu β} {d : Cpu δ}

theorem reset (sim : Simulation R tracing tracing') (h : Similar R c d) :
    Similar R c.reset d.reset := by
  obtain ⟨hstart, hafter⟩ := h.transact (sim.request (.readWord resetVector))
  refine { hafter with
    regs := ?_, state := rfl, haltRequested := rfl, nmiLatched := rfl, irqLine := rfl }
  exact congrArg (fun start => { Registers.powerOn with
    pc := start, cycles := UInt64.ofNat Interrupt.entryCycles }) hstart

theorem interrupt (sim : Simulation R tracing tracing') (h : Similar R c d) (kind : Interrupt) :
    Similar R (c.interrupt kind) (d.interrupt kind) := by
  have hmasks : c.masks kind = d.masks kind := by rw [masks, masks, h.regs]
  simp only [Cpu.interrupt, hmasks]
  split
  · exact h.reset sim
  · split
    · exact h
    · obtain ⟨hregs, hafter⟩ := h.transact (sim.conversation (c.regs.enterHandler kind))
      rw [enterHandler_eq, enterHandler_eq, ← h.regs]
      exact { hafter with regs := hregs }

omit [Bus β] [Bus δ] in
theorem ofTransaction (h : Similar R c d) {t : Transaction β α} {u : Transaction δ α}
    (hmatch : Matches R t u) (answer : α → Answer) :
    (OperationReport.ofTransaction c t answer).Similar R (.ofTransaction d u answer) :=
  ⟨congrArg answer (h.transact hmatch).1, (h.transact hmatch).2⟩

theorem ofRun (sim : Simulation R tracing tracing') (h : Similar R c d) {w : Watcher Nat β}
    {w' : Watcher Nat δ} (hwatch : ∀ s c d, Similar R c d → w.observe s c = w'.observe s d)
    (rounds : Nat) :
    (OperationReport.ofRun (c.runUntil tracing rounds w 0)).Similar R
      (.ofRun (d.runUntil tracing' rounds w' 0)) := by
  obtain ⟨hresult, hasked, hcpu⟩ := h.continueUntil sim hwatch rounds 0 0 #[] #[]
  refine ⟨?_, hcpu⟩
  show Answer.ran _ _ = Answer.ran _ _
  rw [runUntil, runUntil, hresult, hasked]

/-- Hosts of similar processors see the same of an operation, if a judge sees similar ones alike. -/
theorem applyAlong (sim : Simulation R tracing tracing') (h : Similar R c d)
    {view : Cpu δ → Cpu β} {o : Operation β} (hrespects : o.RespectsAlong R view) :
    (o.apply tracing c).Similar R ((o.along view).apply tracing' d) := by
  cases o with
  | reset => exact ⟨rfl, h.reset sim⟩
  | step =>
    obtain ⟨hresult, hcpu⟩ := h.step sim
    exact ⟨congrArg OperationReport.answerOf hresult, hcpu⟩
  | runUntil rounds judge =>
    refine h.ofRun sim (fun asked c d hsimilar => ?_) rounds
    exact congrArg (·, asked + 1) (hrespects asked c d hsimilar)
  | runFor | run => exact h.ofRun sim (fun _ _ _ _ => rfl) _
  | halt => exact ⟨rfl, h.requestHalt.setState .halted⟩
  | requestHalt => exact ⟨rfl, h.requestHalt⟩
  | resume =>
    refine ⟨rfl, { h with haltRequested := rfl, state := ?_ }⟩
    show (if c.state = .halted then _ else c.state) = if d.state = .halted then _ else d.state
    rw [h.state]
  | triggerNmi => exact ⟨rfl, { h with nmiLatched := rfl }⟩
  | setIrq => exact ⟨rfl, { h with irqLine := rfl }⟩
  | setPolicy => exact ⟨rfl, { h with policy := rfl }⟩
  | interrupt kind => exact ⟨rfl, h.interrupt sim kind⟩
  | load origin program =>
    obtain ⟨hresult, hcpu⟩ := h.transact (sim.loadAt origin program)
    exact ⟨congrArg OperationReport.answerOf hresult, hcpu⟩
  | readByte address => exact h.ofTransaction (sim.request (.readByte address)) .byte
  | writeByte address value => exact h.ofTransaction (sim.request (.writeByte address value)) _
  | peekByte address => exact h.ofTransaction (sim.request (.peekByte address)) .byte
  | readWord address => exact h.ofTransaction (sim.request (.readWord address)) .word
  | readSplitWord low high => exact h.ofTransaction (sim.request (.readSplitWord low high)) .word
  | writeWord address word => exact h.ofTransaction (sim.writeWord address word) _
  | list address =>
    refine h.ofTransaction ?_ .entry
    rw [← Conversation.transaction_entryAt, ← Conversation.transaction_entryAt]
    exact sim.conversation _
  | traceLine =>
    obtain ⟨hline, hcpu⟩ := h.transact (sim.conversation c.regs.traceLine)
    simp only [Operation.apply, Operation.along, traceLine_eq, ← h.regs]
    exact ⟨congrArg Answer.line hline, hcpu⟩

/-- Hosts of similar processors get the same answers, and the processors stay similar. -/
theorem applyAllAlong (sim : Simulation R tracing tracing') (h : Similar R c d)
    {view : Cpu δ → Cpu β} {operations : List (Operation β)}
    (hrespects : ∀ o ∈ operations, o.RespectsAlong R view) :
    (Operation.applyAll tracing c operations).1 =
        (Operation.applyAll tracing' d (operations.map (Operation.along view))).1 ∧
      Similar R (Operation.applyAll tracing c operations).2
        (Operation.applyAll tracing' d (operations.map (Operation.along view))).2 := by
  induction operations generalizing c d with
  | nil => exact ⟨rfl, h⟩
  | cons o rest ih =>
    rw [List.forall_mem_cons] at hrespects
    obtain ⟨hanswer, hnext⟩ := h.applyAlong sim hrespects.1
    obtain ⟨hanswers, hlast⟩ := ih hnext hrespects.2
    refine ⟨?_, hlast⟩
    show _ :: _ = _ :: _
    rw [hanswer, hanswers]

/-- A host gets the same answers from similar processors, and they stay similar. -/
theorem applyAll {R : β → β → Prop} {d : Cpu β} (sim : Simulation R tracing tracing')
    (h : Similar R c d) {operations : List (Operation β)}
    (hrespects : ∀ o ∈ operations, o.Respects R) :
    (Operation.applyAll tracing c operations).1 = (Operation.applyAll tracing' d operations).1 ∧
      Similar R (Operation.applyAll tracing c operations).2
        (Operation.applyAll tracing' d operations).2 := by
  have halong : ∀ o ∈ operations, o.RespectsAlong R id := by
    intro o ho
    have h := hrespects o ho
    cases o <;> exact h
  have hsame : operations.map (Operation.along id) = operations :=
    (List.map_congr_left fun o _ => o.along_id).trans (List.map_id operations)
  have happlied := h.applyAllAlong sim halong
  rwa [hsame] at happlied

end Cpu.Similar

end Nes6502
