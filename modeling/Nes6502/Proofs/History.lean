import Nes6502.Operation
import Nes6502.Proofs.Run

/-!
# Histories

A run is one operation of the host, however many instructions it executes, and most of what there is
to say about interrupts concerns single instructions. So the operations of a host are taken apart
here: a run into its steps and the requests to halt of its watcher, every other operation into
itself. The history of a sequence of operations is the list of its moments, each a single operation
with the processor before it.

## What is proved

* `Operation.applyAll_unroll`: the single operations of a run lead where the run leads.
* `Operation.course_history`: each moment of a history begins where the one before it has ended.
* `Course.invariant`: what single operations preserve, a history preserves.
-/

set_option autoImplicit false

namespace Nes6502

variable {σ β : Type} [Bus β]

/-- A single operation, and the processor that it is carried out on. -/
structure Moment (β : Type) where
  before : Cpu β
  operation : Operation β

/-- The processor afterwards. -/
def Moment.after (tracing : Bool) (m : Moment β) : Cpu β := (m.operation.apply tracing m.before).cpu

namespace Operation

/-- Whether an operation is no run. -/
def Single : Operation β → Prop
  | .runUntil _ _ | .runFor _ | .run _ => False
  | _ => True

/-! ## Runs taken apart -/

/-- The single operations of a run. A run that begins with a request pending halts the processor. A
watcher that asks to halt without stopping the run lets one more step be tried, which is refused. -/
def unrollRun (tracing : Bool) (w : Watcher σ β) :
    (rounds : Nat) → (s : σ) → Cpu β → List (Operation β)
  | 0, _, _ => []
  | rounds + 1, s, c =>
    if c.haltRequested then [.halt]
    else match w.observe s c with
      | (⟨true, false⟩, _) => []
      | (⟨true, true⟩, _) => [.requestHalt]
      | (⟨false, true⟩, _) => [.requestHalt, .step]
      | (⟨false, false⟩, next) =>
        .step :: match (c.step tracing).result with
          | .ok () => unrollRun tracing w rounds next (c.step tracing).cpu
          | .error _ => []

/-- The single operations that an operation consists of. -/
def unroll (tracing : Bool) (c : Cpu β) : Operation β → List (Operation β)
  | .runUntil rounds judge => unrollRun tracing (.counting judge) rounds 0 c
  | .runFor limit => unrollRun tracing (.budget limit) (limit + 1) 0 c
  | .run rounds => unrollRun tracing .never rounds 0 c
  | o => [o]

/-- A watcher who lets the run go on sees a step. -/
theorem unrollRun_go {tracing : Bool} {w : Watcher σ β} {s : σ} {c : Cpu β}
    (hfree : c.haltRequested = false) (hgo : (w.observe s c).1 = ⟨false, false⟩) (rounds : Nat) :
    unrollRun tracing w (rounds + 1) s c =
      .step :: match (c.step tracing).result with
        | .ok () => unrollRun tracing w rounds (w.observe s c).2 (c.step tracing).cpu
        | .error _ => [] := by
  rcases hobserve : w.observe s c with ⟨verdict, next⟩
  rw [hobserve] at hgo
  cases hgo
  simp [unrollRun, hfree, hobserve]

/-- The last single operations of a run lead to its end. -/
theorem applyAll_unrollRun_end {tracing : Bool} {w : Watcher σ β} {executed : Nat} {s t : σ}
    {c d : Cpu β} {result : RunResult} (h : Cpu.RunEnd tracing w executed s c result d t)
    (rounds : Nat) : (applyAll tracing c (unrollRun tracing w (rounds + 1) s c)).2 = d := by
  rcases hobserve : w.observe s c with ⟨⟨stop, ask⟩, next⟩
  cases h with
  | requested h =>
    have hhalted : c.halt = c.setState .halted := by
      simp only [Cpu.halt, Cpu.requestHalt, Cpu.setState, h]
    simp only [unrollRun, h, if_true, applyAll, apply, hhalted]
  | stopped hfree hstop =>
    rw [hobserve] at hstop ⊢
    have hstop : stop = true := hstop
    subst hstop
    cases ask <;> simp [unrollRun, hfree, hobserve, applyAll, apply, OperationReport.silent]
  | asked hfree hask =>
    rw [hobserve] at hask
    cases hask
    have hrefuses : c.requestHalt.refuses = true := rfl
    simp [unrollRun, hfree, hobserve, applyAll, apply, OperationReport.silent,
      Cpu.step_of_refuses tracing hrefuses, Cpu.halt]
  | failed hfree hgo hfault =>
    rw [unrollRun_go hfree hgo, hfault]
    rfl

theorem applyAll_unrollRun (tracing : Bool) (w : Watcher σ β) (rounds executed : Nat) (s : σ)
    (events : Array Event) (c : Cpu β) :
    (applyAll tracing c (unrollRun tracing w rounds s c)).2 =
      (c.continueUntil tracing w rounds executed s events).cpu := by
  induction rounds generalizing executed s events c with
  | zero => rfl
  | succ rounds ih =>
    rcases Cpu.round_or_end tracing w executed s c with
      ⟨hfree, hgo, hok⟩ | ⟨result, d, t, hend⟩
    · rw [unrollRun_go hfree hgo, hok, Cpu.continueUntil_round hfree hgo hok]
      exact ih _ _ _ _
    · obtain ⟨_, hreport⟩ := Cpu.continueUntil_end hend events
      rw [applyAll_unrollRun_end hend, hreport]

/-- The single operations of an operation lead where the operation leads. -/
theorem applyAll_unroll (tracing : Bool) (c : Cpu β) (o : Operation β) :
    (applyAll tracing c (o.unroll tracing c)).2 = (o.apply tracing c).cpu := by
  cases o with
  | runUntil rounds judge => exact applyAll_unrollRun tracing _ rounds 0 0 #[] c
  | runFor limit => exact applyAll_unrollRun tracing _ (limit + 1) 0 0 #[] c
  | run rounds => exact applyAll_unrollRun tracing _ rounds 0 0 #[] c
  | _ => rfl

theorem single_of_mem_unrollRun {tracing : Bool} {w : Watcher σ β} {rounds : Nat} {s : σ}
    {c : Cpu β} {o : Operation β} (h : o ∈ unrollRun tracing w rounds s c) : o.Single := by
  induction rounds generalizing s c with
  | zero => cases h
  | succ rounds ih =>
    unfold unrollRun at h
    split at h
    · rw [List.mem_singleton.mp h]
      exact True.intro
    · split at h
      · cases h
      · rw [List.mem_singleton.mp h]
        exact True.intro
      · simp only [List.mem_cons, List.not_mem_nil, or_false] at h
        rcases h with rfl | rfl <;> exact True.intro
      · rcases List.mem_cons.mp h with rfl | hrest
        · exact True.intro
        · split at hrest
          · exact ih hrest
          · cases hrest

theorem single_of_mem_unroll {tracing : Bool} {c : Cpu β} {o single : Operation β}
    (h : single ∈ o.unroll tracing c) : single.Single := by
  cases o with
  | runUntil | runFor | run => exact single_of_mem_unrollRun h
  | _ =>
    rw [List.mem_singleton.mp h]
    exact True.intro

/-! ## Moments -/

/-- The moments of operations carried out one after the other, each taken as it is. -/
def moments (tracing : Bool) (c : Cpu β) : List (Operation β) → List (Moment β)
  | [] => []
  | o :: rest => ⟨c, o⟩ :: moments tracing (o.apply tracing c).cpu rest

/-- The moments of operations carried out one after the other, with runs taken apart. -/
def history (tracing : Bool) (c : Cpu β) : List (Operation β) → List (Moment β)
  | [] => []
  | o :: rest =>
    moments tracing c (o.unroll tracing c) ++ history tracing (o.apply tracing c).cpu rest

end Operation

/-- Moments of single operations, the first one of the processor `c` and each later one of the
processor that the one before has left; `d` is the processor after them. -/
inductive Course (tracing : Bool) : Cpu β → List (Moment β) → Cpu β → Prop
  | refl (c : Cpu β) : Course tracing c [] c
  | moment {c d : Cpu β} {o : Operation β} {rest : List (Moment β)} (hsingle : o.Single)
      (hrest : Course tracing (o.apply tracing c).cpu rest d) : Course tracing c (⟨c, o⟩ :: rest) d

namespace Course

variable {tracing : Bool} {c d e : Cpu β} {earlier later : List (Moment β)}

theorem append (h : Course tracing c earlier d) (h' : Course tracing d later e) :
    Course tracing c (earlier ++ later) e := by
  induction h with
  | refl c => exact h'
  | moment hsingle _ ih => exact .moment hsingle (ih h')

theorem split (h : Course tracing c (earlier ++ later) e) :
    ∃ d, Course tracing c earlier d ∧ Course tracing d later e := by
  induction earlier generalizing c with
  | nil => exact ⟨c, .refl c, h⟩
  | cons m earlier ih =>
    cases h with
    | moment hsingle hrest =>
      obtain ⟨d, hearlier, hlater⟩ := ih hrest
      exact ⟨d, .moment hsingle hearlier, hlater⟩

/-- A moment in the middle: its processor is the one that the earlier moments lead to, and the later
moments go on where it ends. -/
theorem split_cons {m : Moment β} (h : Course tracing c (earlier ++ m :: later) e) :
    Course tracing c earlier m.before ∧ m.operation.Single ∧
      Course tracing (m.after tracing) later e := by
  obtain ⟨d, hearlier, hrest⟩ := h.split
  cases hrest with
  | moment hsingle hrest => exact ⟨hearlier, hsingle, hrest⟩

/-- From the end of one moment to the beginning of a later one. -/
theorem between {m n : Moment β} {between : List (Moment β)}
    (h : Course tracing c (earlier ++ m :: (between ++ n :: later)) e) :
    Course tracing (m.after tracing) between n.before :=
  h.split_cons.2.2.split_cons.1

/-- What single operations preserve, a course of them preserves. -/
theorem invariant {I : Cpu β → Prop} (h : Course tracing c earlier d)
    (hkeeps : ∀ m ∈ earlier, m.operation.Single → I m.before → I (m.after tracing)) (hc : I c) :
    I d := by
  induction h with
  | refl c => exact hc
  | moment hsingle _ ih =>
    rw [List.forall_mem_cons] at hkeeps
    exact ih hkeeps.2 (hkeeps.1 hsingle hc)

end Course

namespace Operation

theorem course_moments (tracing : Bool) (c : Cpu β) {operations : List (Operation β)}
    (h : ∀ o ∈ operations, o.Single) :
    Course tracing c (moments tracing c operations) (applyAll tracing c operations).2 := by
  induction operations generalizing c with
  | nil => exact .refl c
  | cons o rest ih =>
    rw [List.forall_mem_cons] at h
    exact .moment h.1 (ih _ h.2)

/-- Each moment of a history begins where the one before it has ended, and the last one ends where
the operations end. -/
theorem course_history (tracing : Bool) (c : Cpu β) (operations : List (Operation β)) :
    Course tracing c (history tracing c operations) (applyAll tracing c operations).2 := by
  induction operations generalizing c with
  | nil => exact .refl c
  | cons o rest ih =>
    have hfirst : Course tracing c (moments tracing c (o.unroll tracing c))
        (applyAll tracing c (o.unroll tracing c)).2 :=
      course_moments tracing c fun _ => single_of_mem_unroll
    rw [applyAll_unroll] at hfirst
    exact hfirst.append (ih _)

end Operation

end Nes6502
