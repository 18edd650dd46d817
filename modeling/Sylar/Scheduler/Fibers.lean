/-
Fibers on the threads of a `Scheduler` (`fiber.cpp`, `scheduler.cpp`).

A thread of the scheduler is a program counter in `run()` (`Phase`) and its `cb_fiber`. The steps are the ones another
thread can see: the queue-locked selection, binding a callback to `cb_fiber`, `swapIn`, what the fiber does while it
runs (register itself as a waiter, schedule tasks), setting `m_state` in `YieldToHold`, `YieldToReady` or at the end
of `MainFunc`, `swapOut` saving the context, the reads of `m_state` that `run()` makes one after another when `swapIn`
returns, and the write of `HOLD`. A registered fiber is scheduled by an event or a timer at any moment (`wake`), by
whichever thread. A label that does not fit the phase of its thread does nothing; a failed assertion stops everything.

The idle fiber of a thread is never in the queue and is left out, and so is a scan that finds nothing.

The only guard against running a fiber twice is its state, and the state is set before the context is saved, and set
again by `run()` afterwards:
- `fiber_runs_alone`: if no thread selects a fiber that another thread still has in its hands (`Meets`), then no fiber
  is swapped in while it is executing elsewhere, and `run()` writes no state of a fiber that has been resumed
  elsewhere.
- `fiber_runs_twice`: two threads, one fiber that waits for an event: both go wrong.
-/
import Mathlib.Tactic
import Sylar.Core.Run

namespace Sylar.Fibers

open Sylar.Core

/-- `Fiber::State` -/
inductive State where
  | init
  | hold
  | exec
  | term
  | ready
  | except
deriving DecidableEq, Repr

/-- what an entry of `m_fibers` holds -/
inductive Work where
  | fiber (f : ℕ)
  | cb (id : ℕ)
deriving DecidableEq, Repr

/-- `FiberAndThread`; `thread` is `none` for -1 -/
structure Task where
  work : Work
  thread : Option ℕ
deriving DecidableEq, Repr

/-- where a thread stands; `cb` if the fiber is its `cb_fiber` and not a fiber from the queue -/
inductive Phase where
  | scan
  /-- a callback is selected and not bound to `cb_fiber` yet -/
  | bind
  | selected (f : ℕ) (cb : Bool)
  | exec (f : ℕ) (cb : Bool)
  /-- `m_state` is set, the context is not saved -/
  | leaving (f : ℕ) (cb : Bool)
  /-- `swapIn` has returned -/
  | back (f : ℕ) (cb : Bool)
  /-- the state was not `READY` -/
  | test1 (f : ℕ) (cb : Bool)
  | test2 (f : ℕ) (cb : Bool)
  /-- before `m_state = HOLD` -/
  | hold (f : ℕ) (cb : Bool)
  /-- before `cb_fiber->reset(nullptr)` -/
  | reset (f : ℕ)
deriving DecidableEq, Repr

structure Th where
  phase : Phase
  cbFiber : Option ℕ
deriving DecidableEq, Repr

structure St (n : ℕ) where
  state : ℕ → State
  queue : List Task
  /-- the fibers waiting for an event or a timer, once for every registration -/
  waiting : List ℕ
  active : ℕ
  /-- the number of fibers created so far -/
  created : ℕ
  aborted : Bool
  threads : Fin n → Th

inductive Act where
  | select
  | bind
  | swapIn
  | register
  | scheduleCb (id : ℕ) (thread : Option ℕ)
  | scheduleFiber (thread : Option ℕ)
  /-- `YieldToHold`, `YieldToReady`, or the end of `MainFunc` -/
  | setState (st : State)
  | save
  | testReady
  | test
  | writeHold
  | resetCb
  | wake (f : ℕ)
deriving DecidableEq, Repr

section
variable {n : ℕ}

def St.setState (s : St n) (f : ℕ) (st : State) : St n := { s with state := Function.update s.state f st }

def St.set (s : St n) (t : Fin n) (th : Th) : St n := { s with threads := Function.update s.threads t th }

def St.goto (s : St n) (t : Fin n) (p : Phase) : St n := s.set t { s.threads t with phase := p }

def St.push (s : St n) (task : Task) : St n := { s with queue := s.queue ++ [task] }

/-- the entry is for this thread, and is not a fiber in state `EXEC` -/
def St.eligible (s : St n) (t : Fin n) (task : Task) : Bool :=
  (task.thread.elim true fun i => decide (i = t)) &&
    match task.work with
    | .fiber f => decide (s.state f ≠ .exec)
    | .cb _ => true

/-- the first eligible entry, with its position -/
def St.pick (s : St n) (t : Fin n) : Option (ℕ × Work) :=
  (s.queue.findIdx? (s.eligible t)).bind fun i => s.queue[i]?.map fun task => (i, task.work)

/-- `reset` asserts that the fiber is not in the middle of its function -/
def State.resettable (st : State) : Bool := decide (st = .term ∨ st = .init ∨ st = .except)

/-- how `run()` lets go of the fiber: `ft.reset()`, or `cb_fiber.reset()` -/
def Th.drop (th : Th) (cb : Bool) : Th := { phase := .scan, cbFiber := if cb then none else th.cbFiber }

/-- the two tests after `READY`, in the order of the branch: `TERM` first for a fiber, `EXCEPT` first for a callback -/
def firstTest (cb : Bool) : State := if cb then .except else .term
def secondTest (cb : Bool) : State := if cb then .term else .except

/-- a finished fiber is let go, a finished `cb_fiber` is kept and reset -/
def finished (f : ℕ) (cb : Bool) : Phase := if cb then .reset f else .scan

/-- the locked part of the loop of `run()` -/
def St.select (s : St n) (t : Fin n) : St n :=
  match (s.threads t).phase, s.pick t with
  | .scan, some (i, .fiber f) =>
    St.goto { s with queue := s.queue.eraseIdx i, active := s.active + 1 } t (.selected f false)
  | .scan, some (i, .cb _) => St.goto { s with queue := s.queue.eraseIdx i, active := s.active + 1 } t .bind
  | _, _ => s

/-- bind a callback: `cb_fiber->reset(ft.cb)`, or a new fiber -/
def St.bind (s : St n) (t : Fin n) : St n :=
  match (s.threads t).phase, (s.threads t).cbFiber with
  | .bind, some f =>
    if (s.state f).resettable then (s.setState f .init).goto t (.selected f true) else { s with aborted := true }
  | .bind, none =>
    (St.setState { s with created := s.created + 1 } s.created .init).set t ⟨.selected s.created true, some s.created⟩
  | _, _ => s

def St.swapIn (s : St n) (t : Fin n) : St n :=
  match (s.threads t).phase with
  | .selected f cb =>
    if s.state f = .exec then { s with aborted := true } else (s.setState f .exec).goto t (.exec f cb)
  | _ => s

/-- what a fiber does while it runs -/
def St.whileRunning (s : St n) (t : Fin n) (act : ℕ → Bool → St n) : St n :=
  match (s.threads t).phase with
  | .exec f cb => act f cb
  | _ => s

/-- the first half of `YieldToHold` and `YieldToReady`, and the end of `MainFunc` -/
def St.leave (s : St n) (t : Fin n) (st : State) : St n :=
  s.whileRunning t fun f cb =>
    if st = .hold ∨ st = .ready ∨ st = .term ∨ st = .except then (s.setState f st).goto t (.leaving f cb) else s

def St.save (s : St n) (t : Fin n) : St n :=
  match (s.threads t).phase with
  | .leaving f cb => s.goto t (.back f cb)
  | _ => s

/-- `--m_activeThreadCount`, and the test for `READY` -/
def St.testReady (s : St n) (t : Fin n) : St n :=
  match (s.threads t).phase with
  | .back f cb =>
    let s := { s with active := s.active - 1 }
    if s.state f = .ready then (s.push ⟨.fiber f, none⟩).set t ((s.threads t).drop cb) else s.goto t (.test1 f cb)
  | _ => s

def St.test (s : St n) (t : Fin n) : St n :=
  match (s.threads t).phase with
  | .test1 f cb => s.goto t (if s.state f = firstTest cb then finished f cb else .test2 f cb)
  | .test2 f cb => s.goto t (if s.state f = secondTest cb then finished f cb else .hold f cb)
  | _ => s

def St.writeHold (s : St n) (t : Fin n) : St n :=
  match (s.threads t).phase with
  | .hold f cb => (s.setState f .hold).set t ((s.threads t).drop cb)
  | _ => s

def St.resetCb (s : St n) (t : Fin n) : St n :=
  match (s.threads t).phase with
  | .reset f => if (s.state f).resettable then (s.setState f .init).goto t .scan else { s with aborted := true }
  | _ => s

/-- one step of thread `l.1` -/
def step (s : St n) (l : Fin n × Act) : St n :=
  if s.aborted then s
  else
    match l.2 with
    | .select => s.select l.1
    | .bind => s.bind l.1
    | .swapIn => s.swapIn l.1
    | .register => s.whileRunning l.1 fun f _ => { s with waiting := s.waiting ++ [f] }
    | .scheduleCb id thread => s.whileRunning l.1 fun _ _ => s.push ⟨.cb id, thread⟩
    | .scheduleFiber thread => s.whileRunning l.1 fun _ _ =>
      (St.setState { s with created := s.created + 1 } s.created .init).push ⟨.fiber s.created, thread⟩
    | .setState st => s.leave l.1 st
    | .save => s.save l.1
    | .testReady => s.testReady l.1
    | .test => s.test l.1
    | .writeHold => s.writeHold l.1
    | .resetCb => s.resetCb l.1
    | .wake f => if f ∈ s.waiting then St.push { s with waiting := s.waiting.erase f } ⟨.fiber f, none⟩ else s

/-! ## Who has a fiber in its hands -/

def Phase.fiber : Phase → Option ℕ
  | .scan | .bind => none
  | .selected f _ | .exec f _ | .leaving f _ | .back f _ | .test1 f _ | .test2 f _ | .hold f _ | .reset f => some f

/-- the thread has selected the fiber and not let go of it yet, or keeps it as its `cb_fiber` -/
def Th.Holds (th : Th) (f : ℕ) : Prop := th.phase.fiber = some f ∨ th.cbFiber = some f

instance (th : Th) (f : ℕ) : Decidable (th.Holds f) := inferInstanceAs (Decidable (_ ∨ _))

/-- the thread executes the fiber: its context is not saved -/
def Th.executes (th : Th) (f : ℕ) : Bool :=
  match th.phase with
  | .exec g _ | .leaving g _ => decide (g = f)
  | _ => false

/-- the thread has swapped the fiber in and not let go of it yet -/
def Th.resumed (th : Th) (f : ℕ) : Bool :=
  match th.phase with
  | .exec g _ | .leaving g _ | .back g _ | .test1 g _ | .test2 g _ | .hold g _ | .reset g => decide (g = f)
  | _ => false

/-- no other thread executes the fiber -/
def St.AloneExec (s : St n) (t : Fin n) (f : ℕ) : Prop := ∀ i, i ≠ t → (s.threads i).executes f = false

/-- no other thread has resumed the fiber -/
def St.AloneResumed (s : St n) (t : Fin n) (f : ℕ) : Prop := ∀ i, i ≠ t → (s.threads i).resumed f = false

/-- a fiber that is swapped in is not executing on another thread, and a fiber whose state `run()` writes (to `HOLD`,
or to `INIT` in `reset`) has not been resumed by another thread -/
def Safe (s : St n) (l : Fin n × Act) : Prop :=
  match l.2, (s.threads l.1).phase with
  | .swapIn, .selected f _ => s.state f ≠ .exec → s.AloneExec l.1 f
  | .writeHold, .hold f _ => s.AloneResumed l.1 f
  | .resetCb, .reset f => s.AloneResumed l.1 f
  | .bind, .bind => ∀ f, (s.threads l.1).cbFiber = some f → s.AloneResumed l.1 f
  | _, _ => True

/-- no thread selects a fiber that another thread has in its hands: selected and not swapped in yet, yielding with its
context not saved, not yet let go by `run()`, or kept as `cb_fiber` -/
def Meets (s : St n) (l : Fin n × Act) : Prop :=
  match l.2, (s.threads l.1).phase, s.pick l.1 with
  | .select, .scan, some (_, .fiber f) => ∀ t, t ≠ l.1 → ¬(s.threads t).Holds f
  | _, _, _ => True

instance (s : St n) (l : Fin n × Act) : Decidable (Meets s l) := by
  unfold Meets
  split <;> infer_instance

/-! ## The invariant -/

/-- a fiber is in the hands of one thread at most, and all fibers around have been created -/
structure Inv (s : St n) : Prop where
  owner : ∀ t t' f, (s.threads t).Holds f → (s.threads t').Holds f → t = t'
  held : ∀ t f, (s.threads t).Holds f → f < s.created
  queued : ∀ task ∈ s.queue, ∀ f, task.work = .fiber f → f < s.created
  waiting : ∀ f ∈ s.waiting, f < s.created

/-- **A step that takes nothing into its hands.** -/
theorem Inv.keep {s s' : St n} (h : Inv s) (t : Fin n) (th : Th) (hth : s'.threads = Function.update s.threads t th)
    (hholds : ∀ f, th.Holds f → (s.threads t).Holds f) (hcreated : s.created ≤ s'.created)
    (hqueue : ∀ task ∈ s'.queue, ∀ f, task.work = .fiber f → f < s'.created)
    (hwaiting : ∀ f ∈ s'.waiting, f < s'.created) : Inv s' := by
  have hback : ∀ i f, (s'.threads i).Holds f → (s.threads i).Holds f := by
    intro i f hi
    rw [hth] at hi
    by_cases hit : i = t
    · subst hit
      rw [Function.update_self] at hi
      exact hholds f hi
    · rwa [Function.update_of_ne hit] at hi
  exact ⟨fun i j f hi hj => h.owner i j f (hback i f hi) (hback j f hj),
    fun i f hi => (h.held i f (hback i f hi)).trans_le hcreated, hqueue, hwaiting⟩

/-- **A step that takes one fiber no other thread has.** -/
theorem Inv.take {s s' : St n} (h : Inv s) (t : Fin n) (th : Th) (hth : s'.threads = Function.update s.threads t th)
    (g : ℕ) (hg : g < s'.created) (hfree : ∀ i, i ≠ t → ¬(s.threads i).Holds g)
    (hholds : ∀ f, th.Holds f → f = g ∨ (s.threads t).Holds f) (hcreated : s.created ≤ s'.created)
    (hqueue : ∀ task ∈ s'.queue, ∀ f, task.work = .fiber f → f < s'.created)
    (hwaiting : ∀ f ∈ s'.waiting, f < s'.created) : Inv s' := by
  have hback : ∀ i f, (s'.threads i).Holds f → (s.threads i).Holds f ∨ i = t ∧ f = g := by
    intro i f hi
    rw [hth] at hi
    by_cases hit : i = t
    · subst hit
      rw [Function.update_self] at hi
      exact (hholds f hi).symm.imp_right fun e => ⟨rfl, e⟩
    · rw [Function.update_of_ne hit] at hi
      exact Or.inl hi
  refine ⟨fun i j f hi hj => ?_, fun i f hi => ?_, hqueue, hwaiting⟩
  · rcases hback i f hi with hi | ⟨rfl, rfl⟩ <;> rcases hback j f hj with hj | ⟨rfl, hf⟩
    · exact h.owner i j f hi hj
    · by_contra hne
      exact hfree i hne (hf ▸ hi)
    · by_contra hne
      exact hfree j (Ne.symm hne) hj
    · rfl
  · rcases hback i f hi with hi | ⟨-, rfl⟩
    · exact (h.held i f hi).trans_le hcreated
    · exact hg

/-- the thread moves on with the fiber it has, or without one -/
theorem Inv.moved {s s' : St n} (h : Inv s) (t : Fin n) (p : Phase)
    (hp : ∀ f, p.fiber = some f → (s.threads t).Holds f) (hth : s'.threads = (s.goto t p).threads)
    (hcreated : s'.created = s.created) (hqueue : ∀ task ∈ s'.queue, task ∈ s.queue)
    (hwaiting : s'.waiting = s.waiting) : Inv s' := by
  refine h.keep t _ hth (fun f hf => ?_) hcreated.ge (fun task ht f hf => ?_) (fun f hf => ?_)
  · rcases hf with hf | hf
    · exact hp f hf
    · exact Or.inr hf
  · rw [hcreated]
    exact h.queued task (hqueue task ht) f hf
  · rw [hcreated]
    exact h.waiting f (hwaiting ▸ hf)

/-- the thread lets go of its fiber, possibly after putting it into the queue -/
theorem Inv.dropped {s s' : St n} (h : Inv s) (t : Fin n) (cb : Bool)
    (hth : s'.threads = Function.update s.threads t ((s.threads t).drop cb)) (hcreated : s'.created = s.created)
    (hqueue : ∀ task ∈ s'.queue, task ∈ s.queue ∨ ∃ f, task.work = .fiber f ∧ (s.threads t).Holds f)
    (hwaiting : s'.waiting = s.waiting) : Inv s' := by
  refine h.keep t _ hth (fun f hf => ?_) hcreated.ge (fun task ht f hf => ?_) (fun f hf => ?_)
  · rcases hf with hf | hf
    · cases hf
    · cases cb with
      | true => cases hf
      | false => exact Or.inr hf
  · rw [hcreated]
    rcases hqueue task ht with hq | ⟨g, hg, hh⟩
    · exact h.queued task hq f hf
    · rw [hg, Work.fiber.injEq] at hf
      exact hf ▸ h.held t g hh
  · rw [hcreated]
    exact h.waiting f (hwaiting ▸ hf)

/-- no thread moves; what comes into the queue or starts to wait has been created -/
theorem Inv.enqueue {s s' : St n} (h : Inv s) (hth : s'.threads = s.threads) (hcreated : s.created ≤ s'.created)
    (hqueue : ∀ task ∈ s'.queue, task ∈ s.queue ∨ ∀ f, task.work = .fiber f → f < s'.created)
    (hwaiting : ∀ f ∈ s'.waiting, f ∈ s.waiting ∨ f < s'.created) : Inv s' := by
  refine ⟨fun i j f hi hj => h.owner i j f (hth ▸ hi) (hth ▸ hj), fun i f hi => ?_, fun task ht f hf => ?_,
    fun f hf => ?_⟩
  · exact (h.held i f (hth ▸ hi)).trans_le hcreated
  · rcases hqueue task ht with hq | hq
    · exact (h.queued task hq f hf).trans_le hcreated
    · exact hq f hf
  · rcases hwaiting f hf with hw | hw
    · exact (h.waiting f hw).trans_le hcreated
    · exact hw

theorem holds_of_phase {th : Th} {f : ℕ} (h : th.phase.fiber = some f) : th.Holds f := Or.inl h

theorem pick_mem {s : St n} {t : Fin n} {i : ℕ} {work : Work} (h : s.pick t = some (i, work)) :
    ∃ task ∈ s.queue, task.work = work := by
  obtain ⟨j, -, hj⟩ := Option.bind_eq_some_iff.1 h
  obtain ⟨task, htask, heq⟩ := Option.map_eq_some_iff.1 hj
  simp only [Prod.mk.injEq] at heq
  exact ⟨task, List.mem_of_getElem? htask, heq.2⟩

theorem select_inv {s : St n} (h : Inv s) {t : Fin n} (hm : Meets s (t, .select)) : Inv (s.select t) := by
  unfold St.select
  split
  · -- a fiber comes into the hands of `t`; no other thread has it
    rename_i i f hp hpick
    simp only [Meets, hp, hpick] at hm
    obtain ⟨task, htask, hwork⟩ := pick_mem hpick
    refine h.take t _ rfl f (h.queued task htask f hwork) hm (fun g hg => ?_) le_rfl (fun x hx => ?_) h.waiting
    · rcases hg with hg | hg
      · exact Or.inl (by simpa [Phase.fiber] using hg.symm)
      · exact Or.inr (Or.inr hg)
    · exact h.queued x (List.mem_of_mem_eraseIdx hx)
  · rename_i i id hp hpick
    exact h.moved t .bind (fun f hf => by cases hf) rfl rfl (fun x hx => List.mem_of_mem_eraseIdx hx) rfl
  · exact h

theorem bind_inv {s : St n} (h : Inv s) (t : Fin n) : Inv (s.bind t) := by
  unfold St.bind
  split
  · rename_i f hp hcb
    split_ifs
    · refine h.moved t _ (fun g hg => ?_) rfl rfl (fun x hx => hx) rfl
      simp only [Phase.fiber, Option.some.injEq] at hg
      exact Or.inr (hg ▸ hcb)
    · exact h.enqueue rfl le_rfl (fun x hx => Or.inl hx) (fun x hx => Or.inl hx)
  · -- a new fiber: nobody has it yet
    rename_i hp hcb
    refine h.take t _ rfl s.created (Nat.lt_succ_self _) (fun i _ hi => ?_) (fun g hg => ?_) (Nat.le_succ _)
      (fun x hx f hf => (h.queued x hx f hf).trans (Nat.lt_succ_self _))
      (fun f hf => (h.waiting f hf).trans (Nat.lt_succ_self _))
    · exact (h.held i s.created hi).false
    · refine Or.inl ?_
      rcases hg with hg | hg <;> simpa [Phase.fiber] using hg.symm
  · exact h

theorem whileRunning_inv {s : St n} (h : Inv s) (t : Fin n) {act : ℕ → Bool → St n}
    (hact : ∀ f cb, (s.threads t).phase = .exec f cb → Inv (act f cb)) : Inv (s.whileRunning t act) := by
  unfold St.whileRunning
  split
  · rename_i f cb hp
    exact hact f cb hp
  · exact h

theorem testReady_inv {s : St n} (h : Inv s) (t : Fin n) : Inv (s.testReady t) := by
  unfold St.testReady
  split
  · rename_i f cb hp
    have hholds : (s.threads t).Holds f := holds_of_phase (by rw [hp]; rfl)
    dsimp only
    split_ifs
    · refine h.dropped t cb rfl rfl (fun x hx => ?_) rfl
      rcases List.mem_append.1 hx with hx | hx
      · exact Or.inl hx
      · exact Or.inr ⟨f, by rw [List.mem_singleton.1 hx], hholds⟩
    · exact h.moved t _ (fun g hg => by cases hg; exact hholds) rfl rfl (fun x hx => hx) rfl
  · exact h

theorem test_inv {s : St n} (h : Inv s) (t : Fin n) : Inv (s.test t) := by
  have hmove : ∀ f cb (st : State) (p : Phase), (s.threads t).Holds f → p.fiber = some f →
      Inv (s.goto t (if s.state f = st then finished f cb else p)) := by
    intro f cb st p hholds hp
    refine h.moved t _ (fun g hg => ?_) rfl rfl (fun x hx => hx) rfl
    split_ifs at hg
    · cases cb <;> cases hg
      exact hholds
    · rw [hp] at hg
      cases hg
      exact hholds
  unfold St.test
  split
  · rename_i f cb hp
    exact hmove f cb _ _ (holds_of_phase (by rw [hp]; rfl)) rfl
  · rename_i f cb hp
    exact hmove f cb _ _ (holds_of_phase (by rw [hp]; rfl)) rfl
  · exact h

/-- **Step.** -/
theorem step_inv (s : St n) (l : Fin n × Act) (hm : Meets s l) (h : Inv s) : Inv (step s l) := by
  obtain ⟨t, a⟩ := l
  unfold step
  split_ifs with hab
  · exact h
  dsimp only
  cases a with
  | select => exact select_inv h hm
  | bind => exact bind_inv h t
  | swapIn =>
    dsimp only
    unfold St.swapIn
    split
    · rename_i f cb hp
      split_ifs
      · exact h.enqueue rfl le_rfl (fun x hx => Or.inl hx) (fun x hx => Or.inl hx)
      · exact h.moved t _ (fun g hg => by cases hg; exact holds_of_phase (by rw [hp]; rfl)) rfl rfl (fun x hx => hx) rfl
    · exact h
  | register =>
    refine whileRunning_inv h t fun f cb hp => h.enqueue rfl le_rfl (fun x hx => Or.inl hx) fun g hg => ?_
    rcases List.mem_append.1 hg with hg | hg
    · exact Or.inl hg
    · exact Or.inr (List.mem_singleton.1 hg ▸ h.held t f (holds_of_phase (by rw [hp]; rfl)))
  | scheduleCb id thread =>
    refine whileRunning_inv h t fun f cb hp => h.enqueue rfl le_rfl (fun x hx => ?_) fun g hg => Or.inl hg
    rcases List.mem_append.1 hx with hx | hx
    · exact Or.inl hx
    · exact Or.inr fun g hg => by rw [List.mem_singleton.1 hx] at hg; cases hg
  | scheduleFiber thread =>
    refine whileRunning_inv h t fun f cb hp =>
      h.enqueue rfl (Nat.le_succ _) (fun x hx => ?_) fun g hg => Or.inl hg
    rcases List.mem_append.1 hx with hx | hx
    · exact Or.inl hx
    · exact Or.inr fun g hg => by
        rw [List.mem_singleton.1 hx] at hg
        cases hg
        exact Nat.lt_succ_self _
  | setState st =>
    refine whileRunning_inv h t fun f cb hp => ?_
    split_ifs
    · exact h.moved t _ (fun g hg => by cases hg; exact holds_of_phase (by rw [hp]; rfl)) rfl rfl (fun x hx => hx) rfl
    · exact h
  | save =>
    dsimp only
    unfold St.save
    split
    · rename_i f cb hp
      exact h.moved t _ (fun g hg => by cases hg; exact holds_of_phase (by rw [hp]; rfl)) rfl rfl (fun x hx => hx) rfl
    · exact h
  | testReady => exact testReady_inv h t
  | test => exact test_inv h t
  | writeHold =>
    dsimp only
    unfold St.writeHold
    split
    · rename_i f cb hp
      exact h.dropped t cb rfl rfl (fun x hx => Or.inl hx) rfl
    · exact h
  | resetCb =>
    dsimp only
    unfold St.resetCb
    split
    · split_ifs
      · exact h.moved t .scan (fun g hg => by cases hg) rfl rfl (fun x hx => hx) rfl
      · exact h.enqueue rfl le_rfl (fun x hx => Or.inl hx) (fun x hx => Or.inl hx)
    · exact h
  | wake f =>
    dsimp only
    split_ifs with hf
    · refine h.enqueue rfl le_rfl (fun x hx => ?_) fun g hg => Or.inl (List.mem_of_mem_erase hg)
      rcases List.mem_append.1 hx with hx | hx
      · exact Or.inl hx
      · exact Or.inr fun g hg => by
          rw [List.mem_singleton.1 hx] at hg
          cases hg
          exact h.waiting f hf
    · exact h

/-! ## Safety -/

theorem holds_of_resumed {th : Th} {f : ℕ} (h : th.resumed f = true) : th.Holds f := by
  cases hp : th.phase with
  | scan | bind | selected => simp [Th.resumed, hp] at h
  | exec g | leaving g | back g | test1 g | test2 g | hold g | reset g =>
    simp only [Th.resumed, hp, decide_eq_true_eq] at h
    exact holds_of_phase (by rw [hp, Phase.fiber, h])

theorem resumed_of_executes {th : Th} {f : ℕ} (h : th.executes f = true) : th.resumed f = true := by
  cases hp : th.phase with
  | exec | leaving => simpa [Th.executes, Th.resumed, hp] using h
  | _ => simp [Th.executes, hp] at h

theorem Inv.safe (s : St n) (l : Fin n × Act) (h : Inv s) : Safe s l := by
  -- the thread of the step has the fiber in its hands, so no other thread has
  have hres : ∀ f, (s.threads l.1).Holds f → s.AloneResumed l.1 f := by
    intro f hf i hi
    by_contra hc
    exact hi (h.owner i l.1 f (holds_of_resumed (by simpa using hc)) hf)
  have hexec : ∀ f, (s.threads l.1).Holds f → s.AloneExec l.1 f := by
    intro f hf i hi
    by_contra hc
    have : (s.threads i).resumed f = true := resumed_of_executes (by simpa using hc)
    rw [hres f hf i hi] at this
    cases this
  unfold Safe
  split
  · rename_i f cb _ hp
    exact fun _ => hexec f (holds_of_phase (by rw [hp]; rfl))
  · rename_i f cb _ hp
    exact hres f (holds_of_phase (by rw [hp]; rfl))
  · rename_i f _ hp
    exact hres f (holds_of_phase (by rw [hp]; rfl))
  · exact fun f hf => hres f (Or.inr hf)
  · trivial

/-- all threads are at the top of `run()` with no `cb_fiber`; the queue and the waiting list hold created fibers -/
structure Start (s : St n) : Prop where
  threads : ∀ t, s.threads t = ⟨.scan, none⟩
  queued : ∀ task ∈ s.queue, ∀ f, task.work = .fiber f → f < s.created
  waiting : ∀ f ∈ s.waiting, f < s.created

theorem Start.inv {s : St n} (h : Start s) : Inv s := by
  have hnone : ∀ t f, ¬(s.threads t).Holds f := by
    rintro t f (hf | hf) <;> rw [h.threads t] at hf <;> cases hf
  exact ⟨fun t _ f hf => absurd hf (hnone t f), fun t f hf => absurd hf (hnone t f), h.queued, h.waiting⟩

/-- **No fiber runs on two threads.** For every number of threads and every interleaving in which no thread selects a
fiber another thread has in its hands, every step is safe. -/
theorem fiber_runs_alone (s : St n) (hs : Start s) (ls : List (Fin n × Act)) (h : Along Meets step s ls) :
    Along Safe step s ls :=
  (run_along step_inv (fun s l _ hi => hi.safe s l) ls hs.inv h).1

end

theorem safe_swapIn {n : ℕ} {s : St n} {t : Fin n} (h : Safe s (t, .swapIn)) {f : ℕ} {cb : Bool}
    (hp : (s.threads t).phase = .selected f cb) (hst : s.state f ≠ .exec) : s.AloneExec t f := by
  simp only [Safe, hp] at h
  exact h hst

theorem safe_writeHold {n : ℕ} {s : St n} {t : Fin n} (h : Safe s (t, .writeHold)) {f : ℕ} {cb : Bool}
    (hp : (s.threads t).phase = .hold f cb) : s.AloneResumed t f := by
  simpa only [Safe, hp] using h

/-- two threads, and one fiber in the queue -/
def oneFiber : St 2 :=
  { state := fun _ => .init, queue := [⟨.fiber 0, none⟩], waiting := [], active := 0, created := 1, aborted := false,
    threads := fun _ => ⟨.scan, none⟩ }

theorem oneFiber_start : Start oneFiber :=
  ⟨fun _ => rfl, fun task ht f hf => by
    rw [List.mem_singleton.1 ht] at hf
    cases hf
    exact Nat.one_pos, fun _ hf => absurd hf (by simp [oneFiber])⟩

/-- thread 0 runs the fiber until it waits, it is woken, and thread 1 goes on with it when thread 0 has let it go -/
theorem fiber_runs_alone_two :
    Along Safe step oneFiber [(0, .select), (0, .swapIn), (0, .register), (0, .setState .hold), (0, .save),
      (0, .testReady), (0, .test), (0, .test), (0, .writeHold), (1, .wake 0), (1, .select), (1, .swapIn)] :=
  fiber_runs_alone oneFiber oneFiber_start _ (by decide)

/-- the fiber registers itself and sets its state to `HOLD`; it is woken and selected by thread 1 -/
def wokenUnsaved : List (Fin 2 × Act) :=
  [(0, .select), (0, .swapIn), (0, .register), (0, .setState .hold), (1, .wake 0), (1, .select)]

/-- the same after its context is saved; thread 1 goes on with it before the `run()` of thread 0 looks at its state -/
def wokenUntested : List (Fin 2 × Act) :=
  [(0, .select), (0, .swapIn), (0, .register), (0, .setState .hold), (0, .save), (1, .wake 0), (1, .select), (1, .swapIn),
    (0, .testReady), (0, .test), (0, .test)]

/-- In the first run thread 1 swaps the fiber in while thread 0 still executes it; in the second `run()` of thread 0
writes `HOLD` over the `EXEC` of the fiber thread 1 runs. -/
theorem fiber_runs_twice : ¬Along Safe step oneFiber (wokenUnsaved ++ [(1, .swapIn)]) ∧
    ¬Along Safe step oneFiber (wokenUntested ++ [(0, .writeHold)]) := by
  constructor
  · intro h
    have hexec := @safe_swapIn _ _ _ h.append.2.1 0 false (by decide) (by decide) 0 (by decide)
    revert hexec
    decide
  · intro h
    have hres := @safe_writeHold _ _ _ h.append.2.1 0 false (by decide) 1 (by decide)
    revert hres
    decide

end Sylar.Fibers
