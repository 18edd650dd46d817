/-
The loop of `Scheduler::run` on a single thread, with the states of its fibers (`scheduler.cpp`, `fiber.cpp`).

A turn of the loop takes the first entry of the queue that is for this thread and whose fiber is not in `EXEC`, and
swaps it in: a fiber as it is, a callback on `cb_fiber`. What the task does is up to the labels: it yields `READY` or
`HOLD`, returns or throws; meanwhile, and at any other time, anybody schedules fibers and callbacks. A fiber whose
function is empty can only throw `bad_function_call`. A finished fiber that is swapped in runs off the end of
`MainFunc`, which ends the thread.

The test before `swapIn` reads `state != TERM || state != EXCEPT`, which every state passes.
- `finished_not_resumed`: as long as no fiber is scheduled that has finished, and none finishes that is still in the
  queue (`Ok`), `swapIn` meets `INIT`, `HOLD` and `READY` alone, `reset` is called on finished and fresh fibers alone,
  and the thread counts no active task between tasks.
- `scheduled_twice`: a fiber in the queue twice, which returns the first time.
-/
import Mathlib.Tactic
import Sylar.Core.Run
import Sylar.Scheduler.Fibers

namespace Sylar.RunLoop

open Sylar.Core Sylar.Fibers

/-- where the thread is -/
inductive Phase where
  /-- between tasks, at the top of the loop -/
  | scan
  /-- in a fiber; `cb` if it is `cb_fiber` with a callback -/
  | running (f : ℕ) (cb : Bool)
  /-- in the idle fiber -/
  | idling
  /-- `run()` has returned, or the thread has ended inside a fiber, or an assertion has failed -/
  | gone
deriving DecidableEq, Repr

structure St where
  state : ℕ → State
  /-- `m_cb` is not empty -/
  fn : ℕ → Bool
  queue : List Fibers.Task
  cbFiber : Option ℕ
  /-- the number of fibers created so far -/
  created : ℕ
  /-- the state of the idle fiber -/
  idle : State
  /-- `m_activeThreadCount` -/
  active : ℕ
  phase : Phase
  /-- the states that `swapIn` has been called in -/
  swapIns : List State
  /-- the states that `reset` has been called in -/
  resets : List State

def start : St :=
  { state := fun _ => .init, fn := fun _ => true, queue := [], cbFiber := none, created := 0, idle := .init, active := 0,
    phase := .scan, swapIns := [], resets := [] }

inductive Label where
  /-- a fiber is created outside; the main fiber of a thread is in `EXEC` -/
  | newFiber (main : Bool)
  | schedule (task : Fibers.Task)
  /-- one turn of the loop, up to the task -/
  | turn
  | yieldReady
  | yieldHold
  /-- the function of the fiber returns -/
  | ret
  | throw
  /-- the idle fiber yields, or its function returns -/
  | idleHold
  | idleReturn
deriving DecidableEq, Repr

/-- `TERM` or `EXCEPT` -/
def finished (st : State) : Bool := decide (st = .term ∨ st = .except)

section
variable (me : ℕ)

/-- the entry is for thread `me` -/
def forMe (task : Fibers.Task) : Bool := task.thread.elim true fun i => decide (i = me)

def St.eligible (s : St) (task : Fibers.Task) : Bool :=
  forMe me task &&
    match task.work with
    | .fiber f => decide (s.state f ≠ .exec)
    | .cb _ => true

/-- the first eligible entry, with its position -/
def St.pick (s : St) : Option (ℕ × Work) :=
  (s.queue.findIdx? (s.eligible me)).bind fun i => s.queue[i]?.map fun task => (i, task.work)

def St.setState (s : St) (f : ℕ) (st : State) : St := { s with state := Function.update s.state f st }

def St.push (s : St) (task : Fibers.Task) : St := { s with queue := s.queue ++ [task] }

/-- `Fiber::swapIn` -/
def St.swapIn (s : St) (f : ℕ) (cb : Bool) : St :=
  let s := { s with swapIns := s.swapIns ++ [s.state f] }
  if s.state f = .exec then { s with phase := .gone }
  else if finished (s.state f) then { s.setState f .exec with phase := .gone }
  else { s.setState f .exec with phase := .running f cb }

/-- `Fiber::reset`; `cb` if the new function is not empty -/
def St.reset (s : St) (f : ℕ) (cb : Bool) : St :=
  let s := { s with resets := s.resets ++ [s.state f] }
  if (s.state f).resettable then { s.setState f .init with fn := Function.update s.fn f cb } else { s with phase := .gone }

/-- `new Fiber`, in the given state -/
def St.newFiber (s : St) (st : State) : St :=
  { s.setState s.created st with fn := Function.update s.fn s.created true, created := s.created + 1 }

/-- a callback: bind it to `cb_fiber` and swap that in -/
def St.runCb (s : St) : St :=
  match s.cbFiber with
  | some c => if (s.reset c true).phase = .gone then s.reset c true else (s.reset c true).swapIn c true
  | none => St.swapIn { s.newFiber .init with cbFiber := some s.created } s.created true

/-- one turn of the loop, up to the `swapIn`; entries without fiber and callback are never in the queue -/
def St.turn (s : St) : St :=
  match s.phase, s.pick me with
  | .scan, some (i, .fiber f) => St.swapIn { s with queue := s.queue.eraseIdx i, active := s.active + 1 } f false
  | .scan, some (i, .cb _) => St.runCb { s with queue := s.queue.eraseIdx i, active := s.active + 1 }
  | .scan, none =>
    if s.idle = .term then { s with phase := .gone }
    else { s with swapIns := s.swapIns ++ [s.idle], idle := .exec, phase := .idling }
  | _, _ => s

/-- `ft.reset()`, or `cb_fiber.reset()` of the pointer -/
def St.drop (s : St) (cb : Bool) : St := { s with cbFiber := if cb then none else s.cbFiber }

/-- `swapIn` has returned -/
def St.back (s : St) (f : ℕ) (cb : Bool) : St :=
  let s := { s with active := s.active - 1, phase := .scan }
  if s.state f = .ready then (s.push ⟨.fiber f, none⟩).drop cb
  else if finished (s.state f) then if cb then s.reset f false else s
  else (s.setState f .hold).drop cb

/-- the running fiber sets its state and swaps out; an empty function can only throw -/
def St.leave (s : St) (st : State) : St :=
  match s.phase with
  | .running f cb =>
    if s.fn f = true ∨ st = .except then
      St.back { s.setState f st with fn := Function.update s.fn f (s.fn f && decide (st ≠ .term)) } f cb
    else s
  | _ => s

def St.idleBack (s : St) (st : State) : St := if s.phase = .idling then { s with idle := st, phase := .scan } else s

def stepAlive (s : St) : Label → St
  | .newFiber main => s.newFiber (if main then .exec else .init)
  | .schedule task =>
    match task.work with
    | .fiber f => if f < s.created then s.push task else s
    | .cb _ => s.push task
  | .turn => s.turn me
  | .yieldReady => s.leave .ready
  | .yieldHold => s.leave .hold
  | .ret => s.leave .term
  | .throw => s.leave .except
  | .idleHold => s.idleBack .hold
  | .idleReturn => s.idleBack .term

def step (s : St) (l : Label) : St := if s.phase = .gone then s else stepAlive me s l

/-! ## What must not happen -/

/-- the entry is a callback for this thread -/
def isCallback (task : Fibers.Task) : Bool :=
  forMe me task &&
    match task.work with
    | .fiber _ => false
    | .cb _ => true

/-- an entry of `f` for this thread is in the queue, and if `f` is the fiber `c` that callbacks are bound to, no
callback is before it -/
def Waits (c : Option ℕ) (f : ℕ) (queue : List Fibers.Task) : Prop :=
  ∃ (j : ℕ) (task : Fibers.Task), queue[j]? = some task ∧ forMe me task = true ∧ task.work = .fiber f ∧
    (c = some f → ∀ i < j, ∀ u, queue[i]? = some u → isCallback me u = false)

/-- the running fiber, if it is one from the queue -/
def St.fromQueue (s : St) : Option ℕ :=
  match s.phase with
  | .running f false => some f
  | _ => none

/-- a fiber is not scheduled once it has finished, and does not finish while it is in the queue. For the fiber that
callbacks are bound to, an entry behind a callback does no harm: binding the callback makes the fiber a fresh one. -/
def Ok (s : St) : Label → Prop
  | .schedule ⟨.fiber f, thread⟩ =>
    finished (s.state f) = true → forMe me ⟨.fiber f, thread⟩ = true →
      s.cbFiber = some f ∧ ∃ task ∈ s.queue, isCallback me task = true
  | .ret => ∀ f ∈ s.fromQueue, s.fn f = true → ¬Waits me s.cbFiber f s.queue
  | .throw => ∀ f ∈ s.fromQueue, ¬Waits me s.cbFiber f s.queue
  | _ => True

theorem waits_iff {c : Option ℕ} {f : ℕ} {queue : List Fibers.Task} :
    Waits me c f queue ↔ ∃ j ∈ List.range queue.length, ∃ task ∈ queue, queue[j]? = some task ∧ forMe me task = true ∧
      task.work = .fiber f ∧ (c = some f → ∀ u ∈ queue.take j, isCallback me u = false) := by
  constructor
  · rintro ⟨j, task, hj, hme, hw, hbefore⟩
    refine ⟨j, List.mem_range.mpr (List.getElem?_eq_some_iff.mp hj).1, task, List.mem_of_getElem? hj, hj, hme, hw, ?_⟩
    intro hc u hu
    obtain ⟨i, hi, rfl⟩ := List.mem_take_iff_getElem.mp hu
    exact hbefore hc i (by omega) _ (List.getElem?_eq_getElem _)
  · rintro ⟨j, -, task, -, hj, hme, hw, hbefore⟩
    refine ⟨j, task, hj, hme, hw, ?_⟩
    intro hc i hi u hu
    obtain ⟨hlt, rfl⟩ := List.getElem?_eq_some_iff.mp hu
    exact hbefore hc _ (List.mem_take_iff_getElem.mpr ⟨i, by omega, rfl⟩)

instance (c : Option ℕ) (f : ℕ) (queue : List Fibers.Task) : Decidable (Waits me c f queue) :=
  decidable_of_iff _ (waits_iff me).symm

instance (s : St) : (l : Label) → Decidable (Ok me s l)
  | .schedule ⟨.fiber _, _⟩ => inferInstanceAs (Decidable (_ → _ → _ ∧ _))
  | .ret => Option.decidableForallMem s.fromQueue
  | .throw => Option.decidableForallMem s.fromQueue
  | .schedule ⟨.cb _, _⟩ | .newFiber _ | .turn | .yieldReady | .yieldHold | .idleHold | .idleReturn => isTrue trivial

/-- what `run()` promises, so far -/
structure Sound (s : St) : Prop where
  swapIns : ∀ st ∈ s.swapIns, st = .init ∨ st = .hold ∨ st = .ready
  resets : ∀ st ∈ s.resets, st.resettable = true
  between : s.phase = .scan → s.active = 0

end

/-! ## Entries in the queue -/

section
variable {me : ℕ} {c : Option ℕ} {f : ℕ}

/-- for a fiber that callbacks are not bound to, the order in the queue does not matter -/
theorem Waits.congr {c' : Option ℕ} {queue : List Fibers.Task} (h : Waits me c f queue) (h' : c' ≠ some f) :
    Waits me c' f queue := by
  obtain ⟨j, task, hj, hme, hw, -⟩ := h
  exact ⟨j, task, hj, hme, hw, fun hc => absurd hc h'⟩

/-- an entry that is taken out leaves no fiber waiting that did not wait before, unless it was a callback -/
theorem Waits.of_erase {queue : List Fibers.Task} {k : ℕ} {e : Fibers.Task} (hk : queue[k]? = some e)
    (hcb : c = some f → isCallback me e = false) (h : Waits me c f (queue.eraseIdx k)) : Waits me c f queue := by
  obtain ⟨j, task, hj, hme, hw, hbefore⟩ := h
  simp only [List.getElem?_eraseIdx] at hj hbefore
  by_cases hjk : j < k
  · rw [if_pos hjk] at hj
    refine ⟨j, task, hj, hme, hw, ?_⟩
    intro hc i hi u hu
    apply hbefore hc i hi u
    rwa [if_pos (by omega)]
  · rw [if_neg hjk] at hj
    refine ⟨j + 1, task, hj, hme, hw, ?_⟩
    intro hc i hi u hu
    rcases lt_trichotomy i k with hik | rfl | hik
    · apply hbefore hc i (by omega) u
      rwa [if_pos hik]
    · obtain rfl := Option.some.inj (hk.symm.trans hu)
      exact hcb hc
    · apply hbefore hc (i - 1) (by omega) u
      rw [if_neg (by omega)]
      rwa [Nat.sub_add_cancel (by omega)]

/-- a fiber that waits once an entry is added waited before, or is the one of the entry, with no callback before it -/
theorem Waits.of_append {queue : List Fibers.Task} {e : Fibers.Task} (h : Waits me c f (queue ++ [e])) :
    Waits me c f queue ∨
      (forMe me e = true ∧ e.work = .fiber f ∧ (c = some f → ∀ u ∈ queue, isCallback me u = false)) := by
  obtain ⟨j, task, hj, hme, hw, hbefore⟩ := h
  have hfront : ∀ {i : ℕ} {u : Fibers.Task}, queue[i]? = some u → (queue ++ [e])[i]? = some u := by
    intro i u hu
    rw [List.getElem?_append_left (List.getElem?_eq_some_iff.mp hu).1, hu]
  rcases Nat.lt_or_ge j queue.length with hlt | hge
  · rw [List.getElem?_append_left hlt] at hj
    exact .inl ⟨j, task, hj, hme, hw, fun hc i hi u hu => hbefore hc i hi u (hfront hu)⟩
  · rw [List.getElem?_append_right hge] at hj
    obtain ⟨-, rfl⟩ : j - queue.length = 0 ∧ e = task := by
      cases hd : j - queue.length with
      | zero => simpa [hd] using hj
      | succ d => simp [hd] at hj
    refine .inr ⟨hme, hw, fun hc u hu => ?_⟩
    obtain ⟨i, hi, rfl⟩ := List.getElem_of_mem hu
    exact hbefore hc i (by omega) _ (hfront (List.getElem?_eq_getElem hi))

/-- the entry a turn takes, which is behind no callback for this thread -/
theorem pick_spec {s : St} {i : ℕ} {w : Work} (hpick : s.pick me = some (i, w)) :
    ∃ task, s.queue[i]? = some task ∧ task.work = w ∧ s.eligible me task = true ∧
      ∀ k < i, ∀ u, s.queue[k]? = some u → isCallback me u = false := by
  obtain ⟨i', hfirst, htask⟩ := Option.bind_eq_some_iff.mp hpick
  obtain ⟨task, hi, heq⟩ := Option.map_eq_some_iff.mp htask
  obtain ⟨rfl, hw⟩ : i' = i ∧ task.work = w := by simpa using heq
  obtain ⟨hlt, helig, hbefore⟩ := List.findIdx?_eq_some_iff_getElem.mp hfirst
  rw [List.getElem?_eq_getElem hlt] at hi
  obtain rfl := Option.some.inj hi
  refine ⟨_, List.getElem?_eq_getElem hlt, hw, helig, ?_⟩
  intro k hk u hu
  obtain ⟨hk', rfl⟩ := List.getElem?_eq_some_iff.mp hu
  -- a callback for this thread would have been taken
  by_contra hcb
  apply hbefore k hk
  rw [Bool.not_eq_false, isCallback, Bool.and_eq_true_iff] at hcb
  rw [St.eligible, Bool.and_eq_true_iff]
  refine ⟨hcb.1, ?_⟩
  cases hwork : (s.queue[k]).work with
  | fiber g =>
    rw [hwork] at hcb
    exact absurd hcb.2 Bool.false_ne_true
  | cb _ => rfl

/-- a turn that takes a fiber takes one that waits -/
theorem waits_of_pick {s : St} {i : ℕ} (hpick : s.pick me = some (i, .fiber f)) (c : Option ℕ) :
    Waits me c f s.queue := by
  obtain ⟨task, hi, hw, helig, hbefore⟩ := pick_spec hpick
  exact ⟨i, task, hi, (Bool.and_eq_true_iff.mp helig).1, hw, fun _ => hbefore⟩

/-! ## The invariant -/

/-- what `cb_fiber` is while another fiber runs or none does: reset to no function, or finished by the exception of its
empty function -/
def Kept (s : St) (c : ℕ) : Prop := (s.state c = .init ∧ s.fn c = false) ∨ s.state c = .except

structure Inv (me : ℕ) (s : St) : Prop where
  queued : ∀ task ∈ s.queue, ∀ f, task.work = .fiber f → f < s.created
  bound : ∀ c, s.cbFiber = some c → c < s.created
  /-- no finished fiber is the next of its entries to be taken -/
  waits : ∀ f, finished (s.state f) = true → ¬Waits me s.cbFiber f s.queue
  swapIns : ∀ st ∈ s.swapIns, st = .init ∨ st = .hold ∨ st = .ready
  resets : ∀ st ∈ s.resets, st.resettable = true
  idle : s.phase ≠ .idling → s.idle = .init ∨ s.idle = .hold ∨ s.idle = .term
  between : s.phase = .scan ∨ s.phase = .idling → s.active = 0 ∧ ∀ c, s.cbFiber = some c → Kept s c
  running : ∀ f cb, s.phase = .running f cb → s.active = 1 ∧ f < s.created ∧ s.state f = .exec ∧
    (cb = true → s.cbFiber = some f) ∧
    (cb = false → ∀ c, s.cbFiber = some c → (c = f ∧ s.fn f = false) ∨ (c ≠ f ∧ Kept s c))

theorem start_inv (me : ℕ) : Inv me start := by
  refine ⟨nofun, nofun, nofun, nofun, nofun, fun _ => .inl rfl, fun _ => ⟨rfl, nofun⟩, nofun⟩

theorem Inv.sound {s : St} (h : Inv me s) : Sound s :=
  ⟨h.swapIns, h.resets, fun hscan => (h.between (.inl hscan)).1⟩

section
variable {s : St}

theorem Kept.frame {s' : St} {c : ℕ} (h : Kept s c) (hstate : s'.state c = s.state c) (hfn : s'.fn c = s.fn c) :
    Kept s' c := by
  rwa [Kept, hstate, hfn]

theorem Inv.newFiber (h : Inv me s) {st : State} (hst : finished st = false) : Inv me (s.newFiber st) := by
  have hstate : ∀ {f}, f < s.created → (s.newFiber st).state f = s.state f := fun hf => Function.update_of_ne hf.ne _ _
  have hfn : ∀ {f}, f < s.created → (s.newFiber st).fn f = s.fn f := fun hf => Function.update_of_ne hf.ne _ _
  have hkept : ∀ {c}, s.cbFiber = some c → Kept s c → Kept (s.newFiber st) c := fun hc hk =>
    hk.frame (hstate (h.bound _ hc)) (hfn (h.bound _ hc))
  refine ⟨?_, ?_, ?_, h.swapIns, h.resets, h.idle, ?_, ?_⟩
  · intro task ht f hf
    exact (h.queued task ht f hf).trans (Nat.lt_succ_self _)
  · intro c hc
    exact (h.bound c hc).trans (Nat.lt_succ_self _)
  · intro f hf
    by_cases hnew : f = s.created
    · subst hnew
      have hself : (s.newFiber st).state s.created = st := Function.update_self ..
      rw [hself, hst] at hf
      cases hf
    · have hold : (s.newFiber st).state f = s.state f := Function.update_of_ne hnew _ _
      rw [hold] at hf
      exact h.waits f hf
  · intro hphase
    obtain ⟨hactive, hcb⟩ := h.between hphase
    exact ⟨hactive, fun c hc => hkept hc (hcb c hc)⟩
  · intro f cb hphase
    obtain ⟨hactive, hf, hexec, hcb, hother⟩ := h.running f cb hphase
    refine ⟨hactive, hf.trans (Nat.lt_succ_self _), (hstate hf).trans hexec, hcb, fun hno c hc => ?_⟩
    rcases hother hno c hc with ⟨hcf, hnone⟩ | ⟨hcf, hk⟩
    · exact .inl ⟨hcf, (hfn hf).trans hnone⟩
    · exact .inr ⟨hcf, hkept hc hk⟩

/-- an entry is added that leaves no finished fiber waiting -/
theorem Inv.push (h : Inv me s) {task : Fibers.Task} (hq : ∀ f, task.work = .fiber f → f < s.created)
    (hok : ∀ f, finished (s.state f) = true → forMe me task = true → task.work = .fiber f →
      ¬(s.cbFiber = some f → ∀ u ∈ s.queue, isCallback me u = false)) : Inv me (s.push task) := by
  refine ⟨?_, h.bound, ?_, h.swapIns, h.resets, h.idle, h.between, h.running⟩
  · intro t ht f hf
    rcases List.mem_append.mp ht with ht | ht
    · exact h.queued t ht f hf
    · obtain rfl := List.mem_singleton.mp ht
      exact hq f hf
  · intro f hf hw
    rcases Waits.of_append hw with hw | ⟨hme, hwork, hbefore⟩
    · exact h.waits f hf hw
    · exact hok f hf hme hwork hbefore

/-- **Swapping in** a fiber that is neither executing nor finished, with the entry taken out of the queue. -/
theorem swapIn_eq (f : ℕ) (cb : Bool) (hexec : s.state f ≠ .exec) (hfin : finished (s.state f) = false) :
    s.swapIn f cb = { s.setState f .exec with swapIns := s.swapIns ++ [s.state f], phase := .running f cb } := by
  simp only [St.swapIn, hexec, if_false, hfin, Bool.false_eq_true]
  rfl

theorem swapIn_ok {st : State} (hexec : st ≠ .exec) (hfin : finished st = false) :
    st = .init ∨ st = .hold ∨ st = .ready := by
  cases st <;> simp_all [finished]

theorem reset_eq (f : ℕ) (cb : Bool) (h : (s.state f).resettable = true) :
    s.reset f cb =
      { s.setState f .init with resets := s.resets ++ [s.state f], fn := Function.update s.fn f cb } := by
  simp only [St.reset, h, if_true]
  rfl

/-- a fiber from the queue -/
theorem Inv.turnFiber (h : Inv me s) (hphase : s.phase = .scan) {i f : ℕ} (hpick : s.pick me = some (i, .fiber f)) :
    Inv me (St.swapIn { s with queue := s.queue.eraseIdx i, active := s.active + 1 } f false) := by
  obtain ⟨task, hi, hw, helig, -⟩ := pick_spec hpick
  have hexec : s.state f ≠ .exec := by
    rw [St.eligible, hw, Bool.and_eq_true_iff] at helig
    exact of_decide_eq_true helig.2
  have hfin : finished (s.state f) = false := by
    by_contra hne
    exact h.waits f (by simpa using hne) (waits_of_pick hpick s.cbFiber)
  obtain ⟨hactive, hkept⟩ := h.between (.inl hphase)
  have hswap := swapIn_eq (s := { s with queue := s.queue.eraseIdx i, active := s.active + 1 }) f false hexec hfin
  rw [hswap]
  refine ⟨?_, h.bound, ?_, ?_, h.resets, fun _ => h.idle (by rw [hphase]; nofun), ?_, ?_⟩
  · intro t ht g hg
    exact h.queued t (List.mem_of_mem_eraseIdx ht) g hg
  · intro g hg hwait
    have hne : g ≠ f := by
      rintro rfl
      simp [St.setState, finished] at hg
    have hold : finished (s.state g) = true := by
      simpa [St.setState, Function.update_of_ne hne] using hg
    refine h.waits g hold (Waits.of_erase hi ?_ hwait)
    intro _
    simp [isCallback, hw]
  · exact List.forall_mem_append.mpr ⟨h.swapIns, List.forall_mem_singleton.mpr (swapIn_ok hexec hfin)⟩
  · rintro (hs | hs) <;> cases hs
  · intro g cb hg
    obtain ⟨rfl, rfl⟩ : f = g ∧ false = cb := by simpa using hg
    refine ⟨by simp [hactive, St.setState], ?_, Function.update_self .., nofun, fun _ c hc => ?_⟩
    · exact h.queued task (List.mem_of_getElem? hi) f hw
    · by_cases hcf : c = f
      · subst hcf
        refine .inl ⟨rfl, ?_⟩
        rcases hkept c hc with ⟨-, hfn⟩ | hex
        · exact hfn
        · rw [hex] at hfin
          cases hfin
      · exact .inr ⟨hcf, (hkept c hc).frame (Function.update_of_ne hcf _ _) rfl⟩

theorem runCb_none (hc : s.cbFiber = none) :
    s.runCb =
      { (s.newFiber .init).setState s.created .exec with
        cbFiber := some s.created, swapIns := s.swapIns ++ [.init], phase := .running s.created true } := by
  have hinit : (s.newFiber .init).state s.created = .init := Function.update_self ..
  have hswap := swapIn_eq (s := { s.newFiber .init with cbFiber := some s.created }) s.created true
    (by rw [hinit]; nofun) (by rw [hinit]; rfl)
  rw [hinit] at hswap
  simp only [St.runCb, hc]
  rw [hswap]
  rfl

theorem runCb_some {c : ℕ} (hc : s.cbFiber = some c) (hres : (s.state c).resettable = true) (hphase : s.phase = .scan) :
    s.runCb =
      { (s.setState c .init).setState c .exec with
        fn := Function.update s.fn c true, resets := s.resets ++ [s.state c], swapIns := s.swapIns ++ [.init],
        phase := .running c true } := by
  have hinit : (s.reset c true).state c = .init := by
    rw [reset_eq c true hres]
    exact Function.update_self ..
  have hscan : (s.reset c true).phase ≠ .gone := by
    rw [reset_eq c true hres]
    exact fun hgone => by rw [show s.phase = .gone from hgone] at hphase; cases hphase
  simp only [St.runCb, hc, if_neg hscan]
  rw [swapIn_eq c true (by rw [hinit]; nofun) (by rw [hinit]; rfl), hinit, reset_eq c true hres]
  rfl

/-- **A callback** runs on the fiber `c`, to which it is bound; the others are as they were. -/
theorem Inv.runs (h : Inv me s) (hphase : s.phase = .scan) {i c : ℕ} {task : Fibers.Task} (hi : s.queue[i]? = some task)
    {s' : St} (hq : s'.queue = s.queue.eraseIdx i) (hcb : s'.cbFiber = some c) (hc : c < s'.created)
    (hcreated : s.created ≤ s'.created) (hexec : s'.state c = .exec) (hstate : ∀ g, g ≠ c → s'.state g = s.state g)
    (hother : ∀ g, g ≠ c → s.cbFiber ≠ some g) (hins : s'.swapIns = s.swapIns ++ [.init])
    (hres : ∀ st ∈ s'.resets, st.resettable = true) (hidle : s'.idle = s.idle) (hact : s'.active = 1)
    (hrunning : s'.phase = .running c true) : Inv me s' := by
  refine ⟨?_, ?_, ?_, ?_, hres, fun _ => hidle ▸ h.idle (by rw [hphase]; nofun), ?_, ?_⟩
  · intro t ht g hg
    rw [hq] at ht
    exact (h.queued t (List.mem_of_mem_eraseIdx ht) g hg).trans_le hcreated
  · intro c' hc'
    rw [hcb] at hc'
    obtain rfl := Option.some.inj hc'
    exact hc
  · intro g hg hwait
    have hne : g ≠ c := by
      rintro rfl
      rw [hexec] at hg
      cases hg
    rw [hstate g hne] at hg
    rw [hq] at hwait
    have hnot : s.cbFiber ≠ some g := hother g hne
    exact h.waits g hg (Waits.of_erase hi (fun hg => absurd hg hnot) (hwait.congr hnot))
  · rw [hins]
    exact List.forall_mem_append.mpr ⟨h.swapIns, List.forall_mem_singleton.mpr (.inl rfl)⟩
  · rw [hrunning]
    rintro (hs | hs) <;> cases hs
  · intro g cb hg
    rw [hrunning] at hg
    obtain ⟨rfl, rfl⟩ : c = g ∧ true = cb := by simpa using hg
    exact ⟨hact, hc, hexec, fun _ => hcb, nofun⟩

theorem Kept.resettable {c : ℕ} (h : Kept s c) : (s.state c).resettable = true := by
  rcases h with ⟨hinit, -⟩ | hex
  · rw [hinit]
    rfl
  · rw [hex]
    rfl

/-- a callback: `cb_fiber` is fit for it, and no finished fiber comes to the front -/
theorem Inv.turnCb (h : Inv me s) (hphase : s.phase = .scan) {i j : ℕ} (hpick : s.pick me = some (i, .cb j)) :
    Inv me (St.runCb { s with queue := s.queue.eraseIdx i, active := s.active + 1 }) := by
  obtain ⟨task, hi, -, -, -⟩ := pick_spec hpick
  obtain ⟨hactive, hkept⟩ := h.between (.inl hphase)
  have hact : s.active + 1 = 1 := by rw [hactive]
  rcases Option.eq_none_or_eq_some s.cbFiber with hc | ⟨c, hc⟩
  · have hrunCb := runCb_none (s := { s with queue := s.queue.eraseIdx i, active := s.active + 1 }) hc
    rw [hrunCb]
    refine h.runs hphase hi rfl rfl (Nat.lt_succ_self _) (Nat.le_succ _) (Function.update_self ..) ?_ (by simp [hc]) rfl
      h.resets rfl hact rfl
    intro g hg
    exact (Function.update_of_ne hg _ _).trans (Function.update_of_ne hg _ _)
  · have hres : (s.state c).resettable = true := (hkept c hc).resettable
    have hrunCb := runCb_some (s := { s with queue := s.queue.eraseIdx i, active := s.active + 1 }) hc hres hphase
    rw [hrunCb]
    refine h.runs hphase hi rfl hc (h.bound c hc) le_rfl (Function.update_self ..) ?_ ?_ rfl ?_ rfl hact rfl
    · intro g hg
      exact (Function.update_of_ne hg _ _).trans (Function.update_of_ne hg _ _)
    · intro g hg hcg
      rw [hc] at hcg
      exact hg (Option.some.inj hcg).symm
    · exact List.forall_mem_append.mpr ⟨h.resets, List.forall_mem_singleton.mpr hres⟩

/-- **One turn.** -/
theorem Inv.turn (h : Inv me s) : Inv me (s.turn me) := by
  unfold St.turn
  split
  · next hphase hpick => exact h.turnFiber hphase hpick
  · next hphase hpick => exact h.turnCb hphase hpick
  · next hphase _ =>
    have hidle := h.idle (by rw [hphase]; nofun)
    split_ifs with hterm
    · refine ⟨h.queued, h.bound, h.waits, h.swapIns, h.resets, fun _ => hidle, ?_, nofun⟩
      rintro (hs | hs) <;> cases hs
    · refine ⟨h.queued, h.bound, h.waits, ?_, h.resets, fun hne => absurd rfl hne, fun _ => h.between (.inl hphase),
        nofun⟩
      apply List.forall_mem_append.mpr ⟨h.swapIns, List.forall_mem_singleton.mpr _⟩
      rcases hidle with hi | hi | hi
      · exact .inl hi
      · exact .inr (.inl hi)
      · exact absurd hi hterm
  · exact h

/-- what coming back from the running fiber `f`, which is the only one that has changed, leaves -/
structure Back (me : ℕ) (s : St) (f : ℕ) (cb : Bool) (s' : St) : Prop where
  queue : s'.queue = s.queue ∨ s'.queue = s.queue ++ [⟨.fiber f, none⟩] ∧ finished (s'.state f) = false
  cbFiber : s'.cbFiber = s.cbFiber ∨ cb = true ∧ s'.cbFiber = none
  created : s'.created = s.created
  state : ∀ g, g ≠ f → s'.state g = s.state g
  fn : ∀ g, g ≠ f → s'.fn g = s.fn g
  fin : finished (s'.state f) = true → ¬Waits me s'.cbFiber f s'.queue
  kept : s'.cbFiber = some f → Kept s' f
  swapIns : s'.swapIns = s.swapIns
  resets : ∀ st ∈ s'.resets, st.resettable = true
  idle : s'.idle = s.idle
  active : s'.active = s.active - 1
  scan : s'.phase = .scan

/-- the other fibers wait as they did -/
theorem Inv.waits_back (h : Inv me s) {f : ℕ} {cb : Bool} (hphase : s.phase = .running f cb) {s' : St}
    (hb : Back me s f cb s') {g : ℕ} (hg : finished (s'.state g) = true) : ¬Waits me s'.cbFiber g s'.queue := by
  intro hwait
  by_cases hgf : g = f
  · subst hgf
    exact hb.fin hg hwait
  rw [hb.state g hgf] at hg
  have hold : Waits me s'.cbFiber g s.queue := by
    rcases hb.queue with hq | ⟨hq, -⟩
    · rwa [hq] at hwait
    · rw [hq] at hwait
      rcases hwait.of_append with hw | ⟨-, hw, -⟩
      · exact hw
      · exact absurd (by simpa using hw.symm) hgf
  rcases hb.cbFiber with he | ⟨htrue, -⟩
  · exact h.waits g hg (he ▸ hold)
  · -- callbacks were bound to `f`
    have hnot : s.cbFiber ≠ some g := by
      intro hcg
      rw [(h.running f cb hphase).2.2.2.1 htrue] at hcg
      exact hgf (Option.some.inj hcg).symm
    exact h.waits g hg (hold.congr hnot)

/-- `cb_fiber` is fit for a callback -/
theorem Inv.kept_back (h : Inv me s) {f : ℕ} {cb : Bool} (hphase : s.phase = .running f cb) {s' : St}
    (hb : Back me s f cb s') {c : ℕ} (hc : s'.cbFiber = some c) : Kept s' c := by
  obtain ⟨-, -, -, hcbf, hother⟩ := h.running f cb hphase
  by_cases hcf : c = f
  · subst hcf
    exact hb.kept hc
  have hc' : s.cbFiber = some c := by
    rcases hb.cbFiber with he | ⟨-, hnone⟩
    · exact he ▸ hc
    · rw [hnone] at hc
      cases hc
  cases cb with
  | false =>
    rcases hother rfl c hc' with ⟨he, -⟩ | ⟨-, hk⟩
    · exact absurd he hcf
    · exact hk.frame (hb.state c hcf) (hb.fn c hcf)
  | true =>
    rw [hcbf rfl] at hc'
    exact absurd (Option.some.inj hc').symm hcf

/-- **Coming back** from the running fiber. -/
theorem Inv.back (h : Inv me s) {f : ℕ} {cb : Bool} (hphase : s.phase = .running f cb) {s' : St}
    (hb : Back me s f cb s') : Inv me s' := by
  obtain ⟨hact, hf, -, -, -⟩ := h.running f cb hphase
  refine ⟨?_, ?_, fun g hg => h.waits_back hphase hb hg, hb.swapIns ▸ h.swapIns, hb.resets,
    fun _ => hb.idle ▸ h.idle (by rw [hphase]; nofun), fun _ => ⟨?_, fun c hc => h.kept_back hphase hb hc⟩, ?_⟩
  · intro t ht g hg
    rw [hb.created]
    rcases hb.queue with hq | ⟨hq, -⟩
    · exact h.queued t (hq ▸ ht) g hg
    · rw [hq] at ht
      rcases List.mem_append.mp ht with ht | ht
      · exact h.queued t ht g hg
      · obtain rfl := List.mem_singleton.mp ht
        obtain rfl : f = g := by simpa using hg
        exact hf
  · intro c hc
    rw [hb.created]
    rcases hb.cbFiber with he | ⟨-, hnone⟩
    · exact h.bound c (he ▸ hc)
    · rw [hnone] at hc
      cases hc
  · rw [hb.active, hact]
  · rw [hb.scan]
    nofun

theorem back_ready {f : ℕ} (cb : Bool) (hs : s.state f = .ready) :
    s.back f cb =
      { s with active := s.active - 1, phase := .scan, queue := s.queue ++ [⟨.fiber f, none⟩],
               cbFiber := if cb then none else s.cbFiber } := by
  simp only [St.back, hs, if_true]
  rfl

theorem back_hold {f : ℕ} (cb : Bool) (hs : s.state f = .hold) :
    s.back f cb =
      { s.setState f .hold with
        active := s.active - 1, phase := .scan, cbFiber := if cb then none else s.cbFiber } := by
  have hfin : finished State.hold = false := rfl
  simp only [St.back, hs, reduceCtorEq, if_false, hfin, Bool.false_eq_true]
  rfl

theorem back_finished {f : ℕ} (cb : Bool) (hs : finished (s.state f) = true) :
    s.back f cb =
      if cb then { s.setState f .init with
        active := s.active - 1, phase := .scan, resets := s.resets ++ [s.state f], fn := Function.update s.fn f false }
      else { s with active := s.active - 1, phase := .scan } := by
  have hready : s.state f ≠ .ready := by
    intro hr
    rw [hr] at hs
    cases hs
  have hres : (s.state f).resettable = true := by
    cases hst : s.state f <;> simp_all [finished, State.resettable]
  simp only [St.back, hready, if_false, hs, if_true]
  cases cb with
  | false => rfl
  | true => exact reset_eq (s := { s with active := s.active - 1, phase := .scan }) f false hres

/-- a fiber that callbacks are bound to and that runs from the queue has no function -/
theorem Inv.fn_of_bound (h : Inv me s) {f : ℕ} (hphase : s.phase = .running f false) (hc : s.cbFiber = some f) :
    s.fn f = false := by
  obtain ⟨-, -, -, -, hother⟩ := h.running f false hphase
  rcases hother rfl f hc with ⟨-, hno⟩ | ⟨hne, -⟩
  · exact hno
  · exact absurd rfl hne

/-- the running fiber yields, so it has a function, and callbacks are not bound to it any more -/
theorem Inv.yields (h : Inv me s) {f : ℕ} {cb : Bool} (hphase : s.phase = .running f cb) {st : State}
    (hst : st = .ready ∨ st = .hold) (hown : s.fn f = true) {fn' : ℕ → Bool} (hfn : ∀ g, g ≠ f → fn' g = s.fn g) :
    Inv me (St.back { s.setState f st with fn := fn' } f cb) := by
  have hstate : ∀ g, g ≠ f → Function.update s.state f st g = s.state g := fun g hg => Function.update_of_ne hg _ _
  have hself : Function.update s.state f st f = st := Function.update_self ..
  have hfree : (if cb then none else s.cbFiber) ≠ some f := by
    cases cb with
    | false =>
      intro hc
      rw [h.fn_of_bound hphase hc] at hown
      cases hown
    | true =>
      intro hc
      cases hc
  have hcb : (if cb then none else s.cbFiber) = s.cbFiber ∨ cb = true ∧ (if cb then none else s.cbFiber) = none := by
    cases cb with
    | false => exact .inl rfl
    | true => exact .inr ⟨rfl, rfl⟩
  rcases hst with rfl | rfl
  · rw [back_ready cb hself]
    have hready : finished (Function.update s.state f .ready f) = false := congrArg finished hself
    exact h.back hphase
      { queue := .inr ⟨rfl, hready⟩, cbFiber := hcb, created := rfl, state := hstate, fn := hfn
        fin := fun hf => absurd (hready.symm.trans hf) Bool.false_ne_true
        kept := fun hc => absurd hc hfree, swapIns := rfl, resets := h.resets, idle := rfl, active := rfl, scan := rfl }
  · rw [back_hold cb hself]
    have hhold : finished (Function.update (Function.update s.state f .hold) f .hold f) = false := by
      rw [Function.update_self]
      rfl
    exact h.back hphase
      { queue := .inl rfl, cbFiber := hcb, created := rfl
        state := fun g hg => (Function.update_of_ne hg _ _).trans (hstate g hg), fn := hfn
        fin := fun hf => absurd (hhold.symm.trans hf) Bool.false_ne_true
        kept := fun hc => absurd hc hfree, swapIns := rfl, resets := h.resets, idle := rfl, active := rfl, scan := rfl }

/-- the running fiber finishes, and no entry of it comes next; `cb_fiber` is reset -/
theorem Inv.finishes (h : Inv me s) {f : ℕ} {cb : Bool} (hphase : s.phase = .running f cb) {st : State}
    (hfin : finished st = true) (hcan : s.fn f = true ∨ st = .except) (hok : cb = false → ¬Waits me s.cbFiber f s.queue)
    {fn' : ℕ → Bool} (hfn : ∀ g, g ≠ f → fn' g = s.fn g) :
    Inv me (St.back { s.setState f st with fn := fn' } f cb) := by
  have hstate : ∀ g, g ≠ f → Function.update s.state f st g = s.state g := fun g hg => Function.update_of_ne hg _ _
  have hself : Function.update s.state f st f = st := Function.update_self ..
  rw [back_finished cb ((congrArg finished hself).trans hfin)]
  cases cb with
  | false =>
    have hkept : s.cbFiber = some f → st = .except := by
      intro hc
      apply hcan.resolve_left
      rw [h.fn_of_bound hphase hc]
      exact Bool.false_ne_true
    exact h.back hphase
      { queue := .inl rfl, cbFiber := .inl rfl, created := rfl, state := hstate, fn := hfn, fin := fun _ => hok rfl
        kept := fun hc => .inr (hself.trans (hkept hc)), swapIns := rfl, resets := h.resets, idle := rfl, active := rfl
        scan := rfl }
  | true =>
    have hinit : finished (Function.update (Function.update s.state f st) f .init f) = false := by
      rw [Function.update_self]
      rfl
    have hres : (Function.update s.state f st f).resettable = true := by
      rw [hself]
      cases st <;> simp_all [finished, State.resettable]
    exact h.back hphase
      { queue := .inl rfl, cbFiber := .inl rfl, created := rfl
        state := fun g hg => (Function.update_of_ne hg _ _).trans (hstate g hg)
        fn := fun g hg => (Function.update_of_ne hg _ _).trans (hfn g hg)
        fin := fun hf => absurd (hinit.symm.trans hf) Bool.false_ne_true
        kept := fun _ => .inl ⟨Function.update_self .., Function.update_self ..⟩, swapIns := rfl
        resets := List.forall_mem_append.mpr ⟨h.resets, List.forall_mem_singleton.mpr hres⟩, idle := rfl, active := rfl
        scan := rfl }

/-- **Leaving** the running fiber: it yields, or it finishes and no entry of it comes next. -/
theorem Inv.leave (h : Inv me s) {st : State} (hst : st = .ready ∨ st = .hold ∨ finished st = true)
    (hok : finished st = true → ∀ f ∈ s.fromQueue, s.fn f = true ∨ st = .except → ¬Waits me s.cbFiber f s.queue) :
    Inv me (s.leave st) := by
  unfold St.leave
  split
  · next f cb hphase =>
    split_ifs with hcan
    · have hfn : ∀ g, g ≠ f → Function.update s.fn f (s.fn f && decide (st ≠ .term)) g = s.fn g :=
        fun g hg => Function.update_of_ne hg _ _
      rcases or_assoc.mpr hst with hyield | hfin
      · have hown : s.fn f = true := by
          apply hcan.resolve_right
          rintro rfl
          rcases hyield with he | he <;> cases he
        exact h.yields hphase hyield hown hfn
      · apply h.finishes hphase hfin hcan _ hfn
        rintro rfl
        exact hok hfin f (by rw [St.fromQueue, hphase]; rfl) hcan
    · exact h
  · exact h

theorem Inv.idleBack (h : Inv me s) {st : State} (hst : st = .init ∨ st = .hold ∨ st = .term) :
    Inv me (s.idleBack st) := by
  unfold St.idleBack
  split_ifs with hphase
  · exact ⟨h.queued, h.bound, h.waits, h.swapIns, h.resets, fun _ => hst, fun _ => h.between (.inr hphase), nofun⟩
  · exact h

/-- **Step lemma.** -/
theorem step_inv (h : Inv me s) {l : Label} (hok : Ok me s l) : Inv me (step me s l) := by
  unfold step
  split_ifs
  · exact h
  · cases l with
    | newFiber main =>
      apply h.newFiber
      cases main <;> rfl
    | schedule task =>
      obtain ⟨work, thread⟩ := task
      cases work with
      | cb i => exact h.push nofun nofun
      | fiber f =>
        simp only [stepAlive]
        split_ifs with hf
        · apply h.push
          · intro g hg
            obtain rfl : f = g := by simpa using hg
            exact hf
          · intro g hfin hme hg hbefore
            obtain rfl : f = g := by simpa using hg
            obtain ⟨hc, task, htask, hcb⟩ := hok hfin hme
            rw [hbefore hc task htask] at hcb
            cases hcb
        · exact h
    | turn => exact h.turn
    | yieldReady => exact h.leave (.inl rfl) nofun
    | yieldHold => exact h.leave (.inr (.inl rfl)) nofun
    | ret =>
      refine h.leave (.inr (.inr rfl)) ?_
      intro _ f hphase hcan
      exact hok f hphase (hcan.resolve_right (by nofun))
    | throw =>
      refine h.leave (.inr (.inr rfl)) ?_
      intro _ f hphase _
      exact hok f hphase
    | idleHold => exact h.idleBack (.inr (.inl rfl))
    | idleReturn => exact h.idleBack (.inr (.inr rfl))

end

end

/-- **Finished fibers are not resumed.** In every run in which no fiber is scheduled that has finished and none
finishes that is still in the queue, in every state reached: `swapIn` has met `INIT`, `HOLD` and `READY` alone,
`reset` has been called in `TERM`, `INIT` and `EXCEPT` alone, and between tasks no task counts as active. -/
theorem finished_not_resumed (me : ℕ) (labels : List Label) (h : Along (Ok me) (step me) start labels) :
    Sound (run (step me) start labels) :=
  (run_inv (P := Inv me) (fun _ _ hok hinv => step_inv hinv hok) labels (start_inv me) h).sound

/-- a fiber that waits once and is scheduled again, and two callbacks, of which one throws -/
theorem finished_not_resumed_mixed :
    Sound (run (step 7) start [.newFiber false, .schedule ⟨.fiber 0, none⟩, .schedule ⟨.cb 1, some 7⟩, .turn, .yieldHold,
      .turn, .throw, .schedule ⟨.cb 2, none⟩, .schedule ⟨.fiber 0, none⟩, .turn, .yieldReady, .turn, .ret, .turn, .ret,
      .turn, .idleHold]) := by
  apply finished_not_resumed
  decide

/-- **A fiber that is scheduled twice** and returns the first time is swapped in again, in `TERM`. -/
theorem scheduled_twice :
    ¬Sound (run (step 7) start [.newFiber false, .schedule ⟨.fiber 0, none⟩, .schedule ⟨.fiber 0, none⟩, .turn, .ret,
      .turn]) := by
  intro h
  have hins : (run (step 7) start [.newFiber false, .schedule ⟨.fiber 0, none⟩, .schedule ⟨.fiber 0, none⟩, .turn, .ret,
      .turn]).swapIns = [.init, .term] := by decide
  have hterm := h.swapIns .term (by rw [hins]; simp)
  simp at hterm

end Sylar.RunLoop
