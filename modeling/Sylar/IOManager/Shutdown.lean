/-
Shutdown of `IOManager`: the worker threads after `stop()` (`iomanager.cpp`, `scheduler.cpp`, `timer.cpp`).

A thread is a program counter (`Phase`) and the state of its idle fiber (`term`: it is `TERM`). The steps are the ones
other threads can see: the locked selection in `run()`, `getNextTimer`, the read of `m_pendingEventCount`,
`Scheduler::stopping` under the queue lock, `listExpiredCb`, scheduling the collected callbacks, triggering a ready
event and counting it down, what a running task does (add or cancel timers, add or remove events, schedule tasks), and
the two steps of `run()` after the task comes back. A label names the thread that moves and what it does; a label that
does not fit the phase of its thread does nothing.

Timers are only told apart by whether they recur, in the order of their due times: `listExpiredCb` takes a first part
of them. (`getNextTimer` returns `~0ull` iff there is none: a due time is at most `~0ull` and the clock is past 0.)
The queue entry of a fiber may be passed over, since the fiber may be in state `EXEC`; that of a callback only if it
is pinned to another thread.

A run starts after `stop()` with every thread alive and none between its three reads. Then it may still go wrong: a
thread whose idle fiber has terminated takes tasks as long as it finds some, and a task it runs can add a timer after
another thread has read that there is none.
- `shutdown_abandons_nothing`: if no thread takes a task after its idle fiber terminated (`Meets`), nothing is left
  when all threads are gone.
- `shutdown_loses_timer`: two threads and one timer, with a timer left at the end.
-/
import Mathlib.Tactic
import Sylar.Core.Run

namespace Sylar.Shutdown

open Sylar.Core

/-- an entry of `m_fibers`: the thread it is pinned to (`none` for -1), and whether it is a fiber or a callback -/
structure Task where
  thread : Option ℕ
  fiber : Bool
deriving DecidableEq, Repr

/-- where a thread stands -/
inductive Phase where
  /-- at the top of the loop of `run()` -/
  | scan
  /-- in a task -/
  | running
  /-- the task came back; `ready` if it yielded with `YieldToReady` -/
  | post (ready : Bool)
  | resched
  /-- in the idle fiber, before `getNextTimer` -/
  | check1
  /-- there was no timer; before the read of `m_pendingEventCount` -/
  | check2
  /-- there was no pending event; before `Scheduler::stopping` -/
  | check3
  /-- in `epoll_wait` -/
  | wait
  /-- with `cbs` expired callbacks in the local vector -/
  | expired (cbs : ℕ)
  /-- in the loop over the ready fds -/
  | dispatch
  /-- an event was triggered and is not counted down yet -/
  | triggered
  | left
deriving DecidableEq, Repr

structure Th where
  phase : Phase
  /-- the idle fiber is `TERM` -/
  term : Bool
deriving DecidableEq, Repr

structure St (n : ℕ) where
  queue : List Task
  active : ℕ
  /-- the timers in order of their due times; `true` for a recurring one -/
  timers : List Bool
  pending : ℕ
  threads : Fin n → Th

inductive Act where
  /-- the selection takes the entry at an index, or finds none -/
  | select (found : Option ℕ)
  | addTimer (pos : ℕ) (recurring : Bool)
  | cancelTimer (pos : ℕ)
  | addEvent
  | countDown
  | schedule (task : Task)
  /-- the task returns, throws or yields -/
  | swapOut (ready : Bool)
  | decrActive
  | reschedule
  | getNextTimer
  | readPending
  | stopping
  /-- the first `k` timers are due -/
  | listExpiredCb (k : ℕ)
  | scheduleCbs
  | trigger (task : Task)
  | idleOut
deriving DecidableEq, Repr

section
variable {n : ℕ}

def St.goto (s : St n) (t : Fin n) (p : Phase) : St n :=
  { s with threads := Function.update s.threads t { s.threads t with phase := p } }

/-- `it->thread` is -1 or this thread -/
def mine (t : Fin n) (task : Task) : Bool := task.thread.elim true fun i => decide (i = t)

/-- the entry can be passed over: pinned to another thread, or a fiber that may be running -/
def skips (t : Fin n) (task : Task) : Bool := !mine t task || task.fiber

/-- one step of thread `t` -/
def step (s : St n) : Fin n × Act → St n
  | (t, .select (some i)) =>
    if (s.threads t).phase = .scan ∧ s.queue[i]?.elim false (mine t) ∧ (s.queue.take i).all (skips t) then
      St.goto { s with queue := s.queue.eraseIdx i, active := s.active + 1 } t .running
    else s
  | (t, .select none) =>
    if (s.threads t).phase = .scan ∧ s.queue.all (skips t) then
      s.goto t (if (s.threads t).term then .left else .check1)
    else s
  | (t, .addTimer pos recurring) =>
    if (s.threads t).phase = .running then { s with timers := s.timers.insertIdx pos recurring } else s
  | (t, .cancelTimer pos) =>
    if (s.threads t).phase = .running then { s with timers := s.timers.eraseIdx pos } else s
  | (t, .addEvent) => if (s.threads t).phase = .running then { s with pending := s.pending + 1 } else s
  | (t, .countDown) =>
    match (s.threads t).phase with
    | .running => { s with pending := s.pending - 1 }
    | .triggered => St.goto { s with pending := s.pending - 1 } t .dispatch
    | _ => s
  | (t, .schedule task) => if (s.threads t).phase = .running then { s with queue := s.queue ++ [task] } else s
  | (t, .swapOut ready) => if (s.threads t).phase = .running then s.goto t (.post ready) else s
  | (t, .decrActive) =>
    match (s.threads t).phase with
    | .post ready => St.goto { s with active := s.active - 1 } t (if ready then .resched else .scan)
    | _ => s
  | (t, .reschedule) =>
    if (s.threads t).phase = .resched then St.goto { s with queue := s.queue ++ [⟨none, true⟩] } t .scan else s
  | (t, .getNextTimer) =>
    if (s.threads t).phase = .check1 then s.goto t (if s.timers = [] then .check2 else .wait) else s
  | (t, .readPending) =>
    if (s.threads t).phase = .check2 then s.goto t (if s.pending = 0 then .check3 else .wait) else s
  | (t, .stopping) =>
    if (s.threads t).phase = .check3 then
      if s.queue = [] ∧ s.active = 0 then { s with threads := Function.update s.threads t ⟨.scan, true⟩ }
      else s.goto t .wait
    else s
  | (t, .listExpiredCb k) =>
    -- recurring timers go back into the set
    if (s.threads t).phase = .wait then
      St.goto { s with timers := s.timers.drop k ++ (s.timers.take k).filter id } t (.expired (s.timers.take k).length)
    else s
  | (t, .scheduleCbs) =>
    match (s.threads t).phase with
    | .expired cbs => St.goto { s with queue := s.queue ++ List.replicate cbs ⟨none, false⟩ } t .dispatch
    | _ => s
  | (t, .trigger task) =>
    if (s.threads t).phase = .dispatch ∧ 0 < s.pending then
      St.goto { s with queue := s.queue ++ [task] } t .triggered
    else s
  | (t, .idleOut) => if (s.threads t).phase = .dispatch then s.goto t .scan else s

/-! ## The invariant -/

/-- what a phase contributes to `m_activeThreadCount` -/
def Phase.busy : Phase → ℕ
  | .running => 1
  | .post _ => 1
  | _ => 0

/-- the idle fiber is alive and has not yet read that there is no timer -/
def Th.Awake (th : Th) : Prop := th.term = false ∧ th.phase ≠ .check2 ∧ th.phase ≠ .check3

structure Inv (s : St n) : Prop where
  active : s.active = ∑ t, (s.threads t).phase.busy
  /-- a thread whose idle fiber has terminated only looks for tasks -/
  term : ∀ t, (s.threads t).term = true → (s.threads t).phase = .scan ∨ (s.threads t).phase = .left
  gone : ∀ t, (s.threads t).phase = .left → (s.threads t).term = true
  timers : s.timers ≠ [] → ∃ t, (s.threads t).Awake
  pending : s.pending ≠ 0 → ∃ t, (s.threads t).term = false ∧ (s.threads t).phase ≠ .check3
  queue : s.queue ≠ [] → ∃ t, (s.threads t).term = false

theorem sum_busy_update (f : Fin n → Th) (t : Fin n) (th : Th) :
    ∑ i, (Function.update f t th i).phase.busy + (f t).phase.busy = ∑ i, (f i).phase.busy + th.phase.busy := by
  have h := Finset.sum_update_of_mem (Finset.mem_univ t) (fun i => (f i).phase.busy) th.phase.busy
  have h' := Finset.add_sum_erase Finset.univ (fun i => (f i).phase.busy) (Finset.mem_univ t)
  have hcomp : ∀ i, (Function.update f t th i).phase.busy =
      Function.update (fun i => (f i).phase.busy) t th.phase.busy i := by
    intro i
    by_cases hi : i = t
    · simp [hi]
    · simp [hi]
  rw [Finset.sum_congr rfl fun i _ => hcomp i, h, Finset.sdiff_singleton_eq_erase]
  omega

theorem busy_le_active {s : St n} (h : Inv s) (t : Fin n) : (s.threads t).phase.busy ≤ s.active := by
  rw [h.active]
  exact Finset.single_le_sum (f := fun i => (s.threads i).phase.busy) (fun _ _ => Nat.zero_le _) (Finset.mem_univ t)

/-- **A thread that is awake after its step.** It answers for all work there is, so only the counter has to be
checked. -/
theorem Inv.awake {s s' : St n} (h : Inv s) (t : Fin n) (th : Th) (hth : s'.threads = Function.update s.threads t th)
    (hawake : th.Awake) (hleft : th.phase ≠ .left)
    (hactive : s'.active + (s.threads t).phase.busy = s.active + th.phase.busy) : Inv s' := by
  have hself : s'.threads t = th := by rw [hth, Function.update_self]
  have hne : ∀ i, i ≠ t → s'.threads i = s.threads i := fun i hi => by rw [hth, Function.update_of_ne hi]
  refine ⟨?_, fun i hi => ?_, fun i hi => ?_, fun _ => ⟨t, hself ▸ hawake⟩,
    fun _ => ⟨t, by rw [hself]; exact ⟨hawake.1, hawake.2.2⟩⟩, fun _ => ⟨t, by rw [hself]; exact hawake.1⟩⟩
  · have hsum := sum_busy_update s.threads t th
    rw [← hth, ← h.active] at hsum
    omega
  · by_cases hit : i = t
    · rw [hit, hself, hawake.1] at hi
      cases hi
    · rw [hne i hit] at hi ⊢
      exact h.term i hi
  · by_cases hit : i = t
    · rw [hit, hself] at hi
      exact absurd hi hleft
    · rw [hne i hit] at hi ⊢
      exact h.gone i hi

/-- **A thread that goes one read further.** It neither counts as busy before nor after, and the work other threads
answer for is what it was. -/
theorem Inv.further {s : St n} (h : Inv s) (t : Fin n) (th : Th) (hbusy : (s.threads t).phase.busy = th.phase.busy)
    (hterm : th.term = true → th.phase = .scan ∨ th.phase = .left) (hgone : th.phase = .left → th.term = true)
    (htimers : s.timers ≠ [] → th.Awake ∨ ¬(s.threads t).Awake)
    (hpending : s.pending ≠ 0 → th.term = false ∧ th.phase ≠ .check3 ∨
      ¬((s.threads t).term = false ∧ (s.threads t).phase ≠ .check3))
    (hqueue : s.queue ≠ [] → th.term = false ∨ (s.threads t).term = true) :
    Inv { s with threads := Function.update s.threads t th } := by
  have hself : Function.update s.threads t th t = th := Function.update_self ..
  have hne : ∀ i, i ≠ t → Function.update s.threads t th i = s.threads i := fun i hi => Function.update_of_ne hi _ _
  -- a thread that answers for some work is `t` after its step, or another one as before
  have hwit : ∀ P : Th → Prop, (P th ∨ ¬P (s.threads t)) → (∃ i, P (s.threads i)) →
      ∃ i, P (Function.update s.threads t th i) := by
    rintro P hP ⟨i, hi⟩
    by_cases hit : i = t
    · subst hit
      exact ⟨i, by rw [hself]; exact hP.resolve_right fun hn => hn hi⟩
    · exact ⟨i, by rw [hne i hit]; exact hi⟩
  refine ⟨?_, fun i hi => ?_, fun i hi => ?_, fun hw => hwit Th.Awake (htimers hw) (h.timers hw),
    fun hw => hwit (fun th => th.term = false ∧ th.phase ≠ .check3) (hpending hw) (h.pending hw),
    fun hw => hwit (fun th => th.term = false) ?_ (h.queue hw)⟩
  · have hsum := sum_busy_update s.threads t th
    rw [← h.active] at hsum
    show s.active = ∑ i, (Function.update s.threads t th i).phase.busy
    omega
  · show (Function.update s.threads t th i).phase = _ ∨ (Function.update s.threads t th i).phase = _
    by_cases hit : i = t
    · subst hit
      rw [hself]
      exact hterm (by rw [← hself]; exact hi)
    · rw [hne i hit]
      exact h.term i (by rw [← hne i hit]; exact hi)
  · show (Function.update s.threads t th i).term = true
    by_cases hit : i = t
    · subst hit
      rw [hself]
      exact hgone (by rw [← hself]; exact hi)
    · rw [hne i hit]
      exact h.gone i (by rw [← hne i hit]; exact hi)
  · exact (hqueue hw).imp_right fun he hf => by rw [he] at hf; cases hf

theorem goto_threads (s : St n) (t : Fin n) (p : Phase) :
    (s.goto t p).threads = Function.update s.threads t { s.threads t with phase := p } := rfl

/-- inside a task, the tail of one, or the idle fiber -/
def Phase.inside : Phase → Bool
  | .scan | .left => false
  | _ => true

/-- neither past a read that found nothing nor gone -/
def Phase.alert : Phase → Bool
  | .check2 | .check3 | .left => false
  | _ => true

theorem Inv.alive {s : St n} (h : Inv s) {t : Fin n} {p : Phase} (hp : (s.threads t).phase = p)
    (hin : p.inside = true) : (s.threads t).term = false := by
  by_contra hc
  rcases h.term t (by simpa using hc) with hs | hl
  · rw [← hp, hs] at hin
    cases hin
  · rw [← hp, hl] at hin
    cases hin

theorem awake_of_alert {th : Th} (hterm : th.term = false) (hal : th.phase.alert = true) :
    th.Awake ∧ th.phase ≠ .left := by
  refine ⟨⟨hterm, fun hp => ?_, fun hp => ?_⟩, fun hp => ?_⟩ <;> rw [hp] at hal <;> cases hal

/-- a thread inside moves to an alert phase -/
theorem Inv.move {s s' : St n} (h : Inv s) {t : Fin n} {p q : Phase} (hp : (s.threads t).phase = p)
    (hin : p.inside = true) (hal : q.alert = true) (hth : s'.threads = (s.goto t q).threads)
    (hact : s'.active + p.busy = s.active + q.busy) : Inv s' := by
  obtain ⟨h1, h2⟩ := @awake_of_alert { s.threads t with phase := q } (h.alive hp hin) hal
  exact h.awake t _ hth h1 h2 (by rw [hp]; exact hact)

/-- a running task changes the work there is -/
theorem Inv.work {s s' : St n} (h : Inv s) {t : Fin n} (hp : (s.threads t).phase = .running)
    (hth : s'.threads = s.threads) (hact : s'.active = s.active) : Inv s' := by
  refine h.move (q := .running) hp rfl rfl ?_ (by rw [hact])
  rw [hth, goto_threads, ← hp, Function.update_eq_self]

/-- no thread takes a task from the queue after its own idle fiber has terminated -/
def Meets (s : St n) : Fin n × Act → Prop
  | (t, .select (some _)) => (s.threads t).term = false
  | _ => True

instance (s : St n) (l : Fin n × Act) : Decidable (Meets s l) := by
  unfold Meets
  split <;> infer_instance

/-- **Step.** -/
theorem step_inv (s : St n) (l : Fin n × Act) (hm : Meets s l) (h : Inv s) : Inv (step s l) := by
  obtain ⟨t, a⟩ := l
  cases a with
  | select found =>
    cases found with
    | some i =>
      simp only [step]
      split_ifs with hg
      · refine h.awake t _ (goto_threads _ _ _) ⟨hm, by simp, by simp⟩ (by simp) ?_
        simp [St.goto, hg.1, Phase.busy]
      · exact h
    | none =>
      simp only [step]
      split_ifs with hg ht
      · -- the idle fiber has terminated: the thread answers for nothing and leaves
        have hdead : ¬((s.threads t).term = false) := by simp [ht]
        exact h.further t _ (by simp [hg.1, Phase.busy]) (fun _ => Or.inr rfl) (fun _ => ht)
          (fun _ => Or.inr fun hf => hdead hf.1) (fun _ => Or.inr fun hf => hdead hf.1) (fun _ => Or.inr ht)
      · refine h.awake t _ (goto_threads _ _ _) ⟨by simpa using ht, by simp, by simp⟩ (by simp) ?_
        simp [St.goto, hg.1, Phase.busy]
      · exact h
  | addTimer | cancelTimer | addEvent | schedule =>
    simp only [step]
    split_ifs with hp
    · exact h.work hp rfl rfl
    · exact h
  | countDown =>
    simp only [step]
    split
    · rename_i hp
      exact h.work hp rfl rfl
    · rename_i hp
      exact h.move hp rfl rfl rfl rfl
    · exact h
  | swapOut ready =>
    simp only [step]
    split_ifs with hp
    · exact h.move hp rfl rfl rfl rfl
    · exact h
  | decrActive =>
    simp only [step]
    split
    · rename_i ready hp
      have hbusy := busy_le_active h t
      rw [hp] at hbusy
      have hge : s.active - 1 + 1 = s.active := Nat.sub_add_cancel hbusy
      cases ready
      · exact h.move hp rfl rfl rfl hge
      · exact h.move hp rfl rfl rfl hge
    · exact h
  | reschedule | listExpiredCb | idleOut =>
    simp only [step]
    split_ifs with hp
    · exact h.move hp rfl rfl rfl rfl
    · exact h
  | getNextTimer =>
    simp only [step]
    split_ifs with hp htimers
    · -- there is no timer, so nobody has to answer for one
      have hal := h.alive hp rfl
      exact h.further t _ (by simp [hp, Phase.busy]) (fun hf => by rw [hal] at hf; cases hf) (fun hf => by cases hf)
        (fun hf => absurd htimers hf) (fun _ => Or.inl ⟨hal, by simp⟩) (fun _ => Or.inl hal)
    · exact h.move hp rfl rfl rfl rfl
    · exact h
  | readPending =>
    simp only [step]
    split_ifs with hp hpending
    · have hal := h.alive hp rfl
      exact h.further t _ (by simp [hp, Phase.busy]) (fun hf => by rw [hal] at hf; cases hf) (fun hf => by cases hf)
        (fun _ => Or.inr fun hf => hf.2.1 hp) (fun hf => absurd hpending hf) (fun _ => Or.inl hal)
    · exact h.move hp rfl rfl rfl rfl
    · exact h
  | stopping =>
    simp only [step]
    split_ifs with hp hstop
    · -- a thread before its last read answers for no timer and no event, and the queue is empty
      exact h.further t _ (by simp [hp, Phase.busy]) (fun _ => Or.inl rfl) (fun hf => by cases hf)
        (fun _ => Or.inr fun hf => hf.2.2 hp) (fun _ => Or.inr fun hf => hf.2 hp) (fun hf => absurd hstop.1 hf)
    · exact h.move hp rfl rfl rfl rfl
    · exact h
  | scheduleCbs =>
    simp only [step]
    split
    · rename_i cbs hp
      exact h.move hp rfl rfl rfl rfl
    · exact h
  | trigger task =>
    simp only [step]
    split_ifs with hg
    · exact h.move hg.1 rfl rfl rfl rfl
    · exact h

/-! ## Shutdown -/

/-- after `stop()`: every thread is alive and none is between its three reads -/
structure Start (s : St n) : Prop where
  active : s.active = ∑ t, (s.threads t).phase.busy
  threads : ∀ t, (s.threads t).Awake ∧ (s.threads t).phase ≠ .left

/-- all threads have left `run()` -/
def AllLeft (s : St n) : Prop := ∀ t, (s.threads t).phase = .left

/-- the queue is empty, the timer set is empty and no event is pending -/
def Quiet (s : St n) : Prop := s.queue = [] ∧ s.timers = [] ∧ s.pending = 0

theorem Start.inv {s : St n} (h : Start s) (hn : 0 < n) : Inv s := by
  have hawake := fun t => (h.threads t).1
  refine ⟨h.active, fun t ht => ?_, fun t ht => absurd ht (h.threads t).2, fun _ => ⟨⟨0, hn⟩, hawake _⟩,
    fun _ => ⟨⟨0, hn⟩, (hawake _).1, (hawake _).2.2⟩, fun _ => ⟨⟨0, hn⟩, (hawake _).1⟩⟩
  rw [(hawake t).1] at ht
  cases ht

/-- **Shutdown abandons no work.** For every number of threads and every interleaving in which no thread takes a task
after its own idle fiber has terminated: when all threads have left `run()`, no task, timer or event is left. -/
theorem shutdown_abandons_nothing (hn : 0 < n) (s : St n) (hs : Start s) (ls : List (Fin n × Act))
    (h : Along Meets step s ls) (hleft : AllLeft (run step s ls)) : Quiet (run step s ls) := by
  have hinv : Inv (run step s ls) := run_inv step_inv ls (hs.inv hn) h
  have hterm : ∀ t, ((run step s ls).threads t).term ≠ false := fun t => by simp [hinv.gone t (hleft t)]
  refine ⟨?_, ?_, ?_⟩
  · by_contra hq
    obtain ⟨t, ht⟩ := hinv.queue hq
    exact hterm t ht
  · by_contra hq
    obtain ⟨t, ht⟩ := hinv.timers hq
    exact hterm t ht.1
  · by_contra hq
    obtain ⟨t, ht⟩ := hinv.pending hq
    exact hterm t ht.1

end

/-- both threads at the top of `run()`, and one timer -/
def oneTimer : St 2 :=
  { queue := [], active := 0, timers := [false], pending := 0, threads := fun _ => ⟨.scan, false⟩ }

theorem oneTimer_start : Start oneTimer :=
  ⟨rfl, fun _ => ⟨⟨rfl, by simp [oneTimer], by simp [oneTimer]⟩, by simp [oneTimer]⟩⟩

/-- thread 0 fires the timer and runs it, thread 1 stops first -/
theorem shutdown_abandons_nothing_two :
    let ls : List (Fin 2 × Act) := [(0, .select none), (0, .getNextTimer), (0, .listExpiredCb 1), (1, .select none),
      (1, .getNextTimer), (1, .readPending), (1, .stopping), (0, .scheduleCbs), (0, .idleOut), (0, .select (some 0)),
      (1, .select none), (0, .swapOut false), (0, .decrActive), (0, .select none), (0, .getNextTimer), (0, .readPending),
      (0, .stopping), (0, .select none)]
    AllLeft (run step oneTimer ls) ∧ Quiet (run step oneTimer ls) := by
  have hleft : AllLeft (run step oneTimer [(0, .select none), (0, .getNextTimer), (0, .listExpiredCb 1),
      (1, .select none), (1, .getNextTimer), (1, .readPending), (1, .stopping), (0, .scheduleCbs), (0, .idleOut),
      (0, .select (some 0)), (1, .select none), (0, .swapOut false), (0, .decrActive), (0, .select none),
      (0, .getNextTimer), (0, .readPending), (0, .stopping), (0, .select none)]) := by
    unfold AllLeft
    decide
  exact ⟨hleft, shutdown_abandons_nothing (by decide) oneTimer oneTimer_start _ (by decide) hleft⟩

/-- Thread 0 takes the expired timer out of the set, thread 1 sees nothing left to do and its idle fiber terminates.
Then thread 1 still takes the callback; while it runs, thread 0 reads that there is no timer; the callback adds one;
and thread 0 finds the queue empty and no thread active. -/
theorem shutdown_loses_timer :
    ¬∀ (s : St 2) (ls : List (Fin 2 × Act)), Start s → AllLeft (run step s ls) → Quiet (run step s ls) := by
  intro h
  have hleft : AllLeft (run step oneTimer [(0, .select none), (0, .getNextTimer), (0, .listExpiredCb 1),
      (1, .select none), (1, .getNextTimer), (1, .readPending), (1, .stopping), (0, .scheduleCbs), (0, .idleOut),
      (1, .select (some 0)), (0, .select none), (0, .getNextTimer), (0, .readPending), (1, .addTimer 0 false),
      (1, .swapOut false), (1, .decrActive), (0, .stopping), (0, .select none), (1, .select none)]) := by
    unfold AllLeft
    decide
  have htimers := (h oneTimer _ oneTimer_start hleft).2.1
  revert htimers
  decide

end Sylar.Shutdown
