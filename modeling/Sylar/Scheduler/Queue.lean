/-
The task queue of `Scheduler` (`scheduler.h`, and the locked part of the loop of `run()` in `scheduler.cpp`).

Any number of threads schedule, singly or a range, and select. All of it is done under `m_mutex`; what is not is the
state of a fiber, which changes at any moment, in the middle of a scan too. So a call of `schedule` is one step, a
selection is one step for each entry it looks at, and between two of these the states change. The pointer overloads
take the caller's object away from it: `vars` are the callers' objects.

Every task pushed gets a number. `pushed` is the history of the queue, `dequeued` what was taken from it, with the
entries that were ahead and the states they were seen in:
- `queue_conserved`: an entry is in the queue once or has been taken once; a pinned one by its thread; and the entries
  ahead of a taken one were pinned elsewhere, or fibers seen in `EXEC`.
-/
import Mathlib.Tactic
import Sylar.Core.Run
import Sylar.Scheduler.Fibers

namespace Sylar.TaskQueue

open Sylar.Core Sylar.Fibers

variable {F C : Type}

/-- `thread` is -1 for any thread -/
structure FiberAndThread (F C : Type) where
  fiber : Option F
  cb : Option C
  thread : ℤ
deriving DecidableEq, Repr

/-- what a caller passes to `schedule`: an object, or the address of one of its own -/
inductive Arg (F C : Type) where
  | fiber (f : Option F)
  | fiberPtr (x : ℕ)
  | cb (c : Option C)
  | cbPtr (x : ℕ)
deriving DecidableEq, Repr

structure Vars (F C : Type) where
  fibers : ℕ → Option F
  cbs : ℕ → Option C

structure Entry (F C : Type) where
  id : ℕ
  task : FiberAndThread F C
deriving DecidableEq, Repr

/-- an entry, and the state its fiber was seen in -/
structure Look (F C : Type) where
  entry : Entry F C
  state : Option State
deriving DecidableEq, Repr

/-- a selection in progress -/
structure Scan (F C : Type) where
  thread : ℤ
  passed : List (Look F C)
deriving DecidableEq, Repr

structure Dequeue (F C : Type) where
  thread : ℤ
  entry : Entry F C
  ahead : List (Look F C)
  queue : List (Entry F C)
deriving DecidableEq, Repr

structure Sched (F C : Type) where
  state : F → State
  vars : Vars F C
  queue : List (Entry F C)
  /-- who holds `m_mutex` to select -/
  scan : Option (Scan F C)
  aborted : Bool
  pushed : List (FiberAndThread F C)
  dequeued : List (Dequeue F C)

def Sched.new (state : F → State) (vars : Vars F C) : Sched F C := ⟨state, vars, [], none, false, [], []⟩

/-- the constructors of `FiberAndThread`; the pointer ones swap the caller's object with an empty one -/
def FiberAndThread.new (vars : Vars F C) (thr : ℤ) : Arg F C → FiberAndThread F C × Vars F C
  | .fiber f => (⟨f, none, thr⟩, vars)
  | .fiberPtr x => (⟨vars.fibers x, none, thr⟩, { vars with fibers := Function.update vars.fibers x none })
  | .cb c => (⟨none, c, thr⟩, vars)
  | .cbPtr x => (⟨none, vars.cbs x, thr⟩, { vars with cbs := Function.update vars.cbs x none })

/-- `ft.fiber || ft.cb` -/
def FiberAndThread.nonempty (ft : FiberAndThread F C) : Bool := ft.fiber.isSome || ft.cb.isSome

def Sched.push (s : Sched F C) (ft : FiberAndThread F C) : Sched F C :=
  { s with queue := s.queue ++ [⟨s.pushed.length, ft⟩], pushed := s.pushed ++ [ft] }

/-- with the value of `need_tickle` -/
def Sched.scheduleNoLock (s : Sched F C) (fc : Arg F C) (thread : ℤ) : Sched F C × Bool :=
  let needTickle := s.queue.isEmpty
  let r := FiberAndThread.new s.vars thread fc
  let s' := { s with vars := r.2 }
  (if r.1.nonempty then s'.push r.1 else s', needTickle)

def Sched.schedule (s : Sched F C) (fc : Arg F C) (thread : ℤ) : Sched F C := (s.scheduleNoLock fc thread).1

def Sched.scheduleRange (s : Sched F C) (range : List (Arg F C)) : Sched F C :=
  range.foldl (fun s fc => (s.scheduleNoLock fc (-1)).1) s

/-- the state of the fiber of an entry -/
def Sched.seen (s : Sched F C) (e : Entry F C) : Option State := e.task.fiber.map s.state

/-- one turn of the loop over `m_fibers` -/
def Sched.look (s : Sched F C) (k : Scan F C) : Sched F C :=
  match s.queue[k.passed.length]? with
  | none => { s with scan := none }
  | some e =>
    let pass : Sched F C := { s with scan := some { k with passed := k.passed ++ [⟨e, s.seen e⟩] } }
    if e.task.thread ≠ -1 ∧ e.task.thread ≠ k.thread then pass
    else if e.task.nonempty = false then { s with aborted := true }
    else if s.seen e = some .exec then pass
    else
      { s with
        queue := s.queue.eraseIdx k.passed.length
        scan := none
        dequeued := s.dequeued ++ [⟨k.thread, e, k.passed, s.queue⟩] }

inductive Act (F C : Type) where
  | schedule (fc : Arg F C) (thread : ℤ)
  /-- the range form, on the fibers or the callbacks at these addresses -/
  | scheduleFibers (xs : List ℕ)
  | scheduleCbs (xs : List ℕ)
  | assignFiber (x : ℕ) (f : Option F)
  | assignCb (x : ℕ) (c : Option C)
  | setState (f : F) (st : State)
  /-- a thread locks `m_mutex` to select -/
  | lock (thread : ℤ)
  | look
deriving DecidableEq, Repr

variable [DecidableEq F]

/-- what needs the lock waits while a scan has it, and nothing happens after a failed assertion -/
def Sched.step (s : Sched F C) (a : Act F C) : Sched F C :=
  if s.aborted then s
  else
    match a, s.scan with
    | .schedule fc thread, none => s.schedule fc thread
    | .scheduleFibers xs, none => s.scheduleRange (xs.map .fiberPtr)
    | .scheduleCbs xs, none => s.scheduleRange (xs.map .cbPtr)
    | .lock thread, none => { s with scan := some ⟨thread, []⟩ }
    | .look, some k => s.look k
    | .assignFiber x f, _ => { s with vars := { s.vars with fibers := Function.update s.vars.fibers x f } }
    | .assignCb x c, _ => { s with vars := { s.vars with cbs := Function.update s.vars.cbs x c } }
    | .setState f st, _ => { s with state := Function.update s.state f st }
    | _, _ => s

/-! ## The invariant -/

/-- a scan goes past entries pinned to another thread and running fibers -/
def Look.Skipped (thread : ℤ) (x : Look F C) : Prop :=
  (x.entry.task.thread ≠ -1 ∧ x.entry.task.thread ≠ thread) ∨ x.state = some .exec

/-- what the record of a dequeue says -/
structure Dequeue.Fair (d : Dequeue F C) : Prop where
  affinity : d.entry.task.thread ≠ -1 → d.thread = d.entry.task.thread
  ahead : ∃ rest, d.queue = d.ahead.map (·.entry) ++ d.entry :: rest
  skipped : ∀ x ∈ d.ahead, x.Skipped d.thread

structure Inv (s : Sched F C) : Prop where
  running : s.aborted = false
  once : (s.queue.map (·.id) ++ s.dequeued.map (·.entry.id)).Perm (List.range s.pushed.length)
  sorted : s.queue.Pairwise fun e e' => e.id < e'.id
  queue : ∀ e ∈ s.queue, s.pushed[e.id]? = some e.task ∧ e.task.nonempty = true
  dequeued : ∀ d ∈ s.dequeued, s.pushed[d.entry.id]? = some d.entry.task ∧ d.Fair
  scan : ∀ k ∈ s.scan, (∃ rest, s.queue = k.passed.map (·.entry) ++ rest) ∧ ∀ x ∈ k.passed, x.Skipped k.thread

section Step

variable {s : Sched F C}

omit [DecidableEq F] in
theorem inv_new (state : F → State) (vars : Vars F C) : Inv (Sched.new state vars) := by
  refine ⟨rfl, List.Perm.refl _, List.Pairwise.nil, ?_, ?_, ?_⟩ <;> simp [Sched.new]

omit [DecidableEq F] in
/-- the states and the callers' objects are not part of it -/
theorem Inv.congr {s' : Sched F C} (h : Inv s) (haborted : s'.aborted = s.aborted) (hqueue : s'.queue = s.queue)
    (hscan : s'.scan = s.scan) (hpushed : s'.pushed = s.pushed) (hdequeued : s'.dequeued = s.dequeued) : Inv s' := by
  obtain ⟨h1, h2, h3, h4, h5, h6⟩ := h
  refine ⟨?_, ?_, ?_, ?_, ?_, ?_⟩
  · rw [haborted]
    exact h1
  · rw [hqueue, hpushed, hdequeued]
    exact h2
  · rw [hqueue]
    exact h3
  · rw [hqueue, hpushed]
    exact h4
  · rw [hdequeued, hpushed]
    exact h5
  · rw [hscan, hqueue]
    exact h6

omit [DecidableEq F] in
theorem Inv.id_lt (h : Inv s) {e : Entry F C} (he : e ∈ s.queue) : e.id < s.pushed.length :=
  (List.getElem?_eq_some_iff.mp (h.queue e he).1).1

omit [DecidableEq F] in
theorem Inv.push (h : Inv s) {ft : FiberAndThread F C} (hft : ft.nonempty = true) : Inv (s.push ft) := by
  have hold : ∀ {i : ℕ} {t : FiberAndThread F C}, s.pushed[i]? = some t → (s.pushed ++ [ft])[i]? = some t := by
    intro i t hi
    rw [List.getElem?_append_left (List.getElem?_eq_some_iff.mp hi).1]
    exact hi
  refine ⟨h.running, ?_, ?_, ?_, ?_, ?_⟩
  · show (List.map Entry.id (s.queue ++ [⟨s.pushed.length, ft⟩]) ++ s.dequeued.map (·.entry.id)).Perm
      (List.range (s.pushed ++ [ft]).length)
    rw [List.length_append, List.length_singleton, List.range_succ, List.map_append, List.append_assoc]
    -- the new entry moves behind what has been taken
    refine List.Perm.trans ?_ (h.once.append (List.Perm.refl [s.pushed.length]))
    rw [List.append_assoc]
    exact (List.Perm.refl _).append List.perm_append_comm
  · apply List.pairwise_append.mpr
    refine ⟨h.sorted, List.pairwise_singleton _ _, ?_⟩
    intro e he e' he'
    rw [List.mem_singleton.mp he']
    exact h.id_lt he
  · intro e he
    rcases List.mem_append.mp he with he | he
    · exact ⟨hold (h.queue e he).1, (h.queue e he).2⟩
    · rw [List.mem_singleton.mp he]
      exact ⟨List.getElem?_concat_length, hft⟩
  · intro d hd
    exact ⟨hold (h.dequeued d hd).1, (h.dequeued d hd).2⟩
  · intro k hk
    obtain ⟨⟨rest, hrest⟩, hskipped⟩ := h.scan k hk
    refine ⟨⟨rest ++ [⟨s.pushed.length, ft⟩], ?_⟩, hskipped⟩
    show s.queue ++ [(⟨s.pushed.length, ft⟩ : Entry F C)] = _
    rw [hrest, List.append_assoc]

omit [DecidableEq F] in
theorem Inv.schedule (h : Inv s) (fc : Arg F C) (thread : ℤ) : Inv (s.scheduleNoLock fc thread).1 := by
  have hvars : Inv { s with vars := (FiberAndThread.new s.vars thread fc).2 } := h.congr rfl rfl rfl rfl rfl
  unfold Sched.scheduleNoLock
  simp only
  split_ifs with hft
  · exact hvars.push hft
  · exact hvars

omit [DecidableEq F] in
theorem Inv.scheduleRange (h : Inv s) (range : List (Arg F C)) : Inv (s.scheduleRange range) := by
  unfold Sched.scheduleRange
  induction range generalizing s with
  | nil => exact h
  | cons fc range ih => exact ih (h.schedule fc (-1))

omit [DecidableEq F] in
/-- a scan that goes past the entry it looks at -/
theorem Inv.pass (h : Inv s) {k : Scan F C} (hk : s.scan = some k) {e : Entry F C}
    (he : s.queue[k.passed.length]? = some e) (hskip : (⟨e, s.seen e⟩ : Look F C).Skipped k.thread) :
    Inv { s with scan := some { k with passed := k.passed ++ [⟨e, s.seen e⟩] } } := by
  obtain ⟨⟨rest, hrest⟩, hskipped⟩ := h.scan k hk
  refine ⟨h.running, h.once, h.sorted, h.queue, h.dequeued, ?_⟩
  intro k' hk'
  obtain rfl := Option.some.inj hk'
  constructor
  · cases rest with
    | nil =>
      rw [hrest, List.append_nil] at he
      simp at he
    | cons e' rest =>
      rw [hrest, List.getElem?_append_right (by simp)] at he
      simp only [List.length_map, Nat.sub_self, List.getElem?_cons_zero, Option.some.injEq] at he
      refine ⟨rest, ?_⟩
      rw [hrest, he]
      simp
  · intro x hx
    rcases List.mem_append.mp hx with hx | hx
    · exact hskipped x hx
    · rw [List.mem_singleton.mp hx]
      exact hskip

omit [DecidableEq F] in
/-- a scan that takes the entry it looks at -/
theorem Inv.take (h : Inv s) {k : Scan F C} (hk : s.scan = some k) {e : Entry F C}
    (he : s.queue[k.passed.length]? = some e) (hmine : e.task.thread ≠ -1 → k.thread = e.task.thread) :
    Inv { s with
      queue := s.queue.eraseIdx k.passed.length
      scan := none
      dequeued := s.dequeued ++ [⟨k.thread, e, k.passed, s.queue⟩] } := by
  obtain ⟨⟨rest, hrest⟩, hskipped⟩ := h.scan k hk
  obtain ⟨hlt, hget⟩ := List.getElem?_eq_some_iff.mp he
  have hperm := perm_cons_eraseIdx he
  have hmem : e ∈ s.queue := List.mem_of_getElem? he
  refine ⟨h.running, ?_, ?_, ?_, ?_, ?_⟩
  · refine List.Perm.trans ?_ h.once
    refine List.Perm.trans ?_ ((hperm.map (·.id)).append (List.Perm.refl _)).symm
    show (List.map Entry.id (s.queue.eraseIdx k.passed.length) ++
      List.map (·.entry.id) (s.dequeued ++ [(⟨k.thread, e, k.passed, s.queue⟩ : Dequeue F C)])).Perm _
    rw [List.map_append, ← List.append_assoc]
    exact List.perm_append_singleton ..
  · exact h.sorted.sublist (List.eraseIdx_sublist ..)
  · intro e' he'
    exact h.queue e' (List.mem_of_mem_eraseIdx he')
  · intro d hd
    rcases List.mem_append.mp hd with hd | hd
    · exact h.dequeued d hd
    · rw [List.mem_singleton.mp hd]
      refine ⟨(h.queue e hmem).1, hmine, ?_, hskipped⟩
      refine ⟨s.queue.drop (k.passed.length + 1), ?_⟩
      have htake : k.passed.map (·.entry) = s.queue.take k.passed.length := by
        rw [hrest, List.take_left' (by simp)]
      rw [htake, ← hget]
      show s.queue = s.queue.take _ ++ s.queue[k.passed.length] :: s.queue.drop (k.passed.length + 1)
      rw [List.getElem_cons_drop, List.take_append_drop]
  · intro k' hk'
    cases hk'

omit [DecidableEq F] in
theorem Inv.look (h : Inv s) {k : Scan F C} (hk : s.scan = some k) : Inv (s.look k) := by
  unfold Sched.look
  cases he : s.queue[k.passed.length]? with
  | none => exact ⟨h.running, h.once, h.sorted, h.queue, h.dequeued, fun _ hk' => by cases hk'⟩
  | some e =>
    simp only
    split_ifs with hpin hempty hexec
    · exact h.pass hk he (Or.inl hpin)
    · -- the assertion: nothing empty has been pushed
      have hne := (h.queue e (List.mem_of_getElem? he)).2
      rw [hempty] at hne
      cases hne
    · exact h.pass hk he (Or.inr hexec)
    · apply h.take hk he
      intro hne
      by_contra hother
      exact hpin ⟨hne, fun heq => hother heq.symm⟩

end Step

theorem inv_step (s : Sched F C) (a : Act F C) (h : Inv s) : Inv (s.step a) := by
  unfold Sched.step
  rw [if_neg (by rw [h.running]; decide)]
  cases hk : s.scan with
  | none =>
    cases a with
    | schedule fc thread => exact h.schedule fc thread
    | scheduleFibers xs => exact h.scheduleRange _
    | scheduleCbs xs => exact h.scheduleRange _
    | lock thread =>
      refine ⟨h.running, h.once, h.sorted, h.queue, h.dequeued, ?_⟩
      intro k hk'
      obtain rfl := Option.some.inj hk'
      exact ⟨⟨s.queue, rfl⟩, fun x hx => absurd hx List.not_mem_nil⟩
    | look => exact h
    | assignFiber x f => exact h.congr rfl rfl hk.symm rfl rfl
    | assignCb x c => exact h.congr rfl rfl hk.symm rfl rfl
    | setState f st => exact h.congr rfl rfl hk.symm rfl rfl
  | some k =>
    cases a with
    | look => exact h.look hk
    | assignFiber x f => exact h.congr rfl rfl hk.symm rfl rfl
    | assignCb x c => exact h.congr rfl rfl hk.symm rfl rfl
    | setState f st => exact h.congr rfl rfl hk.symm rfl rfl
    | _ => exact h

theorem inv_run (state : F → State) (vars : Vars F C) (acts : List (Act F C)) :
    Inv (run Sched.step (Sched.new state vars) acts) := by
  induction acts using List.reverseRecOn with
  | nil => exact inv_new state vars
  | append_singleton acts a ih =>
    rw [run_append]
    exact inv_step _ a ih

/-- a running fiber and a task pinned to thread 2 are passed by thread 1; the callback behind them leaves -/
example :
    let acts : List (Act ℕ ℕ) := [.setState 5 .exec, .schedule (.fiber (some 5)) (-1), .schedule (.cb (some 0)) 2,
      .schedule (.cb none) (-1), .assignCb 0 (some 9), .scheduleCbs [0, 0], .lock 1, .look, .look, .look]
    let s := run Sched.step (Sched.new (fun _ => .init) ⟨fun _ => none, fun _ => none⟩) acts
    s.queue.map (·.id) = [0, 1] ∧ s.dequeued.map (·.entry) = [⟨2, ⟨none, some 9, -1⟩⟩] := by
  decide

end Sylar.TaskQueue
