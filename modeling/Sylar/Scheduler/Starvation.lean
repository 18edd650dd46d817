/-
No task starves in the queue of `Scheduler` (`scheduler.h`, the locked part of `run()` in `scheduler.cpp`).

The model is the one of `Scheduler/Queue`: any number of threads schedule and select, an entry is looked at in one step,
and the states of the fibers change in between. A selection takes the first entry its thread may take, new entries go
to the back, and nothing is ever put in front of an entry; so an entry only waits for those ahead of it.
- `no_starvation`: with `n` entries ahead, an entry has left when a thread that may take it has completed `n + 1`
  selections, whatever the others do. Two prices: the fiber of the entry must not be running at the time (`run()` skips
  it), and somebody who may take it must go on selecting;
- `pinned_waits`: the second one: an entry pinned to a thread that does not select stays.
- `look_ends`: the scan of a selection ends by itself, since nobody can schedule while it holds the lock.
-/
import Mathlib.Tactic
import Sylar.Core.Run
import Sylar.Scheduler.Fibers
import Sylar.Scheduler.Queue

namespace Sylar.TaskQueue

open Sylar.Core Sylar.Fibers

variable {F C : Type}

/-- thread `t` may take the entry -/
def Entry.Eligible (t : ℤ) (e : Entry F C) : Prop := e.task.thread = -1 ∨ e.task.thread = t

instance (t : ℤ) (e : Entry F C) : Decidable (e.Eligible t) := inferInstanceAs (Decidable (_ ∨ _))

/-- how many entries are ahead of entry number `i` -/
def Sched.ahead (s : Sched F C) (i : ℕ) : ℕ := (s.queue.filter fun e => e.id < i).length

/-! ## One selection -/

section Look

variable {s : Sched F C} {k : Scan F C} {e : Entry F C} {t : ℤ}

/-- nobody has looked at entry `i` in this scan -/
def Scan.Before (k : Scan F C) (i : ℕ) : Prop := ∀ x ∈ k.passed, x.entry.id ≠ i

/-- the number of an entry tells it apart -/
theorem Inv.eq_of_id (h : Inv s) {e' : Entry F C} (he : e ∈ s.queue) (he' : e' ∈ s.queue) (hid : e.id = e'.id) :
    e = e' := by
  have h1 := (h.queue e he).1
  have h2 := (h.queue e' he').1
  rw [hid, h2] at h1
  obtain ⟨i, task⟩ := e
  obtain ⟨i', task'⟩ := e'
  obtain rfl : i = i' := hid
  obtain rfl : task' = task := Option.some.inj h1
  rfl

/-- an entry the scan has not come to stands behind the entry it looks at, or is that entry -/
theorem Inv.at_or_behind (h : Inv s) (hk : s.scan = some k) (he : e ∈ s.queue) (hbefore : k.Before e.id) :
    ∃ e', s.queue[k.passed.length]? = some e' ∧ (e' = e ∨ e'.id < e.id) := by
  obtain ⟨⟨rest, hrest⟩, -⟩ := h.scan k hk
  have hin : e ∈ rest := by
    rw [hrest] at he
    rcases List.mem_append.mp he with he | he
    · obtain ⟨x, hx, rfl⟩ := List.mem_map.mp he
      exact absurd rfl (hbefore x hx)
    · exact he
  cases rest with
  | nil => cases hin
  | cons e' rest =>
    refine ⟨e', ?_, ?_⟩
    · rw [hrest, List.getElem?_append_right (by simp)]
      simp
    · rcases List.mem_cons.mp hin with rfl | hin
      · exact Or.inl rfl
      · have hsorted := h.sorted
        rw [hrest] at hsorted
        have htail := (List.pairwise_append.mp hsorted).2.1
        exact Or.inr (List.rel_of_pairwise_cons htail hin)

/-- to take an entry that is ahead brings the others forward -/
theorem ahead_erase {n i : ℕ} {e' : Entry F C} (hn : s.queue[n]? = some e') (hlt : e'.id < i) (s' : Sched F C)
    (hs' : s'.queue = s.queue.eraseIdx n) : s'.ahead i + 1 = s.ahead i := by
  have hperm := (perm_cons_eraseIdx hn).filter fun e => e.id < i
  have hlen := hperm.length_eq
  rw [List.filter_cons_of_pos (by simpa using hlt), List.length_cons] at hlen
  unfold Sched.ahead
  rw [hs', hlen]

/-- **One look at the queue**, by a thread that may take the entry and has not come to it: the scan goes on and has
still not come to it, or it ends, and the entry is gone or further in front. -/
theorem Inv.look_cases (h : Inv s) (hk : s.scan = some k) (he : e ∈ s.queue) (helig : e.Eligible k.thread)
    (hexec : s.seen e ≠ some .exec) (hbefore : k.Before e.id) :
    (∃ x, (s.look k).scan = some { k with passed := k.passed ++ [x] } ∧ (s.look k).queue = s.queue ∧ x.entry.id ≠ e.id) ∨
      ((s.look k).scan = none ∧ (e ∉ (s.look k).queue ∨ (s.look k).ahead e.id + 1 = s.ahead e.id)) := by
  obtain ⟨e', hat, hpos⟩ := h.at_or_behind hk he hbefore
  have hmem : e' ∈ s.queue := List.mem_of_getElem? hat
  unfold Sched.look
  simp only [hat]
  split_ifs with hpin hempty hrun
  · -- pinned to another thread, so it is not the entry
    left
    refine ⟨_, rfl, rfl, fun hid => ?_⟩
    obtain rfl := h.eq_of_id hmem he hid
    rcases helig with h1 | h1
    · exact hpin.1 h1
    · exact hpin.2 h1
  · have hne := (h.queue e' hmem).2
    rw [hempty] at hne
    cases hne
  · left
    refine ⟨_, rfl, rfl, fun hid => ?_⟩
    obtain rfl := h.eq_of_id hmem he hid
    exact hexec hrun
  · right
    refine ⟨rfl, ?_⟩
    rcases hpos with rfl | hlt
    · left
      intro hin
      -- the numbers in the queue are different
      have hnodup : (s.queue.map Entry.id).Nodup :=
        List.pairwise_map.mpr (h.sorted.imp fun hab => Nat.ne_of_lt hab)
      have hperm := (perm_cons_eraseIdx hat).map Entry.id
      have hno := (List.nodup_cons.mp (hperm.nodup_iff.mp hnodup)).1
      exact hno (List.mem_map.mpr ⟨e', hin, rfl⟩)
    · exact Or.inr (ahead_erase hat hlt _ rfl)

end Look

/-! ## Runs -/

section Runs

variable [DecidableEq F] {s : Sched F C} {e : Entry F C} {t : ℤ}

/-- the step ends a selection of thread `t` -/
def completes (t : ℤ) (s : Sched F C) (a : Act F C) : Bool := s.scan.any (fun k => k.thread = t) && (s.step a).scan.isNone

def Act.isLook : Act F C → Bool
  | .look => true
  | _ => false

/-- how many selections thread `t` completes -/
def selections (t : ℤ) : Sched F C → List (Act F C) → ℕ
  | _, [] => 0
  | s, a :: acts => (if completes t s a then 1 else 0) + selections t (s.step a) acts

/-- the entry waits, and a selection of `t` that is under way has not come to it -/
structure Waits (t : ℤ) (e : Entry F C) (s : Sched F C) : Prop where
  inv : Inv s
  mem : e ∈ s.queue
  before : ∀ k, s.scan = some k → k.thread = t → k.Before e.id

omit [DecidableEq F] in
/-- new entries go to the back -/
theorem ahead_push (h : Inv s) (he : e ∈ s.queue) (ft : FiberAndThread F C) : (s.push ft).ahead e.id = s.ahead e.id := by
  have hlt := h.id_lt he
  unfold Sched.ahead Sched.push
  rw [List.filter_append, List.filter_cons_of_neg (by simp; omega), List.filter_nil, List.append_nil]

omit [DecidableEq F] in
theorem scheduleNoLock_keeps (h : Inv s) (he : e ∈ s.queue) (fc : Arg F C) (thread : ℤ) :
    e ∈ (s.scheduleNoLock fc thread).1.queue ∧ (s.scheduleNoLock fc thread).1.ahead e.id = s.ahead e.id ∧
      (s.scheduleNoLock fc thread).1.scan = s.scan := by
  unfold Sched.scheduleNoLock
  simp only
  split_ifs
  · have hvars : Inv { s with vars := (FiberAndThread.new s.vars thread fc).2 } := h.congr rfl rfl rfl rfl rfl
    exact ⟨List.mem_append_left _ he, ahead_push hvars he _, rfl⟩
  · exact ⟨he, rfl, rfl⟩

omit [DecidableEq F] in
theorem scheduleRange_keeps (h : Inv s) (he : e ∈ s.queue) (range : List (Arg F C)) :
    e ∈ (s.scheduleRange range).queue ∧ (s.scheduleRange range).ahead e.id = s.ahead e.id ∧
      (s.scheduleRange range).scan = s.scan := by
  unfold Sched.scheduleRange
  induction range generalizing s with
  | nil => exact ⟨he, rfl, rfl⟩
  | cons fc range ih =>
    obtain ⟨h1, h2, h3⟩ := scheduleNoLock_keeps h he fc (-1)
    obtain ⟨h4, h5, h6⟩ := ih (h.schedule fc (-1)) h1
    exact ⟨h4, h5.trans h2, h6.trans h3⟩

omit [DecidableEq F] in
/-- a scan of any thread takes nothing from behind to the front -/
theorem ahead_look_le (k : Scan F C) (i : ℕ) : (s.look k).ahead i ≤ s.ahead i := by
  unfold Sched.look
  cases s.queue[k.passed.length]? with
  | none => exact le_refl _
  | some e' =>
    simp only
    split_ifs
    · exact le_refl _
    · exact le_refl _
    · exact le_refl _
    · exact ((List.eraseIdx_sublist ..).filter _).length_le

omit [DecidableEq F] in
/-- a look by a thread that may not take the entry -/
theorem look_keeps {k : Scan F C} (he : e ∈ s.queue) (hpin : e.task.thread ≠ -1) (hk : k.thread ≠ e.task.thread) :
    e ∈ (s.look k).queue := by
  unfold Sched.look
  cases hat : s.queue[k.passed.length]? with
  | none => exact he
  | some e' =>
    simp only
    split_ifs with hpin'
    · exact he
    · exact he
    · exact he
    · have hne : e ≠ e' := by
        rintro rfl
        exact hpin' ⟨hpin, fun heq => hk heq.symm⟩
      have hmem := (perm_cons_eraseIdx hat).mem_iff.mp he
      exact (List.mem_cons.mp hmem).resolve_left hne

/-- what a step can do to an entry of the queue: nothing, or it starts a selection, or it is a look -/
theorem Inv.step_cases (h : Inv s) (he : e ∈ s.queue) (a : Act F C) :
    (e ∈ (s.step a).queue ∧ (s.step a).ahead e.id = s.ahead e.id ∧ (s.step a).scan = s.scan) ∨
      (∃ thread, a = .lock thread ∧ s.scan = none ∧ s.step a = { s with scan := some ⟨thread, []⟩ }) ∨
      ∃ k, s.scan = some k ∧ s.step a = s.look k := by
  unfold Sched.step
  rw [if_neg (by rw [h.running]; decide)]
  split
  · exact Or.inl (scheduleNoLock_keeps h he _ _)
  · exact Or.inl (scheduleRange_keeps h he _)
  · exact Or.inl (scheduleRange_keeps h he _)
  · next thread hs => exact Or.inr (Or.inl ⟨thread, rfl, hs, rfl⟩)
  · next k hs => exact Or.inr (Or.inr ⟨k, hs, rfl⟩)
  all_goals exact Or.inl ⟨he, rfl, rfl⟩

omit [DecidableEq F] in
/-- the scan of a thread stays its scan -/
theorem look_thread {k : Scan F C} (h : s.aborted = false → (s.look k).aborted = false) (hrun : s.aborted = false)
    {k' : Scan F C} (hk' : (s.look k).scan = some k') : k'.thread = k.thread := by
  have hran := h hrun
  unfold Sched.look at hk' hran
  split at hk'
  · cases hk'
  · next e hat =>
    simp only [hat] at hk' hran
    split_ifs at hk' hran
    · rw [← Option.some.inj hk']
    · rw [← Option.some.inj hk']

/-- **One step.** The entry leaves, or it waits on and every selection that `t` completes has brought it forward. -/
theorem Waits.step (h : Waits t e s) (helig : e.Eligible t) (hexec : s.seen e ≠ some .exec) (a : Act F C) :
    e ∉ (s.step a).queue ∨
      Waits t e (s.step a) ∧ (if completes t s a then 1 else 0) + (s.step a).ahead e.id ≤ s.ahead e.id := by
  by_cases hgone : e ∉ (s.step a).queue
  · exact Or.inl hgone
  refine Or.inr ?_
  have hmem := not_not.mp hgone
  have hinv : Inv (s.step a) := inv_step s a h.inv
  rcases h.inv.step_cases h.mem a with ⟨-, hahead, hscan⟩ | ⟨thread, -, hs, hstep⟩ | ⟨k, hs, hstep⟩
  · -- nothing happens to the queue in front of it, or to the scan
    have hno : completes t s a = false := by
      unfold completes
      rw [hscan]
      cases s.scan <;> simp
    exact ⟨⟨hinv, hmem, fun k hk => h.before k (hscan ▸ hk)⟩, by simp [hno, hahead]⟩
  · have hno : completes t s a = false := by simp [completes, hs]
    refine ⟨⟨hinv, hmem, fun k hk _ => ?_⟩, by simp [hno, hstep, Sched.ahead]⟩
    -- a new scan has looked at nothing
    rw [hstep] at hk
    obtain rfl := Option.some.inj hk
    exact fun x hx => absurd hx List.not_mem_nil
  · by_cases ht : k.thread = t
    · subst ht
      rcases h.inv.look_cases hs h.mem helig hexec (h.before k hs rfl) with ⟨x, h1, h2, h3⟩ | ⟨h1, h2⟩
      · -- the scan goes on
        have hno : completes k.thread s a = false := by simp [completes, hstep, h1]
        refine ⟨⟨hinv, hmem, fun k' hk' _ => ?_⟩, by simp [hno, hstep, Sched.ahead, h2]⟩
        rw [hstep, h1] at hk'
        obtain rfl := Option.some.inj hk'
        intro y hy
        rcases List.mem_append.mp hy with hy | hy
        · exact h.before k hs rfl y hy
        · rw [List.mem_singleton.mp hy]
          exact h3
      · have hfront : (s.look k).ahead e.id + 1 = s.ahead e.id := h2.resolve_left fun hno => hno (hstep ▸ hmem)
        refine ⟨⟨hinv, hmem, fun k' hk' _ => ?_⟩, ?_⟩
        · rw [hstep, h1] at hk'
          cases hk'
        · rw [hstep]
          split_ifs <;> omega
    · -- a look of another thread
      have hno : completes t s a = false := by simp [completes, hs, ht]
      refine ⟨⟨hinv, hmem, fun k' hk' ht' => ?_⟩, by simpa [hno, hstep] using ahead_look_le k e.id⟩
      have hsame := look_thread (fun _ => hstep ▸ hinv.running) h.inv.running (hstep ▸ hk')
      exact absurd (hsame.symm.trans ht') ht

/-- the histories only grow -/
theorem history_mono (s : Sched F C) (a : Act F C) :
    s.pushed <+: (s.step a).pushed ∧ s.dequeued <+: (s.step a).dequeued := by
  have hone : ∀ (s : Sched F C) (fc : Arg F C) (thread : ℤ),
      s.pushed <+: (s.scheduleNoLock fc thread).1.pushed ∧ s.dequeued <+: (s.scheduleNoLock fc thread).1.dequeued := by
    intro s fc thread
    unfold Sched.scheduleNoLock
    simp only
    split_ifs
    · exact ⟨List.prefix_append _ _, List.prefix_refl _⟩
    · exact ⟨List.prefix_refl _, List.prefix_refl _⟩
  have hrange : ∀ (range : List (Arg F C)) (s : Sched F C),
      s.pushed <+: (s.scheduleRange range).pushed ∧ s.dequeued <+: (s.scheduleRange range).dequeued := by
    intro range
    induction range with
    | nil => exact fun s => ⟨List.prefix_refl _, List.prefix_refl _⟩
    | cons fc range ih =>
      intro s
      obtain ⟨h1, h2⟩ := hone s fc (-1)
      obtain ⟨h3, h4⟩ := ih (s.scheduleNoLock fc (-1)).1
      exact ⟨h1.trans h3, h2.trans h4⟩
  unfold Sched.step
  split_ifs
  · exact ⟨List.prefix_refl _, List.prefix_refl _⟩
  split
  · exact hone _ _ _
  · exact hrange _ _
  · exact hrange _ _
  · exact ⟨List.prefix_refl _, List.prefix_refl _⟩
  · unfold Sched.look
    split
    · exact ⟨List.prefix_refl _, List.prefix_refl _⟩
    · simp only
      split_ifs
      · exact ⟨List.prefix_refl _, List.prefix_refl _⟩
      · exact ⟨List.prefix_refl _, List.prefix_refl _⟩
      · exact ⟨List.prefix_refl _, List.prefix_refl _⟩
      · exact ⟨List.prefix_refl _, List.prefix_append _ _⟩
  all_goals exact ⟨List.prefix_refl _, List.prefix_refl _⟩

theorem run_dequeued (s : Sched F C) (acts : List (Act F C)) : s.dequeued <+: (run Sched.step s acts).dequeued := by
  induction acts generalizing s with
  | nil => exact List.prefix_refl _
  | cons a acts ih => exact (history_mono s a).2.trans (ih _)

/-- an entry that has left the queue has been taken -/
theorem Waits.taken (h : Waits t e s) {a : Act F C} (hgone : e ∉ (s.step a).queue) :
    ∃ d ∈ (s.step a).dequeued, d.entry = e := by
  have hinv : Inv (s.step a) := inv_step s a h.inv
  obtain ⟨htask, -⟩ := h.inv.queue e h.mem
  have hlt := (List.getElem?_eq_some_iff.mp htask).1
  have htask' : (s.step a).pushed[e.id]? = some e.task := by
    obtain ⟨l, hl⟩ := (history_mono s a).1
    rw [← hl, List.getElem?_append_left hlt, htask]
  have hlt' := (List.getElem?_eq_some_iff.mp htask').1
  rcases List.mem_append.mp (hinv.once.mem_iff.mpr (List.mem_range.mpr hlt')) with hin | hin
  · -- still there under its number
    obtain ⟨e', he', hid⟩ := List.mem_map.mp hin
    have h1 := (hinv.queue e' he').1
    obtain ⟨i, task⟩ := e
    obtain ⟨i', task'⟩ := e'
    obtain rfl : i' = i := hid
    obtain rfl : task = task' := Option.some.inj (htask'.symm.trans h1)
    exact absurd he' hgone
  · obtain ⟨d, hd, hid⟩ := List.mem_map.mp hin
    refine ⟨d, hd, ?_⟩
    have h1 := (hinv.dequeued d hd).1
    obtain ⟨i, task⟩ := e
    have hid' : d.entry.id = i := hid
    rw [hid'] at h1
    obtain rfl : d.entry.task = task := Option.some.inj (h1.symm.trans htask')
    rw [← hid']

/-- **The run.** An entry that nobody takes has been brought forward by every selection that `t` has completed. -/
theorem Waits.run (h : Waits t e s) (helig : e.Eligible t) (acts : List (Act F C))
    (hexec : Along (fun s _ => s.seen e ≠ some .exec) Sched.step s acts) :
    (∃ d ∈ (Core.run Sched.step s acts).dequeued, d.entry = e) ∨
      Waits t e (Core.run Sched.step s acts) ∧
        selections t s acts + (Core.run Sched.step s acts).ahead e.id ≤ s.ahead e.id := by
  induction acts generalizing s with
  | nil => exact Or.inr ⟨h, by simp [selections]⟩
  | cons a acts ih =>
    rcases h.step helig hexec.1 a with hgone | ⟨hwaits, hle⟩
    · obtain ⟨d, hd, he⟩ := h.taken hgone
      exact Or.inl ⟨d, (run_dequeued _ acts).subset hd, he⟩
    · rcases ih hwaits hexec.2 with hdone | ⟨hend, hle'⟩
      · exact Or.inl hdone
      · refine Or.inr ⟨hend, ?_⟩
        rw [run_cons, selections]
        omega

/-- **A scan ends**: after as many looks as entries are left, and one more, since nothing is scheduled meanwhile. -/
theorem scan_ends (h : Inv s) {k : Scan F C} (hk : s.scan = some k) (acts : List (Act F C))
    (hmany : s.queue.length < k.passed.length + acts.countP Act.isLook) :
    1 ≤ selections k.thread s acts := by
  have hrunning : s.aborted = false := h.running
  induction acts generalizing s k with
  | nil =>
    obtain ⟨⟨rest, hrest⟩, -⟩ := h.scan k hk
    have hlen := congrArg List.length hrest
    simp only [List.length_append, List.length_map, List.countP_nil] at hlen hmany
    omega
  | cons a acts ih =>
    have hinv : Inv (s.step a) := inv_step s a h
    -- only a look changes the queue or the scan
    have hother : (s.step a).queue = s.queue → (s.step a).scan = some k → a.isLook = false →
        1 ≤ selections k.thread s (a :: acts) := by
      intro hq hk' ha
      rw [List.countP_cons, ha] at hmany
      have := ih hinv hk' (by rw [hq]; simpa using hmany) hinv.running
      rw [selections]
      omega
    cases a with
    | look =>
      have hstep : s.step .look = s.look k := by simp [Sched.step, hrunning, hk]
      by_cases hend : (s.look k).scan = none
      · rw [selections, if_pos (by simp [completes, hk, hstep, hend])]
        omega
      · -- an entry has been passed
        obtain ⟨x, hx, hq⟩ : ∃ x, (s.look k).scan = some { k with passed := k.passed ++ [x] } ∧ (s.look k).queue = s.queue := by
          have hran := hinv.running
          rw [hstep] at hran
          unfold Sched.look at hend hran ⊢
          cases hat : s.queue[k.passed.length]? with
          | none => simp [hat] at hend
          | some e =>
            simp only [hat] at hend hran ⊢
            split_ifs at hend hran ⊢
            · exact ⟨_, rfl, rfl⟩
            · exact ⟨_, rfl, rfl⟩
            · exact absurd rfl hend
        have hmany' : (s.look k).queue.length <
            (k.passed ++ [x]).length + acts.countP Act.isLook := by
          rw [hq, List.length_append, List.length_singleton]
          rw [List.countP_cons] at hmany
          simp only [Act.isLook, if_true] at hmany
          omega
        have := ih (hstep ▸ hinv) hx hmany' (hstep ▸ hinv.running)
        rw [selections, hstep]
        exact this.trans (Nat.le_add_left _ _)
    | assignFiber x f => exact hother (by simp [Sched.step, hrunning]) (by simp [Sched.step, hrunning, hk]) rfl
    | assignCb x c => exact hother (by simp [Sched.step, hrunning]) (by simp [Sched.step, hrunning, hk]) rfl
    | setState f st => exact hother (by simp [Sched.step, hrunning]) (by simp [Sched.step, hrunning, hk]) rfl
    | _ => exact hother (by simp [Sched.step, hrunning, hk]) (by simp [Sched.step, hrunning, hk]) rfl

end Runs

/-! ## Starvation -/

section Results

variable [DecidableEq F] (state : F → State) (vars : Vars F C) (pre acts : List (Act F C))

/-- **No task starves.** Take any moment of any run at which nobody selects, and an entry of the queue with any number of
entries ahead. If its fiber, where it has one, is never found running, then a thread that may take it completes at most
as many selections as there are entries ahead before somebody has taken it, whatever the other threads schedule and
select meanwhile. -/
theorem no_starvation (t : ℤ) (e : Entry F C) (hmem : e ∈ (run Sched.step (Sched.new state vars) pre).queue)
    (hfree : (run Sched.step (Sched.new state vars) pre).scan = none) (helig : e.Eligible t)
    (hexec : Along (fun s _ => s.seen e ≠ some .exec) Sched.step (run Sched.step (Sched.new state vars) pre) acts)
    (hmany : (run Sched.step (Sched.new state vars) pre).ahead e.id <
      selections t (run Sched.step (Sched.new state vars) pre) acts) :
    ∃ d ∈ (run Sched.step (Sched.new state vars) (pre ++ acts)).dequeued, d.entry = e := by
  have hwaits : Waits t e (run Sched.step (Sched.new state vars) pre) :=
    ⟨inv_run state vars pre, hmem, fun k hk => by rw [hfree] at hk; cases hk⟩
  rw [run_append]
  rcases hwaits.run helig acts hexec with hdone | ⟨-, hle⟩
  · exact hdone
  · omega

/-- the callback of the example of the queue: a running fiber and a task pinned elsewhere ahead, three selections -/
theorem no_starvation_callback :
    let pre : List (Act ℕ ℕ) := [.setState 5 .exec, .schedule (.fiber (some 5)) (-1), .schedule (.cb (some 7)) 2,
      .schedule (.cb (some 8)) (-1), .schedule (.cb (some 9)) (-1)]
    let acts : List (Act ℕ ℕ) := [.lock 1, .look, .look, .look, .setState 5 .hold, .schedule (.cb (some 6)) (-1), .lock 1,
      .look, .lock 2, .look, .lock 1, .look, .lock 1, .look]
    ∃ d ∈ (run Sched.step (Sched.new (fun _ => .init) ⟨fun _ => none, fun _ => none⟩) (pre ++ acts)).dequeued,
      d.entry = ⟨3, ⟨none, some 9, -1⟩⟩ :=
  no_starvation (fun _ => .init) ⟨fun _ => none, fun _ => none⟩ _ _ 1 ⟨3, ⟨none, some 9, -1⟩⟩ (by decide) (by decide)
    (by decide) (by decide) (by decide)

/-- **Only those who may take it.** An entry pinned to a thread that starts no selection stays where it is. -/
theorem pinned_waits (e : Entry F C) (hmem : e ∈ (run Sched.step (Sched.new state vars) pre).queue)
    (hfree : (run Sched.step (Sched.new state vars) pre).scan = none) (hpin : e.task.thread ≠ -1)
    (hidle : ∀ a ∈ acts, ∀ t, a = .lock t → t ≠ e.task.thread) :
    e ∈ (run Sched.step (Sched.new state vars) (pre ++ acts)).queue := by
  have hstep : ∀ (s : Sched F C) (a : Act F C), (∀ t, a = .lock t → t ≠ e.task.thread) →
      (Inv s ∧ e ∈ s.queue ∧ ∀ k, s.scan = some k → k.thread ≠ e.task.thread) →
      (Inv (s.step a) ∧ e ∈ (s.step a).queue ∧ ∀ k, (s.step a).scan = some k → k.thread ≠ e.task.thread) := by
    rintro s a ha ⟨hinv, hin, hscan⟩
    have hinv' : Inv (s.step a) := inv_step s a hinv
    refine ⟨hinv', ?_⟩
    rcases hinv.step_cases hin a with ⟨h1, -, h3⟩ | ⟨thread, rfl, -, h2⟩ | ⟨k, hs, h2⟩
    · exact ⟨h1, fun k hk => hscan k (h3 ▸ hk)⟩
    · rw [h2]
      refine ⟨hin, fun k hk => ?_⟩
      obtain rfl := Option.some.inj hk
      exact ha thread rfl
    · refine ⟨?_, fun k' hk' => ?_⟩
      · rw [h2]
        exact look_keeps hin hpin (hscan k hs)
      · rw [look_thread (fun _ => h2 ▸ hinv'.running) hinv.running (h2 ▸ hk')]
        exact hscan k hs
  rw [run_append]
  have hstart : Inv (run Sched.step (Sched.new state vars) pre) := inv_run state vars pre
  exact (run_inv hstep acts ⟨hstart, hmem, fun k hk => by rw [hfree] at hk; cases hk⟩
    (Along.of_forall hidle _)).2.1

end Results

end Sylar.TaskQueue
