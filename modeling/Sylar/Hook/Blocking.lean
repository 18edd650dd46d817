/-
`do_io` keeps the meaning of a blocking call.

The invariant has four parts, one for each thing a call shares with the rest: the timers it has created (`TimersOk`),
the callbacks on their way (`CallbacksOk`), its registration with the fd context (`SlotsOk`), and what it has returned
(`ResultsOk`). Each part has a frame lemma for the steps that do not concern it.

- `do_io_blocking`: in every run, a call that has returned has returned the result of a system call other than `EINTR`
  and `EAGAIN`, or -1 because `addEvent` failed, or -1 with `ETIMEDOUT` and then the callback of one of its own timers
  has run; none of its timers is in the set, and no context holds a registration of it. A call that has not returned
  is waiting or can go on.
-/
import Mathlib.Tactic
import Sylar.Core.Run
import Sylar.Timer.Model
import Sylar.Timer.Invariant
import Sylar.Timer.Delivery
import Sylar.IOManager.Events
import Sylar.IOManager.Accounting
import Sylar.IOManager.Contexts
import Sylar.IOManager.Resumption
import Sylar.Hook.Flags
import Sylar.Hook.DoIo

namespace Sylar.Hook

open Sylar.Core IOManager

/-! ## Calls -/

section Calls

variable (s : St) (k : ℕ) (p : Phase) (j : ℕ)

@[simp] theorem setCall_self (c : CallSt) : (s.setCall k c).calls k = c := by simp [St.setCall]

theorem setCall_ne (c : CallSt) {j : ℕ} (h : j ≠ k) : (s.setCall k c).calls j = s.calls j := by
  simp [St.setCall, Function.update_of_ne h]

@[simp] theorem goto_created : ((s.goto k p).calls j).created = (s.calls j).created := by
  by_cases h : j = k
  · simp [h, St.goto]
  · simp [St.goto, setCall_ne s k _ h]

@[simp] theorem goto_cancelled : ((s.goto k p).calls j).cancelled = (s.calls j).cancelled := by
  by_cases h : j = k
  · simp [h, St.goto]
  · simp [St.goto, setCall_ne s k _ h]

@[simp] theorem goto_phase_self : ((s.goto k p).calls k).phase = p := by simp [St.goto]

theorem goto_ne {j : ℕ} (h : j ≠ k) : (s.goto k p).calls j = s.calls j := setCall_ne s k _ h

end Calls

/-! ## The timers of the calls -/

structure TimersOk (s : St) : Prop where
  inv : s.timers.Inv
  /-- the callback of a call belongs to a timer it has created -/
  owner : ∀ id k, s.timers.armed id = some (.timeout k) → id ∈ (s.calls k).created
  /-- a timer that is still set is the one its call holds -/
  held : ∀ k, ∀ id ∈ (s.calls k).created, (s.timers.armed id).isSome → (s.calls k).phase.timer = some id
  known : ∀ k, ∀ id ∈ (s.calls k).created, (s.timers.kind id).isSome

namespace TimersOk

variable {s s' : St}

theorem frame (h : TimersOk s) (ht : s'.timers = s.timers) (hc : ∀ k, (s'.calls k).created = (s.calls k).created)
    (hp : ∀ k, (s'.calls k).phase.timer = (s.calls k).phase.timer) : TimersOk s' := by
  refine ⟨ht ▸ h.inv, fun id k ha => ?_, fun k id hid ha => ?_, fun k id hid => ?_⟩
  · rw [hc]
    exact h.owner id k (ht ▸ ha)
  · rw [hp]
    exact h.held k id (hc k ▸ hid) (ht ▸ ha)
  · rw [ht]
    exact h.known k id (hc k ▸ hid)

/-- the call holds the same timer before and after -/
theorem goto (h : TimersOk s) {k : ℕ} {p : Phase} (hp : p.timer = (s.calls k).phase.timer) : TimersOk (s.goto k p) := by
  refine h.frame rfl (fun j => goto_created s k p j) fun j => ?_
  by_cases hj : j = k
  · rw [hj, goto_phase_self, hp]
  · rw [goto_ne s k p hj]

/-- an operation that creates no timer for a call -/
theorem op (h : TimersOk s) {o : TimerManager.Op Cb} (hok : o.Ok s.timers)
    (hnew : ∀ ms k rec now addr, o ≠ .addTimer ms (.timeout k) rec now addr) (ht : s'.timers = (s.timers.call o).2)
    (hc : s'.calls = s.calls) : TimersOk s' := by
  obtain ⟨hinv, hstep⟩ := TimerManager.call_refines h.inv hok
  refine ⟨ht ▸ hinv, fun id k ha => ?_, fun k id hid ha => ?_, fun k id hid => ?_⟩
  · rw [ht] at ha
    rw [hc]
    rcases hstep.armed_of ha with ha | ⟨-, ms, rec, now, addr, ho⟩
    · exact h.owner id k ha
    · exact absurd ho (hnew ms k rec now addr)
  · rw [hc] at hid ⊢
    rw [ht] at ha
    obtain ⟨c, hc'⟩ := Option.isSome_iff_exists.1 ha
    rcases hstep.armed_of hc' with ha | ⟨hnone, -⟩
    · exact h.held k id hid (by rw [show s.timers.armed id = some c from ha]; rfl)
    · have := h.known k id hid
      rw [show s.timers.kind id = none from hnone] at this
      cases this
  · rw [hc] at hid
    rw [ht]
    exact hstep.kind_of (h.known k id hid)

/-- `timer->cancel()`: the call holds no timer any more -/
theorem cancelTimer (h : TimersOk s) {k : ℕ} {timer : Option ℕ} (ht : (s.calls k).phase.timer = timer) {p : Phase}
    (hp : p.timer = none) : TimersOk ((s.cancelTimer timer).goto k p) := by
  cases timer with
  | none => exact h.goto (hp.trans ht.symm)
  | some id =>
    have h' : TimersOk (s.cancelTimer (some id)) := h.op (o := .cancel id) trivial (by simp) rfl rfl
    have hdead : (s.cancelTimer (some id)).timers.armed id = none := by
      show (s.timers.cancel id).2.armed id = none
      by_cases ha : s.timers.armed id = none
      · rw [TimerManager.cancel_none ha]
        exact ha
      · rw [(TimerManager.cancel_some h.inv (Option.isSome_iff_ne_none.2 ha)).2.2.1, Function.update_self]
    refine ⟨h'.inv, fun id' j ha => ?_, fun j id' hid ha => ?_, fun j id' hid => ?_⟩
    · rw [goto_created]
      exact h'.owner id' j ha
    · rw [goto_created] at hid
      have hheld := h'.held j id' hid ha
      by_cases hj : j = k
      · -- it could only be the timer just cancelled
        subst hj
        have : some id' = some id := hheld.symm.trans ht
        cases this
        rw [show ((s.cancelTimer (some id)).goto j p).timers.armed id = none from hdead] at ha
        cases ha
      · rw [goto_ne _ _ _ hj]
        exact hheld
    · rw [goto_created] at hid
      exact h'.known j id' hid

/-- `addConditionTimer` by a call that holds no timer -/
theorem addTimer (h : TimersOk s) {k : ℕ} (hnone : (s.calls k).phase.timer = none) {now : UInt64} {addr : ℕ}
    (hok : (TimerManager.Op.addTimer (s.calls k).ms (Cb.timeout k) false now addr).Ok s.timers)
    {id : ℕ} {front : Bool} {timers : TimerManager Cb}
    (hcall : s.timers.call (.addTimer (s.calls k).ms (.timeout k) false now addr) = (.added id front, timers)) :
    TimersOk ({ s with timers := timers }.setCall k
      { s.calls k with phase := .armed (some id), created := (s.calls k).created ++ [id] }) := by
  obtain ⟨hinv, hstep⟩ := TimerManager.call_refines h.inv hok
  rw [hcall] at hinv hstep
  obtain ⟨-, hfresh, harmed, hkind, front', hres⟩ := TimerManager.addTimer_spec h.inv (s.calls k).ms (Cb.timeout k) false now hok
  have hid : id = s.timers.created := by
    have := (congrArg Prod.fst hcall).symm.trans hres
    cases this
    rfl
  have ht : timers = (s.timers.addTimer (s.calls k).ms (.timeout k) false now addr).2 := (congrArg Prod.snd hcall).symm
  rw [← ht, ← hid] at harmed hkind
  rw [← hid] at hfresh
  have hne : ∀ j, ∀ i ∈ (s.calls j).created, i ≠ id := by
    rintro j i hi rfl
    have := h.known j i hi
    rw [hfresh] at this
    cases this
  refine ⟨hinv, fun i j ha => ?_, fun j i hi ha => ?_, fun j i hi => ?_⟩
  · replace ha : timers.armed i = some (.timeout j) := ha
    rw [harmed] at ha
    by_cases hii : i = id
    · subst hii
      rw [Function.update_self] at ha
      cases ha
      simp
    · rw [Function.update_of_ne hii] at ha
      have := h.owner i j ha
      by_cases hj : j = k
      · subst hj
        simp [this]
      · rw [setCall_ne _ _ _ hj]
        exact this
  · replace ha : (timers.armed i).isSome := ha
    by_cases hj : j = k
    · subst hj
      simp only [setCall_self, List.mem_append, List.mem_singleton] at hi ⊢
      rcases hi with hi | rfl
      · rw [harmed, Function.update_of_ne (hne j i hi)] at ha
        have := h.held j i hi ha
        rw [hnone] at this
        cases this
      · rfl
    · rw [setCall_ne _ _ _ hj] at hi ⊢
      rw [harmed, Function.update_of_ne (hne j i hi)] at ha
      exact h.held j i hi ha
  · show (timers.kind i).isSome
    rw [hkind]
    by_cases hii : i = id
    · simp [hii]
    · rw [Function.update_of_ne hii]
      by_cases hj : j = k
      · subst hj
        simp only [setCall_self, List.mem_append, List.mem_singleton, hii, or_false] at hi
        exact h.known j i hi
      · rw [setCall_ne _ _ _ hj] at hi
        exact h.known j i hi

end TimersOk

/-! ## The callbacks on their way -/

structure CallbacksOk (s : St) : Prop where
  collected : ∀ id k, (id, Cb.timeout k) ∈ s.collected → id ∈ (s.calls k).created
  locked : ∀ x ∈ s.locked, x.1 ∈ (s.calls x.2).created
  ran : ∀ x ∈ s.ran, x.1 ∈ (s.calls x.2).created
  /-- only a callback of the call sets `cancelled` -/
  cancelled : ∀ k, (s.calls k).cancelled = true → ∃ id, (id, k) ∈ s.ran

namespace CallbacksOk

variable {s s' : St}

/-- fewer callbacks are on their way, more timers have been created -/
theorem frame (h : CallbacksOk s) (hcol : ∀ x ∈ s'.collected, x ∈ s.collected) (hlock : ∀ x ∈ s'.locked, x ∈ s.locked)
    (hran : s'.ran = s.ran) (hcr : ∀ k, ∀ id ∈ (s.calls k).created, id ∈ (s'.calls k).created)
    (hcan : ∀ k, (s'.calls k).cancelled = (s.calls k).cancelled) : CallbacksOk s' := by
  refine ⟨fun id k hx => hcr k id (h.collected id k (hcol _ hx)), fun x hx => hcr _ _ (h.locked x (hlock x hx)),
    fun x hx => hcr _ _ (h.ran x (hran ▸ hx)), fun k hk => ?_⟩
  rw [hran]
  exact h.cancelled k (hcan k ▸ hk)

theorem goto (h : CallbacksOk s) (k : ℕ) (p : Phase) : CallbacksOk (s.goto k p) :=
  h.frame (fun _ hx => hx) (fun _ hx => hx) rfl (fun j _ hid => by rwa [goto_created]) fun j => goto_cancelled s k p j

/-- what `listExpiredCb` collects for a call comes from a timer of it -/
theorem expire (h : CallbacksOk s) (ht : TimersOk s) (now : UInt64) (addr : ℕ) :
    CallbacksOk (stepAlive s (.expire now addr)) := by
  refine ⟨fun id k hx => ?_, h.locked, h.ran, h.cancelled⟩
  rcases List.mem_append.1 hx with hx | hx
  · exact h.collected id k hx
  · obtain ⟨-, -, ids, -, -, hret, -⟩ := TimerManager.listExpiredCb_spec ht.inv now addr
    have hret' : (s.timers.call (.listExpiredCb now addr)).1 = .cbs (ids.map fun id => (id, s.timers.armed id)) := hret
    rw [hret'] at hx
    simp only [scheduledCbs, List.mem_filterMap, List.mem_map] at hx
    obtain ⟨-, ⟨i, -, rfl⟩, hi⟩ := hx
    obtain ⟨c, hc, he⟩ := Option.map_eq_some_iff.1 hi
    cases he
    exact ht.owner i k hc

theorem lock (h : CallbacksOk s) (x : ℕ × Cb) : CallbacksOk (stepAlive s (.lock x)) := by
  have herase : ∀ y ∈ s.collected.erase x, y ∈ s.collected := fun y hy => List.mem_of_mem_erase hy
  simp only [stepAlive]
  by_cases hmem : s.collected.contains x = true
  · rw [if_pos hmem]
    obtain ⟨id, c⟩ := x
    cases c with
    | timeout k =>
      dsimp only
      split_ifs
      · refine ⟨fun i j hx => h.collected i j (herase _ hx), fun y hy => ?_, h.ran, h.cancelled⟩
        rcases List.mem_append.1 hy with hy | hy
        · exact h.locked y hy
        · rw [List.mem_singleton.1 hy]
          exact h.collected id k (by simpa using hmem)
      · exact h.frame herase (fun _ hx => hx) rfl (fun _ _ hid => hid) fun _ => rfl
    | other n => exact h.frame herase (fun _ hx => hx) rfl (fun _ _ hid => hid) fun _ => rfl
  · rw [if_neg hmem]
    exact h

theorem setCancelled (h : CallbacksOk s) (x : ℕ × ℕ) : CallbacksOk (stepAlive s (.setCancelled x)) := by
  have herase : ∀ y ∈ s.locked.erase x, y ∈ s.locked := fun y hy => List.mem_of_mem_erase hy
  simp only [stepAlive]
  split_ifs with hmem hcan
  · exact h.frame (fun _ hx => hx) herase rfl (fun _ _ hid => hid) fun _ => rfl
  · have hin : x ∈ s.locked := by simpa using hmem
    set s1 : St := { s with locked := s.locked.erase x, cancelling := s.cancelling ++ [x.2], ran := s.ran ++ [x] } with hs1
    have hcr :
        ∀ j, ((s1.setCall x.2 { s.calls x.2 with cancelled := true }).calls j).created = (s.calls j).created := by
      intro j
      by_cases hj : j = x.2
      · simp [hj]
      · rw [setCall_ne _ _ _ hj]
    refine ⟨fun i j hx => ?_, fun y hy => ?_, fun y hy => ?_, fun j hj => ?_⟩
    · rw [hcr]
      exact h.collected i j hx
    · rw [hcr]
      exact h.locked y (herase y hy)
    · rw [hcr]
      rcases List.mem_append.1 hy with hy | hy
      · exact h.ran y hy
      · rw [List.mem_singleton.1 hy]
        exact h.locked x hin
    · by_cases hjx : j = x.2
      · exact ⟨x.1, by rw [hjx]; exact List.mem_append_right _ List.mem_cons_self⟩
      · rw [setCall_ne _ _ _ hjx] at hj
        obtain ⟨id, hid⟩ := h.cancelled j hj
        exact ⟨id, List.mem_append_left _ hid⟩
  · exact h

end CallbacksOk

/-! ## The registrations of the calls -/

structure SlotsOk (s : St) : Prop where
  sound : ∀ p, Sound (s.ctx p)
  /-- a context that holds the fiber of a call is where the call waits, and the fiber is not scheduled -/
  registered : ∀ p e sched k, slot (s.ctx p) e = some (sched, .fiber k) →
    (∃ t, (s.calls k).phase = .waiting t) ∧ p = (s.calls k).fd ∧ e = (s.calls k).event ∧ Task.fiber k ∉ s.queue
  /-- a fiber that is scheduled waits, and is scheduled once -/
  queued : ∀ k, Task.fiber k ∈ s.queue → (∃ t, (s.calls k).phase = .waiting t) ∧ s.queue.count (.fiber k) = 1

/-- what the enqueues of one direction can be -/
theorem follows_enqueues {x y : Option (Option ℕ × Task)} {tasks : List Enqueue} {e : Event}
    (h : Follows x (enqueuesOf tasks e) y) :
    (tasks.filter (fun t => t.1 = e) = [] ∧ y = x) ∨
      ∃ k t, tasks.filter (fun t => t.1 = e) = [(e, k, t)] ∧ x = some (some k, t) ∧ y = none := by
  have hdir : ∀ z ∈ tasks.filter (fun t => t.1 = e), z.1 = e := fun z hz => by simpa using (List.mem_filter.1 hz).2
  unfold enqueuesOf at h
  generalize tasks.filter (fun t => t.1 = e) = l at h hdir
  cases l with
  | nil =>
    cases h
    exact Or.inl ⟨rfl, rfl⟩
  | cons a l =>
    right
    cases h with
    | enqueued hrest =>
      cases l with
      | nil =>
        cases hrest
        refine ⟨a.2.1, a.2.2, ?_, rfl, rfl⟩
        rw [show a = (a.1, a.2.1, a.2.2) from rfl, hdir a List.mem_cons_self]
      | cons b l => cases hrest

/-- what an action of others does to the fibers of calls -/
theorem act_fibers {c c' : FdContext} (h : Sound c) {a : Act} (hf : foreignAct a = true) {r : Ret}
    {tasks : List Enqueue}
    (ha : c.act a = some (r, tasks, c')) (e : Event) :
    ((∀ k, Task.fiber k ∉ (tasks.filter fun t => t.1 = e).map fun t => t.2.2) ∧
        ∀ sched k, slot c' e = some (sched, .fiber k) → slot c e = some (sched, .fiber k)) ∨
      ∃ sched t, tasks.filter (fun t => t.1 = e) = [(e, sched, t)] ∧ slot c e = some (some sched, t) ∧ slot c' e = none := by
  obtain ⟨-, hfol⟩ := act_follows h ha
  have hfol := hfol e
  have henq : Follows (slot c e) (enqueuesOf tasks e) (slot c' e) →
      ((∀ k, Task.fiber k ∉ (tasks.filter fun t => t.1 = e).map fun t => t.2.2) ∧
        ∀ sched k, slot c' e = some (sched, .fiber k) → slot c e = some (sched, .fiber k)) ∨
      ∃ sched t, tasks.filter (fun t => t.1 = e) = [(e, sched, t)] ∧ slot c e = some (some sched, t) ∧ slot c' e = none := by
    intro hq
    rcases follows_enqueues hq with ⟨hnil, hsame⟩ | ⟨k, t, h1, h2, h3⟩
    · exact Or.inl ⟨fun k => by rw [hnil]; simp, fun sched k hk => hsame ▸ hk⟩
    · exact Or.inr ⟨k, t, h1, h2, h3⟩
  cases a with
  | cancelEvent | cancelAll | dispatch => exact henq hfol
  | addEvent event cb who ok =>
    obtain ⟨r1, -, he⟩ := Option.map_eq_some_iff.1 ha
    cases he
    refine Or.inl ⟨fun k => by simp, fun sched k hk => ?_⟩
    cases cb with
    | none => cases hf
    | some f =>
      simp only [slotEvents] at hfol
      generalize slot c e = x at hfol ⊢
      generalize slot r1.2 e = y at hfol hk
      generalize who.scheduler = sc at hfol
      split_ifs at hfol
      · -- the new registration is a callback
        cases hfol with
        | registered hrest =>
          cases hrest
          simp [taskOf] at hk
      · cases hfol
        exact hk
  | delEvent event ok =>
    simp only [FdContext.act, Option.some.injEq, Prod.mk.injEq] at ha
    obtain ⟨-, rfl, -⟩ := ha
    refine Or.inl ⟨fun k => by simp, fun sched k hk => ?_⟩
    simp only [slotEvents] at hfol
    generalize slot c e = x at hfol ⊢
    generalize slot c' e = y at hfol hk
    split_ifs at hfol
    · cases hfol with
      | deleted hrest =>
        cases hrest
        cases hk
    · cases hfol
      exact hk

/-- the enqueues of a context, direction by direction -/
theorem count_tasks (tasks : List Enqueue) (t : Task) :
    (tasks.map fun x => x.2.2).count t = ((tasks.filter fun x => x.1 = .read).map fun x => x.2.2).count t +
      ((tasks.filter fun x => x.1 = .write).map fun x => x.2.2).count t := by
  induction tasks with
  | nil => rfl
  | cons a l ih =>
    obtain ⟨e, k, u⟩ := a
    cases e with
    | read => simp only [List.map_cons, List.count_cons, ih, decide_true, List.filter_cons_of_pos]; simp; omega
    | write => simp only [List.map_cons, List.count_cons, ih]; simp [List.count_cons]; omega

namespace SlotsOk

variable {s s' : St}

/-- a call that does not wait has neither a registration nor a place in a queue -/
theorem free (h : SlotsOk s) {k : ℕ} (hk : ∀ t, (s.calls k).phase ≠ .waiting t) :
    (∀ p e sched, slot (s.ctx p) e ≠ some (sched, .fiber k)) ∧ Task.fiber k ∉ s.queue := by
  constructor
  · intro p e sched hs
    obtain ⟨⟨t, ht⟩, -⟩ := h.registered p e sched k hs
    exact hk t ht
  · intro hq
    obtain ⟨⟨t, ht⟩, -⟩ := h.queued k hq
    exact hk t ht

/-- contexts and queue stay, and the calls that wait stay where they are -/
theorem frame (h : SlotsOk s) (hctx : s'.ctx = s.ctx) (hq : s'.queue = s.queue)
    (hc : ∀ k t, (s.calls k).phase = .waiting t → (∃ t', (s'.calls k).phase = .waiting t') ∧
      (s'.calls k).fd = (s.calls k).fd ∧ (s'.calls k).event = (s.calls k).event) : SlotsOk s' := by
  refine ⟨fun p => hctx ▸ h.sound p, fun p e sched k hs => ?_, fun k hk => ?_⟩
  · obtain ⟨⟨t, ht⟩, h1, h2, h3⟩ := h.registered p e sched k (hctx ▸ hs)
    obtain ⟨hw, hfd, hev⟩ := hc k t ht
    exact ⟨hw, h1.trans hfd.symm, h2.trans hev.symm, hq ▸ h3⟩
  · obtain ⟨⟨t, ht⟩, h1⟩ := h.queued k (hq ▸ hk)
    exact ⟨(hc k t ht).1, hq ▸ h1⟩

/-- a call that does not wait changes -/
theorem setCall (h : SlotsOk s) {k : ℕ} (hk : ∀ t, (s.calls k).phase ≠ .waiting t) (c : CallSt) :
    SlotsOk (s.setCall k c) := by
  refine h.frame rfl rfl fun j t ht => ?_
  have hj : j ≠ k := by
    rintro rfl
    exact hk t ht
  rw [setCall_ne s k c hj]
  exact ⟨⟨t, ht⟩, rfl, rfl⟩

/-- `addEvent` of a call -/
theorem addEvent (h : SlotsOk s) {k : ℕ} {timer : Option ℕ} (hk : ∀ t, (s.calls k).phase ≠ .waiting t) {ok : Bool}
    {c : FdContext} (hadd : (s.ctx (s.calls k).fd).addEvent (s.calls k).event none (caller k) ok = some (.int 0, c)) :
    SlotsOk ({ s with ctx := Function.update s.ctx (s.calls k).fd c }.goto k (.waiting timer)) := by
  obtain ⟨hfree, hnq⟩ := h.free hk
  have hs := h.sound (s.calls k).fd
  rcases addEvent_cases hadd with ⟨hno, -⟩ | ⟨-, -, hc⟩
  · cases hno
  obtain ⟨hsound, hopen, hother⟩ := hs.change (s.calls k).event hc (hs.valid.or _)
    (by rw [hs.valid.has_or]; simp) fun e' he' => by rw [hs.valid.has_or, decide_eq_false he', Bool.false_or]
  replace hopen : slot c (s.calls k).event = some (some 0, .fiber k) := hopen
  refine ⟨fun p => ?_, fun p e sched j hj => ?_, fun j hj => ?_⟩
  · by_cases hp : p = (s.calls k).fd
    · simpa [St.goto, St.setCall, hp] using hsound
    · simpa [St.goto, St.setCall, Function.update_of_ne hp] using h.sound p
  · replace hj : slot (Function.update s.ctx (s.calls k).fd c p) e = some (sched, .fiber j) := hj
    -- a slot other than the new one is as it was, and was not one of `k`
    have hold : slot (s.ctx p) e = some (sched, .fiber j) → j ≠ k := by
      rintro hs' rfl
      exact hfree p e sched hs'
    by_cases hnew : p = (s.calls k).fd ∧ e = (s.calls k).event
    · obtain ⟨rfl, rfl⟩ := hnew
      rw [Function.update_self, hopen] at hj
      cases hj
      exact ⟨⟨timer, goto_phase_self _ _ _⟩, by simp [St.goto], by simp [St.goto], hnq⟩
    · have hj' : slot (s.ctx p) e = some (sched, .fiber j) := by
        by_cases hp : p = (s.calls k).fd
        · subst hp
          rwa [Function.update_self, hother e fun he => hnew ⟨rfl, he⟩] at hj
        · rwa [Function.update_of_ne hp] at hj
      rw [goto_ne _ _ _ (hold hj')]
      exact h.registered p e sched j hj'
  · have hjk : j ≠ k := by
      rintro rfl
      exact hnq hj
    rw [goto_ne _ _ _ hjk]
    exact h.queued j hj

/-- a fiber is resumed -/
theorem resume (h : SlotsOk s) {k : ℕ} {timer : Option ℕ} (hq : Task.fiber k ∈ s.queue) :
    SlotsOk ({ s with queue := s.queue.erase (.fiber k) }.goto k (.woken timer)) := by
  obtain ⟨-, hcount⟩ := h.queued k hq
  refine ⟨h.sound, fun p e sched j hj => ?_, fun j hj => ?_⟩
  · have hreg := h.registered p e sched j hj
    have hjk : j ≠ k := by
      rintro rfl
      exact hreg.2.2.2 hq
    rw [goto_ne _ _ _ hjk]
    exact ⟨hreg.1, hreg.2.1, hreg.2.2.1, fun hm => hreg.2.2.2 (List.mem_of_mem_erase hm)⟩
  · have hjk : j ≠ k := by
      rintro rfl
      have := List.count_pos_iff.2 hj
      rw [show (St.goto { s with queue := s.queue.erase (.fiber j) } j (.woken timer)).queue =
        s.queue.erase (.fiber j) from rfl, List.count_erase_self, hcount] at this
      omega
    have hne : Task.fiber j ≠ Task.fiber k := fun he => hjk (by cases he; rfl)
    obtain ⟨hw, hc⟩ := h.queued j (List.mem_of_mem_erase hj)
    rw [goto_ne _ _ _ hjk]
    exact ⟨hw, (List.count_erase_of_ne hne).trans hc⟩

/-- others act on a context -/
theorem act (h : SlotsOk s) (p : ℕ) {a : Act} (hf : foreignAct a = true) : SlotsOk (s.act p a) := by
  unfold St.act
  cases ha : (s.ctx p).act a with
  | none => exact ⟨h.sound, h.registered, h.queued⟩
  | some r =>
    obtain ⟨ret, tasks, c'⟩ := r
    have hsound := (act_follows (h.sound p) ha).1
    have hfib := act_fibers (h.sound p) hf ha
    -- a fiber that is enqueued was registered here
    have hfrom : ∀ k, Task.fiber k ∈ tasks.map (fun t => t.2.2) → ∃ e sched, tasks.filter (fun t => t.1 = e) =
        [(e, sched, .fiber k)] ∧ slot (s.ctx p) e = some (some sched, .fiber k) ∧ slot c' e = none := by
      intro k hk
      obtain ⟨⟨e, sched, t⟩, hmem, ht⟩ := List.mem_map.1 hk
      replace ht : t = .fiber k := ht
      subst ht
      have hin : (e, sched, Task.fiber k) ∈ tasks.filter fun t => t.1 = e := List.mem_filter.2 ⟨hmem, by simp⟩
      rcases hfib e with ⟨hno, -⟩ | ⟨sched', t', h1, h2, h3⟩
      · exact absurd (List.mem_map.2 ⟨_, hin, rfl⟩) (hno k)
      · rw [h1, List.mem_singleton] at hin
        cases hin
        exact ⟨e, sched, h1, h2, h3⟩
    refine ⟨fun q => ?_, fun q e sched k hk => ?_, fun k hk => ?_⟩
    · by_cases hq : q = p
      · simpa [hq] using hsound
      · simpa [Function.update_of_ne hq] using h.sound q
    · replace hk : slot (Function.update s.ctx p c' q) e = some (sched, .fiber k) := hk
      have hold : slot (s.ctx q) e = some (sched, .fiber k) := by
        by_cases hq : q = p
        · subst hq
          rw [Function.update_self] at hk
          rcases hfib e with ⟨-, hkeep⟩ | ⟨_, _, -, -, hnone⟩
          · exact hkeep sched k hk
          · rw [hnone] at hk
            cases hk
        · rwa [Function.update_of_ne hq] at hk
      obtain ⟨h1, h2, h3, h4⟩ := h.registered q e sched k hold
      refine ⟨h1, h2, h3, fun hm => ?_⟩
      rcases List.mem_append.1 hm with hm | hm
      · exact h4 hm
      · obtain ⟨e', sched', -, hs', hnone⟩ := hfrom k hm
        obtain ⟨-, h2', h3', -⟩ := h.registered p e' (some sched') k hs'
        obtain rfl : q = p := h2.trans h2'.symm
        obtain rfl : e = e' := h3.trans h3'.symm
        rw [Function.update_self, hnone] at hk
        cases hk
    · show (∃ t, (s.calls k).phase = .waiting t) ∧ (s.queue ++ tasks.map fun t => t.2.2).count (.fiber k) = 1
      rw [List.count_append]
      by_cases hm : Task.fiber k ∈ tasks.map fun t => t.2.2
      · obtain ⟨e, sched, hone, hs', -⟩ := hfrom k hm
        obtain ⟨hw, -, hev, hnq⟩ := h.registered p e (some sched) k hs'
        have hother : ∀ e', e' ≠ e → ((tasks.filter fun t => t.1 = e').map fun t => t.2.2).count (.fiber k) = 0 := by
          intro e' he'
          refine List.count_eq_zero.2 fun hc => ?_
          rcases hfib e' with ⟨hno, -⟩ | ⟨sched', t', h1, h2, -⟩
          · exact hno k hc
          · rw [h1, List.map_singleton, List.mem_singleton] at hc
            subst hc
            exact he' ((h.registered p e' (some sched') k h2).2.2.1.trans hev.symm)
        refine ⟨hw, ?_⟩
        rw [List.count_eq_zero.2 hnq, count_tasks]
        cases e with
        | read => rw [hone, hother .write (by decide)]; simp
        | write => rw [hone, hother .read (by decide)]; simp
      · have hq : Task.fiber k ∈ s.queue := (List.mem_append.1 hk).resolve_right hm
        obtain ⟨hw, hc⟩ := h.queued k hq
        exact ⟨hw, by rw [hc, List.count_eq_zero.2 hm]⟩

end SlotsOk

/-! ## What the calls return -/

/-- a result `do_io` may return; for a timeout, the timer whose callback has run -/
def Lawful (s : St) (k : ℕ) (r : Result) : Prop :=
  match r.why with
  | .syscall => ∃ errno, r.errno = some errno ∧ ¬(r.n = -1 ∧ errno = EINTR) ∧ ¬(r.n = -1 ∧ errno = EAGAIN)
  | .addEvent => r.n = -1
  | .timeout => r.n = -1 ∧ r.errno = some ETIMEDOUT ∧ ∃ id ∈ (s.calls k).created, (id, k) ∈ s.ran

structure ResultsOk (s : St) : Prop where
  lawful : ∀ k r, (s.calls k).phase = .returned r → Lawful s k r
  /-- a call that has not begun has done nothing -/
  fresh : ∀ k, (s.calls k).phase = .idle → s.calls k = {}

namespace ResultsOk

variable {s s' : St}

theorem lawful_mono {k : ℕ} {r : Result} (h : Lawful s k r) (hran : ∀ x ∈ s.ran, x ∈ s'.ran)
    (hcr : ∀ id ∈ (s.calls k).created, id ∈ (s'.calls k).created) : Lawful s' k r := by
  unfold Lawful at h ⊢
  split at h
  · exact h
  · exact h
  · obtain ⟨h1, h2, id, h3, h4⟩ := h
    exact ⟨h1, h2, id, hcr id h3, hran _ h4⟩

theorem frame (h : ResultsOk s) (hc : s'.calls = s.calls) (hran : s'.ran = s.ran) : ResultsOk s' := by
  refine ⟨fun k r hr => ?_, fun k hk => ?_⟩
  · rw [hc] at hr
    exact lawful_mono (h.lawful k r hr) (fun x hx => hran ▸ hx) fun id hid => by rw [hc]; exact hid
  · rw [hc] at hk ⊢
    exact h.fresh k hk

/-- one call goes on, keeping its timers -/
theorem setCall (h : ResultsOk s) {k : ℕ} {c : CallSt} (hidle : c.phase ≠ .idle)
    (hcr : ∀ id ∈ (s.calls k).created, id ∈ c.created) (hret : ∀ r, c.phase = .returned r → Lawful (s.setCall k c) k r) :
    ResultsOk (s.setCall k c) := by
  refine ⟨fun j r hr => ?_, fun j hj => ?_⟩
  · by_cases hjk : j = k
    · subst hjk
      rw [setCall_self] at hr
      exact hret r hr
    · rw [setCall_ne _ _ _ hjk] at hr
      exact lawful_mono (h.lawful j r hr) (fun x hx => hx) fun id hid => by rw [setCall_ne _ _ _ hjk]; exact hid
  · by_cases hjk : j = k
    · subst hjk
      rw [setCall_self] at hj
      exact absurd hj hidle
    · rw [setCall_ne _ _ _ hjk] at hj ⊢
      exact h.fresh j hj

/-- a call goes to a phase in which it has not returned -/
theorem goto (h : ResultsOk s) (k : ℕ) {p : Phase} (hidle : p ≠ .idle) (hret : ∀ r, p ≠ .returned r) :
    ResultsOk (s.goto k p) :=
  h.setCall hidle (fun _ hid => hid) fun r hr => absurd hr (hret r)

end ResultsOk

/-! ## The invariant -/

structure Inv (s : St) : Prop where
  timers : TimersOk s
  callbacks : CallbacksOk s
  slots : SlotsOk s
  results : ResultsOk s

theorem start_inv (now : UInt64) : Inv (start now) := by
  refine ⟨⟨TimerManager.inv_new now, ?_, ?_, ?_⟩, ⟨?_, ?_, ?_, ?_⟩, ⟨?_, ?_, ?_⟩, ⟨?_, fun _ _ => rfl⟩⟩
  · intro id k h
    cases h
  · intro k id h
    cases h
  · intro k id h
    cases h
  · intro id k h
    cases h
  · intro x h
    cases h
  · intro x h
    cases h
  · intro k h
    cases h
  · exact Hub.start_sound
  · intro p e sched k h
    cases e <;> cases h
  · intro k h
    cases h
  · intro k r h
    cases h

namespace Inv

variable {s : St}

/-- the process stops -/
theorem stop (h : Inv s) : Inv { s with gone := true } :=
  ⟨h.timers.frame rfl (fun _ => rfl) fun _ => rfl,
    h.callbacks.frame (fun _ hx => hx) (fun _ hx => hx) rfl (fun _ _ hid => hid) fun _ => rfl,
    h.slots.frame rfl rfl fun _ t ht => ⟨⟨t, ht⟩, rfl, rfl⟩, h.results.frame rfl rfl⟩

/-- a call that neither waits nor will wait goes on with the timer it has -/
theorem goto (h : Inv s) {k : ℕ} {p : Phase} (hw : ∀ t, (s.calls k).phase ≠ .waiting t)
    (ht : p.timer = (s.calls k).phase.timer) (hidle : p ≠ .idle) (hret : ∀ r, p = .returned r → Lawful (s.goto k p) k r) :
    Inv (s.goto k p) :=
  ⟨h.timers.goto ht, h.callbacks.goto k p, h.slots.setCall hw _, h.results.setCall hidle (fun _ hid => hid) hret⟩

theorem enter (h : Inv s) (k : ℕ) (hook_enable : Bool) (ctx : Option FdCtx) (event : Event) (timeout_so : TimeoutSo) :
    Inv (stepAlive s (.enter k hook_enable ctx event timeout_so)) := by
  simp only [stepAlive]
  split
  · rename_i ms hidle _
    have hfresh := h.results.fresh k hidle
    refine ⟨?_, ?_, h.slots.setCall (by simp [hidle]) _, h.results.setCall (by simp) (by simp [hfresh]) (by simp)⟩
    · refine h.timers.frame rfl (fun j => ?_) fun j => ?_
      · by_cases hj : j = k
        · simp [hj, hfresh]
        · rw [setCall_ne _ _ _ hj]
      · by_cases hj : j = k
        · simp [hj, hfresh, Phase.timer]
        · rw [setCall_ne _ _ _ hj]
    · refine h.callbacks.frame (fun _ hx => hx) (fun _ hx => hx) rfl (fun j id hid => ?_) fun j => ?_
      · by_cases hj : j = k
        · simp [hj, hfresh] at hid
        · rwa [setCall_ne _ _ _ hj]
      · by_cases hj : j = k
        · simp [hj, hfresh]
        · rw [setCall_ne _ _ _ hj]
  · exact h

theorem sys (h : Inv s) (k : ℕ) (n : ℤ) (errno : ℕ) : Inv (stepAlive s (.sys k n errno)) := by
  simp only [stepAlive]
  split
  · rename_i hphase
    split_ifs with h1 h2
    · exact h
    · exact h.goto (by simp [hphase]) (by simp [hphase, Phase.timer]) (by simp) (by simp)
    · refine h.goto (by simp [hphase]) (by simp [hphase, Phase.timer]) (by simp) ?_
      rintro r hr
      cases hr
      exact ⟨errno, rfl, h1, h2⟩
  · exact h

theorem addTimer (h : Inv s) {k : ℕ} {now : UInt64} {addr : ℕ} (hok : Ok s (.addTimer k now addr)) :
    Inv (stepAlive s (.addTimer k now addr)) := by
  simp only [stepAlive]
  split
  · rename_i hphase
    split_ifs with hms
    · exact h.goto (by simp [hphase]) (by simp [hphase, Phase.timer]) (by simp) (by simp)
    · split
      · rename_i id front timers hcall
        refine ⟨h.timers.addTimer (by simp [hphase, Phase.timer]) hok hcall, ?_, ?_, ?_⟩
        · refine h.callbacks.frame (fun _ hx => hx) (fun _ hx => hx) rfl (fun j i hi => ?_) fun j => ?_
          · by_cases hj : j = k
            · subst hj
              simp [hi]
            · rwa [setCall_ne _ _ _ hj]
          · by_cases hj : j = k
            · simp [hj]
            · rw [setCall_ne _ _ _ hj]
        · have hsame : SlotsOk { s with timers := timers } :=
            h.slots.frame rfl rfl fun _ t ht => ⟨⟨t, ht⟩, rfl, rfl⟩
          exact hsame.setCall (by simp [hphase]) _
        · have hsame : ResultsOk { s with timers := timers } := h.results.frame rfl rfl
          exact hsame.setCall (by simp) (fun i hi => List.mem_append_left _ hi) (by simp)
      · exact h
  · exact h

theorem addEvent (h : Inv s) (k : ℕ) (ok : Bool) : Inv (stepAlive s (.addEvent k ok)) := by
  simp only [stepAlive]
  split
  · rename_i timer hphase
    split
    · exact h.stop
    · rename_i c hadd
      refine ⟨?_, ?_, h.slots.addEvent (by simp [hphase]) hadd, ?_⟩
      · have hsame : TimersOk { s with ctx := Function.update s.ctx (s.calls k).fd c } :=
          h.timers.frame rfl (fun _ => rfl) fun _ => rfl
        exact hsame.goto (by simp [hphase, Phase.timer])
      · have hsame : CallbacksOk { s with ctx := Function.update s.ctx (s.calls k).fd c } :=
          h.callbacks.frame (fun _ hx => hx) (fun _ hx => hx) rfl (fun _ _ hid => hid) fun _ => rfl
        exact hsame.goto k _
      · have hsame : ResultsOk { s with ctx := Function.update s.ctx (s.calls k).fd c } := h.results.frame rfl rfl
        exact hsame.goto k (by simp) (by simp)
    · exact h.goto (by simp [hphase]) (by simp [hphase, Phase.timer]) (by simp) (by simp)
  · exact h

theorem resume (h : Inv s) (k : ℕ) : Inv (stepAlive s (.resume k)) := by
  simp only [stepAlive]
  split
  · rename_i timer hphase
    split_ifs with hq
    · refine ⟨?_, ?_, h.slots.resume (by simpa using hq), ?_⟩
      · have hsame : TimersOk { s with queue := s.queue.erase (.fiber k) } :=
          h.timers.frame rfl (fun _ => rfl) fun _ => rfl
        exact hsame.goto (by simp [hphase, Phase.timer])
      · have hsame : CallbacksOk { s with queue := s.queue.erase (.fiber k) } :=
          h.callbacks.frame (fun _ hx => hx) (fun _ hx => hx) rfl (fun _ _ hid => hid) fun _ => rfl
        exact hsame.goto k _
      · have hsame : ResultsOk { s with queue := s.queue.erase (.fiber k) } := h.results.frame rfl rfl
        exact hsame.goto k (by simp) (by simp)
    · exact h
  · exact h

/-- `if (timer) timer->cancel();` changes the timers alone -/
theorem cancelTimer_frame (s : St) (timer : Option ℕ) : (s.cancelTimer timer).ctx = s.ctx ∧
    (s.cancelTimer timer).queue = s.queue ∧ (s.cancelTimer timer).calls = s.calls ∧
    (s.cancelTimer timer).collected = s.collected ∧ (s.cancelTimer timer).locked = s.locked ∧
    (s.cancelTimer timer).ran = s.ran := by
  cases timer <;> exact ⟨rfl, rfl, rfl, rfl, rfl, rfl⟩

/-- the call cancels the timer it holds and goes on without one -/
theorem cancelled (h : Inv s) {k : ℕ} {timer : Option ℕ} (hw : ∀ t, (s.calls k).phase ≠ .waiting t)
    (ht : (s.calls k).phase.timer = timer) {p : Phase} (hp : p.timer = none) (hidle : p ≠ .idle)
    (hret : ∀ r, p = .returned r → r.why = .addEvent ∧ r.n = -1) : Inv ((s.cancelTimer timer).goto k p) := by
  obtain ⟨hctx, hq, hc, hcol, hlock, hran⟩ := cancelTimer_frame s timer
  refine ⟨h.timers.cancelTimer ht hp, ?_, ?_, ?_⟩
  · have hsame : CallbacksOk (s.cancelTimer timer) := h.callbacks.frame (fun _ hx => hcol ▸ hx) (fun _ hx => hlock ▸ hx)
      hran (fun _ _ hid => by rw [hc]; exact hid) fun _ => by rw [hc]
    exact hsame.goto k p
  · have hsame : SlotsOk (s.cancelTimer timer) := h.slots.frame hctx hq fun _ t ht => by rw [hc]; exact ⟨⟨t, ht⟩, rfl, rfl⟩
    exact hsame.setCall (by rw [hc]; exact hw) _
  · have hsame : ResultsOk (s.cancelTimer timer) := h.results.frame hc hran
    refine hsame.setCall hidle (fun _ hid => hid) fun r hr => ?_
    obtain ⟨hwhy, hn⟩ := hret r hr
    unfold Lawful
    rw [hwhy]
    exact hn

theorem cancelTimer (h : Inv s) (k : ℕ) : Inv (stepAlive s (.cancelTimer k)) := by
  simp only [stepAlive]
  split
  · rename_i timer hphase
    exact h.cancelled (by simp [hphase]) (by simp [hphase, Phase.timer]) rfl (by simp) (by simp)
  · rename_i timer hphase
    refine h.cancelled (by simp [hphase]) (by simp [hphase, Phase.timer]) rfl (by simp) ?_
    rintro r hr
    cases hr
    exact ⟨rfl, rfl⟩
  · exact h

theorem check (h : Inv s) (k : ℕ) : Inv (stepAlive s (.check k)) := by
  simp only [stepAlive]
  split
  · rename_i hphase
    split_ifs with hcan
    · refine h.goto (by simp [hphase]) (by simp [hphase, Phase.timer]) (by simp) ?_
      rintro r hr
      cases hr
      obtain ⟨id, hid⟩ := h.callbacks.cancelled k hcan
      exact ⟨rfl, rfl, id, by rw [goto_created]; exact h.callbacks.ran _ hid, hid⟩
    · exact h.goto (by simp [hphase]) (by simp [hphase, Phase.timer]) (by simp) (by simp)
  · exact h

theorem expire (h : Inv s) (now : UInt64) (addr : ℕ) : Inv (stepAlive s (.expire now addr)) :=
  ⟨h.timers.op (o := .listExpiredCb now addr) trivial (by simp) rfl rfl, h.callbacks.expire h.timers now addr,
    h.slots.frame rfl rfl fun _ t ht => ⟨⟨t, ht⟩, rfl, rfl⟩, h.results.frame rfl rfl⟩

/-- locking a weak pointer touches the lists of callbacks alone -/
theorem lock_frame (s : St) (x : ℕ × Cb) : (stepAlive s (.lock x)).timers = s.timers ∧
    (stepAlive s (.lock x)).ctx = s.ctx ∧ (stepAlive s (.lock x)).queue = s.queue ∧
    (stepAlive s (.lock x)).calls = s.calls ∧ (stepAlive s (.lock x)).ran = s.ran := by
  simp only [stepAlive]
  split_ifs
  · split
    · split_ifs <;> exact ⟨rfl, rfl, rfl, rfl, rfl⟩
    · exact ⟨rfl, rfl, rfl, rfl, rfl⟩
  · exact ⟨rfl, rfl, rfl, rfl, rfl⟩

theorem lock (h : Inv s) (x : ℕ × Cb) : Inv (stepAlive s (.lock x)) := by
  obtain ⟨ht, hctx, hq, hc, hran⟩ := lock_frame s x
  exact ⟨h.timers.frame ht (fun _ => by rw [hc]) fun _ => by rw [hc], h.callbacks.lock x,
    h.slots.frame hctx hq fun _ t ht => by rw [hc]; exact ⟨⟨t, ht⟩, rfl, rfl⟩, h.results.frame hc hran⟩

theorem setCancelled (h : Inv s) (x : ℕ × ℕ) : Inv (stepAlive s (.setCancelled x)) := by
  have hcb := h.callbacks.setCancelled x
  simp only [stepAlive] at hcb ⊢
  split_ifs at hcb ⊢ with hmem hcan
  · exact ⟨h.timers.frame rfl (fun _ => rfl) fun _ => rfl, hcb, h.slots.frame rfl rfl fun _ t ht => ⟨⟨t, ht⟩, rfl, rfl⟩,
      h.results.frame rfl rfl⟩
  · set s1 : St := { s with locked := s.locked.erase x, cancelling := s.cancelling ++ [x.2], ran := s.ran ++ [x] } with hs1
    set c : CallSt := { s.calls x.2 with cancelled := true } with hc
    have hcall : ∀ j, ((s1.setCall x.2 c).calls j).phase = (s.calls j).phase ∧
        ((s1.setCall x.2 c).calls j).created = (s.calls j).created ∧ ((s1.setCall x.2 c).calls j).fd = (s.calls j).fd ∧
        ((s1.setCall x.2 c).calls j).event = (s.calls j).event := by
      intro j
      by_cases hj : j = x.2
      · simp [hj, hc]
      · rw [setCall_ne _ _ _ hj]
        exact ⟨rfl, rfl, rfl, rfl⟩
    refine ⟨h.timers.frame rfl (fun j => (hcall j).2.1) fun j => by rw [(hcall j).1], hcb, ?_, ⟨fun j r hr => ?_, ?_⟩⟩
    · refine h.slots.frame rfl rfl fun j t ht => ?_
      obtain ⟨h1, -, h3, h4⟩ := hcall j
      exact ⟨⟨t, h1.trans ht⟩, h3, h4⟩
    · rw [(hcall j).1] at hr
      refine ResultsOk.lawful_mono (h.results.lawful j r hr) (fun y hy => List.mem_append_left _ hy) fun id hid => ?_
      rw [(hcall j).2.1]
      exact hid
    · intro j hj
      rw [(hcall j).1] at hj
      have hfresh := h.results.fresh j hj
      by_cases hjx : j = x.2
      · -- a call with a callback on its way has created a timer, so it has begun
        have hin := h.callbacks.locked x (by simpa using hmem)
        rw [← hjx, hfresh] at hin
        cases hin
      · rw [setCall_ne _ _ _ hjx]
        exact hfresh
  · exact h

/-- an action on a context touches the contexts and the queue alone -/
theorem act (h : Inv s) (p : ℕ) {a : Act} (hf : foreignAct a = true) : Inv (s.act p a) := by
  have hsame : (s.act p a).timers = s.timers ∧ (s.act p a).calls = s.calls ∧ (s.act p a).collected = s.collected ∧
      (s.act p a).locked = s.locked ∧ (s.act p a).ran = s.ran := by
    unfold St.act
    split <;> exact ⟨rfl, rfl, rfl, rfl, rfl⟩
  obtain ⟨ht, hc, hcol, hlock, hran⟩ := hsame
  exact ⟨h.timers.frame ht (fun _ => by rw [hc]) fun _ => by rw [hc],
    h.callbacks.frame (fun _ hx => hcol ▸ hx) (fun _ hx => hlock ▸ hx) hran (fun _ _ hid => by rw [hc]; exact hid)
      fun _ => by rw [hc],
    h.slots.act p hf, h.results.frame hc hran⟩

theorem cancelEvent (h : Inv s) (k : ℕ) (ok : Bool) : Inv (stepAlive s (.cancelEvent k ok)) := by
  simp only [stepAlive]
  split_ifs
  · have hsame : Inv { s with cancelling := s.cancelling.erase k } :=
      ⟨h.timers.frame rfl (fun _ => rfl) fun _ => rfl,
        h.callbacks.frame (fun _ hx => hx) (fun _ hx => hx) rfl (fun _ _ hid => hid) fun _ => rfl,
        h.slots.frame rfl rfl fun _ t ht => ⟨⟨t, ht⟩, rfl, rfl⟩, h.results.frame rfl rfl⟩
    exact hsame.act _ rfl
  · exact h

theorem timerOp (h : Inv s) {o : TimerManager.Op Cb} (hok : o.Ok s.timers) : Inv (stepAlive s (.timerOp o)) := by
  simp only [stepAlive]
  split_ifs with hf
  · refine ⟨h.timers.op hok ?_ rfl rfl, h.callbacks.frame (fun _ hx => hx) (fun _ hx => hx) rfl (fun _ _ hid => hid)
      fun _ => rfl, h.slots.frame rfl rfl fun _ t ht => ⟨⟨t, ht⟩, rfl, rfl⟩, h.results.frame rfl rfl⟩
    rintro ms k rec now addr rfl
    cases hf
  · exact h

/-- **Every step keeps the invariant.** -/
theorem step (h : Inv s) (l : Label) (hok : Ok s l) : Inv (Hook.step s l) := by
  unfold Hook.step
  split_ifs
  · exact h
  cases l with
  | enter k hook_enable ctx event timeout_so => exact h.enter k hook_enable ctx event timeout_so
  | sys k n errno => exact h.sys k n errno
  | addTimer k now addr => exact h.addTimer hok
  | addEvent k ok => exact h.addEvent k ok
  | resume k => exact h.resume k
  | cancelTimer k => exact h.cancelTimer k
  | check k => exact h.check k
  | expire now addr => exact h.expire now addr
  | lock x => exact h.lock x
  | setCancelled x => exact h.setCancelled x
  | cancelEvent k ok => exact h.cancelEvent k ok
  | timerOp o => exact h.timerOp hok
  | act p a =>
    simp only [stepAlive]
    split_ifs with hf
    · exact h.act p hf
    · exact h

end Inv

/-! ## Blocking calls -/

/-- a step of call `k` itself -/
def Own (k : ℕ) : Label → Prop
  | .sys j _ _ | .addTimer j _ _ | .addEvent j _ | .resume j | .cancelTimer j | .check j => j = k
  | _ => False

/-- `new` always finds an address -/
theorem exists_addr (m : TimerManager Cb) : ∃ addr, ∀ id ∈ m.timers, (m.heap id).map Timer.addr ≠ some addr := by
  obtain ⟨addr, haddr⟩ := Infinite.exists_notMem_finset (m.timers.filterMap fun id => (m.heap id).map Timer.addr).toFinset
  refine ⟨addr, fun id hid he => haddr ?_⟩
  rw [List.mem_toFinset, List.mem_filterMap]
  exact ⟨id, hid, he⟩

/-- a call that has begun and not returned waits for its wake-up, or one of its own steps takes it on -/
theorem goes_on {s : St} (hg : s.gone = false) {k : ℕ} (ha : (s.calls k).phase.alive = true) :
    (∃ t, (s.calls k).phase = .waiting t ∧ Task.fiber k ∉ s.queue) ∨
      ∃ l, Own k l ∧ Ok s l ∧ ((step s l).gone = true ∨ ((step s l).calls k).phase ≠ (s.calls k).phase) := by
  have hstep : ∀ l, step s l = stepAlive s l := fun l => by simp [step, hg]
  cases hp : (s.calls k).phase with
  | idle => simp [hp, Phase.alive] at ha
  | returned r => simp [hp, Phase.alive] at ha
  | retry =>
    refine Or.inr ⟨.sys k 0 0, rfl, trivial, Or.inr ?_⟩
    rw [hstep]
    simp [stepAlive, hp]
  | blocked =>
    obtain ⟨addr, haddr⟩ := exists_addr s.timers
    refine Or.inr ⟨.addTimer k 0 addr, rfl, haddr, Or.inr ?_⟩
    rw [hstep]
    simp only [stepAlive, hp]
    split_ifs
    · simp
    · simp [TimerManager.call, TimerManager.addTimer]
  | armed timer =>
    refine Or.inr ⟨.addEvent k false, rfl, trivial, ?_⟩
    rw [hstep]
    simp only [stepAlive, hp]
    split
    · exact Or.inl rfl
    · right
      simp
    · right
      simp
  | waiting timer =>
    by_cases hq : Task.fiber k ∈ s.queue
    · refine Or.inr ⟨.resume k, rfl, trivial, Or.inr ?_⟩
      rw [hstep]
      simp [stepAlive, hp, hq]
    · exact Or.inl ⟨timer, rfl, hq⟩
  | woken timer =>
    refine Or.inr ⟨.cancelTimer k, rfl, trivial, Or.inr ?_⟩
    rw [hstep]
    simp [stepAlive, hp]
  | failing timer =>
    refine Or.inr ⟨.cancelTimer k, rfl, trivial, Or.inr ?_⟩
    rw [hstep]
    simp [stepAlive, hp]
  | checking =>
    refine Or.inr ⟨.check k, rfl, trivial, Or.inr ?_⟩
    rw [hstep]
    simp only [stepAlive, hp]
    split_ifs <;> simp

/-- what holds of call `k` at any moment of a run -/
structure Blocking (s : St) (k : ℕ) : Prop where
  /-- a result other than `EINTR` and `EAGAIN`, a failed `addEvent`, or a timeout after the callback of an own timer -/
  lawful : ∀ r, (s.calls k).phase = .returned r → Lawful s k r
  /-- no timer of the call is left in the set -/
  no_timer : ∀ r, (s.calls k).phase = .returned r → ∀ id ∈ (s.calls k).created, id ∉ s.timers.timers
  /-- every registration of the call has been consumed, and every wake-up used -/
  consumed : ∀ r, (s.calls k).phase = .returned r →
    (∀ p e sched, slot (s.ctx p) e ≠ some (sched, .fiber k)) ∧ Task.fiber k ∉ s.queue
  /-- until it returns, it waits for its wake-up or can go on -/
  progress : s.gone = false → (s.calls k).phase.alive = true →
    (∃ t, (s.calls k).phase = .waiting t ∧ Task.fiber k ∉ s.queue) ∨
      ∃ l, Own k l ∧ Ok s l ∧ ((step s l).gone = true ∨ ((step s l).calls k).phase ≠ (s.calls k).phase)

theorem Inv.blocking {s : St} (h : Inv s) (k : ℕ) : Blocking s k := by
  refine ⟨h.results.lawful k, fun r hr id hid hmem => ?_, fun r hr => h.slots.free (by simp [hr]),
    fun hg ha => goes_on hg ha⟩
  rw [TimerManager.Inv.mem_timers h.timers.inv] at hmem
  have := h.timers.held k id hid hmem
  rw [hr] at this
  cases this

/-- **`do_io` keeps the meaning of a blocking call.** In every run, with any results of the system calls and of
`epoll_ctl`, any order of wake-ups, expiries and callbacks, and any other users of the timers and the contexts, every
call is as `Blocking` says at every moment. -/
theorem do_io_blocking (now : UInt64) (ls : List Label) (hok : Along Ok step (start now) ls) (k : ℕ) :
    Along (fun s _ => Blocking s k) step (start now) ls ∧ Blocking (run step (start now) ls) k := by
  have hstep : ∀ s l, Ok s l → Inv s → Inv (step s l) := fun s l ho hi => hi.step l ho
  obtain ⟨halong, hinv⟩ := run_along hstep (fun s l _ hi => Inv.blocking hi k) ls (start_inv now) hok
  exact ⟨halong, hinv.blocking k⟩

/-- the event wakes a `recv` whose timer has just been collected: the callback still runs, and the call times out -/
def lateCallback : List Label :=
  [.enter 0 true (some { fd := 5, isInit := true, isSocket := true, sysNonblock := true, recvTimeout := 100 }) .read .rcv,
    .sys 0 (-1) EINTR, .sys 0 (-1) EAGAIN, .addTimer 0 0 7, .addEvent 0 true, .expire 150 9, .act 5 (.dispatch 0x1 true),
    .lock (0, .timeout 0), .setCancelled (0, 0), .cancelEvent 0 false, .resume 0, .cancelTimer 0, .check 0]

theorem do_io_blocking_lateCallback :
    ((run step (start 0) lateCallback).calls 0).phase = .returned { n := -1, errno := some ETIMEDOUT, why := .timeout } ∧
      Blocking (run step (start 0) lateCallback) 0 :=
  ⟨by decide, (do_io_blocking 0 lateCallback (by decide) 0).2⟩

end Sylar.Hook
