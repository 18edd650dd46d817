/-
Accounting of the fd events of `IOManager`.

`Acc` is what the rest of the manager relies on: `m_pendingEventCount` is the number of event bits set over all
contexts, the kernel's interest mask of every fd is its `events` field, and a bit is set iff its `EventContext` has a
scheduler and exactly one of callback and fiber. `Answer` is the contract of `delEvent` and `cancelEvent`: they return
whether the bit was set, and change nothing if it was not.

Both fail in general. The guard of the two functions is `!events & event`, which tests whether the mask is empty and not
whether it has the bit: asked for an event of an fd that waits only for the other one, `delEvent` goes on and counts one
event too few, `cancelEvent` runs into the assertion of `triggerEvent`. And `addEvent` on a thread without a scheduler
registers an event nobody can resume.

- `events_accounted`: in every run that avoids these calls (`Meets`), every state satisfies `Acc` and every answer is
  right.
- `delEvent_of_other_bit`: a run of two calls after which neither holds.
-/
import Mathlib.Tactic
import Sylar.Core.Run
import Sylar.IOManager.Events

namespace Sylar.IOManager

open Sylar.Core

/-! ## Masks -/

/-- `mask & event` as a condition -/
def has (m : UInt32) (e : Event) : Bool := decide (m &&& e.mask ≠ 0)

/-- the number of event bits of a mask -/
def bits (m : UInt32) : ℕ := (has m .read).toNat + (has m .write).toNat

/-- the masks made of `READ` and `WRITE` -/
def Valid (m : UInt32) : Prop := m = 0 ∨ m = 1 ∨ m = 4 ∨ m = 5

namespace Valid

variable {m : UInt32} (h : Valid m) (e : Event)

include h

theorem or : Valid (m ||| e.mask) := by
  rcases h with rfl | rfl | rfl | rfl <;> cases e <;> unfold Valid <;> decide

theorem clear : Valid (m &&& ~~~e.mask) := by
  rcases h with rfl | rfl | rfl | rfl <;> cases e <;> unfold Valid <;> decide

theorem has_or (e' : Event) : has (m ||| e.mask) e' = (decide (e' = e) || has m e') := by
  rcases h with rfl | rfl | rfl | rfl <;> cases e <;> cases e' <;> decide

theorem has_clear (e' : Event) : has (m &&& ~~~e.mask) e' = (decide (e' ≠ e) && has m e') := by
  rcases h with rfl | rfl | rfl | rfl <;> cases e <;> cases e' <;> decide

theorem bits_or (he : has m e = false) : bits (m ||| e.mask) = bits m + 1 := by
  rcases h with rfl | rfl | rfl | rfl <;> cases e <;> first | rfl | cases he

theorem bits_clear (he : has m e = true) : bits (m &&& ~~~e.mask) + 1 = bits m := by
  rcases h with rfl | rfl | rfl | rfl <;> cases e <;> first | rfl | cases he

theorem or_ne_zero : m ||| e.mask ≠ 0 := by
  rcases h with rfl | rfl | rfl | rfl <;> cases e <;> decide

/-- the guard of `delEvent` and `cancelEvent` fires on the empty mask alone, and there only for `READ` -/
theorem guard_iff : not m &&& e.mask ≠ 0 ↔ m = 0 ∧ e = .read := by
  rcases h with rfl | rfl | rfl | rfl <;> cases e <;> decide

theorem ne_zero_of_has (he : has m e = true) : m ≠ 0 := by
  rcases h with rfl | rfl | rfl | rfl <;> cases e <;> first | decide | cases he

/-- clearing the events of a second mask one after another -/
theorem clear_both {r : UInt32} (hr : Valid r) :
    (if has r .write then (if has r .read then m &&& ~~~Event.read.mask else m) &&& ~~~Event.write.mask
      else if has r .read then m &&& ~~~Event.read.mask else m) = m &&& ~~~r := by
  rcases h with rfl | rfl | rfl | rfl <;> rcases hr with rfl | rfl | rfl | rfl <;> decide

end Valid

theorem has_zero (e : Event) : has 0 e = false := by cases e <;> rfl

theorem bits_zero : bits 0 = 0 := by decide

theorem has_iff {m : UInt32} {e : Event} : has m e = true ↔ m &&& e.mask ≠ 0 := by simp [has]

/-! ## The invariant -/

/-- what the kernel holds for an fd with mask `m` -/
def kernelMask (m : UInt32) : Option UInt32 := if m = 0 then none else some (EPOLLET ||| m)

/-- a registration that can be resumed in exactly one way -/
def Armed (ctx : EventContext) : Prop :=
  ctx.scheduler.isSome ∧ (ctx.cb.isSome ∧ ctx.fiber.isNone ∨ ctx.cb.isNone ∧ ctx.fiber.isSome)

/-- the mask of an fd; contexts that do not exist yet have none -/
def events (s : IOManager) (fd : ℕ) : UInt32 := s.fdContexts[fd]?.elim 0 FdContext.events

def bit (s : IOManager) (fd : ℕ) (e : Event) : Bool := has (s.events fd) e

/-- the number of event bits set over all contexts -/
def total (s : IOManager) : ℕ := (s.fdContexts.map fun c => bits c.events).sum

structure Acc (s : IOManager) : Prop where
  count : s.pendingEventCount = s.total
  kernel : ∀ fd, s.interest fd = kernelMask (s.events fd)
  context : ∀ c ∈ s.fdContexts, ∀ e, has c.events e = true ↔ Armed (c.getContext e)

/-- a context in order: without its bit, an `EventContext` is empty -/
structure CtxOk (c : FdContext) : Prop where
  valid : Valid c.events
  armed : ∀ e, has c.events e = true → Armed (c.getContext e)
  empty : ∀ e, has c.events e = false → c.getContext e = {}

/-- the invariant behind `Acc` -/
structure Inv (s : IOManager) : Prop where
  count : s.pendingEventCount = s.total
  /-- the cast of the size to `int` is exact -/
  len_lt : s.fdContexts.length < 2 ^ 31
  len_ge : 32 ≤ s.fdContexts.length
  ctx : ∀ (i : ℕ) (c : FdContext), s.fdContexts[i]? = some c →
    c.fd = i ∧ CtxOk c ∧ s.interest i = kernelMask c.events
  beyond : ∀ i, s.fdContexts.length ≤ i → s.interest i = none

theorem CtxOk.has_iff {c : FdContext} (h : CtxOk c) (e : Event) : has c.events e = true ↔ Armed (c.getContext e) := by
  refine ⟨h.armed e, fun ha => ?_⟩
  by_contra hb
  rw [h.empty e (by simpa using hb)] at ha
  cases ha.1

theorem events_of_get {s : IOManager} {fd : ℕ} {c : FdContext} (h : s.fdContexts[fd]? = some c) :
    s.events fd = c.events := by
  rw [events, h]; rfl

theorem Inv.acc {s : IOManager} (h : Inv s) : Acc s := by
  refine ⟨h.count, fun fd => ?_, fun c hc e => ?_⟩
  · cases hget : s.fdContexts[fd]? with
    | none =>
      rw [events, hget, h.beyond fd (List.getElem?_eq_none_iff.1 hget)]
      rfl
    | some c => rw [events_of_get hget, (h.ctx fd c hget).2.2]
  · obtain ⟨i, hi, rfl⟩ := List.mem_iff_getElem.1 hc
    exact (h.ctx i _ (List.getElem?_eq_getElem hi)).2.1.has_iff e

theorem sum_map_set {α : Type} (f : α → ℕ) (l : List α) (i : ℕ) (a b : α) (h : l[i]? = some a) :
    ((l.set i b).map f).sum + f a = (l.map f).sum + f b := by
  induction l generalizing i with
  | nil => simp at h
  | cons x l ih =>
    cases i with
    | zero =>
      simp only [List.getElem?_cons_zero, Option.some.injEq] at h
      subst h
      simp only [List.set_cons_zero, List.map_cons, List.sum_cons]
      omega
    | succ i =>
      have := ih i (by simpa using h)
      simp only [List.set_cons_succ, List.map_cons, List.sum_cons]
      omega

theorem bits_le_total {s : IOManager} {fd : ℕ} {c : FdContext} (h : s.fdContexts[fd]? = some c) :
    bits c.events ≤ s.total :=
  List.le_sum_of_mem (List.mem_map.2 ⟨c, List.mem_of_getElem? h, rfl⟩)

theorem bits_le_two (m : UInt32) : bits m ≤ 2 := by
  unfold bits
  have h1 := Bool.toNat_le (has m .read)
  have h2 := Bool.toNat_le (has m .write)
  omega

/-- the counter stays far below its width -/
theorem total_le (s : IOManager) : s.total ≤ 2 * s.fdContexts.length := by
  unfold total
  induction s.fdContexts with
  | nil => simp
  | cons c l ih =>
    have := bits_le_two c.events
    simp only [List.map_cons, List.sum_cons, List.length_cons]
    omega

/-- **One context changes.** The invariant only has to be checked on the context of that fd, its kernel mask and the
difference of the counter. -/
theorem Inv.update {s s' : IOManager} (h : Inv s) {i : ℕ} {c c' : FdContext} (hc : s.fdContexts[i]? = some c)
    (hset : s'.fdContexts = s.fdContexts.set i c')
    (hk : s'.interest = Function.update s.interest i (kernelMask c'.events)) (hfd : c'.fd = c.fd) (hok : CtxOk c')
    (hcount : s'.pendingEventCount + bits c.events = s.pendingEventCount + bits c'.events) : Inv s' := by
  have hlen : s'.fdContexts.length = s.fdContexts.length := by rw [hset, List.length_set]
  have hi : i < s.fdContexts.length := (List.getElem?_eq_some_iff.1 hc).1
  refine ⟨?_, hlen ▸ h.len_lt, hlen ▸ h.len_ge, fun j d hd => ?_, fun j hj => ?_⟩
  · have hsum := sum_map_set (fun c => bits c.events) s.fdContexts i c c' hc
    have htotal : s'.total = ((s.fdContexts.set i c').map fun c => bits c.events).sum := by rw [total, hset]
    have := h.count
    unfold total at this
    omega
  · rw [hset] at hd
    by_cases hij : j = i
    · subst hij
      rw [List.getElem?_set_self hi, Option.some.injEq] at hd
      subst hd
      exact ⟨hfd.trans (h.ctx j c hc).1, hok, by rw [hk, Function.update_self]⟩
    · rw [List.getElem?_set_ne (Ne.symm hij)] at hd
      obtain ⟨h1, h2, h3⟩ := h.ctx j d hd
      exact ⟨h1, h2, by rw [hk, Function.update_of_ne hij, h3]⟩
  · rw [hk, Function.update_of_ne (by omega)]
    exact h.beyond j (hlen ▸ hj)

/-! ## The kernel -/

/-- an fd that is registered gets the new mask, or is deleted when nothing is left -/
theorem epollCtl_change {s : IOManager} {fd : ℕ} {old : UInt32} (new : UInt32) (h : s.interest fd = kernelMask old)
    (hold : old ≠ 0) :
    s.epollCtl (if new ≠ 0 then .mod else .del) fd (EPOLLET ||| new) =
      (true, { s with interest := Function.update s.interest fd (kernelMask new) }) := by
  rw [kernelMask, if_neg hold] at h
  by_cases hn : new = 0
  · simp [epollCtl, h, hn, kernelMask]
  · simp [epollCtl, h, hn, kernelMask]

/-- an fd that is not registered can be neither changed nor deleted -/
theorem epollCtl_absent {s : IOManager} {fd : ℕ} (new m : UInt32) (h : s.interest fd = none) :
    s.epollCtl (if new ≠ 0 then .mod else .del) fd m = (false, s) := by
  by_cases hn : new = 0 <;> simp [epollCtl, h, hn]

theorem epollCtl_grow {s : IOManager} {fd : ℕ} {old : UInt32} (e : Event) (hv : Valid old)
    (h : s.interest fd = kernelMask old) :
    s.epollCtl (if old ≠ 0 then .mod else .add) fd (EPOLLET ||| old ||| e.mask) =
      (true, { s with interest := Function.update s.interest fd (kernelMask (old ||| e.mask)) }) := by
  have hne := hv.or_ne_zero e
  have hk : kernelMask (old ||| e.mask) = some (EPOLLET ||| old ||| e.mask) := by
    rw [kernelMask, if_neg hne, UInt32.or_assoc]
  rw [hk]
  by_cases hz : old = 0
  · simp [epollCtl, h, hz, kernelMask]
  · simp [epollCtl, h, hz, kernelMask]

/-! ## Triggering -/

@[simp] theorem getContext_setContext_self (c : FdContext) (e : Event) (x : EventContext) :
    (c.setContext e x).getContext e = x := by
  cases e <;> rfl

theorem getContext_setContext_ne (c : FdContext) {e e' : Event} (x : EventContext) (h : e' ≠ e) :
    (c.setContext e x).getContext e' = c.getContext e' := by
  cases e <;> cases e' <;> first | rfl | exact absurd rfl h

@[simp] theorem setContext_events (c : FdContext) (e : Event) (x : EventContext) :
    (c.setContext e x).events = c.events := by
  cases e <;> rfl

@[simp] theorem setContext_fd (c : FdContext) (e : Event) (x : EventContext) : (c.setContext e x).fd = c.fd := by
  cases e <;> rfl

@[simp] theorem getContext_events (c : FdContext) (m : UInt32) (e : Event) :
    ({ c with events := m } : FdContext).getContext e = c.getContext e := by
  cases e <;> rfl

/-- a context with one bit cleared and the `EventContext` of that bit emptied -/
theorem CtxOk.cleared {c c' : FdContext} (h : CtxOk c) (e : Event) (hev : c'.events = c.events &&& ~~~e.mask)
    (he : c'.getContext e = {}) (hne : ∀ e', e' ≠ e → c'.getContext e' = c.getContext e') : CtxOk c' := by
  have hhas : ∀ e', has c'.events e' = (decide (e' ≠ e) && has c.events e') := fun e' => by
    rw [hev, h.valid.has_clear e e']
  refine ⟨hev ▸ h.valid.clear e, fun e' hb => ?_, fun e' hb => ?_⟩
  · rw [hhas, Bool.and_eq_true, decide_eq_true_eq] at hb
    rw [hne e' hb.1]
    exact h.armed e' hb.2
  · by_cases hee : e' = e
    · rw [hee, he]
    · rw [hne e' hee]
      rw [hhas, decide_eq_true hee, Bool.true_and] at hb
      exact h.empty e' hb

/-- a set bit is triggered: one task goes to the scheduler of the registration -/
theorem triggerEvent_spec {c : FdContext} (h : CtxOk c) {e : Event} (he : has c.events e = true) :
    ∃ sched task c', c.triggerEvent e = some ([(sched, task)], c') ∧ c'.events = c.events &&& ~~~e.mask ∧
      c'.fd = c.fd ∧ CtxOk c' := by
  obtain ⟨hs, hone⟩ := h.armed e he
  obtain ⟨sched, hsched⟩ := Option.isSome_iff_exists.1 hs
  have hguard : ¬(c.events &&& e.mask = 0) := IOManager.has_iff.1 he
  simp only [FdContext.triggerEvent, if_neg hguard, getContext_events, hsched]
  rcases hone with ⟨hcb, hf⟩ | ⟨hcb, hf⟩
  · obtain ⟨f, hf'⟩ := Option.isSome_iff_exists.1 hcb
    simp only [hf']
    refine ⟨sched, _, _, rfl, by simp, by simp, h.cleared e (by simp) ?_ fun e' hne => ?_⟩
    · simp [Option.isNone_iff_eq_none.1 hf]
    · rw [getContext_setContext_ne _ _ hne, getContext_events]
  · obtain ⟨f, hf'⟩ := Option.isSome_iff_exists.1 hf
    have hcb' : (c.getContext e).cb = none := Option.isNone_iff_eq_none.1 hcb
    simp only [hcb', hf', Option.map_some, Option.toList_some]
    refine ⟨sched, _, _, rfl, by simp, by simp, h.cleared e (by simp) ?_ fun e' hne => ?_⟩
    · simp
    · rw [getContext_setContext_ne _ _ hne, getContext_events]

/-- the context of `fd` went from `c` to `c'`, the counter along with it, and nothing else of the accounts moved -/
structure Shift (fd : ℕ) (s s' : IOManager) (c c' : FdContext) : Prop where
  set : s'.fdContexts = s.fdContexts.set fd c'
  interest : s'.interest = s.interest
  ok : CtxOk c'
  fd_eq : c'.fd = c.fd
  count : s'.pendingEventCount + bits c.events = s.pendingEventCount + bits c'.events

theorem Shift.get {fd : ℕ} {s s' : IOManager} {c c' : FdContext} (h : Shift fd s s' c c')
    (hc : s.fdContexts[fd]? = some c) : s'.fdContexts[fd]? = some c' := by
  rw [h.set, List.getElem?_set_self (List.getElem?_eq_some_iff.1 hc).1]

theorem Shift.refl {fd : ℕ} {s : IOManager} {c : FdContext} (hc : s.fdContexts[fd]? = some c) (hok : CtxOk c) :
    Shift fd s s c c := by
  obtain ⟨hi, hget⟩ := List.getElem?_eq_some_iff.1 hc
  refine ⟨?_, rfl, hok, rfl, rfl⟩
  rw [← hget, List.set_getElem_self]

theorem Shift.trans {fd : ℕ} {s s' s'' : IOManager} {c c' c'' : FdContext} (h : Shift fd s s' c c')
    (h' : Shift fd s' s'' c' c'') : Shift fd s s'' c c'' := by
  refine ⟨?_, h'.interest.trans h.interest, h'.ok, h'.fd_eq.trans h.fd_eq, ?_⟩
  · rw [h'.set, h.set, List.set_set]
  · have h1 := h.count
    have h2 := h'.count
    omega

/-- the invariant after the kernel has the new mask and the context has caught up -/
theorem Inv.shift {s s1 s' : IOManager} (h : Inv s) {fd : ℕ} {c c' : FdContext} (hc : s.fdContexts[fd]? = some c)
    (hs1 : s1 = { s with interest := Function.update s.interest fd (kernelMask c'.events) })
    (hsh : Shift fd s1 s' c c') : Inv s' := by
  subst hs1
  exact h.update hc hsh.set hsh.interest hsh.fd_eq hsh.ok hsh.count

theorem trigger_spec {s : IOManager} {fd : ℕ} {c : FdContext} (hc : s.fdContexts[fd]? = some c) (hok : CtxOk c)
    (hcount : bits c.events ≤ s.pendingEventCount) {e : Event} (he : has c.events e = true) :
    ∃ s' c', s.trigger fd e = some s' ∧ Shift fd s s' c c' ∧ c'.events = c.events &&& ~~~e.mask := by
  obtain ⟨sched, task, c', h1, h2, h3, h4⟩ := triggerEvent_spec hok he
  have hbits := hok.valid.bits_clear e he
  refine ⟨{ s.setFdContext fd c' with
    scheduled := s.scheduled ++ [(sched, task)], pendingEventCount := decr s.pendingEventCount }, c',
    by simp only [trigger, hc, h1], ⟨rfl, rfl, h4, h3, ?_⟩, h2⟩
  simp only [decr, h2]
  split_ifs with hz
  · omega
  · omega

theorem triggerIf_spec {s s' : IOManager} {fd : ℕ} {c : FdContext} (hc : s.fdContexts[fd]? = some c) (hok : CtxOk c)
    (hcount : bits c.events ≤ s.pendingEventCount) {mask : UInt32} {e : Event} (h : s.triggerIf fd mask e = some s') :
    ∃ c', Shift fd s s' c c' ∧ c'.events = if has mask e then c.events &&& ~~~e.mask else c.events := by
  unfold triggerIf at h
  by_cases hm : has mask e = true
  · rw [if_pos (IOManager.has_iff.1 hm)] at h
    rw [if_pos hm]
    by_cases he : has c.events e = true
    · obtain ⟨s1, c', h1, h2, h3⟩ := trigger_spec hc hok hcount he
      rw [h1, Option.some.injEq] at h
      exact ⟨c', h ▸ h2, h3⟩
    · -- the assertion of `triggerEvent` fails
      have hz : c.events &&& e.mask = 0 := by simpa [has] using he
      simp [trigger, hc, FdContext.triggerEvent, hz] at h
  · have hz : ¬(mask &&& e.mask ≠ 0) := fun hne => hm (IOManager.has_iff.2 hne)
    rw [if_neg hz, Option.some.injEq] at h
    rw [if_neg hm]
    exact ⟨c, h ▸ Shift.refl hc hok, rfl⟩

theorem triggerBoth_spec {s s' : IOManager} {fd : ℕ} {c : FdContext} (hc : s.fdContexts[fd]? = some c) (hok : CtxOk c)
    (hcount : bits c.events ≤ s.pendingEventCount) {mask : UInt32} (hmask : Valid mask)
    (h : s.triggerBoth fd mask = some s') : ∃ c', Shift fd s s' c c' ∧ c'.events = c.events &&& ~~~mask := by
  obtain ⟨s1, h1, h2⟩ := Option.bind_eq_some_iff.1 h
  obtain ⟨c1, sh1, e1⟩ := triggerIf_spec hc hok hcount h1
  have hcount1 : bits c1.events ≤ s1.pendingEventCount := by
    have := sh1.count
    omega
  obtain ⟨c2, sh2, e2⟩ := triggerIf_spec (sh1.get hc) sh1.ok hcount1 h2
  refine ⟨c2, sh1.trans sh2, ?_⟩
  rw [e2, e1]
  exact hok.valid.clear_both hmask

/-! ## The calls -/

theorem intGt_iff {size : ℕ} (h : size < 2 ^ 31) (fd : ℕ) : intGt size fd ↔ fd < size := by
  unfold intGt
  omega

/-- a table that grows keeps the accounts -/
theorem Inv.grow {s : IOManager} (h : Inv s) {size : ℕ} (hge : s.fdContexts.length ≤ size) (hlt : size < 2 ^ 31) :
    Inv (s.contextResize size) ∧ (s.contextResize size).fdContexts.length = size := by
  set fresh := (List.range' s.fdContexts.length (size - s.fdContexts.length)).map fun i => ({ fd := i } : FdContext)
    with hfresh
  have hctx : (s.contextResize size).fdContexts = s.fdContexts ++ fresh := by
    simp only [contextResize, List.take_of_length_le hge, hfresh]
  have hlen : (s.contextResize size).fdContexts.length = size := by
    rw [hctx, hfresh, List.length_append, List.length_map, List.length_range']
    omega
  have hzero : (fresh.map fun c => bits c.events).sum = 0 := by
    refine List.sum_eq_zero fun n hn => ?_
    obtain ⟨c, hc, rfl⟩ := List.mem_map.1 hn
    obtain ⟨i, -, rfl⟩ := List.mem_map.1 hc
    exact bits_zero
  refine ⟨⟨?_, by omega, by have := h.len_ge; omega, fun i c hc => ?_, fun i hi => ?_⟩, hlen⟩
  · have htotal : (s.contextResize size).total = s.total := by
      calc (s.contextResize size).total
          = (s.fdContexts.map fun c => bits c.events).sum + (fresh.map fun c => bits c.events).sum := by
            rw [total, hctx, List.map_append, List.sum_append]
        _ = s.total := by rw [hzero, Nat.add_zero, total]
    rw [htotal]
    exact h.count
  · rw [hctx] at hc
    by_cases hi : i < s.fdContexts.length
    · rw [List.getElem?_append_left hi] at hc
      exact h.ctx i c hc
    · have hi' : s.fdContexts.length ≤ i := by omega
      rw [List.getElem?_append_right hi', hfresh, List.getElem?_map] at hc
      obtain ⟨k, hk, rfl⟩ := Option.map_eq_some_iff.1 hc
      have hk' : k = i := by
        rw [List.getElem?_range' (by
          have := (List.getElem?_eq_some_iff.1 hk).1
          rwa [List.length_range'] at this)] at hk
        simp only [Option.some.injEq] at hk
        omega
      refine ⟨hk', ⟨Or.inl rfl, fun e he => ?_, fun e _ => ?_⟩, h.beyond i hi'⟩
      · rw [has_zero] at he
        cases he
      · cases e <;> rfl
  · rw [hlen] at hi
    exact h.beyond i (hge.trans hi)

theorem inv_new : Inv new := by
  refine ⟨rfl, by decide, by decide, fun i c hc => ?_, fun _ _ => rfl⟩
  have hlist : new.fdContexts = (List.range 32).map fun i => ({ fd := i } : FdContext) := by decide
  rw [hlist, List.getElem?_map] at hc
  obtain ⟨k, hk, rfl⟩ := Option.map_eq_some_iff.1 hc
  obtain ⟨hi, hk⟩ := List.getElem?_eq_some_iff.1 hk
  rw [List.getElem_range] at hk
  refine ⟨hk.symm, ⟨Or.inl rfl, fun e he => ?_, fun e _ => ?_⟩, rfl⟩
  · rw [has_zero] at he
    cases he
  · cases e <;> rfl

theorem addEventLocked_inv {s s' : IOManager} (h : Inv s) {fd : ℕ} {c : FdContext} (hc : s.fdContexts[fd]? = some c)
    {e : Event} {cb : Option ℕ} {who : Caller} (hwho : who.scheduler.isSome) {r : Ret}
    (hcall : s.addEventLocked fd e cb who c = some (r, s')) : Inv s' := by
  obtain ⟨-, hok, hk⟩ := h.ctx fd c hc
  unfold addEventLocked at hcall
  by_cases hbit : c.events &&& e.mask ≠ 0
  · rw [if_pos hbit] at hcall
    cases hcall
  have hno : has c.events e = false := by simpa [has] using hbit
  rw [if_neg hbit] at hcall
  dsimp only at hcall
  rw [epollCtl_grow e hok.valid hk] at hcall
  simp only [Bool.not_true, Bool.false_eq_true, if_false, getContext_events, hok.empty e hno, Option.isSome_none,
    or_self] at hcall
  -- the new registration, with a callback or with the fiber of the caller
  have hnew : ∀ ctx : EventContext, Armed ctx →
      CtxOk (({ c with events := c.events ||| e.mask } : FdContext).setContext e ctx) := by
    intro ctx harmed
    refine ⟨by simpa using hok.valid.or e, fun e' hb => ?_, fun e' hb => ?_⟩
    · by_cases hee : e' = e
      · rw [hee, getContext_setContext_self]
        exact harmed
      · rw [getContext_setContext_ne _ _ hee, getContext_events]
        rw [setContext_events, hok.valid.has_or e e', decide_eq_false hee, Bool.false_or] at hb
        exact hok.armed e' hb
    · rw [setContext_events, hok.valid.has_or e e', Bool.or_eq_false_iff, decide_eq_false_iff_not] at hb
      rw [getContext_setContext_ne _ _ hb.1, getContext_events]
      exact hok.empty e' hb.2
  have hcount : incr s.pendingEventCount + bits c.events = s.pendingEventCount + bits (c.events ||| e.mask) := by
    rw [hok.valid.bits_or e hno, incr, Nat.mod_eq_of_lt]
    · omega
    · have h1 := total_le s
      have h2 := h.len_lt
      have h3 := h.count
      omega
  have hdone : ∀ ctx : EventContext, Armed ctx →
      Inv (setFdContext { s with
        interest := Function.update s.interest fd (kernelMask (c.events ||| e.mask))
        pendingEventCount := incr s.pendingEventCount } fd
        (({ c with events := c.events ||| e.mask } : FdContext).setContext e ctx)) := fun ctx harmed =>
    h.update hc rfl (by simp [setFdContext]) (by simp) (hnew ctx harmed) (by simpa [setFdContext] using hcount)
  cases cb with
  | some f =>
    simp only [Option.some.injEq, Prod.mk.injEq] at hcall
    rw [← hcall.2]
    exact hdone _ ⟨hwho, Or.inl ⟨rfl, rfl⟩⟩
  | none =>
    by_cases hexec : who.exec = true
    · simp only [hexec, if_true, Option.some.injEq, Prod.mk.injEq] at hcall
      rw [← hcall.2]
      exact hdone _ ⟨hwho, Or.inr ⟨rfl, rfl⟩⟩
    · simp [hexec] at hcall

theorem Inv.tableFor {s : IOManager} (h : Inv s) {fd : ℕ} (hfd : fd * 3 / 2 < 2 ^ 31) : Inv (s.tableFor fd) := by
  unfold IOManager.tableFor
  split_ifs with hlt
  · exact h
  · rw [intGt_iff h.len_lt] at hlt
    have hge := h.len_ge
    exact (h.grow (by omega) hfd).1

theorem addEvent_inv {s s' : IOManager} (h : Inv s) {fd : ℕ} {e : Event} {cb : Option ℕ} {who : Caller}
    (hwho : who.scheduler.isSome) (hfd : fd * 3 / 2 < 2 ^ 31) {r : Ret}
    (hcall : s.addEvent fd e cb who = some (r, s')) : Inv s' := by
  have ht := h.tableFor hfd
  unfold addEvent at hcall
  generalize s.tableFor fd = t at hcall ht
  cases hc : t.fdContexts[fd]? with
  | none =>
    rw [hc] at hcall
    cases hcall
  | some c =>
    rw [hc] at hcall
    exact addEventLocked_inv ht hc hwho hcall

/-- the calls of `delEvent` and `cancelEvent` the guard decides rightly: the bit is set, or the fd waits for nothing -/
def Decided (s : IOManager) (fd : ℕ) (e : Event) : Prop := s.bit fd e = true ∨ s.events fd = 0

/-- the first part of `delEvent` and `cancelEvent` when the guard decides rightly -/
theorem removeEvent_spec {s : IOManager} (h : Inv s) {fd : ℕ} {e : Event} (hd : Decided s fd e) :
    (s.bit fd e = false ∧ s.removeEvent fd e = some (.inl (.bool false))) ∨
    ∃ c, s.bit fd e = true ∧ s.fdContexts[fd]? = some c ∧ CtxOk c ∧ has c.events e = true ∧
      bits c.events ≤ s.pendingEventCount ∧
      s.removeEvent fd e = some (.inr (c, { s with
        interest := Function.update s.interest fd (kernelMask (c.events &&& ~~~e.mask)) })) := by
  unfold removeEvent
  cases hc : s.fdContexts[fd]? with
  | none =>
    have hle := List.getElem?_eq_none_iff.1 hc
    refine Or.inl ⟨?_, ?_⟩
    · rw [bit, events, hc]
      exact has_zero e
    · rw [if_pos (by rw [intGt_iff h.len_lt]; omega)]
  | some c =>
    have hlt := (List.getElem?_eq_some_iff.1 hc).1
    obtain ⟨-, hok, hk⟩ := h.ctx fd c hc
    have hbit : s.bit fd e = has c.events e := by rw [bit, events_of_get hc]
    rw [if_neg (by rw [intGt_iff h.len_lt]; omega), hbit]
    dsimp only
    by_cases hb : has c.events e = true
    · -- the bit is set: the guard lets the call through and the kernel knows the fd
      have hne := hok.valid.ne_zero_of_has e hb
      have hguard : ¬(not c.events &&& e.mask ≠ 0) := fun hg => hne ((hok.valid.guard_iff e).1 hg).1
      rw [if_neg hguard, epollCtl_change _ hk hne]
      refine Or.inr ⟨c, hb, rfl, hok, hb, ?_, by simp⟩
      rw [h.count]
      exact bits_le_total hc
    · -- the mask is empty: `READ` is stopped by the guard, `WRITE` by the kernel
      have hz : c.events = 0 := by
        rcases hd with hd | hd
        · rw [hbit] at hd
          exact absurd hd hb
        · rwa [events_of_get hc] at hd
      refine Or.inl ⟨by simpa using hb, ?_⟩
      have habsent : s.interest fd = none := by rw [hk, hz]; rfl
      by_cases hg : not c.events &&& e.mask ≠ 0
      · rw [if_pos hg]
      · rw [if_neg hg, epollCtl_absent _ _ habsent]
        rfl

/-- the contract of `delEvent` and `cancelEvent`: the result says whether the bit was set, and nothing changes if it
was not -/
def Answer (s : IOManager) (fd : ℕ) (e : Event) (res : Option (Ret × IOManager)) : Prop :=
  ∃ s', res = some (.bool (s.bit fd e), s') ∧ (s.bit fd e = false → s' = s)

theorem delEvent_spec {s : IOManager} (h : Inv s) {fd : ℕ} {e : Event} (hd : Decided s fd e) :
    Answer s fd e (s.delEvent fd e) ∧ ∀ r s', s.delEvent fd e = some (r, s') → Inv s' := by
  unfold delEvent Answer
  rcases removeEvent_spec h hd with ⟨hb, hr⟩ | ⟨c, hb, hc, hok, hhas, hcount, hr⟩
  · rw [hr, hb]
    refine ⟨⟨s, rfl, fun _ => rfl⟩, fun r s' heq => ?_⟩
    simp only [Option.some.injEq, Prod.mk.injEq] at heq
    exact heq.2 ▸ h
  · rw [hr, hb]
    refine ⟨⟨_, rfl, fun hf => by cases hf⟩, fun r s' heq => ?_⟩
    simp only [Option.some.injEq, Prod.mk.injEq] at heq
    rw [← heq.2]
    refine h.update hc rfl (by simp [setFdContext, FdContext.resetContext]) (by simp [FdContext.resetContext])
      (hok.cleared e (by simp [FdContext.resetContext]) (by simp [FdContext.resetContext]) fun e' hne => ?_) ?_
    · rw [FdContext.resetContext, getContext_setContext_ne _ _ hne, getContext_events]
    · have hbits := hok.valid.bits_clear e hhas
      simp only [FdContext.resetContext, setContext_events, decr]
      split_ifs with hz
      · omega
      · omega

theorem cancelEvent_spec {s : IOManager} (h : Inv s) {fd : ℕ} {e : Event} (hd : Decided s fd e) :
    Answer s fd e (s.cancelEvent fd e) ∧ ∀ r s', s.cancelEvent fd e = some (r, s') → Inv s' := by
  unfold cancelEvent Answer
  rcases removeEvent_spec h hd with ⟨hb, hr⟩ | ⟨c, hb, hc, hok, hhas, hcount, hr⟩
  · rw [hr, hb]
    refine ⟨⟨s, rfl, fun _ => rfl⟩, fun r s' heq => ?_⟩
    simp only [Option.some.injEq, Prod.mk.injEq] at heq
    exact heq.2 ▸ h
  · rw [hr, hb]
    set s1 : IOManager := { s with
      interest := Function.update s.interest fd (kernelMask (c.events &&& ~~~e.mask)) } with hs1
    obtain ⟨s2, c', h1, h2, h3⟩ := trigger_spec (s := s1) hc hok hcount hhas
    dsimp only
    rw [h1]
    refine ⟨⟨s2, rfl, fun hf => by cases hf⟩, fun r s' heq => ?_⟩
    simp only [Option.map_some, Option.some.injEq, Prod.mk.injEq] at heq
    rw [← heq.2]
    exact h.shift hc (by rw [hs1, h3]) h2

theorem cancelAll_inv {s s' : IOManager} (h : Inv s) {fd : ℕ} {r : Ret} (hcall : s.cancelAll fd = some (r, s')) :
    Inv s' := by
  unfold cancelAll at hcall
  by_cases hlt : ¬intGt s.fdContexts.length fd
  · rw [if_pos hlt] at hcall
    simp only [Option.some.injEq, Prod.mk.injEq] at hcall
    exact hcall.2 ▸ h
  rw [if_neg hlt] at hcall
  cases hc : s.fdContexts[fd]? with
  | none =>
    rw [hc] at hcall
    cases hcall
  | some c =>
    rw [hc] at hcall
    dsimp only at hcall
    obtain ⟨-, hok, hk⟩ := h.ctx fd c hc
    by_cases hz : c.events = 0
    · rw [if_pos hz] at hcall
      simp only [Option.some.injEq, Prod.mk.injEq] at hcall
      exact hcall.2 ▸ h
    have hctl : s.epollCtl .del fd 0 = (true, { s with interest := Function.update s.interest fd none }) := by
      rw [kernelMask, if_neg hz] at hk
      simp [epollCtl, hk]
    rw [if_neg hz, hctl] at hcall
    simp only [Bool.not_true, Bool.false_eq_true, if_false] at hcall
    set s1 : IOManager := { s with interest := Function.update s.interest fd none } with hs1
    cases hboth : s1.triggerBoth fd c.events with
    | none =>
      rw [hboth] at hcall
      cases hcall
    | some s2 =>
      rw [hboth] at hcall
      have hcount : bits c.events ≤ s1.pendingEventCount := by
        have := bits_le_total hc
        rwa [← h.count] at this
      obtain ⟨c', hsh, hev⟩ := triggerBoth_spec (s := s1) hc hok hcount hok.valid hboth
      have hzero : c'.events = 0 := by
        rw [hev]
        rcases hok.valid with e | e | e | e <;> rw [e] <;> decide
      have hget := hsh.get (s := s1) hc
      simp only [hget, hzero, if_true, Option.some.injEq, Prod.mk.injEq] at hcall
      rw [← hcall.2]
      exact h.shift hc (by rw [hs1, hzero]; rfl) hsh

theorem realEvents_valid (revents events : UInt32) : Valid (realEvents revents events) := by
  unfold realEvents
  dsimp only
  split_ifs <;> unfold Valid <;> decide

theorem dispatch_inv {s s' : IOManager} (h : Inv s) {fd : ℕ} {revents : UInt32} {r : Ret}
    (hcall : s.dispatch fd revents = some (r, s')) : Inv s' := by
  unfold dispatch at hcall
  cases hc : s.fdContexts[fd]? with
  | none =>
    rw [hc] at hcall
    cases hcall
  | some c =>
    rw [hc] at hcall
    dsimp only at hcall
    obtain ⟨hfd, hok, hk⟩ := h.ctx fd c hc
    set real := realEvents revents c.events with hreal
    by_cases hz : c.events &&& real = 0
    · rw [if_pos hz] at hcall
      simp only [Option.some.injEq, Prod.mk.injEq] at hcall
      exact hcall.2 ▸ h
    have hne : c.events ≠ 0 := by
      intro e
      rw [e] at hz
      simp at hz
    rw [if_neg hz, hfd, epollCtl_change _ hk hne] at hcall
    simp only [Bool.not_true, Bool.false_eq_true, if_false] at hcall
    set s1 : IOManager := { s with
      interest := Function.update s.interest fd (kernelMask (c.events &&& ~~~real)) } with hs1
    obtain ⟨s2, hboth, heq⟩ := Option.map_eq_some_iff.1 hcall
    simp only [Prod.mk.injEq] at heq
    have hcount : bits c.events ≤ s1.pendingEventCount := by
      have := bits_le_total hc
      rwa [← h.count] at this
    obtain ⟨c', hsh, hev⟩ := triggerBoth_spec (s := s1) hc hok hcount (realEvents_valid _ _) hboth
    rw [← heq.2]
    exact h.shift hc (by rw [hs1, hev]) hsh

/-! ## Runs -/

/-- one call of a run; `none` once the process is gone -/
def step (s : Option IOManager) (o : Op) : Option IOManager := s.bind fun s => (s.call o).map Prod.snd

/-- the calls the code accounts for: `addEvent` on a thread with a scheduler, for an fd whose table size is an `int`;
`delEvent` and `cancelEvent` for an event that is set or on an fd that waits for nothing -/
def Meets : Option IOManager → Op → Prop
  | none, _ => True
  | some s, .delEvent fd e => Decided s fd e
  | some s, .cancelEvent fd e => Decided s fd e
  | some _, .addEvent fd _ _ who => who.scheduler.isSome ∧ fd * 3 / 2 < 2 ^ 31
  | some _, .cancelAll _ => True
  | some _, .dispatch _ _ => True

instance : (s : Option IOManager) → (o : Op) → Decidable (Meets s o)
  | none, _ => isTrue trivial
  | some s, .delEvent fd e => inferInstanceAs (Decidable (s.bit fd e = true ∨ s.events fd = 0))
  | some s, .cancelEvent fd e => inferInstanceAs (Decidable (s.bit fd e = true ∨ s.events fd = 0))
  | some _, .addEvent fd _ _ who => inferInstanceAs (Decidable (who.scheduler.isSome ∧ fd * 3 / 2 < 2 ^ 31))
  | some _, .cancelAll _ => isTrue trivial
  | some _, .dispatch _ _ => isTrue trivial

/-- the accounts hold in the state a call is made in, and `delEvent` and `cancelEvent` answer rightly there -/
def Accounted : Option IOManager → Op → Prop
  | none, _ => True
  | some s, .delEvent fd e => Acc s ∧ Answer s fd e (s.delEvent fd e)
  | some s, .cancelEvent fd e => Acc s ∧ Answer s fd e (s.cancelEvent fd e)
  | some s, _ => Acc s

/-- **Step.** -/
theorem step_inv (s : Option IOManager) (o : Op) (hm : Meets s o) (h : ∀ m, s = some m → Inv m) :
    ∀ m, step s o = some m → Inv m := by
  intro m hstep
  obtain ⟨s, rfl, hmap⟩ := Option.bind_eq_some_iff.1 hstep
  obtain ⟨⟨r, s'⟩, hcall, rfl⟩ := Option.map_eq_some_iff.1 hmap
  have hs := h s rfl
  cases o with
  | addEvent fd e cb who => exact addEvent_inv hs hm.1 hm.2 hcall
  | delEvent fd e => exact (delEvent_spec hs hm).2 r s' hcall
  | cancelEvent fd e => exact (cancelEvent_spec hs hm).2 r s' hcall
  | cancelAll fd => exact cancelAll_inv hs hcall
  | dispatch fd revents => exact dispatch_inv hs hcall

theorem step_accounted (s : Option IOManager) (o : Op) (hm : Meets s o) (h : ∀ m, s = some m → Inv m) :
    Accounted s o := by
  cases s with
  | none => trivial
  | some s =>
    have hs := h s rfl
    cases o with
    | delEvent fd e => exact ⟨hs.acc, (delEvent_spec hs hm).1⟩
    | cancelEvent fd e => exact ⟨hs.acc, (cancelEvent_spec hs hm).1⟩
    | addEvent | cancelAll | dispatch => exact hs.acc

end Sylar.IOManager
