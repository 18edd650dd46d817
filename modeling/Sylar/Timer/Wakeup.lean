/-
The wake-up of the event loop for an earlier timer.

`getNextTimer` tells the event loop how long it may sleep and clears `m_tickled`; a timer that goes in at the front
sets it and calls `onTimerInsertedAtFront`. `refresh` and the recurring timers of `listExpiredCb` bypass the notifying
insert. They may do so because the due time of a pending timer is its period after a moment that has passed
(`Started`), so with a clock that does not go back they only move a timer to a later place.

A call can do two things to the due times: move them forward (`Forward`: `cancel`, `refresh`, `listExpiredCb`,
`getNextTimer`), or place one timer through `addTimer(val, lock)` (`Placed`: `addTimer`, `reset`).

- `no_lost_wakeup`: if the first due time is below what it was at the last `getNextTimer`, the event loop has been
  notified since.
-/
import Mathlib.Tactic
import Sylar.Core.Run
import Sylar.Core.OrdSet
import Sylar.Timer.Model
import Sylar.Timer.Invariant
import Sylar.Timer.Delivery

namespace Sylar.TimerManager

open Sylar.Core

variable {β : Type}

/-! ## The clock of a run -/

/-- a manager and the last reading of the clock -/
structure Timed (β : Type) where
  mgr : TimerManager β
  clock : UInt64

/-- the clock reading of a call -/
def Op.clock : Op β → Option UInt64
  | .addTimer _ _ _ now _ => some now
  | .cancel _ => none
  | .refresh _ now => some now
  | .reset _ _ _ now => some now
  | .listExpiredCb now _ => some now
  | .getNextTimer now => some now

/-- the clock during a call -/
def Timed.now (w : Timed β) (o : Op β) : UInt64 := o.clock.getD w.clock

def Timed.call (w : Timed β) (o : Op β) : Ret β × Timed β := ((w.mgr.call o).1, ⟨(w.mgr.call o).2, w.now o⟩)

/-- a clock reading and a period whose sum is a `uint64_t` -/
def Fit (now ms : UInt64) : Prop := now.toNat + ms.toNat ≤ 18446744073709551615

instance (now ms : UInt64) : Decidable (Fit now ms) := inferInstanceAs (Decidable (_ ≤ _))

/-- the periods the call adds to the clock are small enough -/
def Op.Fits (s : TimerManager β) (now : UInt64) : Op β → Prop
  | .addTimer ms _ _ _ _ => Fit now ms
  | .refresh id _ => ∀ t ∈ s.heap id, Fit now t.ms
  | .reset _ ms _ _ => Fit now ms
  | .listExpiredCb _ _ => ∀ id ∈ s.timers, ∀ t ∈ s.heap id, Fit now t.ms
  | .cancel _ | .getNextTimer _ => True

instance (s : TimerManager β) (now : UInt64) : (o : Op β) → Decidable (o.Fits s now)
  | .addTimer .. => inferInstanceAs (Decidable (Fit _ _))
  | .refresh .. => inferInstanceAs (Decidable (∀ t ∈ s.heap _, _))
  | .reset .. => inferInstanceAs (Decidable (Fit _ _))
  | .listExpiredCb .. => inferInstanceAs (Decidable (∀ id ∈ s.timers, _))
  | .cancel _ | .getNextTimer _ => isTrue trivial

/-- the clock has not gone back, and the sums of the call do not wrap around -/
def Timely (w : Timed β) (o : Op β) : Prop := o.Ok w.mgr ∧ w.clock ≤ w.now o ∧ o.Fits w.mgr (w.now o)

instance (w : Timed β) (o : Op β) : Decidable (Timely w o) := inferInstanceAs (Decidable (_ ∧ _ ∧ _))

/-! ## Due times -/

/-- every pending timer is due its period after a moment that has passed -/
def Started (s : TimerManager β) (now : UInt64) : Prop :=
  ∀ id ∈ s.timers, ∀ t, s.heap id = some t → t.ms.toNat ≤ t.next.toNat ∧ t.next.toNat ≤ now.toNat + t.ms.toNat

/-- no timer of `s'` is due before the first of `s` -/
def NotEarlier (s s' : TimerManager β) : Prop :=
  ∀ id ∈ s'.timers, ∀ t', s'.heap id = some t' → ∃ j ∈ s.timers, ∃ t, s.heap j = some t ∧ t.next ≤ t'.next

/-- the pending timers were pending, and are due when they were or a period from now -/
structure Forward (now : UInt64) (s s' : TimerManager β) : Prop where
  mem : ∀ j ∈ s'.timers, j ∈ s.timers
  due : ∀ j ∈ s'.timers, s'.heap j = s.heap j ∨
    ∃ t, s.heap j = some t ∧ Fit now t.ms ∧ s'.heap j = some { t with next := now + t.ms }

/-- `s'` comes from `s` by `addTimer(val, lock)` on a timer in hand -/
def Placed (now : UInt64) (s : TimerManager β) (front : Bool) (s' : TimerManager β) : Prop :=
  ∃ id s1 t, InvOut s1 [id] ∧ s1.heap id = some t ∧ (∀ j ∈ s1.timers, j ∈ s.timers ∧ s1.heap j = s.heap j) ∧
    s1.tickled = s.tickled ∧ t.ms.toNat ≤ t.next.toNat ∧ t.next.toNat ≤ now.toNat + t.ms.toNat ∧
    s1.addTimerLocked id = (front, s')

theorem toNat_add_of_fit {now ms : UInt64} (h : Fit now ms) : (now + ms).toNat = now.toNat + ms.toNat := by
  rw [UInt64.toNat_add]
  exact Nat.mod_eq_of_lt (by unfold Fit at h; omega)

namespace Forward

variable {now : UInt64} {s s' : TimerManager β}

theorem of_same (hmem : ∀ j ∈ s'.timers, j ∈ s.timers) (hheap : s'.heap = s.heap) : Forward now s s' :=
  ⟨hmem, fun _ _ => Or.inl (by rw [hheap])⟩

theorem started {clock : UInt64} (h : Forward now s s') (hs : Started s clock) (hle : clock ≤ now) :
    Started s' now := by
  intro j hj t' ht'
  rw [UInt64.le_iff_toNat_le] at hle
  rcases h.due j hj with he | ⟨t, ht, hfit, he⟩
  · rw [he] at ht'
    have := hs j (h.mem j hj) t' ht'
    omega
  · rw [he, Option.some.injEq] at ht'
    subst ht'
    show t.ms.toNat ≤ (now + t.ms).toNat ∧ (now + t.ms).toNat ≤ now.toNat + t.ms.toNat
    rw [toNat_add_of_fit hfit]
    omega

theorem notEarlier {clock : UInt64} (h : Forward now s s') (hs : Started s clock) (hle : clock ≤ now) :
    NotEarlier s s' := by
  intro j hj t' ht'
  rw [UInt64.le_iff_toNat_le] at hle
  rcases h.due j hj with he | ⟨t, ht, hfit, he⟩
  · rw [he] at ht'
    exact ⟨j, h.mem j hj, t', ht', UInt64.le_refl _⟩
  · rw [he, Option.some.injEq] at ht'
    subst ht'
    have := hs j (h.mem j hj) t ht
    refine ⟨j, h.mem j hj, t, ht, ?_⟩
    show t.next ≤ now + t.ms
    rw [UInt64.le_iff_toNat_le, toNat_add_of_fit hfit]
    omega

end Forward

namespace Placed

variable {now : UInt64} {s s' : TimerManager β} {front : Bool}

theorem started {clock : UInt64} (h : Placed now s front s') (hs : Started s clock) (hle : clock ≤ now) :
    Started s' now := by
  obtain ⟨id, s1, t, hi, ht, hsub, -, hlo, hhi, hcall⟩ := h
  obtain ⟨b, hb⟩ := addTimerLocked_eq s1 id
  rw [UInt64.le_iff_toNat_le] at hle
  rw [hcall] at hb
  intro j hj t' ht'
  have hs' : s' = { s1.insert id with tickled := b } := hb
  subst hs'
  rcases (hi.mem_insert j).1 hj with rfl | hj
  · obtain rfl : t = t' := Option.some.inj (ht.symm.trans ht')
    exact ⟨hlo, hhi⟩
  · obtain ⟨hmem, hheap⟩ := hsub j hj
    have := hs j hmem t' (hheap ▸ ht')
    omega

/-- a timer placed without a notification has one before it -/
theorem notEarlier (h : Placed now s front s') (htick : s.tickled = false) (hfront : front = false) :
    s'.tickled = false ∧ NotEarlier s s' := by
  obtain ⟨id, s1, t, hi, ht, hsub, hsame, -, -, hcall⟩ := h
  have hid : id ∉ s1.timers := hi.out_disjoint id List.mem_cons_self
  have hno : (decide ((s1.insert id).timers.head? = some id) && !(s1.insert id).tickled) = false :=
    (congrArg Prod.fst hcall).trans hfront
  have hs' : s' = s1.insert id := by
    have := congrArg Prod.snd hcall
    simp only [addTimerLocked, hno, Bool.false_eq_true, if_false] at this
    exact this.symm
  have htick1 : (s1.insert id).tickled = false := hsame.trans htick
  rw [htick1, Bool.not_false, Bool.and_true, decide_eq_false_iff_not] at hno
  obtain ⟨y, hy, hlt⟩ := (OrdSet.insert_front hi.comparable hid).resolve_left hno
  subst hs'
  refine ⟨htick1, fun j hj t' ht' => ?_⟩
  rcases (hi.mem_insert j).1 hj with rfl | hj
  · obtain rfl : t = t' := Option.some.inj (ht.symm.trans ht')
    obtain ⟨ty, -, hty, -⟩ := hi.object (Or.inl hy)
    obtain ⟨hmem, hheap⟩ := hsub y hy
    refine ⟨y, hmem, ty, hheap ▸ hty, ?_⟩
    rw [less, hty, ht, comparator_some] at hlt
    rcases hlt with hlt | ⟨he, -⟩
    · exact UInt64.le_of_lt hlt
    · exact UInt64.le_of_eq he
  · obtain ⟨hmem, hheap⟩ := hsub j hj
    exact ⟨j, hmem, t', hheap ▸ ht', UInt64.le_refl _⟩

end Placed

/-! ## What each call does to the due times -/

/-- the loop moves the recurring timers and empties the others -/
theorem expireLoop_heap (now : UInt64) (out : List ℕ) (s : TimerManager β) (hnd : out.Nodup) :
    (expireLoop now out s).2.tickled = s.tickled ∧ ∀ j, (expireLoop now out s).2.heap j =
      if j ∈ out then (s.heap j).map fun t => if t.recurring then { t with next := now + t.ms } else { t with cb := none }
      else s.heap j := by
  induction out generalizing s with
  | nil => exact ⟨rfl, fun j => rfl⟩
  | cons id out ih =>
    obtain ⟨hid, hout⟩ := List.nodup_cons.1 hnd
    simp only [expireLoop]
    cases ht : s.heap id with
    | none =>
      obtain ⟨h1, h2⟩ := ih s hout
      refine ⟨h1, fun j => (h2 j).trans ?_⟩
      by_cases hj : j = id
      · simp [hj, hid, ht]
      · simp [hj]
    | some t =>
      set t' : Timer β := if t.recurring then { t with next := now + t.ms } else { t with cb := none } with ht'
      -- both branches store the new object; inserting it does not touch the heap
      have hround : ∀ s1 : TimerManager β, s1.tickled = s.tickled → s1.heap = (s.store id t').heap →
          (expireLoop now out s1).2.tickled = s.tickled ∧ ∀ j, (expireLoop now out s1).2.heap j =
            if j ∈ id :: out then (s.heap j).map fun t => if t.recurring then { t with next := now + t.ms }
              else { t with cb := none }
            else s.heap j := by
        intro s1 htick hheap
        obtain ⟨h1, h2⟩ := ih s1 hout
        refine ⟨h1.trans htick, fun j => ?_⟩
        rw [h2 j, hheap]
        by_cases hj : j = id
        · rw [hj, if_neg hid, if_pos List.mem_cons_self, store_heap_self, ht, Option.map_some, ht']
        · simp only [store_heap_ne s t' hj, List.mem_cons, hj, false_or]
      refine hround _ ?_ ?_
      · split_ifs <;> rfl
      · rw [ht']
        split_ifs <;> rfl

/-- `onTimerInsertedAtFront` was called -/
def Ret.front : Ret β → Bool
  | .added _ front => front
  | .bool _ front => front
  | _ => false

theorem cancel_forward {s : TimerManager β} (h : Inv s) (id : ℕ) (now : UInt64) :
    Forward now s (s.cancel id).2 ∧ (s.cancel id).2.tickled = s.tickled := by
  by_cases ha : s.armed id = none
  · rw [cancel_none ha]
    exact ⟨.of_same (fun _ hj => hj) rfl, rfl⟩
  · have hmem : id ∈ s.timers := (Inv.mem_timers h).2 (Option.isSome_iff_ne_none.2 ha)
    obtain ⟨t, c, ht, hc⟩ := h.object (Or.inl hmem)
    rw [cancel_eq h ht (by rw [hc]; rfl)]
    refine ⟨⟨fun j hj => ((h.mem_erase hmem j).1 hj).2, fun j hj => Or.inl ?_⟩, rfl⟩
    exact store_heap_ne (s.erase id) _ ((h.mem_erase hmem j).1 hj).1

theorem refresh_forward {s : TimerManager β} (h : Inv s) (id : ℕ) {now : UInt64}
    (hfit : ∀ t ∈ s.heap id, Fit now t.ms) :
    Forward now s (s.refresh id now).2 ∧ (s.refresh id now).2.tickled = s.tickled := by
  rcases refresh_cases h id now with ⟨-, he⟩ | ⟨t, ht, hmem, he⟩
  · rw [he]
    exact ⟨.of_same (fun _ hj => hj) rfl, rfl⟩
  · have hcb : t.cb.isSome := (Inv.mem_iff_cb h ht).1 hmem
    have hin : ∀ j, j ∈ (((s.erase id).store id { t with next := now + t.ms }).insert id).timers ↔
        j = id ∨ j ∈ (s.erase id).timers :=
      ((h.take hmem).change (u := { t with next := now + t.ms }) ht rfl hcb).mem_insert
    rw [he]
    refine ⟨⟨fun j hj => ?_, fun j hj => ?_⟩, rfl⟩
    · rcases (hin j).1 hj with rfl | hj
      · exact hmem
      · exact ((h.mem_erase hmem j).1 hj).2
    · rcases (hin j).1 hj with rfl | hj
      · exact Or.inr ⟨t, ht, hfit t ht, store_heap_self _ _ _⟩
      · exact Or.inl (store_heap_ne (s.erase id) _ ((h.mem_erase hmem j).1 hj).1)

theorem listExpiredCb_forward {s : TimerManager β} (h : Inv s) {now : UInt64} (addr : ℕ)
    (hfit : ∀ id ∈ s.timers, ∀ t ∈ s.heap id, Fit now t.ms) :
    Forward now s (s.listExpiredCb now addr).2 ∧ (s.listExpiredCb now addr).2.tickled = s.tickled := by
  rcases s.listExpiredCb_cases now addr with he | he | ⟨a, b, hab, he⟩
  · rw [he]
    exact ⟨.of_same (fun _ hj => hj) rfl, rfl⟩
  · rw [he]
    exact ⟨.of_same (fun _ hj => hj) rfl, rfl⟩
  · have hsplit := (InvOut.split h hab).previousTime now
    obtain ⟨hinv, -, -, harmed⟩ := expireLoop_spec now _ hsplit
    obtain ⟨htick, hheap⟩ := expireLoop_heap now a { s with previousTime := now, timers := b } hsplit.out_nodup
    rw [he]
    -- what is in the set afterwards has a callback, so it had one before
    have hmem : ∀ j ∈ (expireLoop now a { s with previousTime := now, timers := b }).2.timers, j ∈ s.timers := by
      intro j hj
      rw [Inv.mem_timers hinv, harmed] at hj
      rw [Inv.mem_timers h]
      simp only [afterExpiry] at hj
      split_ifs at hj
      · cases hj
      · exact hj
    refine ⟨⟨hmem, fun j hj => ?_⟩, htick⟩
    obtain ⟨t, c, ht, hc⟩ := h.object (Or.inl (hmem j hj))
    have hj' := hheap j
    by_cases hja : j ∈ a
    · rw [if_pos hja, ht, Option.map_some] at hj'
      by_cases hr : t.recurring = true
      · rw [if_pos hr] at hj'
        exact Or.inr ⟨t, ht, hfit j (hmem j hj) t ht, hj'⟩
      · rw [if_neg hr] at hj'
        rw [Inv.mem_timers hinv, armed_of_heap hj'] at hj
        cases hj
    · rw [if_neg hja] at hj'
      exact Or.inl hj'

theorem addTimer_placed {s : TimerManager β} (h : Inv s) {ms : UInt64} (cb : β) (recurring : Bool) {now : UInt64}
    {addr : ℕ} (hok : ∀ id ∈ s.timers, (s.heap id).map Timer.addr ≠ some addr) (hfit : Fit now ms) :
    Placed now s (s.addTimer ms cb recurring now addr).1.front (s.addTimer ms cb recurring now addr).2 := by
  set t : Timer β := { recurring := recurring, ms := ms, next := now + ms, cb := some cb, addr := addr } with ht
  have hnext : t.next.toNat = now.toNat + ms.toNat := toNat_add_of_fit hfit
  refine ⟨s.created, { s.store s.created t with created := s.created + 1 }, t, Inv.create h rfl hok,
    store_heap_self s _ t, fun j hj => ⟨hj, store_heap_ne s t fun e => (Inv.fresh h).2 (e ▸ hj)⟩, rfl, ?_, ?_, rfl⟩
  · show ms.toNat ≤ t.next.toNat
    omega
  · show t.next.toNat ≤ now.toNat + ms.toNat
    omega

/-- `reset` with the old period and the old start does nothing; otherwise the timer goes through the notifying insert
-/
theorem reset_placed {s : TimerManager β} (h : Inv s) {clock : UInt64} (hs : Started s clock) (id : ℕ) {ms : UInt64}
    (from_now : Bool) {now : UInt64} (hle : clock ≤ now) (hfit : Fit now ms) :
    (s.reset id ms from_now now).2 = s ∨
      Placed now s (s.reset id ms from_now now).1.front (s.reset id ms from_now now).2 := by
  rcases reset_cases h id ms from_now now with ⟨t, -, -, he⟩ | ⟨-, he⟩ | ⟨t, u, ht, hmem, hu, he⟩
  · rw [he]
    exact Or.inl rfl
  · rw [he]
    exact Or.inl rfl
  · right
    have hcb : t.cb.isSome := (Inv.mem_iff_cb h ht).1 hmem
    set start : UInt64 := if from_now = true then now else t.next - t.ms with hstart
    -- the timer starts now or when it did before, which is no later
    have hbefore : start.toNat ≤ now.toNat := by
      rw [UInt64.le_iff_toNat_le] at hle
      have := hs id hmem t ht
      rw [hstart]
      split_ifs
      · exact le_refl _
      · rw [UInt64.toNat_sub_of_le _ _ (UInt64.le_iff_toNat_le.2 this.1)]
        omega
    have hsum : (start + ms).toNat = start.toNat + ms.toNat := toNat_add_of_fit (by unfold Fit at hfit ⊢; omega)
    have hms : u.ms = ms := by rw [hu]
    have hnext : u.next = start + ms := by rw [hu]
    rw [he]
    refine ⟨id, (s.erase id).store id u, u, (h.take hmem).change ht (by rw [hu]) (by rw [hu]; exact hcb),
      store_heap_self _ _ _, fun j hj => ?_, rfl, ?_, ?_, rfl⟩
    · obtain ⟨hne, hj⟩ := (h.mem_erase hmem j).1 hj
      exact ⟨hj, store_heap_ne (s.erase id) u hne⟩
    · rw [hms, hnext]
      omega
    · rw [hms, hnext]
      omega

/-- **What a call does to the due times.** It moves them forward, and only `getNextTimer` touches the flag; or it
places one timer. -/
theorem call_moves {w : Timed β} (h : Inv w.mgr) (hs : Started w.mgr w.clock) {o : Op β} (ht : Timely w o) :
    (Forward (w.now o) w.mgr (w.mgr.call o).2 ∧
      ((∃ now, o = .getNextTimer now) ∨ (w.mgr.call o).2.tickled = w.mgr.tickled)) ∨
      Placed (w.now o) w.mgr (w.mgr.call o).1.front (w.mgr.call o).2 := by
  obtain ⟨hok, hle, hfit⟩ := ht
  cases o with
  | addTimer ms cb recurring now addr => exact Or.inr (addTimer_placed h cb recurring hok hfit)
  | cancel id =>
    obtain ⟨h1, h2⟩ := cancel_forward h id (w.now (.cancel id))
    exact Or.inl ⟨h1, Or.inr h2⟩
  | refresh id now =>
    obtain ⟨h1, h2⟩ := refresh_forward h id hfit
    exact Or.inl ⟨h1, Or.inr h2⟩
  | reset id ms from_now now =>
    rcases reset_placed h hs id from_now hle hfit with he | hp
    · left
      have hcall : (w.mgr.call (.reset id ms from_now now)).2 = w.mgr := he
      rw [hcall]
      exact ⟨.of_same (fun _ hj => hj) rfl, Or.inr rfl⟩
    · exact Or.inr hp
  | listExpiredCb now addr =>
    obtain ⟨h1, h2⟩ := listExpiredCb_forward h addr hfit
    exact Or.inl ⟨h1, Or.inr h2⟩
  | getNextTimer now =>
    left
    refine ⟨?_, Or.inl ⟨now, rfl⟩⟩
    simp only [call, getNextTimer]
    split
    · exact .of_same (fun _ hj => hj) rfl
    · split <;> exact .of_same (fun _ hj => hj) rfl

/-! ## Runs -/

theorem call_started {w : Timed β} (h : Inv w.mgr) (hs : Started w.mgr w.clock) {o : Op β} (ht : Timely w o) :
    Inv (w.call o).2.mgr ∧ Started (w.call o).2.mgr (w.call o).2.clock := by
  refine ⟨(call_refines h ht.1).1, ?_⟩
  rcases call_moves h hs ht with ⟨hf, -⟩ | hp
  · exact hf.started hs ht.2.1
  · exact hp.started hs ht.2.1

/-- a call that does not notify keeps the flag clear and the first due time where it was or later -/
theorem call_quiet {w : Timed β} (h : Inv w.mgr) (hs : Started w.mgr w.clock) {o : Op β} (ht : Timely w o)
    (hget : ∀ now, o ≠ .getNextTimer now) (htick : w.mgr.tickled = false) (hfront : (w.call o).1.front = false) :
    (w.call o).2.mgr.tickled = false ∧ NotEarlier w.mgr (w.call o).2.mgr := by
  rcases call_moves h hs ht with ⟨hf, ⟨now, hnow⟩ | hsame⟩ | hp
  · exact absurd hnow (hget now)
  · exact ⟨hsame.trans htick, hf.notEarlier hs ht.2.1⟩
  · exact hp.notEarlier htick hfront

theorem NotEarlier.trans {s s' s'' : TimerManager β} (h : NotEarlier s s') (h' : NotEarlier s' s'') :
    NotEarlier s s'' := by
  intro id hid t ht
  obtain ⟨j, hj, tj, htj, hle⟩ := h' id hid t ht
  obtain ⟨k, hk, tk, htk, hle'⟩ := h j hj tj htj
  exact ⟨k, hk, tk, htk, UInt64.le_trans hle' hle⟩

/-- a run without `getNextTimer` and without a notification -/
theorem run_quiet (ops : List (Op β)) {w : Timed β} (h : Inv w.mgr) (hs : Started w.mgr w.clock)
    (hok : Along Timely (fun w o => (w.call o).2) w ops) (hget : ∀ o ∈ ops, ∀ now, o ≠ .getNextTimer now)
    (htick : w.mgr.tickled = false) (hfront : ∀ r ∈ (runOut Timed.call w ops).1, r.front = false) :
    NotEarlier w.mgr (runOut Timed.call w ops).2.mgr := by
  induction ops generalizing w with
  | nil => exact fun id hid t ht => ⟨id, hid, t, ht, UInt64.le_refl _⟩
  | cons o ops ih =>
    obtain ⟨hi', hs'⟩ := call_started h hs hok.1
    obtain ⟨htick', hle⟩ := call_quiet h hs hok.1 (hget o List.mem_cons_self) htick (hfront _ List.mem_cons_self)
    exact hle.trans (ih hi' hs' hok.2 (fun o' ho => hget o' (List.mem_cons_of_mem _ ho)) htick'
      fun r hr => hfront r (List.mem_cons_of_mem _ hr))

/-- some timer of `s'` is due before every timer of `s`: the smallest due time, infinity for the empty set, has
dropped -/
def Earlier (s s' : TimerManager β) : Prop :=
  ∃ id ∈ s'.timers, ∃ t ∈ s'.heap id, ∀ j ∈ s.timers, ∀ tj ∈ s.heap j, t.next < tj.next

instance (s s' : TimerManager β) : Decidable (Earlier s s') := inferInstanceAs (Decidable (∃ id ∈ s'.timers, _))

/-- **No lost wake-up.** Let the clock not go back and the sums with it not wrap around. After `pre`, `getNextTimer`
and any calls `post` that are not `getNextTimer`, if the smallest due time is below what it was at `getNextTimer`,
then a call of `post` has invoked `onTimerInsertedAtFront`. -/
theorem no_lost_wakeup (start : UInt64) (pre post : List (Op β)) (now : UInt64)
    (hok : Along Timely (fun w o => (w.call o).2) ⟨new start, start⟩ (pre ++ .getNextTimer now :: post))
    (hlast : ∀ o ∈ post, ∀ now', o ≠ .getNextTimer now') :
    let asleep := (runOut Timed.call (⟨new start, start⟩ : Timed β) pre).2
    let woken := runOut Timed.call (asleep.call (.getNextTimer now)).2 post
    Earlier asleep.mgr woken.2.mgr → ∃ r ∈ woken.1, r.front = true := by
  intro asleep woken hearlier
  obtain ⟨hpre, hget, hpost⟩ := hok.append
  obtain ⟨hi, hs⟩ : Inv asleep.mgr ∧ Started asleep.mgr asleep.clock := by
    have hstart : Started (new start : TimerManager β) start := fun id hid => absurd hid (by simp [new])
    have := run_inv (P := fun w : Timed β => Inv w.mgr ∧ Started w.mgr w.clock)
      (fun w o ho hw => call_started hw.1 hw.2 ho) pre ⟨inv_new start, hstart⟩ hpre
    rwa [← runOut_snd] at this
  rw [← runOut_snd] at hget hpost
  -- `getNextTimer` clears the flag and touches nothing else
  obtain ⟨hi', hs'⟩ := call_started hi hs hget
  have hclear : (asleep.call (.getNextTimer now)).2.mgr = { asleep.mgr with tickled := false } := by
    simp only [Timed.call, call, getNextTimer]
    split
    · rfl
    · split <;> rfl
  by_contra hno
  have hquiet : ∀ r ∈ woken.1, r.front = false := fun r hr => by
    by_contra hr'
    exact hno ⟨r, hr, by simpa using hr'⟩
  have hnot := run_quiet post hi' hs' hpost hlast (by rw [hclear]) hquiet
  obtain ⟨id, hid, t, ht, hlt⟩ := hearlier
  obtain ⟨j, hj, tj, htj, hle⟩ := hnot id hid t ht
  rw [hclear] at hj htj
  have := hlt j hj tj htj
  rw [UInt64.lt_iff_toNat_lt] at this
  rw [UInt64.le_iff_toNat_le] at hle
  omega

/-- the loop sleeps until 100; another thread has moved one timer back when `reset` brings the other to 80 -/
theorem no_lost_wakeup_reset :
    ∃ r ∈ (runOut Timed.call ((runOut Timed.call (⟨new 0, 0⟩ : Timed Unit) [.addTimer 100 () false 0 7,
      .addTimer 100 () true 0 3]).2.call (.getNextTimer 10)).2 [.refresh 0 20, .reset 1 50 true 30]).1, r.front = true :=
  no_lost_wakeup 0 [.addTimer 100 () false 0 7, .addTimer 100 () true 0 3] [.refresh 0 20, .reset 1 50 true 30] 10
    (by decide) (by simp) (by decide)

end Sylar.TimerManager
