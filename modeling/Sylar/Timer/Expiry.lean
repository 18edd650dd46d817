/-
What `listExpiredCb` emits and leaves.

The iterator of the expired range is a `lower_bound` with a probe timer, moved on over equal due times. On a sorted
set it ends the timers with `m_next ≤ now`, wherever the probe was allocated (`expired_eq`), and the early return is
the case of an empty range (`listExpiredCb_eq`). So the call cuts the set at `now`, or takes all of it after a
rollover, and runs the loop over the front part.

- `listExpiredCb_exact`: the emitted timers, their order, and every timer afterwards.
- `history_oneShot`, `due_of_emitted`: a one-shot timer keeps its due time until somebody moves it, and is not emitted
  sooner.
-/
import Mathlib.Tactic
import Sylar.Core.OrdSet
import Sylar.Timer.Model
import Sylar.Timer.Invariant
import Sylar.Timer.Wakeup
import Sylar.Timer.Delivery

namespace Sylar.TimerManager

open Sylar.Core

variable {β : Type}

/-! ## The expired range -/

/-- the timer is due at `now` -/
def dueBy (s : TimerManager β) (now : UInt64) (id : ℕ) : Bool := (s.heap id).elim false fun t => decide (t.next ≤ now)

theorem dueBy_iff {s : TimerManager β} {now : UInt64} {id : ℕ} :
    s.dueBy now id = true ↔ ∃ t, s.heap id = some t ∧ t.next ≤ now := by
  unfold dueBy
  cases s.heap id with
  | none => simp
  | some t => simp

/-- a timer before a probe is due by the probe's time -/
theorem next_le_of_before {t probe : Timer β} (h : Timer.comparator (some t) (some probe) = true) :
    t.next ≤ probe.next := by
  rcases (comparator_some t probe).mp h with hlt | ⟨heq, -⟩
  · exact UInt64.le_of_lt hlt
  · exact UInt64.le_of_eq heq

/-- a timer before another one is due no later -/
theorem next_le_of_less {s : TimerManager β} {a b : ℕ} {ta tb : Timer β} (h : s.less a b = true)
    (ha : s.heap a = some ta)
    (hb : s.heap b = some tb) : ta.next ≤ tb.next := by
  rw [less, ha, hb] at h
  exact next_le_of_before h

/-- in a sorted set no timer is due before the first -/
theorem first_next_le {s : TimerManager β} (h : Inv s) {front id : ℕ} {rest : List ℕ} {t u : Timer β}
    (hcons : s.timers = front :: rest) (ht : s.heap front = some t) (hid : id ∈ s.timers) (hu : s.heap id = some u) :
    t.next ≤ u.next := by
  rw [hcons] at hid
  rcases List.mem_cons.mp hid with rfl | hrest
  · rw [ht] at hu
    injection hu with htu
    exact UInt64.le_of_eq (by rw [htu])
  · have hsorted := h.sorted
    rw [hcons] at hsorted
    exact next_le_of_less (List.rel_of_pairwise_cons hsorted hrest) ht hu

/-- a timer that is not before a probe is due by its time only if at that very time -/
theorem next_eq_iff_of_not_before {t probe : Timer β} (h : Timer.comparator (some t) (some probe) = false) :
    t.next = probe.next ↔ t.next ≤ probe.next := by
  have hnot : ¬t.next < probe.next := by
    intro hlt
    rw [(comparator_some t probe).mpr (.inl hlt)] at h
    cases h
  refine ⟨UInt64.le_of_eq, fun hle => ?_⟩
  rw [UInt64.lt_iff_toNat_lt] at hnot
  rw [UInt64.le_iff_toNat_le] at hle
  exact UInt64.toNat_inj.mp (by omega)

/-- **The expired range** ends behind the last timer that is due; the address of the probe does not matter. -/
theorem expired_eq {s : TimerManager β} (h : Inv s) (now : UInt64) (addr : ℕ) :
    s.expired false now addr = OrdSet.lowerBound (s.dueBy now) s.timers := by
  set probe : Timer β := { recurring := false, ms := 0, next := now, cb := none, addr := addr }
  set before : ℕ → Bool := fun id => Timer.comparator (s.heap id) (some probe)
  have happ := OrdSet.lowerBound_append before s.timers
  have hobj : ∀ {id}, id ∈ (OrdSet.lowerBound before s.timers).1 ∨ id ∈ (OrdSet.lowerBound before s.timers).2 →
      ∃ t, s.heap id = some t := by
    intro id hid
    have hmem : id ∈ s.timers := by
      rw [← happ]
      exact List.mem_append.mpr hid
    obtain ⟨t, -, ht, -⟩ := h.object (Or.inl hmem)
    exact ⟨t, ht⟩
  obtain ⟨hfront, hback⟩ := OrdSet.span_of_mono h.sorted
    fun a _ b _ hab hb => comparator_trans _ _ _ hab hb
  apply OrdSet.lowerBound_extend
  · intro id hid
    obtain ⟨t, ht⟩ := hobj (.inl hid)
    have hcmp : Timer.comparator (s.heap id) (some probe) = true := hfront id hid
    rw [ht] at hcmp
    exact dueBy_iff.mpr ⟨t, ht, next_le_of_before hcmp⟩
  · intro id hid
    obtain ⟨t, ht⟩ := hobj (.inr hid)
    have hcmp : Timer.comparator (s.heap id) (some probe) = false := hback id hid
    rw [ht] at hcmp
    simp only [dueBy, ht, Option.elim_some]
    exact decide_eq_decide.mpr (next_eq_iff_of_not_before hcmp)

/-- the cut of the set at the expired range -/
def cut (s : TimerManager β) (rollover : Bool) (now : UInt64) : List ℕ × List ℕ :=
  if rollover then (s.timers, []) else OrdSet.lowerBound (s.dueBy now) s.timers

theorem cut_append (s : TimerManager β) (rollover : Bool) (now : UInt64) :
    (s.cut rollover now).1 ++ (s.cut rollover now).2 = s.timers := by
  unfold cut
  split_ifs
  · exact List.append_nil _
  · exact OrdSet.lowerBound_append _ _

theorem mem_cut {s : TimerManager β} (h : Inv s) (rollover : Bool) (now : UInt64) (id : ℕ) :
    id ∈ (s.cut rollover now).1 ↔ id ∈ s.timers ∧ (rollover = true ∨ s.dueBy now id = true) := by
  unfold cut
  split_ifs with hr
  · simp [hr]
  · have hmono : ∀ a ∈ s.timers, ∀ b ∈ s.timers, s.less a b = true → s.dueBy now b = true → s.dueBy now a = true := by
      intro a ha b _ hab hb
      obtain ⟨ta, -, hta, -⟩ := h.object (Or.inl ha)
      obtain ⟨tb, htb, hle⟩ := dueBy_iff.mp hb
      exact dueBy_iff.mpr ⟨ta, hta, UInt64.le_trans (next_le_of_less hab hta htb) hle⟩
    obtain ⟨hfront, hback⟩ := OrdSet.span_of_mono h.sorted hmono
    have happ := OrdSet.lowerBound_append (s.dueBy now) s.timers
    constructor
    · intro hid
      refine ⟨?_, .inr (hfront id hid)⟩
      rw [← happ]
      exact List.mem_append_left _ hid
    · rintro ⟨hid, hr' | hdue⟩
      · exact absurd hr' hr
      · rw [← happ] at hid
        rcases List.mem_append.mp hid with hid | hid
        · exact hid
        · rw [hback id hid] at hdue
          cases hdue

/-- **The call** is the loop over the front part of the cut; the early return is an empty front part. -/
theorem listExpiredCb_eq {s : TimerManager β} (h : Inv s) (hne : s.timers ≠ []) (now : UInt64) (addr : ℕ) :
    s.listExpiredCb now addr =
      let e := s.cut (s.detectClockRollover now).1 now
      let r := expireLoop now e.1 { s with previousTime := now, timers := e.2 }
      (.cbs r.1, r.2) := by
  obtain ⟨front, rest, hfront⟩ := List.exists_cons_of_ne_nil hne
  obtain ⟨t, -, ht, -⟩ := h.object (Or.inl (show front ∈ s.timers by rw [hfront]; exact List.mem_cons_self))
  set s1 := (s.detectClockRollover now).2 with hs1
  have htimers : s1.timers = front :: rest := hfront
  have hexp : ∀ rollover, s1.expired rollover now addr = s.cut rollover now := by
    intro rollover
    cases rollover with
    | true => rfl
    | false => exact expired_eq (InvOut.previousTime h now) now addr
  rw [listExpiredCb, if_neg hne]
  simp only [listExpiredCbLocked, ← hs1, htimers, hexp]
  split_ifs with hearly
  · -- the first timer is not due, so none is
    rw [Bool.and_eq_true, Bool.not_eq_true'] at hearly
    obtain ⟨hroll, hlate⟩ := hearly
    have hnot : s.dueBy now front = false := by
      have hgt : decide (t.next > now) = true := by
        have : s1.heap front = some t := ht
        rwa [this, Option.elim_some] at hlate
      simp only [dueBy, ht, Option.elim_some, decide_eq_false_iff_not, UInt64.not_le]
      exact of_decide_eq_true hgt
    have hcut : s.cut (s.detectClockRollover now).1 now = ([], s.timers) := by
      rw [hroll, cut, if_neg (by simp), OrdSet.lowerBound, hfront, List.takeWhile_cons_of_neg (by simp [hnot]),
        List.dropWhile_cons_of_neg (by simp [hnot])]
    rw [hcut]
    rfl
  · rfl

theorem expireLoop_previousTime (now : UInt64) (out : List ℕ) (s : TimerManager β) :
    (expireLoop now out s).2.previousTime = s.previousTime := by
  induction out generalizing s with
  | nil => rfl
  | cons id out ih =>
    simp only [expireLoop]
    cases s.heap id with
    | none => exact ih s
    | some t =>
      dsimp only
      rw [ih]
      split_ifs
      · rfl
      · rfl

/-! ## The specification -/

/-- the clock reads more than an hour less than at the last call -/
def RolledBack (s : TimerManager β) (now : UInt64) : Prop := now.toNat + 3600000 < s.previousTime.toNat

/-- past the first hour of the epoch `m_previousTime - 60 * 60 * 1000` does not wrap -/
theorem detectClockRollover_iff {s : TimerManager β} (h : 3600000 ≤ s.previousTime) (now : UInt64) :
    (s.detectClockRollover now).1 = true ↔ s.RolledBack now := by
  have hle : (3600000 : UInt64).toNat ≤ s.previousTime.toNat := UInt64.le_iff_toNat_le.mp h
  have hsub : (s.previousTime - 3600000).toNat = s.previousTime.toNat - 3600000 := UInt64.toNat_sub_of_le _ _ h
  have hconst : (60 * 60 * 1000 : UInt64) = 3600000 := by decide
  have h3600 : (3600000 : UInt64).toNat = 3600000 := by decide
  rw [h3600] at hle
  simp only [detectClockRollover, RolledBack, Bool.and_eq_true, decide_eq_true_eq, hconst, UInt64.lt_iff_toNat_lt, hsub]
  omega

/-- a timer after it was emitted -/
def fired (now : UInt64) (t : Timer β) : Timer β :=
  if t.recurring then { t with next := now + t.ms } else { t with cb := none }

/-- what a call with the emitted timers `ids` did to the manager -/
structure Expires (s : TimerManager β) (now : UInt64) (ids : List ℕ) (s' : TimerManager β) : Prop where
  inv : Inv s'
  time : s'.previousTime = now
  /-- the timers that were not emitted, and the emitted ones that recur -/
  mem : ∀ id, id ∈ s'.timers ↔ id ∈ s.timers ∧ (id ∉ ids ∨ s.kind id = some true)
  emitted : ∀ id ∈ ids, s'.heap id = (s.heap id).map (fired now)
  others : ∀ id, id ∉ ids → s'.heap id = s.heap id

theorem expires_cut {s : TimerManager β} (h : Inv s) {a b : List ℕ} (hab : a ++ b = s.timers) (now : UInt64) :
    (expireLoop now a { s with previousTime := now, timers := b }).1 = a.map (fun id => (id, s.armed id)) ∧
      Expires s now a (expireLoop now a { s with previousTime := now, timers := b }).2 := by
  have hsplit := (InvOut.split h hab).previousTime now
  obtain ⟨hinv, hcbs, hkind, harmed⟩ := expireLoop_spec now a hsplit
  obtain ⟨-, hheap⟩ := expireLoop_heap now a { s with previousTime := now, timers := b } hsplit.out_nodup
  refine ⟨hcbs, hinv, expireLoop_previousTime now a _, ?_, ?_, ?_⟩
  · intro id
    rw [Inv.mem_timers hinv, harmed, Inv.mem_timers h]
    show (afterExpiry s.armed s.kind a id).isSome ↔ _
    unfold afterExpiry
    split_ifs with hgone
    · simp [hgone.1, hgone.2]
    · refine ⟨fun harm => ⟨harm, ?_⟩, fun hh => hh.1⟩
      by_cases hid : id ∈ a
      · obtain ⟨t, -, ht, -⟩ := armed_isSome.mp harm
        have hk : s.kind id = some t.recurring := by rw [kind, ht]; rfl
        rw [hk] at hgone ⊢
        cases hr : t.recurring with
        | true => exact .inr rfl
        | false => exact absurd ⟨hid, by rw [hr]⟩ hgone
      · exact .inl hid
  · intro id hid
    rw [hheap id, if_pos hid]
    rfl
  · intro id hid
    rw [hheap id, if_neg hid]

theorem cut_pairwise {s : TimerManager β} (h : Inv s) (rollover : Bool) (now : UInt64) :
    (s.cut rollover now).1.Nodup ∧ (s.cut rollover now).1.Pairwise fun a b =>
      ∀ ta tb, s.heap a = some ta → s.heap b = some tb → ta.next ≤ tb.next := by
  have hsorted := h.sorted
  rw [← s.cut_append rollover now] at hsorted
  have hfront := (OrdSet.sorted_append.mp hsorted).1
  exact ⟨OrdSet.sorted_nodup s.less_order hfront, hfront.imp fun hab ta tb hta htb => next_le_of_less hab hta htb⟩

/-- **What `listExpiredCb` does.** On a set that is not empty, past the first hour of the epoch: it emits all timers
if the clock has gone back by more than an hour, and otherwise those with `m_next ≤ now`; each once, in the order of
their due times. Afterwards the recurring ones among them are due a period from `now`, the others have no callback and
are not in the set, every other timer is as it was, and `m_previousTime` is `now`. -/
theorem listExpiredCb_exact (s : TimerManager β) (h : Inv s) (hne : s.timers ≠ []) (hprev : 3600000 ≤ s.previousTime)
    (now : UInt64) (addr : ℕ) :
    ∃ ids : List ℕ,
      (s.listExpiredCb now addr).1 = .cbs (ids.map fun id => (id, s.armed id)) ∧
      (s.RolledBack now → ∀ id, id ∈ ids ↔ id ∈ s.timers) ∧
      (¬s.RolledBack now → ∀ id, id ∈ ids ↔ id ∈ s.timers ∧ ∃ t, s.heap id = some t ∧ t.next ≤ now) ∧
      ids.Nodup ∧
      ids.Pairwise (fun a b => ∀ ta tb, s.heap a = some ta → s.heap b = some tb → ta.next ≤ tb.next) ∧
      Expires s now ids (s.listExpiredCb now addr).2 := by
  obtain ⟨hcbs, hexp⟩ := expires_cut h (s.cut_append (s.detectClockRollover now).1 now) now
  obtain ⟨hnodup, horder⟩ := cut_pairwise h (s.detectClockRollover now).1 now
  have hroll := detectClockRollover_iff hprev now
  rw [listExpiredCb_eq h hne]
  refine ⟨(s.cut (s.detectClockRollover now).1 now).1, ?_, ?_, ?_, hnodup, horder, hexp⟩
  · exact congrArg Ret.cbs hcbs
  · intro hback id
    rw [mem_cut h, hroll.mpr hback]
    simp
  · intro hback id
    rw [mem_cut h, dueBy_iff, hroll]
    simp [hback]

/-- a recurring timer at the instant it is due -/
theorem listExpiredCb_exact_one :
    let s := ((new 3600000 : TimerManager Unit).addTimer 100 () true 3600000 7).2
    ∃ ids, (s.listExpiredCb 3600100 5).1 = .cbs (ids.map fun id => (id, s.armed id)) ∧
      (s.listExpiredCb 3600100 5).1 = .cbs [(0, some ())] ∧ Expires s 3600100 ids (s.listExpiredCb 3600100 5).2 := by
  intro s
  have hinv : Inv s := (addTimer_spec (inv_new 3600000) 100 () true 3600000 nofun).1
  obtain ⟨ids, hcbs, -, -, -, -, hexp⟩ := listExpiredCb_exact s hinv (by decide) (by decide) 3600100 5
  exact ⟨ids, hcbs, by decide, hexp⟩

/-! ## One-shot timers -/

/-- the call gives timer `id` a new due time -/
def Op.moves (id : ℕ) : Op β → Bool
  | .refresh j _ | .reset j _ _ _ => decide (j = id)
  | _ => false

/-- timer `id` fires once, at `next` -/
def OneShot (s : TimerManager β) (id : ℕ) (next : UInt64) : Prop :=
  ∃ t, s.heap id = some t ∧ t.recurring = false ∧ t.next = next

section
variable {s : TimerManager β} {id : ℕ} {next : UInt64}

theorem OneShot.frame {s' : TimerManager β} (h : OneShot s id next) (hheap : s'.heap id = s.heap id) :
    OneShot s' id next := by
  obtain ⟨t, ht, hrest⟩ := h
  exact ⟨t, hheap.trans ht, hrest⟩

/-- an emitted one-shot timer loses its callback alone -/
theorem OneShot.fired {s' : TimerManager β} (h : OneShot s id next) {now : UInt64} {ids : List ℕ}
    (hheap : s'.heap id = if id ∈ ids then (s.heap id).map (TimerManager.fired now) else s.heap id) :
    OneShot s' id next := by
  obtain ⟨t, ht, hrec, hnext⟩ := h
  rw [ht] at hheap
  split_ifs at hheap with hid
  · refine ⟨{ t with cb := none }, ?_, hrec, hnext⟩
    rw [hheap, Option.map_some, TimerManager.fired, if_neg (by simp [hrec])]
  · exact ⟨t, hheap, hrec, hnext⟩

theorem addTimer_heap (s : TimerManager β) (ms : UInt64) (cb : β) (recurring : Bool) (now : UInt64) (addr : ℕ) :
    (s.addTimer ms cb recurring now addr).2.heap =
      Function.update s.heap s.created
        (some { recurring := recurring, ms := ms, next := now + ms, cb := some cb, addr := addr }) := by
  obtain ⟨b, hb⟩ := addTimerLocked_eq
    { s.store s.created { recurring := recurring, ms := ms, next := now + ms, cb := some cb, addr := addr } with
      created := s.created + 1 } s.created
  rw [addTimer, hb]
  rfl

/-- **What a call does to a one-shot timer**: it keeps its due time unless the call moves it. -/
theorem call_oneShot (h : Inv s) (h1 : OneShot s id next) (o : Op β) (ho : o.moves id = false) :
    OneShot (s.call o).2 id next := by
  obtain ⟨t, ht, hrec, hnext⟩ := h1
  have hsame : OneShot s id next := ⟨t, ht, hrec, hnext⟩
  cases o with
  | addTimer ms cb recurring now addr =>
    have hne : id ≠ s.created := by
      rintro rfl
      rw [(Inv.fresh h).1] at ht
      cases ht
    apply hsame.frame
    rw [call, addTimer_heap, Function.update_of_ne hne]
  | cancel j =>
    cases hj : s.heap j with
    | none =>
      rw [call, cancel_none (by rw [armed, hj]; rfl)]
      exact hsame
    | some u =>
      by_cases hcb : u.cb.isSome = true
      · rw [call, cancel_eq h hj hcb]
        by_cases hid : id = j
        · subst hid
          obtain rfl : t = u := Option.some.inj (ht.symm.trans hj)
          exact ⟨_, store_heap_self _ _ _, hrec, hnext⟩
        · exact hsame.frame (store_heap_ne _ _ hid)
      · rw [call, cancel_none (by rw [armed_of_heap hj]; simpa using hcb)]
        exact hsame
  | refresh j now =>
    have hid : id ≠ j := fun e => by simp [Op.moves, e] at ho
    rcases refresh_cases h j now with ⟨-, he⟩ | ⟨u, -, -, he⟩
    · rw [call, he]
      exact hsame
    · rw [call, he]
      exact hsame.frame (store_heap_ne _ _ hid)
  | reset j ms from_now now =>
    have hid : id ≠ j := fun e => by simp [Op.moves, e] at ho
    rcases reset_cases h j ms from_now now with ⟨u, -, -, he⟩ | ⟨-, he⟩ | ⟨u, v, -, -, -, he⟩
    · rw [call, he]
      exact hsame
    · rw [call, he]
      exact hsame
    · obtain ⟨b, hb⟩ := addTimerLocked_eq ((s.erase j).store j v) j
      rw [call, he, hb]
      exact hsame.frame (store_heap_ne _ _ hid)
  | listExpiredCb now addr =>
    rcases s.listExpiredCb_cases now addr with he | he | ⟨a, b, hab, he⟩
    · rw [call, he]
      exact hsame
    · rw [call, he]
      exact hsame
    · have hnd := (InvOut.split h hab).out_nodup
      rw [call, he]
      exact hsame.fired ((expireLoop_heap now a { s with previousTime := now, timers := b } hnd).2 id)
  | getNextTimer now =>
    apply hsame.frame
    dsimp only [call, getNextTimer]
    split
    · rfl
    · split
      · rfl
      · rfl

theorem history_oneShot (h : Inv s) (h1 : OneShot s id next) {ops : List (Op β)} (hok : Admissible s ops)
    (ho : ∀ o ∈ ops, o.moves id = false) : Inv (history s ops).2 ∧ OneShot (history s ops).2 id next := by
  induction ops generalizing s with
  | nil => exact ⟨h, h1⟩
  | cons o ops ih =>
    apply ih (call_refines h hok.1).1 (call_oneShot h h1 o (ho o List.mem_cons_self)) hok.2
    intro o' ho'
    exact ho o' (List.mem_cons_of_mem _ ho')

/-- without a rollover nothing is emitted before it is due -/
theorem due_of_emitted (h : Inv s) {now : UInt64} {addr : ℕ} (hroll : (s.detectClockRollover now).1 = false)
    {cbs : List (ℕ × Option β)} (hcbs : (s.listExpiredCb now addr).1 = .cbs cbs) (hid : id ∈ cbs.map Prod.fst) :
    ∃ t, s.heap id = some t ∧ t.next ≤ now := by
  by_cases hne : s.timers = []
  · rw [listExpiredCb, if_pos hne] at hcbs
    injection hcbs with hcbs
    simp [← hcbs] at hid
  · obtain ⟨hemit, -⟩ := expires_cut h (s.cut_append (s.detectClockRollover now).1 now) now
    rw [listExpiredCb_eq h hne] at hcbs
    injection hcbs with hcbs
    rw [← hcbs, hemit, List.map_map] at hid
    obtain ⟨j, hj, rfl⟩ := List.mem_map.mp hid
    obtain ⟨-, hor⟩ := (mem_cut h _ now j).mp hj
    rcases hor with hback | hdue
    · rw [hroll] at hback
      cases hback
    · exact dueBy_iff.mp hdue

end

end Sylar.TimerManager
