/-
The class invariant of `TimerManager`.

Two facts have to hold together: `m_timers` is strictly increasing under the due times the timers hold now, and a
timer is in the set exactly when its callback is non-empty. `refresh`, `reset` and `listExpiredCb` take timers out,
change them and put them back, so the invariant is stated for a state in which the timers `out` are in hand
(`InvOut`): they have a callback but are not in the set. The operations are then four moves:
- `InvOut.take`, `InvOut.split`: move timers from the set into `out`;
- `InvOut.put`: change a timer in hand and insert it;
- `InvOut.drop`: empty the callback of a timer in hand.

Every operation keeps the invariant, and its result and what it changes are given by its `_spec` lemma.
-/
import Mathlib.Tactic
import Sylar.Core.OrdSet
import Sylar.Core.Run
import Sylar.Timer.Model

namespace Sylar.TimerManager

open Sylar.Core

variable {β : Type}

/-! ## The comparator -/

theorem comparator_irrefl (a : Option (Timer β)) : Timer.comparator a a = false := by
  cases a with
  | none => rfl
  | some t => simp [Timer.comparator]

theorem comparator_some (a b : Timer β) : Timer.comparator (some a) (some b) = true ↔
    a.next < b.next ∨ a.next = b.next ∧ a.addr < b.addr := by
  simp only [Timer.comparator, gt_iff_lt, UInt64.lt_iff_toNat_lt, ← UInt64.toNat_inj]
  split_ifs with h1 h2
  · simp [h1]
  · simp only [false_iff]; omega
  · simp only [decide_eq_true_eq]; omega

theorem comparator_trans (a b c : Option (Timer β)) (hab : Timer.comparator a b = true)
    (hbc : Timer.comparator b c = true) : Timer.comparator a c = true := by
  match a, b, c with
  | none, _, some _ => rfl
  | some _, none, _ => cases hab
  | _, some _, none => cases hbc
  | none, none, none => cases hab
  | some a, some b, some c =>
    rw [comparator_some] at hab hbc ⊢
    simp only [UInt64.lt_iff_toNat_lt, ← UInt64.toNat_inj] at hab hbc ⊢
    omega

theorem less_order (s : TimerManager β) : OrdSet.StrictOrder s.less :=
  ⟨fun _ => comparator_irrefl _, fun _ _ _ => comparator_trans _ _ _⟩

/-- timers at different addresses can be told apart -/
theorem less_total {s : TimerManager β} {a b : ℕ} {ta tb : Timer β} (ha : s.heap a = some ta) (hb : s.heap b = some tb)
    (h : ta.addr ≠ tb.addr) : s.less a b = true ∨ s.less b a = true := by
  simp only [less, ha, hb, comparator_some, UInt64.lt_iff_toNat_lt, ← UInt64.toNat_inj]
  omega

/-! ## Stores -/

@[simp] theorem store_timers (s : TimerManager β) (id : ℕ) (t : Timer β) : (s.store id t).timers = s.timers := rfl
@[simp] theorem store_created (s : TimerManager β) (id : ℕ) (t : Timer β) : (s.store id t).created = s.created := rfl
@[simp] theorem store_heap_self (s : TimerManager β) (id : ℕ) (t : Timer β) : (s.store id t).heap id = some t := by
  simp [store]
@[simp] theorem insert_heap (s : TimerManager β) (id : ℕ) : (s.insert id).heap = s.heap := rfl
@[simp] theorem insert_created (s : TimerManager β) (id : ℕ) : (s.insert id).created = s.created := rfl
@[simp] theorem erase_heap (s : TimerManager β) (id : ℕ) : (s.erase id).heap = s.heap := rfl
@[simp] theorem erase_created (s : TimerManager β) (id : ℕ) : (s.erase id).created = s.created := rfl

theorem store_heap_ne (s : TimerManager β) {id j : ℕ} (t : Timer β) (h : j ≠ id) :
    (s.store id t).heap j = s.heap j := by
  simp [store, Function.update_of_ne h]

/-- a store that keeps the key of the timer keeps the order -/
theorem less_store_of_key {s : TimerManager β} {id : ℕ} {t t' : Timer β} (ht : s.heap id = some t)
    (hnext : t'.next = t.next) (haddr : t'.addr = t.addr) : (s.store id t').less = s.less := by
  have hl : ∀ x, Timer.comparator (some t') x = Timer.comparator (some t) x := by
    intro x; cases x <;> simp [Timer.comparator, hnext, haddr]
  have hr : ∀ x, Timer.comparator x (some t') = Timer.comparator x (some t) := by
    intro x; cases x <;> simp [Timer.comparator, hnext, haddr]
  funext a b
  simp only [less]
  by_cases ha : a = id <;> by_cases hb : b = id
  · simp [ha, hb, ht, comparator_irrefl]
  · rw [ha, store_heap_self, store_heap_ne s t' hb, ht, hl]
  · rw [hb, store_heap_self, store_heap_ne s t' ha, ht, hr]
  · rw [store_heap_ne s t' ha, store_heap_ne s t' hb]

/-- a store to a timer outside the set keeps the set sorted -/
theorem sorted_store {s : TimerManager β} {id : ℕ} (t : Timer β) (hid : id ∉ s.timers)
    (h : OrdSet.Sorted s.less s.timers) : OrdSet.Sorted (s.store id t).less s.timers := by
  refine List.Pairwise.imp_of_mem ?_ h
  intro a b ha hb hab
  have ha' : a ≠ id := fun e => hid (e ▸ ha)
  have hb' : b ≠ id := fun e => hid (e ▸ hb)
  simpa [less, store_heap_ne s t ha', store_heap_ne s t hb'] using hab

/-! ## The invariant -/

/-- the callback of a timer; `none` for a handle that was never given out -/
def armed (s : TimerManager β) (id : ℕ) : Option β := (s.heap id).bind Timer.cb

/-- the invariant while the timers `out` are in hand -/
structure InvOut (s : TimerManager β) (out : List ℕ) : Prop where
  sorted : OrdSet.Sorted s.less s.timers
  /-- a timer has a callback iff it is in the set or in hand -/
  mem_iff : ∀ id, (id ∈ s.timers ∨ id ∈ out) ↔ (s.armed id).isSome
  out_nodup : out.Nodup
  out_disjoint : ∀ id ∈ out, id ∉ s.timers
  addr_inj : ∀ a b ta tb, (a ∈ s.timers ∨ a ∈ out) → (b ∈ s.timers ∨ b ∈ out) → s.heap a = some ta → s.heap b = some tb →
    ta.addr = tb.addr → a = b
  created : ∀ id, (s.heap id).isSome ↔ id < s.created

/-- the class invariant: no timer is in hand -/
def Inv (s : TimerManager β) : Prop := InvOut s []

theorem armed_isSome {s : TimerManager β} {id : ℕ} :
    (s.armed id).isSome ↔ ∃ t c, s.heap id = some t ∧ t.cb = some c := by
  unfold armed
  cases s.heap id with
  | none => simp
  | some t => cases hc : t.cb <;> simp [hc]

theorem armed_of_heap {s : TimerManager β} {id : ℕ} {t : Timer β} (h : s.heap id = some t) : s.armed id = t.cb := by
  rw [armed, h]; rfl

theorem armed_store_self (s : TimerManager β) (id : ℕ) (t : Timer β) : (s.store id t).armed id = t.cb :=
  armed_of_heap (store_heap_self s id t)

theorem armed_store_ne (s : TimerManager β) {id j : ℕ} (t : Timer β) (h : j ≠ id) :
    (s.store id t).armed j = s.armed j := by
  rw [armed, armed, store_heap_ne s t h]

theorem inv_new (now : UInt64) : Inv (new now : TimerManager β) :=
  ⟨List.Pairwise.nil, fun id => by simp [new, armed], List.nodup_nil, fun _ h => absurd h (by simp),
    fun a _ _ _ ha => absurd ha (by simp [new]), fun id => by simp [new]⟩

namespace InvOut

variable {s : TimerManager β} {out : List ℕ} {id : ℕ}

theorem nodup (h : InvOut s out) : s.timers.Nodup := OrdSet.sorted_nodup s.less_order h.sorted

/-- the object of a timer in the set or in hand -/
theorem object (h : InvOut s out) (hid : id ∈ s.timers ∨ id ∈ out) : ∃ t c, s.heap id = some t ∧ t.cb = some c :=
  armed_isSome.1 ((h.mem_iff id).1 hid)

/-- a member of the set is found by the comparator search -/
theorem found (h : InvOut s out) (hid : id ∈ s.timers) : s.found id = true := by
  rw [TimerManager.found, OrdSet.find_mem s.less_order h.sorted hid]; rfl

theorem mem_erase (h : InvOut s out) (hid : id ∈ s.timers) (j : ℕ) : j ∈ (s.erase id).timers ↔ j ≠ id ∧ j ∈ s.timers :=
  OrdSet.mem_eraseAt s.less_order h.sorted hid j

/-- erase a member of the set and keep it in hand -/
theorem take (h : InvOut s out) (hid : id ∈ s.timers) : InvOut (s.erase id) (id :: out) := by
  have hmem : ∀ j, (j ∈ (s.erase id).timers ∨ j ∈ id :: out) ↔ (j ∈ s.timers ∨ j ∈ out) := by
    intro j
    rw [h.mem_erase hid, List.mem_cons]
    by_cases hj : j = id
    · simp [hj, hid]
    · simp [hj]
  have hout : id ∉ out := fun hi => h.out_disjoint id hi hid
  refine ⟨OrdSet.sorted_eraseAt h.sorted, fun j => (hmem j).trans (h.mem_iff j), List.nodup_cons.2 ⟨hout, h.out_nodup⟩,
    ?_, fun a b ta tb ha hb => h.addr_inj a b ta tb ((hmem a).1 ha) ((hmem b).1 hb), h.created⟩
  intro j hj
  rw [h.mem_erase hid]
  rcases List.mem_cons.1 hj with rfl | hj
  · exact fun hc => hc.1 rfl
  · exact fun hc => h.out_disjoint j hj hc.2

/-- cut the set and keep the front part in hand -/
theorem split {a b : List ℕ} (h : Inv s) (hab : a ++ b = s.timers) : InvOut { s with timers := b } a := by
  have hnd : (a ++ b).Nodup := hab ▸ InvOut.nodup h
  have hmem : ∀ j, (j ∈ b ∨ j ∈ a) ↔ j ∈ s.timers := by
    intro j
    rw [← hab, List.mem_append, or_comm]
  have hsorted : OrdSet.Sorted s.less (a ++ b) := hab ▸ h.sorted
  refine ⟨(OrdSet.sorted_append.1 hsorted).2.1, fun j => (hmem j).trans ?_, (List.nodup_append.1 hnd).1, ?_,
    fun x y tx ty hx hy => h.addr_inj x y tx ty (Or.inl ((hmem x).1 hx)) (Or.inl ((hmem y).1 hy)), h.created⟩
  · have hj : j ∈ s.timers ∨ j ∈ [] ↔ (s.armed j).isSome := h.mem_iff j
    rwa [List.mem_nil_iff, or_false] at hj
  · exact fun j hja hjb => (List.nodup_append.1 hnd).2.2 j hja j hjb rfl

/-- change a timer in hand, keeping its address -/
theorem change {t u : Timer β} (h : InvOut s (id :: out)) (ht : s.heap id = some t) (haddr : u.addr = t.addr)
    (hcb : u.cb.isSome) : InvOut (s.store id u) (id :: out) := by
  have hid : id ∉ s.timers := h.out_disjoint id List.mem_cons_self
  have hobj : ∀ j tj, (s.store id u).heap j = some tj → ∃ tj', s.heap j = some tj' ∧ tj'.addr = tj.addr := by
    intro j tj hj
    by_cases hji : j = id
    · rw [hji, store_heap_self, Option.some.injEq] at hj
      exact ⟨t, hji ▸ ht, by rw [← hj, haddr]⟩
    · rw [store_heap_ne s u hji] at hj
      exact ⟨tj, hj, rfl⟩
  refine ⟨sorted_store u hid h.sorted, fun j => ?_, h.out_nodup, h.out_disjoint, ?_, fun j => ?_⟩
  · rw [store_timers, h.mem_iff j]
    by_cases hji : j = id
    · subst hji
      exact iff_of_true ((h.mem_iff j).1 (Or.inr List.mem_cons_self)) (by rw [armed_store_self]; exact hcb)
    · rw [armed_store_ne s u hji]
  · intro a b ta tb ha hb hta htb hab
    obtain ⟨ta', hta', ea⟩ := hobj a ta hta
    obtain ⟨tb', htb', eb⟩ := hobj b tb htb
    exact h.addr_inj a b ta' tb' ha hb hta' htb' (by rw [ea, eb, hab])
  · rw [store_created, ← h.created j]
    by_cases hji : j = id
    · simp [hji, ht]
    · rw [store_heap_ne s u hji]

/-- no timer of the set has the address of one in hand -/
theorem comparable (h : InvOut s (id :: out)) : OrdSet.Comparable s.less id s.timers := by
  intro j hj hne
  obtain ⟨t, -, ht, -⟩ := h.object (Or.inr List.mem_cons_self)
  obtain ⟨tj, -, htj, -⟩ := h.object (Or.inl hj)
  exact less_total htj ht fun e => hne (h.addr_inj j id tj t (Or.inl hj) (Or.inr List.mem_cons_self) htj ht e)

theorem mem_insert (h : InvOut s (id :: out)) (j : ℕ) : j ∈ (s.insert id).timers ↔ j = id ∨ j ∈ s.timers :=
  (OrdSet.insert_spec s.less_order h.sorted h.comparable).1 j

/-- insert a timer in hand -/
theorem insert (h : InvOut s (id :: out)) : InvOut (s.insert id) out := by
  have hmem : ∀ j, (j ∈ (s.insert id).timers ∨ j ∈ out) ↔ (j ∈ s.timers ∨ j ∈ id :: out) := by
    intro j
    rw [h.mem_insert, List.mem_cons]
    exact ⟨fun hj => by rcases hj with (hj | hj) | hj <;> simp [hj],
      fun hj => by rcases hj with hj | hj | hj <;> simp [hj]⟩
  refine ⟨(OrdSet.insert_spec s.less_order h.sorted h.comparable).2, fun j => (hmem j).trans (h.mem_iff j),
    (List.nodup_cons.1 h.out_nodup).2, ?_, fun a b ta tb ha hb => h.addr_inj a b ta tb ((hmem a).1 ha) ((hmem b).1 hb),
    h.created⟩
  intro j hj hjt
  rcases (h.mem_insert j).1 hjt with e | e
  · exact (List.nodup_cons.1 h.out_nodup).1 (e ▸ hj)
  · exact h.out_disjoint j (List.mem_cons_of_mem _ hj) e

/-- change a timer in hand and insert it -/
theorem put {t u : Timer β} (h : InvOut s (id :: out)) (ht : s.heap id = some t) (haddr : u.addr = t.addr)
    (hcb : u.cb.isSome) : InvOut ((s.store id u).insert id) out := (h.change ht haddr hcb).insert

/-- a timer in hand whose callback is emptied is let go -/
theorem drop {t u : Timer β} (h : InvOut s (id :: out)) (ht : s.heap id = some t) (hcb : u.cb = none) :
    InvOut (s.store id u) out := by
  have hid : id ∉ s.timers := h.out_disjoint id List.mem_cons_self
  have hout := List.nodup_cons.1 h.out_nodup
  have hne : ∀ j, (j ∈ s.timers ∨ j ∈ out) → j ≠ id := by
    rintro j (hj | hj) rfl
    · exact hid hj
    · exact hout.1 hj
  have hsub : ∀ j, (j ∈ s.timers ∨ j ∈ out) → (j ∈ s.timers ∨ j ∈ id :: out) :=
    fun j hj => hj.imp_right (List.mem_cons_of_mem _)
  refine ⟨sorted_store u hid h.sorted, fun j => ?_, hout.2, fun j hj => h.out_disjoint j (List.mem_cons_of_mem _ hj),
    ?_, fun j => ?_⟩
  · by_cases hji : j = id
    · subst hji
      rw [armed_store_self, hcb]
      exact ⟨fun hj => absurd rfl (hne j hj), fun hj => by cases hj⟩
    · rw [armed_store_ne s u hji, ← h.mem_iff j, store_timers, List.mem_cons]
      simp [hji]
  · intro a b ta tb ha hb hta htb hab
    rw [store_heap_ne s u (hne a ha)] at hta
    rw [store_heap_ne s u (hne b hb)] at htb
    exact h.addr_inj a b ta tb (hsub a ha) (hsub b hb) hta htb hab
  · rw [store_created, ← h.created j]
    by_cases hji : j = id
    · simp [hji, ht]
    · rw [store_heap_ne s u hji]

theorem tickled (h : InvOut s out) (b : Bool) : InvOut { s with tickled := b } out :=
  ⟨h.sorted, h.mem_iff, h.out_nodup, h.out_disjoint, h.addr_inj, h.created⟩

theorem previousTime (h : InvOut s out) (now : UInt64) : InvOut { s with previousTime := now } out :=
  ⟨h.sorted, h.mem_iff, h.out_nodup, h.out_disjoint, h.addr_inj, h.created⟩

end InvOut

/-! ## Operations

What a caller sees of a state is which timers have a callback (`armed`) and which recur (`kind`). Each operation is
specified by its result and by these two. -/

/-- the recurring flag of a timer; `none` for a handle that was never given out -/
def kind (s : TimerManager β) (id : ℕ) : Option Bool := (s.heap id).map Timer.recurring

/-- a store that changes neither the callback nor the recurring flag is not seen -/
theorem view_store {s : TimerManager β} {id : ℕ} {t u : Timer β} (ht : s.heap id = some t) (hcb : u.cb = t.cb)
    (hr : u.recurring = t.recurring) : (s.store id u).armed = s.armed ∧ (s.store id u).kind = s.kind := by
  constructor
  · funext j
    by_cases hj : j = id
    · rw [hj, armed_store_self, hcb, armed_of_heap ht]
    · exact armed_store_ne s u hj
  · funext j
    by_cases hj : j = id
    · simp [hj, kind, ht, hr]
    · rw [kind, kind, store_heap_ne s u hj]

/-- emptying the callback -/
theorem view_disarm {s : TimerManager β} {id : ℕ} {t : Timer β} (ht : s.heap id = some t) :
    (s.store id { t with cb := none }).armed = Function.update s.armed id none ∧
      (s.store id { t with cb := none }).kind = s.kind := by
  constructor
  · funext j
    by_cases hj : j = id
    · rw [hj, armed_store_self, Function.update_self]
    · rw [armed_store_ne s _ hj, Function.update_of_ne hj]
  · funext j
    by_cases hj : j = id
    · simp [hj, kind, ht]
    · rw [kind, kind, store_heap_ne s _ hj]

theorem addTimerLocked_eq (s : TimerManager β) (id : ℕ) :
    ∃ b, (s.addTimerLocked id).2 = { s.insert id with tickled := b } := by
  dsimp only [addTimerLocked]
  split_ifs with h
  · exact ⟨true, rfl⟩
  · exact ⟨(s.insert id).tickled, rfl⟩

/-- a timer with a callback is in the set -/
theorem Inv.mem_timers {s : TimerManager β} (h : Inv s) {id : ℕ} : id ∈ s.timers ↔ (s.armed id).isSome := by
  have := h.mem_iff id
  rwa [List.mem_nil_iff, or_false] at this

/-- the test on `m_cb` tells whether a timer is in the set -/
theorem Inv.mem_iff_cb {s : TimerManager β} (h : Inv s) {id : ℕ} {t : Timer β} (ht : s.heap id = some t) :
    id ∈ s.timers ↔ t.cb.isSome := by
  rw [Inv.mem_timers h, armed_of_heap ht]

theorem Inv.isNone_iff {s : TimerManager β} (h : Inv s) {id : ℕ} {t : Timer β} (ht : s.heap id = some t) :
    t.cb.isNone = true ↔ id ∉ s.timers := by
  rw [Inv.mem_iff_cb h ht, Option.isNone_iff_eq_none, Option.not_isSome_iff_eq_none]

/-- neither test behind the lock turns a pending timer away -/
theorem Inv.tests_pass {s : TimerManager β} (h : Inv s) {id : ℕ} {t : Timer β} (ht : s.heap id = some t)
    (hid : id ∈ s.timers) : ¬t.cb.isNone = true ∧ ¬(!s.found id) = true := by
  refine ⟨fun hnone => (Inv.isNone_iff h ht).1 hnone hid, ?_⟩
  rw [InvOut.found h hid]
  exact Bool.false_ne_true

theorem Inv.not_mem_of_none {s : TimerManager β} (h : Inv s) {id : ℕ} (ht : s.heap id = none) : id ∉ s.timers := by
  rw [Inv.mem_timers h, armed, ht]
  simp

/-- a handle not given out yet is free -/
theorem Inv.fresh {s : TimerManager β} (h : Inv s) : s.heap s.created = none ∧ s.created ∉ s.timers := by
  have hnone : s.heap s.created = none := by
    have := (h.created s.created).not
    simpa using this
  exact ⟨hnone, Inv.not_mem_of_none h hnone⟩

/-- `new Timer(...)`: the timer has a callback and is not in the set yet -/
theorem Inv.create {s : TimerManager β} (h : Inv s) {t : Timer β} (hcb : t.cb.isSome)
    (hok : ∀ id ∈ s.timers, (s.heap id).map Timer.addr ≠ some t.addr) :
    InvOut { s.store s.created t with created := s.created + 1 } [s.created] := by
  obtain ⟨-, hnew⟩ := Inv.fresh h
  set s1 : TimerManager β := { s.store s.created t with created := s.created + 1 } with hs1
  have h1 : s1.heap s.created = some t := store_heap_self s s.created t
  have hne : ∀ j, j ≠ s.created → s1.heap j = s.heap j := fun j hj => store_heap_ne s t hj
  refine ⟨sorted_store t hnew h.sorted, fun j => ?_, List.nodup_singleton _, ?_, ?_, fun j => ?_⟩
  · by_cases hj : j = s.created
    · rw [hj, armed_of_heap h1]
      exact iff_of_true (Or.inr List.mem_cons_self) hcb
    · have : j ∈ s1.timers ∨ j ∈ [s.created] ↔ j ∈ s.timers := by
        rw [List.mem_singleton]
        exact ⟨fun hh => hh.resolve_right hj, Or.inl⟩
      rw [this, Inv.mem_timers h, armed, armed, hne j hj]
  · intro j hj
    rw [List.mem_singleton.1 hj]
    exact hnew
  · have hdiff : ∀ j tj, j ∈ s1.timers → s1.heap j = some tj → tj.addr ≠ t.addr := by
      intro j tj hj htj e
      have hj' : j ≠ s.created := fun e => hnew (e ▸ hj)
      rw [hne j hj'] at htj
      exact hok j hj (by rw [htj, Option.map_some, e])
    have haddr : ∀ tj, s1.heap s.created = some tj → tj.addr = t.addr := by
      intro tj htj
      rw [h1, Option.some.injEq] at htj
      rw [← htj]
    intro a b ta tb ha hb hta htb hab
    rw [List.mem_singleton] at ha hb
    rcases ha with ha | rfl <;> rcases hb with hb | rfl
    · rw [hne a fun e => hnew (e ▸ ha)] at hta
      rw [hne b fun e => hnew (e ▸ hb)] at htb
      exact h.addr_inj a b ta tb (Or.inl ha) (Or.inl hb) hta htb hab
    · exact absurd (hab.trans (haddr tb htb)) (hdiff a ta ha hta)
    · exact absurd (hab.symm.trans (haddr ta hta)) (hdiff b tb hb htb)
    · rfl
  · show (s1.heap j).isSome ↔ j < s.created + 1
    by_cases hj : j = s.created
    · simp [hj, h1]
    · rw [hne j hj, h.created j]
      omega

theorem addTimer_spec {s : TimerManager β} (h : Inv s) (ms : UInt64) (cb : β) (recurring : Bool) (now : UInt64)
    {addr : ℕ} (hok : ∀ id ∈ s.timers, (s.heap id).map Timer.addr ≠ some addr) :
    Inv (s.addTimer ms cb recurring now addr).2 ∧ s.kind s.created = none ∧
      (s.addTimer ms cb recurring now addr).2.armed = Function.update s.armed s.created (some cb) ∧
      (s.addTimer ms cb recurring now addr).2.kind = Function.update s.kind s.created (some recurring) ∧
      ∃ front, (s.addTimer ms cb recurring now addr).1 = .added s.created front := by
  set t : Timer β := { recurring := recurring, ms := ms, next := now + ms, cb := some cb, addr := addr } with ht
  have hkind : s.kind s.created = none := by rw [kind, (Inv.fresh h).1]; rfl
  set s1 : TimerManager β := { s.store s.created t with created := s.created + 1 } with hs1
  have h1 : s1.heap s.created = some t := store_heap_self s s.created t
  have hput : InvOut (s1.insert s.created) [] := (Inv.create h rfl hok).insert
  obtain ⟨b, hb⟩ := addTimerLocked_eq s1 s.created
  have hres : (s.addTimer ms cb recurring now addr).2 = { s1.insert s.created with tickled := b } := hb
  refine ⟨hres ▸ hput.tickled b, hkind, ?_, ?_, _, rfl⟩
  · rw [hres]
    funext j
    by_cases hj : j = s.created
    · rw [hj, Function.update_self]
      exact armed_of_heap h1
    · rw [Function.update_of_ne hj]
      exact armed_store_ne s t hj
  · rw [hres]
    funext j
    by_cases hj : j = s.created
    · rw [hj, Function.update_self]
      simp [kind, h1, ht]
    · rw [Function.update_of_ne hj]
      show (s1.heap j).map Timer.recurring = s.kind j
      rw [show s1.heap j = s.heap j from store_heap_ne s t hj, kind]

theorem cancel_none {s : TimerManager β} {id : ℕ} (hid : s.armed id = none) : s.cancel id = (.bool false false, s) := by
  unfold cancel
  cases ht : s.heap id with
  | none => rfl
  | some t =>
    rw [armed_of_heap ht] at hid
    simp [hid]

/-- the due time is untouched, so the search and the erase of `cancel` go as if the callback were still there -/
theorem cancel_eq {s : TimerManager β} (h : Inv s) {id : ℕ} {t : Timer β} (ht : s.heap id = some t)
    (hcb : t.cb.isSome) : s.cancel id = (.bool true false, (s.erase id).store id { t with cb := none }) := by
  have hmem : id ∈ s.timers := (Inv.mem_iff_cb h ht).2 hcb
  have hless : (s.store id { t with cb := none }).less = s.less := less_store_of_key ht rfl rfl
  have hfound : (s.store id { t with cb := none }).found id = true := by
    rw [found, hless]
    exact InvOut.found h hmem
  have herase : (s.store id { t with cb := none }).erase id = (s.erase id).store id { t with cb := none } := by
    simp only [erase, hless, store_timers]
    rfl
  simp only [cancel, ht, hcb, if_true, hfound, herase]

theorem cancel_some {s : TimerManager β} (h : Inv s) {id : ℕ} (hid : (s.armed id).isSome) :
    Inv (s.cancel id).2 ∧ (s.cancel id).1 = .bool true false ∧
      (s.cancel id).2.armed = Function.update s.armed id none ∧ (s.cancel id).2.kind = s.kind := by
  have hmem : id ∈ s.timers := (Inv.mem_timers h).2 hid
  obtain ⟨t, c, ht, hc⟩ := h.object (Or.inl hmem)
  obtain ⟨hv1, hv2⟩ := @view_disarm _ (s.erase id) id t ht
  rw [cancel_eq h ht (by rw [hc]; rfl)]
  exact ⟨(h.take hmem).drop ht rfl, rfl, hv1, hv2⟩

/-- erase, change the due time or the period, insert again -/
theorem reinsert_spec {s : TimerManager β} (h : Inv s) {id : ℕ} (hid : id ∈ s.timers) {t u : Timer β}
    (ht : s.heap id = some t) (hcb : u.cb = t.cb) (hr : u.recurring = t.recurring) (haddr : u.addr = t.addr) :
    Inv (((s.erase id).store id u).insert id) ∧ (((s.erase id).store id u).insert id).armed = s.armed ∧
      (((s.erase id).store id u).insert id).kind = s.kind := by
  have hsome : u.cb.isSome := by
    rw [hcb, ← armed_of_heap ht]
    exact (Inv.mem_timers h).1 hid
  exact ⟨(h.take hid).put ht haddr hsome, view_store (s := s.erase id) ht hcb hr⟩

/-- what a call of `refresh` can do -/
theorem refresh_cases {s : TimerManager β} (h : Inv s) (id : ℕ) (now : UInt64) :
    (id ∉ s.timers ∧ s.refresh id now = (.bool false false, s)) ∨
      ∃ t, s.heap id = some t ∧ id ∈ s.timers ∧
        s.refresh id now = (.bool true false, ((s.erase id).store id { t with next := now + t.ms }).insert id) := by
  unfold refresh
  cases ht : s.heap id with
  | none => exact Or.inl ⟨Inv.not_mem_of_none h ht, rfl⟩
  | some t =>
    dsimp only
    by_cases hid : id ∈ s.timers
    · obtain ⟨hcb, hfound⟩ := Inv.tests_pass h ht hid
      rw [if_neg hcb, if_neg hfound]
      exact Or.inr ⟨t, rfl, hid, rfl⟩
    · rw [if_pos ((Inv.isNone_iff h ht).2 hid)]
      exact Or.inl ⟨hid, rfl⟩

theorem refresh_spec {s : TimerManager β} (h : Inv s) (id : ℕ) (now : UInt64) :
    Inv (s.refresh id now).2 ∧ (s.refresh id now).2.armed = s.armed ∧ (s.refresh id now).2.kind = s.kind ∧
      ∃ b, (s.refresh id now).1 = .bool b false := by
  rcases refresh_cases h id now with ⟨-, he⟩ | ⟨t, ht, hid, he⟩
  · rw [he]
    exact ⟨h, rfl, rfl, false, rfl⟩
  · obtain ⟨hi, ha, hk⟩ := reinsert_spec h hid (u := { t with next := now + t.ms }) ht rfl rfl rfl
    rw [he]
    exact ⟨hi, ha, hk, true, rfl⟩

/-- what a call of `reset` can do: answer before the lock, refuse, or put the timer through the notifying insert -/
theorem reset_cases {s : TimerManager β} (h : Inv s) (id : ℕ) (ms : UInt64) (from_now : Bool) (now : UInt64) :
    (∃ t, s.heap id = some t ∧ (ms = t.ms ∧ from_now = false) ∧ s.reset id ms from_now now = (.bool true false, s)) ∨
      (id ∉ s.timers ∧ s.reset id ms from_now now = (.bool false false, s)) ∨
      ∃ t u, s.heap id = some t ∧ id ∈ s.timers ∧
        u = { t with ms := ms, next := (if from_now then now else t.next - t.ms) + ms } ∧
        s.reset id ms from_now now =
          (.bool true (((s.erase id).store id u).addTimerLocked id).1, (((s.erase id).store id u).addTimerLocked id).2) := by
  unfold reset
  cases ht : s.heap id with
  | none => exact Or.inr (Or.inl ⟨Inv.not_mem_of_none h ht, rfl⟩)
  | some t =>
    dsimp only
    by_cases h0 : ms = t.ms ∧ from_now = false
    · rw [if_pos h0]
      exact Or.inl ⟨t, rfl, h0, rfl⟩
    rw [if_neg h0]
    right
    by_cases hid : id ∈ s.timers
    · obtain ⟨hcb, hfound⟩ := Inv.tests_pass h ht hid
      rw [if_neg hcb, if_neg hfound]
      exact Or.inr ⟨t, _, rfl, hid, rfl, rfl⟩
    · rw [if_pos ((Inv.isNone_iff h ht).2 hid)]
      exact Or.inl ⟨hid, rfl⟩

theorem reset_spec {s : TimerManager β} (h : Inv s) (id : ℕ) (ms : UInt64) (from_now : Bool) (now : UInt64) :
    Inv (s.reset id ms from_now now).2 ∧ (s.reset id ms from_now now).2.armed = s.armed ∧
      (s.reset id ms from_now now).2.kind = s.kind ∧ ∃ b front, (s.reset id ms from_now now).1 = .bool b front := by
  rcases reset_cases h id ms from_now now with ⟨t, -, -, he⟩ | ⟨-, he⟩ | ⟨t, u, ht, hid, hu, he⟩
  · rw [he]
    exact ⟨h, rfl, rfl, true, false, rfl⟩
  · rw [he]
    exact ⟨h, rfl, rfl, false, false, rfl⟩
  · obtain ⟨hi, ha, hk⟩ := reinsert_spec h hid (u := u) ht (by rw [hu]) (by rw [hu]) (by rw [hu])
    obtain ⟨b, hb⟩ := addTimerLocked_eq ((s.erase id).store id u) id
    rw [he, hb]
    exact ⟨InvOut.tickled hi b, ha, hk, true, _, rfl⟩

/-- what the loop over the expired timers leaves of the callbacks -/
def afterExpiry (armed : ℕ → Option β) (kind : ℕ → Option Bool) (ids : List ℕ) : ℕ → Option β :=
  fun id => if id ∈ ids ∧ kind id = some false then none else armed id

theorem afterExpiry_nil (armed : ℕ → Option β) (kind : ℕ → Option Bool) : afterExpiry armed kind [] = armed := by
  funext id
  simp [afterExpiry]

/-- the loop over the expired timers: all are emitted, the recurring ones are back in the set, the others are empty -/
theorem expireLoop_spec (now : UInt64) (out : List ℕ) {s : TimerManager β} (h : InvOut s out) :
    Inv (expireLoop now out s).2 ∧ (expireLoop now out s).1 = out.map (fun id => (id, s.armed id)) ∧
      (expireLoop now out s).2.kind = s.kind ∧ (expireLoop now out s).2.armed = afterExpiry s.armed s.kind out := by
  induction out generalizing s with
  | nil => exact ⟨h, rfl, rfl, (afterExpiry_nil _ _).symm⟩
  | cons id out ih =>
    obtain ⟨t, c, ht, hc⟩ := h.object (Or.inr List.mem_cons_self)
    have hid : id ∉ out := (List.nodup_cons.1 h.out_nodup).1
    have hkind : s.kind id = some t.recurring := by rw [kind, ht]; rfl
    -- the timers still to come are not the one this round changes
    have hmap : ∀ s' : TimerManager β, (∀ j, j ≠ id → s'.armed j = s.armed j) →
        out.map (fun j => (j, s'.armed j)) = out.map fun j => (j, s.armed j) := by
      intro s' hs'
      refine List.map_congr_left fun j hj => ?_
      rw [hs' j fun e => hid (e ▸ hj)]
    simp only [expireLoop, ht, List.map_cons, armed_of_heap ht]
    by_cases hr : t.recurring = true
    · rw [if_pos hr]
      obtain ⟨hv1, hv2⟩ := view_store (u := { t with next := now + t.ms }) ht rfl rfl
      obtain ⟨i1, i2, i3, i4⟩ := ih (h.put (u := { t with next := now + t.ms }) ht rfl (by rw [hc]; rfl))
      refine ⟨i1, ?_, i3.trans hv2, i4.trans ?_⟩
      · rw [i2]
        exact congrArg _ (hmap _ fun j _ => congrFun hv1 j)
      · have hv1' : ((s.store id { t with next := now + t.ms }).insert id).armed = s.armed := hv1
        have hv2' : ((s.store id { t with next := now + t.ms }).insert id).kind = s.kind := hv2
        rw [hv1', hv2']
        funext j
        by_cases hj : j = id
        · simp [afterExpiry, hj, hkind, hr]
        · simp [afterExpiry, hj]
    · have hr' : t.recurring = false := by simpa using hr
      rw [if_neg hr]
      obtain ⟨hv1, hv2⟩ := view_disarm ht
      obtain ⟨i1, i2, i3, i4⟩ := ih (h.drop (u := { t with cb := none }) ht rfl)
      refine ⟨i1, ?_, i3.trans hv2, i4.trans ?_⟩
      · rw [i2, hmap _ fun j hj => by rw [hv1, Function.update_of_ne hj]]
      · rw [hv1, hv2]
        funext j
        by_cases hj : j = id
        · simp [afterExpiry, hj, hkind, hr', hid]
        · simp [afterExpiry, hj]

theorem expired_append (s : TimerManager β) (rollover : Bool) (now : UInt64) (addr : ℕ) :
    (s.expired rollover now addr).1 ++ (s.expired rollover now addr).2 = s.timers := by
  unfold expired
  split_ifs
  · exact List.append_nil _
  · simp only [List.append_assoc, List.takeWhile_append_dropWhile]
    exact OrdSet.lowerBound_append _ _

/-- what a call of `listExpiredCb` can do: nothing, note the time, or cut the set and run the loop over the front part
-/
theorem listExpiredCb_cases (s : TimerManager β) (now : UInt64) (addr : ℕ) :
    s.listExpiredCb now addr = (.cbs [], s) ∨ s.listExpiredCb now addr = (.cbs [], { s with previousTime := now }) ∨
      ∃ a b, a ++ b = s.timers ∧ s.listExpiredCb now addr =
        (.cbs (expireLoop now a { s with previousTime := now, timers := b }).1,
          (expireLoop now a { s with previousTime := now, timers := b }).2) := by
  unfold listExpiredCb
  by_cases hempty : s.timers = []
  · rw [if_pos hempty]
    exact Or.inl rfl
  rw [if_neg hempty]
  right
  obtain ⟨front, rest, hfront⟩ := List.exists_cons_of_ne_nil hempty
  set s1 := (s.detectClockRollover now).2 with hs1
  have htimers : s1.timers = front :: rest := hfront
  simp only [listExpiredCbLocked, ← hs1, htimers]
  set rollover := (s.detectClockRollover now).1
  split_ifs with hearly
  · exact Or.inl rfl
  · exact Or.inr ⟨_, _, s1.expired_append rollover now addr, rfl⟩

theorem listExpiredCb_spec {s : TimerManager β} (h : Inv s) (now : UInt64) (addr : ℕ) :
    Inv (s.listExpiredCb now addr).2 ∧ (s.listExpiredCb now addr).2.kind = s.kind ∧
      ∃ ids : List ℕ, ids.Nodup ∧ (∀ id ∈ ids, (s.armed id).isSome) ∧
        (s.listExpiredCb now addr).1 = .cbs (ids.map fun id => (id, s.armed id)) ∧
        (s.listExpiredCb now addr).2.armed = afterExpiry s.armed s.kind ids := by
  have hnone : ∀ {s' : TimerManager β}, Inv s' → s'.kind = s.kind → s'.armed = s.armed →
      Inv s' ∧ s'.kind = s.kind ∧ ∃ ids : List ℕ, ids.Nodup ∧ (∀ id ∈ ids, (s.armed id).isSome) ∧
        (Ret.cbs [] : Ret β) = .cbs (ids.map fun id => (id, s.armed id)) ∧
        s'.armed = afterExpiry s.armed s.kind ids :=
    fun hi hk ha => ⟨hi, hk, [], List.nodup_nil, fun _ hj => absurd hj (by simp), rfl, by rw [ha, afterExpiry_nil]⟩
  rcases s.listExpiredCb_cases now addr with he | he | ⟨a, b, hab, he⟩
  · rw [he]
    exact hnone h rfl rfl
  · rw [he]
    exact hnone (InvOut.previousTime h now) rfl rfl
  · have hsplit := (InvOut.split h hab).previousTime now
    obtain ⟨e1, e2, e3, e4⟩ := expireLoop_spec now _ hsplit
    rw [he]
    refine ⟨e1, e3, a, hsplit.out_nodup, fun id hid => ?_, ?_, e4⟩
    · exact (hsplit.mem_iff id).1 (Or.inr hid)
    · dsimp only
      rw [e2]
      rfl

theorem getNextTimer_spec {s : TimerManager β} (h : Inv s) (now : UInt64) :
    Inv (s.getNextTimer now).2 ∧ (s.getNextTimer now).2.armed = s.armed ∧ (s.getNextTimer now).2.kind = s.kind ∧
      ∃ ms, (s.getNextTimer now).1 = .next ms := by
  have hstate : (s.getNextTimer now).2 = { s with tickled := false } ∧ ∃ ms, (s.getNextTimer now).1 = .next ms := by
    dsimp only [getNextTimer]
    split
    · exact ⟨rfl, _, rfl⟩
    · rename_i front rest htimers
      obtain ⟨t, -, ht, -⟩ := h.object (Or.inl (show front ∈ s.timers by rw [htimers]; exact List.mem_cons_self))
      rw [ht]
      exact ⟨rfl, _, rfl⟩
  rw [hstate.1]
  exact ⟨InvOut.tickled h false, rfl, rfl, hstate.2⟩

end Sylar.TimerManager
