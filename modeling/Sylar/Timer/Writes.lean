/-
The timer set, write by write.

The key of a `std::set<Timer::ptr>` element is a field of the object it points at, so an atomic view of the operations
hides the one thing that could break the set: a key that changes while its timer is inside. `writes` lists what an
operation does to the set and to the timer objects, in the order of the source; `run_writes` says that these writes are
the operation.

- `timer_set_invariant`: in every run from the constructor the set is strictly increasing under the due times the timers
  hold now, holds no timer twice and holds exactly the timers with a callback; no write of any call changes the key of a
  timer that is in the set; `cancel` never erases `end()`; and the searches of `refresh` and `reset` find every timer
  that has a callback.
-/
import Mathlib.Tactic
import Sylar.Core.Run
import Sylar.Core.OrdSet
import Sylar.Timer.Model
import Sylar.Timer.Invariant
import Sylar.Timer.Delivery

namespace Sylar.TimerManager

open Sylar.Core

variable {β : Type}

/-! ## Writes -/

/-- a write to the set, to a timer object or to a field of the manager -/
inductive Write (β : Type) where
  /-- `new Timer(...)`, under the next handle -/
  | create (t : Timer β)
  | store (id : ℕ) (t : Timer β)
  | insert (id : ℕ)
  /-- `erase(it)` at the place `find` returned -/
  | erase (id : ℕ)
  /-- `erase(begin, it)`, with `n` timers before `it` -/
  | eraseFront (n : ℕ)
  | tickled (b : Bool)
  | previousTime (now : UInt64)

def write (s : TimerManager β) : Write β → TimerManager β
  | .create t => { s.store s.created t with created := s.created + 1 }
  | .store id t => s.store id t
  | .insert id => s.insert id
  | .erase id => s.erase id
  | .eraseFront n => { s with timers := s.timers.drop n }
  | .tickled b => { s with tickled := b }
  | .previousTime now => { s with previousTime := now }

/-- the writes of `addTimer(val, lock)` -/
def addTimerLockedWrites (s : TimerManager β) (id : ℕ) : List (Write β) :=
  .insert id :: if (s.addTimerLocked id).1 then [.tickled true] else []

/-- the writes of the loop over `expired` -/
def expireLoopWrites (now_ms : UInt64) : List ℕ → TimerManager β → List (Write β)
  | [], _ => []
  | id :: rest, s =>
    match s.heap id with
    | none => expireLoopWrites now_ms rest s
    | some t =>
      if t.recurring then
        .store id { t with next := now_ms + t.ms } :: .insert id ::
          expireLoopWrites now_ms rest ((s.store id { t with next := now_ms + t.ms }).insert id)
      else .store id { t with cb := none } :: expireLoopWrites now_ms rest (s.store id { t with cb := none })

/-- the writes of a call, in the order of the source -/
def writes (s : TimerManager β) : Op β → List (Write β)
  | .addTimer ms cb recurring now addr =>
    let t : Timer β := { recurring := recurring, ms := ms, next := now + ms, cb := some cb, addr := addr }
    .create t :: addTimerLockedWrites (s.write (.create t)) s.created
  | .cancel id =>
    match s.heap id with
    | none => []
    | some t =>
      if t.cb.isSome then
        .store id { t with cb := none } :: if (s.store id { t with cb := none }).found id then [.erase id] else []
      else []
  | .refresh id now =>
    match s.heap id with
    | none => []
    | some t =>
      if t.cb.isNone then []
      else if !s.found id then []
      else [.erase id, .store id { t with next := now + t.ms }, .insert id]
  | .reset id ms from_now now =>
    match s.heap id with
    | none => []
    | some t =>
      if ms = t.ms ∧ from_now = false then []
      else if t.cb.isNone then []
      else if !s.found id then []
      else
        let start := if from_now then now else t.next - t.ms
        let t' : Timer β := { t with ms := ms, next := start + ms }
        .erase id :: .store id t' :: addTimerLockedWrites ((s.erase id).store id t') id
  | .listExpiredCb now_ms addr =>
    if s.timers = [] then []
    else
      let r := s.detectClockRollover now_ms
      .previousTime now_ms ::
        match r.2.timers with
        | [] => []
        | front :: _ =>
          if !r.1 && (r.2.heap front).elim false fun t => decide (t.next > now_ms) then []
          else
            let e := r.2.expired r.1 now_ms addr
            .eraseFront e.1.length :: expireLoopWrites now_ms e.1 { r.2 with timers := e.2 }
  | .getNextTimer _ => [.tickled false]

/-! ## The writes are the operation -/

theorem run_addTimerLockedWrites (s : TimerManager β) (id : ℕ) :
    run write s (s.addTimerLockedWrites id) = (s.addTimerLocked id).2 := by
  have hres : (s.addTimerLocked id).2 =
      if (s.addTimerLocked id).1 then { s.insert id with tickled := true } else s.insert id := rfl
  rw [hres, addTimerLockedWrites]
  cases (s.addTimerLocked id).1 <;> rfl

theorem run_expireLoopWrites (now : UInt64) (out : List ℕ) (s : TimerManager β) :
    run write s (expireLoopWrites now out s) = (expireLoop now out s).2 := by
  induction out generalizing s with
  | nil => rfl
  | cons id out ih =>
    simp only [expireLoopWrites, expireLoop]
    cases s.heap id with
    | none => exact ih s
    | some t =>
      dsimp only
      split_ifs with hr
      · simp only [run_cons, write]
        exact ih _
      · simp only [run_cons, write]
        exact ih _

/-- `erase(begin, it)` takes the expired timers out -/
theorem write_eraseFront (s : TimerManager β) (rollover : Bool) (now : UInt64) (addr : ℕ) :
    s.write (.eraseFront (s.expired rollover now addr).1.length) =
      { s with timers := (s.expired rollover now addr).2 } := by
  simp only [write]
  conv_lhs => rw [← s.expired_append rollover now addr]
  rw [List.drop_left]

/-- the writes are the operation -/
theorem run_writes (s : TimerManager β) (o : Op β) : run write s (s.writes o) = (s.call o).2 := by
  cases o with
  | addTimer ms cb recurring now addr => exact run_addTimerLockedWrites _ _
  | cancel id =>
    simp only [writes, call, cancel]
    cases s.heap id with
    | none => rfl
    | some t =>
      dsimp only
      split_ifs <;> rfl
  | refresh id now =>
    simp only [writes, call, refresh]
    cases s.heap id with
    | none => rfl
    | some t =>
      dsimp only
      split_ifs <;> rfl
  | reset id ms from_now now =>
    simp only [writes, call, reset]
    cases s.heap id with
    | none => rfl
    | some t =>
      dsimp only
      split_ifs
      · rfl
      · rfl
      · rfl
      · exact run_addTimerLockedWrites _ _
      · exact run_addTimerLockedWrites _ _
  | listExpiredCb now addr =>
    simp only [writes, call, listExpiredCb]
    by_cases hempty : s.timers = []
    · rw [if_pos hempty, if_pos hempty]
      rfl
    rw [if_neg hempty, if_neg hempty]
    obtain ⟨front, rest, hfront⟩ := List.exists_cons_of_ne_nil hempty
    set s1 := (s.detectClockRollover now).2 with hs1
    set rollover := (s.detectClockRollover now).1
    have htimers : s1.timers = front :: rest := hfront
    have hdetect : s.write (.previousTime now) = s1 := rfl
    simp only [listExpiredCbLocked, ← hs1, htimers, run_cons, hdetect]
    split_ifs with hearly
    · rfl
    · rw [run_cons, write_eraseFront]
      exact run_expireLoopWrites _ _ _
  | getNextTimer now =>
    simp only [writes, call, getNextTimer, run_cons, run_nil, write]
    split
    · rfl
    · split <;> rfl

/-! ## No key changes inside the set -/

/-- what the comparator reads of a timer -/
def key (s : TimerManager β) (id : ℕ) : Option (UInt64 × ℕ) := (s.heap id).map fun t => (t.next, t.addr)

/-- the write leaves the keys of the timers in the set alone -/
def KeepsKeys (s : TimerManager β) (w : Write β) : Prop := ∀ id ∈ s.timers, (s.write w).key id = s.key id

/-- a write that does not touch the objects -/
theorem keepsKeys_of_heap {s : TimerManager β} {w : Write β} (h : (s.write w).heap = s.heap) : KeepsKeys s w := by
  intro id _
  rw [key, key, h]

theorem keepsKeys_store_outside {s : TimerManager β} {id : ℕ} {t : Timer β} (h : id ∉ s.timers) :
    KeepsKeys s (.store id t) := by
  intro j hj
  have hne : j ≠ id := fun e => h (e ▸ hj)
  rw [key, key, write, store_heap_ne s t hne]

theorem keepsKeys_addTimerLocked (s : TimerManager β) (id : ℕ) :
    Along KeepsKeys write s (s.addTimerLockedWrites id) := by
  refine ⟨keepsKeys_of_heap rfl, ?_⟩
  split_ifs
  · exact ⟨keepsKeys_of_heap rfl, trivial⟩
  · trivial

/-- the timers of the loop are in hand when their due time is moved -/
theorem keepsKeys_expireLoop (now : UInt64) (out : List ℕ) {s : TimerManager β} (h : InvOut s out) :
    Along KeepsKeys write s (expireLoopWrites now out s) := by
  induction out generalizing s with
  | nil => trivial
  | cons id out ih =>
    obtain ⟨t, c, ht, hc⟩ := h.object (Or.inr List.mem_cons_self)
    have hid : id ∉ s.timers := h.out_disjoint id List.mem_cons_self
    simp only [expireLoopWrites, ht]
    split_ifs with hr
    · exact ⟨keepsKeys_store_outside hid, keepsKeys_of_heap rfl, ih (h.put ht rfl (by rw [hc]; rfl))⟩
    · exact ⟨keepsKeys_store_outside hid, ih (h.drop ht rfl)⟩

/-- a timer with a callback that was erased is no longer in the set -/
theorem not_mem_erase {s : TimerManager β} (h : Inv s) {id : ℕ} {t : Timer β} (ht : s.heap id = some t)
    (hcb : ¬t.cb.isNone = true) : id ∉ (s.erase id).timers := by
  have hid : id ∈ s.timers := by_contra fun hno => hcb ((Inv.isNone_iff h ht).2 hno)
  rw [h.mem_erase hid]
  exact fun hc => hc.1 rfl

/-- a new timer is not in the set -/
theorem keepsKeys_create {s : TimerManager β} (h : Inv s) (t : Timer β) : KeepsKeys s (.create t) := by
  intro id hid
  have hne : id ≠ s.created := by
    rintro rfl
    obtain ⟨t, c, ht, -⟩ := h.object (Or.inl hid)
    have := (h.created s.created).1 (by rw [ht]; rfl)
    omega
  simp only [key, write, store_heap_ne s _ hne]

/-- `m_cb` is no part of the key -/
theorem keepsKeys_clear {s : TimerManager β} {id : ℕ} {t : Timer β} (ht : s.heap id = some t) :
    KeepsKeys s (.store id { t with cb := none }) := by
  intro j _
  by_cases hj : j = id
  · subst hj
    simp only [key, write, store_heap_self, ht, Option.map_some]
  · rw [key, key, write, store_heap_ne s _ hj]

/-- no write of a call changes the key of a timer that is in the set -/
theorem keepsKeys_writes {s : TimerManager β} (h : Inv s) (o : Op β) : Along KeepsKeys write s (s.writes o) := by
  cases o with
  | addTimer ms cb recurring now addr => exact ⟨keepsKeys_create h _, keepsKeys_addTimerLocked _ _⟩
  | cancel id =>
    simp only [writes]
    cases ht : s.heap id with
    | none => trivial
    | some t =>
      dsimp only
      split_ifs
      · exact ⟨keepsKeys_clear ht, keepsKeys_of_heap rfl, trivial⟩
      · exact ⟨keepsKeys_clear ht, trivial⟩
      · trivial
  | refresh id now =>
    simp only [writes]
    cases ht : s.heap id with
    | none => trivial
    | some t =>
      dsimp only
      split_ifs with h1 h2
      · trivial
      · trivial
      · exact ⟨keepsKeys_of_heap rfl, keepsKeys_store_outside (not_mem_erase h ht h1), keepsKeys_of_heap rfl, trivial⟩
  | reset id ms from_now now =>
    simp only [writes]
    cases ht : s.heap id with
    | none => trivial
    | some t =>
      dsimp only
      split_ifs with h0 h1 h2
      · trivial
      · trivial
      · trivial
      all_goals
        exact ⟨keepsKeys_of_heap rfl, keepsKeys_store_outside (not_mem_erase h ht h1), keepsKeys_addTimerLocked _ _⟩
  | listExpiredCb now addr =>
    simp only [writes]
    by_cases hempty : s.timers = []
    · rw [if_pos hempty]
      trivial
    rw [if_neg hempty]
    refine ⟨keepsKeys_of_heap rfl, ?_⟩
    set s1 := (s.detectClockRollover now).2 with hs1
    set rollover := (s.detectClockRollover now).1
    have hdetect : s.write (.previousTime now) = s1 := rfl
    have hi : Inv s1 := InvOut.previousTime h now
    rw [hdetect]
    split
    · trivial
    · split_ifs
      · trivial
      · refine ⟨keepsKeys_of_heap rfl, ?_⟩
        rw [write_eraseFront]
        exact keepsKeys_expireLoop now _ (InvOut.split hi (s1.expired_append rollover now addr))
  | getNextTimer now => exact ⟨keepsKeys_of_heap rfl, trivial⟩

/-! ## Runs -/

/-- the set between two calls -/
structure SetInv (s : TimerManager β) : Prop where
  /-- strictly increasing under the due times the timers hold now -/
  sorted : OrdSet.Sorted s.less s.timers
  nodup : s.timers.Nodup
  /-- a timer that was created is in the set iff its callback is non-empty -/
  mem_iff : ∀ id t, s.heap id = some t → (id ∈ s.timers ↔ t.cb.isSome)
  /-- the set holds nothing else -/
  known : ∀ id ∈ s.timers, (s.heap id).isSome

/-- what holds of a call in the state it is made in -/
structure CallOk (s : TimerManager β) (o : Op β) : Prop where
  set : SetInv s
  /-- the call is the writes it makes, and none changes a key in the set -/
  writes : run write s (s.writes o) = (s.call o).2
  keys : Along KeepsKeys write s (s.writes o)
  /-- the search of `cancel`, made after the callback is emptied -/
  cancel_finds : ∀ id t, o = .cancel id → s.heap id = some t → t.cb.isSome →
    (s.store id { t with cb := none }).found id = true
  /-- neither `erase(end())` nor `*begin()` of an empty set -/
  no_fault : (s.call o).1 ≠ .fault
  /-- the searches of `refresh` and `reset` -/
  finds : ∀ id t, s.heap id = some t → t.cb.isSome → s.found id = true

theorem Inv.setInv {s : TimerManager β} (h : Inv s) : SetInv s := by
  refine ⟨h.sorted, InvOut.nodup h, fun id t ht => Inv.mem_iff_cb h ht, fun id hid => ?_⟩
  · obtain ⟨t, c, ht, -⟩ := h.object (Or.inl hid)
    rw [ht]
    rfl

/-- a call that the pool can follow does not run into undefined behaviour -/
theorem Pool.Step.ne_fault {p q : Pool β} {o : Op β} {r : Ret β} (h : Pool.Step p (o, r) q) : r ≠ .fault := by
  cases h <;> simp

theorem Inv.callOk {s : TimerManager β} (h : Inv s) {o : Op β} (hok : o.Ok s) : CallOk s o := by
  have hset := Inv.setInv h
  have hfinds : ∀ id t, s.heap id = some t → t.cb.isSome → s.found id = true :=
    fun id t ht hcb => InvOut.found h ((hset.mem_iff id t ht).2 hcb)
  refine ⟨hset, s.run_writes o, keepsKeys_writes h o, ?_, (call_refines h hok).2.ne_fault, hfinds⟩
  intro id t _ ht hcb
  have hless : (s.store id { t with cb := none }).less = s.less := less_store_of_key ht rfl rfl
  rw [found, hless]
  exact hfinds id t ht hcb

/-- **The timer set invariant.** In every run from the constructor, with any clock readings, every call finds the set
in order and complete, changes no key inside it and searches it with success. -/
theorem timer_set_invariant (now : UInt64) (ops : List (Op β)) (hok : Admissible (new now : TimerManager β) ops) :
    Along CallOk (fun s o => (s.call o).2) (new now) ops ∧ SetInv (run (fun s o => (s.call o).2) (new now) ops) := by
  have hstep : ∀ (s : TimerManager β) (o : Op β), o.Ok s → Inv s → Inv (s.call o).2 :=
    fun s o h hi => (call_refines hi h).1
  have hcall : ∀ (s : TimerManager β) (o : Op β), o.Ok s → Inv s → CallOk s o := fun s o h hi => Inv.callOk hi h
  obtain ⟨halong, hinv⟩ := run_along hstep hcall ops (inv_new now) hok
  exact ⟨halong, hinv.setInv⟩

/-- two timers due at the same time, ordered by address, moved by `refresh`, `reset`, an expiry and a rollover -/
theorem timer_set_invariant_seven :
    SetInv (run (fun s o => (s.call o).2) (new 5000000) [.addTimer 10 () false 5000000 7,
      .addTimer 10 () true 5000000 3, .refresh 0 5000004, .reset 1 20 false 5000004, .listExpiredCb 5000020 9,
      .cancel 0, .listExpiredCb 100 9]) :=
  (timer_set_invariant 5000000 _ (by decide)).2

end Sylar.TimerManager
