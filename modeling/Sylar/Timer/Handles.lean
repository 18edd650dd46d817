/-
What `refresh` and `reset` say about the timer behind a handle.

A handle outlives the timer's place in the set: the timer may be pending, fired or cancelled when `refresh` or `reset`
is called through it. Under the class invariant the two tests behind the lock, on the callback and on the set, agree,
so a call that passes them finds the timer and one that fails them changes nothing. The test of `reset` before the
lock looks at neither.

- `reset_truthful_iff`: `refresh` is always truthful; `reset` is, except for a timer outside the set that is given its
  own period without `from_now`.
- `reset_true_after_firing`: such a call, which returns `true`.
-/
import Mathlib.Tactic
import Sylar.Timer.Model
import Sylar.Timer.Invariant
import Sylar.Timer.Delivery

namespace Sylar.TimerManager

open Sylar.Core

variable {β : Type}

/-- the result tells whether the timer is in the set now, due at `next`, and `false` comes with an untouched state -/
def Truthful (s : TimerManager β) (id : ℕ) (next : UInt64) (r : Ret β × TimerManager β) : Prop :=
  ∃ b front, r.1 = .bool b front ∧ (b = true ↔ id ∈ r.2.timers) ∧
    (b = true → ∃ t, r.2.heap id = some t ∧ t.next = next) ∧ (b = false → r.2 = s)

/-- a refusal is truthful for a timer outside the set -/
theorem truthful_false {s : TimerManager β} {id : ℕ} (next : UInt64) (hid : id ∉ s.timers) :
    Truthful s id next (.bool false false, s) :=
  ⟨false, false, rfl, by simp [hid], nofun, fun _ => rfl⟩

/-- erase, change and insert again, in a state that differs at most in `m_tickled` -/
theorem truthful_reinsert {s : TimerManager β} (h : Inv s) {id : ℕ} (hid : id ∈ s.timers) {t u : Timer β}
    (ht : s.heap id = some t) (hcb : u.cb = t.cb) (haddr : u.addr = t.addr) (front tickled : Bool) :
    Truthful s id u.next (.bool true front, { ((s.erase id).store id u).insert id with tickled := tickled }) := by
  have hsome : u.cb.isSome := by
    rw [hcb, ← armed_of_heap ht]
    exact (Inv.mem_timers h).mp hid
  have hmem : id ∈ (((s.erase id).store id u).insert id).timers :=
    (((h.take hid).change ht haddr hsome).mem_insert id).mpr (.inl rfl)
  exact ⟨true, front, rfl, iff_of_true rfl hmem, fun _ => ⟨u, store_heap_self _ id u, rfl⟩, nofun⟩

theorem refresh_truthful {s : TimerManager β} (h : Inv s) {id : ℕ} {t : Timer β} (ht : s.heap id = some t)
    (now : UInt64) : Truthful s id (now + t.ms) (s.refresh id now) := by
  rcases refresh_cases h id now with ⟨hid, he⟩ | ⟨t', ht', hid, he⟩
  · rw [he]
    exact truthful_false _ hid
  · obtain rfl : t = t' := Option.some.inj (ht.symm.trans ht')
    rw [he]
    exact truthful_reinsert h hid (u := { t with next := now + t.ms }) ht rfl rfl false _

/-- the due time `reset` asks for -/
def resetNext (t : Timer β) (ms : UInt64) (from_now : Bool) (now : UInt64) : UInt64 :=
  (if from_now then now else t.next - t.ms) + ms

/-- behind the test before the lock, `reset` is truthful for every handle -/
theorem reset_truthful_locked {s : TimerManager β} (h : Inv s) {id : ℕ} {t : Timer β} (ht : s.heap id = some t)
    {ms : UInt64} {from_now : Bool} (hslow : ¬(ms = t.ms ∧ from_now = false)) (now : UInt64) :
    Truthful s id (resetNext t ms from_now now) (s.reset id ms from_now now) := by
  rcases reset_cases h id ms from_now now with ⟨t', ht', hfast, -⟩ | ⟨hid, he⟩ | ⟨t', u, ht', hid, hu, he⟩
  · obtain rfl : t = t' := Option.some.inj (ht.symm.trans ht')
    exact absurd hfast hslow
  · rw [he]
    exact truthful_false _ hid
  · obtain rfl : t = t' := Option.some.inj (ht.symm.trans ht')
    have hnext : u.next = resetNext t ms from_now now := by
      rw [hu]
      rfl
    obtain ⟨tickled, htickled⟩ := addTimerLocked_eq ((s.erase id).store id u) id
    rw [he, htickled, ← hnext]
    exact truthful_reinsert h hid ht (by rw [hu]) (by rw [hu]) _ tickled

/-- the test before the lock answers `true` and touches nothing: right for a pending timer, which is due a period after
its start, and wrong for any other -/
theorem reset_truthful_shortcut {s : TimerManager β} {id : ℕ} {t : Timer β} (ht : s.heap id = some t) (now : UInt64) :
    Truthful s id (resetNext t t.ms false now) (s.reset id t.ms false now) ↔ id ∈ s.timers := by
  have hres : s.reset id t.ms false now = (.bool true false, s) := by
    simp [reset, ht]
  have hnext : resetNext t t.ms false now = t.next := UInt64.sub_add_cancel t.next t.ms
  rw [hres, hnext]
  constructor
  · rintro ⟨b, front, hb, hmem, -, -⟩
    injection hb with hb
    exact hmem.mp hb.symm
  · intro hid
    exact ⟨true, false, rfl, iff_of_true rfl hid, fun _ => ⟨t, ht, rfl⟩, nofun⟩

/-- **What `refresh` and `reset` report.** In every reachable state and for every handle given out, pending, fired or
cancelled: `refresh` returns whether the timer is in the set, then due a period from now, and changes nothing if it
returns `false`. `reset` does so too, with the due time it was asked for, iff the timer is pending or the call gives
another period or counts from now. -/
theorem reset_truthful_iff (start : UInt64) (ops : List (Op β)) (hok : Admissible (new start : TimerManager β) ops)
    (id : ℕ)
    (t : Timer β) (ht : (history (new start) ops).2.heap id = some t) (now : UInt64) :
    let s := (history (new start) ops).2
    Truthful s id (now + t.ms) (s.refresh id now) ∧
      ∀ (ms : UInt64) (from_now : Bool),
        Truthful s id (if from_now then now + ms else t.next - t.ms + ms) (s.reset id ms from_now now) ↔
          id ∈ s.timers ∨ ms ≠ t.ms ∨ from_now = true := by
  intro s
  have h : Inv s := (run_refines ops (inv_new start) hok).1
  refine ⟨refresh_truthful h ht now, fun ms from_now => ?_⟩
  have hnext : (if from_now then now + ms else t.next - t.ms + ms) = resetNext t ms from_now now :=
    (apply_ite (· + ms) _ _ _).symm
  rw [hnext]
  by_cases hfast : ms = t.ms ∧ from_now = false
  · obtain ⟨rfl, rfl⟩ := hfast
    refine (reset_truthful_shortcut ht now).trans ⟨.inl, fun hor => ?_⟩
    simpa using hor
  · refine iff_of_true (reset_truthful_locked h ht hfast now) (.inr ?_)
    rwa [not_and_or, Bool.not_eq_false] at hfast

/-- a timer of 10 ms, cancelled, and reset to 20 ms: the call returns `false` and leaves the state as it is -/
theorem reset_truthful_iff_cancelled :
    let s := (history (new 5 : TimerManager Unit) [.addTimer 10 () false 5 0, .cancel 0]).2
    (s.reset 0 20 false 9).1 = .bool false false ∧
      (Truthful s 0 25 (s.reset 0 20 false 9) ↔ 0 ∈ s.timers ∨ (20 : UInt64) ≠ 10 ∨ false = true) := by
  intro s
  have hok : Admissible (new 5 : TimerManager Unit) [.addTimer 10 () false 5 0, .cancel 0] := by decide
  exact ⟨by decide, (reset_truthful_iff 5 _ hok 0 ⟨false, 10, 15, none, 0⟩ (by decide) 9).2 20 false⟩

/-- **`reset` answers for a timer that has fired.** A one-shot timer of 10 ms has fired and left the set; `reset(10,
false)` through its handle returns `true`. -/
theorem reset_true_after_firing :
    let s := (history (new 5 : TimerManager Unit) [.addTimer 10 () false 5 0, .listExpiredCb 15 1]).2
    Admissible (new 5 : TimerManager Unit) [.addTimer 10 () false 5 0, .listExpiredCb 15 1] ∧
      s.heap 0 = some ⟨false, 10, 15, none, 0⟩ ∧ (s.reset 0 10 false 20).1 = .bool true false ∧
      0 ∉ (s.reset 0 10 false 20).2.timers ∧ ¬Truthful s 0 15 (s.reset 0 10 false 20) := by
  intro s
  refine ⟨by decide, by decide, by decide, by decide, ?_⟩
  rintro ⟨b, front, hb, hmem, -, -⟩
  have htrue : (s.reset 0 10 false 20).1 = .bool true false := by decide
  rw [htrue] at hb
  injection hb with hb
  have hin : 0 ∈ (s.reset 0 10 false 20).2.timers := hmem.mp hb.symm
  exact absurd hin (by decide)

end Sylar.TimerManager
