/-
`listExpiredCb` between its two lock sections.

The emptiness test holds the read lock, the rest of the function the write lock, and neither is held in between. A
thread that has seen a timer therefore enters the locked part with a set that other threads may have emptied, and
`*begin()` is read there without another test. Here the function is two steps: `test` puts a thread into the gap with
the clock reading it took, `body` runs the locked part for one of the threads in the gap. `addTimer` and `cancel` are
one step each.

The locked part is safe as long as the set is not empty while a thread is in the gap (`Gapped.Inv`), and only two
kinds of step can break that: a `cancel` of the last timer, and a `body` that leaves none behind.

- `gap_safe`: if no such step happens while another thread is in the gap, no step of the run reads `*begin()` of an
  empty set, for any number of threads and any order of steps.
- `gap_faults`: two threads see the same one-shot timer, and the second one finds the set empty.
-/
import Mathlib.Tactic
import Sylar.Core.Run
import Sylar.Core.OrdSet
import Sylar.Timer.Model
import Sylar.Timer.Invariant
import Sylar.Timer.Wakeup
import Sylar.Timer.Expiry

namespace Sylar.TimerManager

open Sylar.Core

variable {β : Type}

/-! ## The two sections -/

/-- a manager, and the threads between the two sections, each with its `now_ms` -/
structure Gapped (β : Type) where
  mgr : TimerManager β
  waiting : List UInt64

/-- a step of some thread -/
inductive Act (β : Type) where
  /-- the clock is read and the set tested under the read lock -/
  | test (now : UInt64)
  /-- the `k`-th thread of the gap runs the write-locked part; `addr` is the address of its `now_timer` -/
  | body (k : ℕ) (addr : ℕ)
  | addTimer (ms : UInt64) (cb : β) (recurring : Bool) (now : UInt64) (addr : ℕ)
  | cancel (id : ℕ)
deriving DecidableEq, Repr

namespace Gapped

/-- one step, with what the function returns if the step ends it -/
def step (w : Gapped β) : Act β → Option (Ret β) × Gapped β
  | .test now =>
    if w.mgr.timers = [] then (some (.cbs []), w) else (none, { w with waiting := w.waiting ++ [now] })
  | .body k addr =>
    match w.waiting[k]? with
    | none => (none, w)
    | some now =>
      let r := w.mgr.listExpiredCbLocked now addr
      (some r.1, ⟨r.2, w.waiting.eraseIdx k⟩)
  | .addTimer ms cb recurring now addr =>
    let r := w.mgr.addTimer ms cb recurring now addr
    (some r.1, { w with mgr := r.2 })
  | .cancel id =>
    let r := w.mgr.cancel id
    (some r.1, { w with mgr := r.2 })

/-- the state after a step -/
def next (w : Gapped β) (a : Act β) : Gapped β := (w.step a).2

/-- `new` returns an address that no timer of the set has -/
def Ok (w : Gapped β) : Act β → Prop
  | .addTimer _ _ _ _ addr => ∀ id ∈ w.mgr.timers, (w.mgr.heap id).map Timer.addr ≠ some addr
  | .test _ | .body .. | .cancel _ => True

instance (w : Gapped β) : (a : Act β) → Decidable (w.Ok a)
  | .addTimer .. => inferInstanceAs (Decidable (∀ id ∈ w.mgr.timers, _))
  | .test _ | .body .. | .cancel _ => isTrue trivial

/-- a thread in the gap at `now` will leave timer `id` in the set: it recurs, or it is not due and the clock is right
-/
def Survives (s : TimerManager β) (now : UInt64) (id : ℕ) : Prop :=
  ∃ t ∈ s.heap id, t.recurring = true ∨ ((s.detectClockRollover now).1 = false ∧ now < t.next)

instance (s : TimerManager β) (now : UInt64) (id : ℕ) : Decidable (Survives s now id) :=
  inferInstanceAs (Decidable (∃ t ∈ s.heap id, _))

/-- the step does not take the last timer away from another thread in the gap -/
def Calm (w : Gapped β) : Act β → Prop
  | .cancel id => w.waiting ≠ [] → ∃ j ∈ w.mgr.timers, j ≠ id
  | .body k _ =>
    ∀ now ∈ w.waiting[k]?, w.waiting.eraseIdx k ≠ [] → ∃ id ∈ w.mgr.timers, Survives w.mgr now id
  | .test _ | .addTimer .. => True

instance (w : Gapped β) : (a : Act β) → Decidable (w.Calm a)
  | .cancel _ => inferInstanceAs (Decidable (_ → ∃ j ∈ w.mgr.timers, _))
  | .body k _ => Option.decidableForallMem w.waiting[k]?
  | .test _ | .addTimer .. => isTrue trivial

/-! ## What one step keeps -/

/-- the class invariant, and a timer for every thread in the gap to find -/
structure Inv (w : Gapped β) : Prop where
  mgr : TimerManager.Inv w.mgr
  found : w.waiting ≠ [] → w.mgr.timers ≠ []

/-- a timer that survives is in the set after the locked part -/
theorem survives_mem {s : TimerManager β} (h : TimerManager.Inv s) {now : UInt64} {id : ℕ} (hid : id ∈ s.timers)
    (hs : Survives s now id) (addr : ℕ) : id ∈ (s.listExpiredCb now addr).2.timers := by
  obtain ⟨t, ht, hkeep⟩ := hs
  have hne : s.timers ≠ [] := List.ne_nil_of_mem hid
  obtain ⟨-, hexp⟩ := expires_cut h (s.cut_append (s.detectClockRollover now).1 now) now
  rw [listExpiredCb_eq h hne]
  refine (hexp.mem id).mpr ⟨hid, ?_⟩
  rcases hkeep with hrec | ⟨hroll, hlate⟩
  · right
    rw [kind, ht, Option.map_some, hrec]
  · left
    intro hcut
    rw [mem_cut h, hroll, dueBy_iff] at hcut
    obtain ⟨-, hfalse | ⟨t', ht', hle⟩⟩ := hcut
    · cases hfalse
    · obtain rfl : t = t' := Option.some.inj (Eq.trans (Eq.symm ht) ht')
      rw [UInt64.lt_iff_toNat_lt] at hlate
      rw [UInt64.le_iff_toNat_le] at hle
      omega

/-- the locked part on a set that is not empty -/
theorem body_spec {s : TimerManager β} (h : TimerManager.Inv s) (hne : s.timers ≠ []) (now : UInt64) (addr : ℕ) :
    s.listExpiredCbLocked now addr = s.listExpiredCb now addr ∧ TimerManager.Inv (s.listExpiredCb now addr).2 ∧
      (s.listExpiredCb now addr).1 ≠ .fault := by
  obtain ⟨hinv, -, ids, -, -, hcbs, -⟩ := listExpiredCb_spec h now addr
  refine ⟨by rw [listExpiredCb, if_neg hne], hinv, ?_⟩
  rw [hcbs]
  intro hfault
  cases hfault

theorem step_inv {w : Gapped β} (h : w.Inv) {a : Act β} (hok : w.Ok a) (hcalm : w.Calm a) :
    (w.step a).2.Inv ∧ (w.step a).1 ≠ some .fault := by
  cases a with
  | test now =>
    simp only [step]
    split_ifs with hempty
    · exact ⟨h, nofun⟩
    · exact ⟨⟨h.mgr, fun _ => hempty⟩, nofun⟩
  | body k addr =>
    rw [step]
    rcases hk : w.waiting[k]? with - | now
    · exact ⟨h, nofun⟩
    have hne : w.mgr.timers ≠ [] := by
      apply h.found
      intro hnil
      rw [hnil] at hk
      cases hk
    obtain ⟨heq, hinv, hret⟩ := body_spec h.mgr hne now addr
    dsimp only
    rw [heq]
    refine ⟨⟨hinv, ?_⟩, fun hf => hret (Option.some.inj hf)⟩
    intro hothers
    obtain ⟨id, hid, hs⟩ := hcalm now hk hothers
    exact List.ne_nil_of_mem (survives_mem h.mgr hid hs addr)
  | addTimer ms cb recurring now addr =>
    obtain ⟨hinv, -, harmed, -, front, hret⟩ := addTimer_spec h.mgr ms cb recurring now hok
    refine ⟨⟨hinv, fun _ => ?_⟩, ?_⟩
    · have hmem : w.mgr.created ∈ (w.mgr.addTimer ms cb recurring now addr).2.timers := by
        rw [TimerManager.Inv.mem_timers hinv, harmed, Function.update_self]
        rfl
      exact List.ne_nil_of_mem hmem
    · simp only [step, hret]
      nofun
  | cancel id =>
    by_cases ha : w.mgr.armed id = none
    · simp only [step, cancel_none ha]
      exact ⟨h, nofun⟩
    · obtain ⟨hinv, hret, harmed, -⟩ := cancel_some h.mgr (Option.isSome_iff_ne_none.mpr ha)
      refine ⟨⟨hinv, fun hwait => ?_⟩, ?_⟩
      · obtain ⟨j, hj, hne⟩ := hcalm hwait
        have hmem : j ∈ (w.mgr.cancel id).2.timers := by
          rw [TimerManager.Inv.mem_timers hinv, harmed, Function.update_of_ne hne]
          exact (TimerManager.Inv.mem_timers h.mgr).mp hj
        exact List.ne_nil_of_mem hmem
      · simp only [step, hret]
        nofun

/-! ## Runs -/

/-- **Safe in the gap.** Any number of threads run `listExpiredCb`, `addTimer` and `cancel` in any order on a new
manager. If no step takes the last timer out of the set while another thread is between its two lock sections, no step
reads `*begin()` of an empty set. -/
theorem gap_safe (start : UInt64) (acts : List (Act β))
    (hrun : Along (fun w a => Ok w a ∧ Calm w a) next ⟨new start, []⟩ acts) :
    Along (fun w a => (step w a).1 ≠ some .fault) next ⟨new start, []⟩ acts := by
  have hstart : Inv (⟨new start, []⟩ : Gapped β) := ⟨inv_new start, fun hne => absurd rfl hne⟩
  have hinv : ∀ (w : Gapped β) (a : Act β), w.Ok a ∧ w.Calm a → w.Inv → (w.next a).Inv :=
    fun w a hok hw => (step_inv hw hok.1 hok.2).1
  have hsafe : ∀ (w : Gapped β) (a : Act β), w.Ok a ∧ w.Calm a → w.Inv → (w.step a).1 ≠ some .fault :=
    fun w a hok hw => (step_inv hw hok.1 hok.2).2
  exact (run_along hinv hsafe acts hstart hrun).1

/-- two threads see a recurring timer, and both may collect it -/
theorem gap_safe_recurring :
    Along (fun w a => (step w a).1 ≠ some .fault) next (⟨new 0, []⟩ : Gapped Unit)
      [.addTimer 10 () true 0 7, .test 20, .test 20, .body 0 1, .body 0 1] :=
  gap_safe 0 [.addTimer 10 () true 0 7, .test 20, .test 20, .body 0 1, .body 0 1] (by decide)

/-- two threads see a one-shot timer, the first collects it, and the second reads `*begin()` of the empty set; so it
is if the timer is cancelled instead -/
theorem gap_faults :
    let collect : List (Act Unit) := [.addTimer 10 () false 0 7, .test 20, .test 20, .body 0 1, .body 0 1]
    let cancel : List (Act Unit) := [.addTimer 10 () false 0 7, .test 20, .cancel 0, .body 0 1]
    Along Ok next ⟨new 0, []⟩ collect ∧ some .fault ∈ (runOut step ⟨new 0, []⟩ collect).1 ∧
      Along Ok next ⟨new 0, []⟩ cancel ∧ some .fault ∈ (runOut step ⟨new 0, []⟩ cancel).1 := by
  decide

end Gapped

end Sylar.TimerManager
