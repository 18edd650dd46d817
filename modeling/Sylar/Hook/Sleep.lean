/-
Hooked sleeps (`sleep`, `usleep` and `nanosleep` of `sylar/hook.cpp`).

Each of the three registers a timer that schedules the calling fiber again and yields. They differ in the arithmetic
on the way to `addTimer`: `sleep` multiplies in 32 bits, `usleep` divides and drops the rest, `nanosleep` does both in
64 bits and keeps the result in an `int`, which `addTimer` takes as a `uint64_t`.

- `never_early_iff`: the timer is due no sooner than the duration asked for, and so `listExpiredCb` hands the fiber
  out no sooner, iff the request loses nothing on that way (`InTime`).
- `usleep_early`: a sleep of 1 µs is due at once.
-/
import Mathlib.Tactic
import Sylar.Core.Words
import Sylar.Timer.Expiry

namespace Sylar.Hook

open Sylar.Core

variable {β : Type}

/-! ## The hooked calls

The result is that of `addTimer`, `none` where the original function is called. `schedule` is the bound
`schedule(fiber, -1)`. -/

def sleep (hook_enable : Bool) (timers : TimerManager β) (seconds : UInt32) (schedule : β) (now : UInt64) (addr : ℕ) :
    Option (TimerManager.Ret β × TimerManager β) :=
  if !hook_enable then none else some (timers.addTimer (seconds * 1000).toUInt64 schedule false now addr)

def usleep (hook_enable : Bool) (timers : TimerManager β) (usec : UInt32) (schedule : β) (now : UInt64) (addr : ℕ) :
    Option (TimerManager.Ret β × TimerManager β) :=
  if !hook_enable then none else some (timers.addTimer (usec / 1000).toUInt64 schedule false now addr)

/-- `tv_sec * 1000` is taken to wrap around; it does not where the duration is below 2^63 ms -/
def nanosleep (hook_enable : Bool) (timers : TimerManager β) (tv_sec tv_nsec : Int64) (schedule : β) (now : UInt64)
    (addr : ℕ) : Option (TimerManager.Ret β × TimerManager β) :=
  if !hook_enable then none
  else
    let timeout_ms : Int32 := (tv_sec * 1000 + tv_nsec / 1000 / 1000).toInt32
    some (timers.addTimer timeout_ms.toInt64.toUInt64 schedule false now addr)

/-! ## Requests -/

inductive Request where
  | sleep (seconds : UInt32)
  | usleep (usec : UInt32)
  | nanosleep (tv_sec tv_nsec : Int64)
deriving DecidableEq, Repr

/-- a valid `timespec` -/
def Request.Valid : Request → Prop
  | .sleep _ | .usleep _ => True
  | .nanosleep tv_sec tv_nsec => 0 ≤ tv_sec.toInt ∧ 0 ≤ tv_nsec.toInt ∧ tv_nsec.toInt < 10 ^ 9

instance : (r : Request) → Decidable r.Valid
  | .sleep _ | .usleep _ => isTrue trivial
  | .nanosleep _ _ => inferInstanceAs (Decidable (_ ∧ _))

/-- what is asked for, in nanoseconds -/
def Request.nanoseconds : Request → ℕ
  | .sleep seconds => seconds.toNat * 10 ^ 9
  | .usleep usec => usec.toNat * 10 ^ 3
  | .nanosleep tv_sec tv_nsec => tv_sec.toInt.toNat * 10 ^ 9 + tv_nsec.toInt.toNat

/-- in milliseconds, rounded up -/
def Request.duration (r : Request) : ℕ := (r.nanoseconds + (10 ^ 6 - 1)) / 10 ^ 6

def Request.call (r : Request) (hook_enable : Bool) (timers : TimerManager β) (schedule : β) (now : UInt64) (addr : ℕ) :
    Option (TimerManager.Ret β × TimerManager β) :=
  match r with
  | .sleep seconds => Hook.sleep hook_enable timers seconds schedule now addr
  | .usleep usec => Hook.usleep hook_enable timers usec schedule now addr
  | .nanosleep tv_sec tv_nsec => Hook.nanosleep hook_enable timers tv_sec tv_nsec schedule now addr

/-- what the hooked call passes to `addTimer` -/
def Request.ms : Request → UInt64
  | .sleep seconds => (seconds * 1000).toUInt64
  | .usleep usec => (usec / 1000).toUInt64
  | .nanosleep tv_sec tv_nsec => (tv_sec * 1000 + tv_nsec / 1000 / 1000).toInt32.toInt64.toUInt64

theorem call_eq (r : Request) (timers : TimerManager β) (schedule : β) (now : UInt64) (addr : ℕ) :
    r.call true timers schedule now addr = some (timers.addTimer r.ms schedule false now addr) := by
  cases r <;> rfl

/-- the call registers a timer that is due at `due` or later; and as long as nobody moves it, a `listExpiredCb` that
sees no rollover of the clock does not emit it before `due` -/
def NeverEarly (r : Option (TimerManager.Ret β × TimerManager β)) (due : ℕ) : Prop :=
  ∃ id front timers, r = some (.added id front, timers) ∧ (∃ t, timers.heap id = some t ∧ due ≤ t.next.toNat) ∧
    ∀ ops, timers.Admissible ops → (∀ o ∈ ops, o.moves id = false) → ∀ now addr cbs,
      ((timers.history ops).2.detectClockRollover now).1 = false →
        ((timers.history ops).2.listExpiredCb now addr).1 = .cbs cbs → id ∈ cbs.map Prod.fst → due ≤ now.toNat

/-- the request comes to whole milliseconds, and to few enough: less than 2^32 for `sleep`, less than 2^31 for
`nanosleep`. A `nanosleep` that fails this may still turn out as a negative `int`, which on a clock that is nearly 0
is a due time near 2^64. -/
def Request.InTime (now : UInt64) : Request → Prop
  | .sleep seconds => seconds.toNat * 1000 < 2 ^ 32
  | .usleep usec => usec.toNat % 1000 = 0
  | .nanosleep tv_sec tv_nsec =>
    let ms := tv_sec.toInt * 1000 + tv_nsec.toInt / 10 ^ 6
    (ms < 2 ^ 31 ∧ tv_nsec.toInt % 10 ^ 6 = 0) ∨ (2 ^ 31 ≤ ms % 2 ^ 32 ∧ (now.toNat : ℤ) + ms % 2 ^ 32 < 2 ^ 32)

/-! ## The due time -/

/-- an `int` as a `uint64_t` -/
theorem toNat_int_toUInt64 (x : Int64) : (x.toInt32.toInt64.toUInt64.toNat : ℤ) = x.toInt.bmod (2 ^ 32) % 2 ^ 64 := by
  rw [toNat_toUInt64, Int32.toInt_toInt64, Int64.toInt_toInt32]

/-- the sum that `nanosleep` narrows, below 2^63 ms -/
theorem nanosleep_ms {tv_sec tv_nsec : Int64} (h0 : 0 ≤ tv_sec.toInt) (h1 : 0 ≤ tv_nsec.toInt)
    (hfit : tv_sec.toInt * 1000 + tv_nsec.toInt / 10 ^ 6 < 2 ^ 63) :
    (tv_sec * 1000 + tv_nsec / 1000 / 1000).toInt = tv_sec.toInt * 1000 + tv_nsec.toInt / 10 ^ 6 := by
  have hthousand : (1000 : Int64).toInt = 1000 := by decide
  have hdiv : (tv_nsec / 1000).toInt = tv_nsec.toInt / 1000 := by
    rw [toInt_div_of_nonneg h1 (by rw [hthousand]; norm_num), hthousand]
  have hdiv2 : (tv_nsec / 1000 / 1000).toInt = tv_nsec.toInt / 10 ^ 6 := by
    rw [toInt_div_of_nonneg (by rw [hdiv]; omega) (by rw [hthousand]; norm_num), hdiv, hthousand,
      Int.ediv_ediv_of_nonneg (by norm_num)]
    norm_num
  have hmul : (tv_sec * 1000).toInt = tv_sec.toInt * 1000 := by
    rw [toInt_mul_of_fits, hthousand]
    rw [hthousand]
    exact ⟨by omega, by omega⟩
  rw [toInt_add_of_fits, hmul, hdiv2]
  rw [hmul, hdiv2]
  exact ⟨by omega, hfit⟩

theorem duration_sleep (seconds : UInt32) : (Request.sleep seconds).duration = seconds.toNat * 1000 := by
  simp only [Request.duration, Request.nanoseconds]
  omega

theorem duration_usleep (usec : UInt32) : (Request.usleep usec).duration = (usec.toNat + 999) / 1000 := by
  simp only [Request.duration, Request.nanoseconds]
  omega

theorem duration_nanosleep {tv_sec tv_nsec : Int64} (h0 : 0 ≤ tv_sec.toInt) (h1 : 0 ≤ tv_nsec.toInt) :
    ((Request.nanosleep tv_sec tv_nsec).duration : ℤ) = tv_sec.toInt * 1000 + (tv_nsec.toInt + 999999) / 10 ^ 6 := by
  simp only [Request.duration, Request.nanoseconds]
  omega

/-- a sum of words that does not wrap around -/
theorem due_iff_of_fit {now ms : UInt64} {n d : ℕ} (hms : ms.toNat = n) (hn : now.toNat + n < 2 ^ 64) :
    now.toNat + d ≤ (now + ms).toNat ↔ d ≤ n := by
  rw [UInt64.toNat_add, hms, Nat.mod_eq_of_lt hn]
  exact Nat.add_le_add_iff_left

/-- **The due time**, `now + ms` in 64 bits, is no sooner than the duration from `now` iff the request is in time. -/
theorem next_iff {r : Request} (hvalid : r.Valid) {now : UInt64} (hfit : now.toNat + r.duration < 2 ^ 63) :
    now.toNat + r.duration ≤ (now + r.ms).toNat ↔ r.InTime now := by
  cases r with
  | sleep seconds =>
    have hms : (Request.sleep seconds).ms.toNat = seconds.toNat * 1000 % 2 ^ 32 := by
      simp [Request.ms]
    rw [duration_sleep] at hfit ⊢
    rw [due_iff_of_fit hms (by omega), Request.InTime]
    omega
  | usleep usec =>
    have hms : (Request.usleep usec).ms.toNat = usec.toNat / 1000 := by
      simp [Request.ms]
    rw [duration_usleep] at hfit ⊢
    rw [due_iff_of_fit hms (by omega), Request.InTime]
    omega
  | nanosleep tv_sec tv_nsec =>
    obtain ⟨h0, h1, h2⟩ := hvalid
    have hd := duration_nanosleep h0 h1
    set ms := tv_sec.toInt * 1000 + tv_nsec.toInt / 10 ^ 6 with hmsdef
    have hms : ((Request.nanosleep tv_sec tv_nsec).ms.toNat : ℤ) = ms.bmod (2 ^ 32) % 2 ^ 64 := by
      rw [Request.ms, toNat_int_toUInt64, nanosleep_ms h0 h1 (by omega)]
    rw [Int.bmod_def] at hms
    rw [UInt64.toNat_add, Request.InTime]
    omega

/-! ## The fiber -/

section
variable {timers : TimerManager β} {schedule : β} {now : UInt64} {addr : ℕ}

/-- what the call leaves: a one-shot timer under the next handle -/
theorem call_registers (r : Request) (h : timers.Inv)
    (hfresh : (TimerManager.Op.addTimer r.ms schedule false now addr).Ok timers) :
    ∃ front timers', r.call true timers schedule now addr = some (.added timers.created front, timers') ∧ timers'.Inv ∧
      timers'.OneShot timers.created (now + r.ms) := by
  refine ⟨_, (timers.addTimer r.ms schedule false now addr).2, call_eq r timers schedule now addr, ?_, ?_⟩
  · exact (TimerManager.addTimer_spec h r.ms schedule false now hfresh).1
  · exact ⟨_, by rw [TimerManager.addTimer_heap, Function.update_self], rfl, rfl⟩

/-- all that matters is the due time of the timer -/
theorem neverEarly_iff_next (r : Request) (h : timers.Inv)
    (hfresh : (TimerManager.Op.addTimer r.ms schedule false now addr).Ok timers) (due : ℕ) :
    NeverEarly (r.call true timers schedule now addr) due ↔ due ≤ (now + r.ms).toNat := by
  obtain ⟨front, timers', hcall, hinv, hshot⟩ := call_registers r h hfresh
  constructor
  · rintro ⟨id, front', timers'', hcall', ⟨t, ht, hle⟩, -⟩
    rw [hcall] at hcall'
    obtain ⟨⟨rfl, -⟩, rfl⟩ : (timers.created = id ∧ front = front') ∧ timers' = timers'' := by simpa using hcall'
    obtain ⟨t', ht', -, hnext⟩ := hshot
    obtain rfl : t' = t := Option.some.inj (ht'.symm.trans ht)
    rwa [hnext] at hle
  · intro hle
    obtain ⟨t, ht, -, hnext⟩ := id hshot
    refine ⟨timers.created, front, timers', hcall, ⟨t, ht, by rwa [hnext]⟩, ?_⟩
    intro ops hok hmoves now' addr' cbs hroll hcbs hid
    obtain ⟨hinv', t', ht', -, hnext'⟩ := TimerManager.history_oneShot hinv hshot hok hmoves
    obtain ⟨u, hu, hdue⟩ := TimerManager.due_of_emitted hinv' hroll hcbs hid
    obtain rfl : t' = u := Option.some.inj (ht'.symm.trans hu)
    rw [hnext'] at hdue
    exact hle.trans (UInt64.le_iff_toNat_le.mp hdue)

end

/-- **Hooked sleeps.** For every valid request in every reachable state of the timers, with the clock and the duration
together below 2^63 ms: the sleep never ends early iff the request is in time. -/
theorem never_early_iff (start : UInt64) (ops : List (TimerManager.Op β))
    (hok : (TimerManager.new start).Admissible ops) (r : Request) (hvalid : r.Valid) (schedule : β) (now : UInt64)
    (addr : ℕ) :
    let timers := ((TimerManager.new start).history ops).2
    (TimerManager.Op.addTimer r.ms schedule false now addr).Ok timers → now.toNat + r.duration < 2 ^ 63 →
      (NeverEarly (r.call true timers schedule now addr) (now.toNat + r.duration) ↔ r.InTime now) := by
  intro timers hfresh hfit
  have h : timers.Inv := (TimerManager.run_refines ops (TimerManager.inv_new start) hok).1
  rw [neverEarly_iff_next r h hfresh]
  exact next_iff hvalid hfit

/-- a `nanosleep` of 2.5 s, next to a timer that is pending -/
theorem never_early_iff_nanosleep :
    let timers := ((TimerManager.new 5000).history [.addTimer 100 () true 5000 0]).2
    let r : Request := .nanosleep 2 500000000
    NeverEarly (r.call true timers () 5000 1) 7500 ↔ r.InTime 5000 :=
  never_early_iff 5000 [.addTimer 100 () true 5000 0] (by decide) (.nanosleep 2 500000000) (by decide) () 5000 1 (by decide)
    (by decide)

/-- **A sleep of 1 µs** is due at once, and so ends early. -/
theorem usleep_early :
    (5000 : UInt64).toNat + (Request.usleep 1).duration < 2 ^ 63 ∧
      ¬NeverEarly ((Request.usleep 1).call true (TimerManager.new 5000) () 5000 1)
        ((5000 : UInt64).toNat + (Request.usleep 1).duration) := by
  refine ⟨by decide, ?_⟩
  rw [neverEarly_iff_next _ (TimerManager.inv_new 5000) (by decide)]
  decide

end Sylar.Hook
