/-
How long the event loop sleeps: the timeout of `epoll_wait` in `IOManager::idle`, and `getNextTimer` behind it.

`getNextTimer` gives the distance to the first timer as a `uint64_t`. `idle` cuts it down to `MAX_TIMEOUT` and passes
it on as an `int`, but the comparison already goes through `(int)`: a distance of 2^31 is negative there, is not cut
down and makes `epoll_wait` wait without an end, and one of 2^32 becomes 0.

- `rounds_iff`: the distances whose timeouts are sound.
- `agrees_distance`: `listExpiredCb` fires nothing before the distance has passed and something when it has.
- `idle_timeout_iff`: both together, for every timer set and every clock reading.
- `idle_sleeps_or_spins`: a timer 2^31 ms and one 2^32 ms away.
-/
import Mathlib.Tactic
import Sylar.Timer.Model
import Sylar.Timer.Invariant
import Sylar.Timer.Expiry
import Sylar.Http.Stream

namespace Sylar.Idle

open Sylar.Core Sylar.TimerManager
open Sylar.Http (toInt32)

variable {β : Type}

/-! ## The timeout -/

/-- `MAX_TIMEOUT` -/
def maxTimeout : UInt64 := 3000

/-- the value given to `next_timeout` in each round of the inner loop -/
def limitTimeout (next_timeout : UInt64) : UInt64 :=
  if next_timeout ≠ ~~~0 then
    if toInt32 next_timeout.toNat > maxTimeout.toNat then maxTimeout else next_timeout
  else maxTimeout

/-- the timeouts of the calls of `epoll_wait`; `eintr` says of each call whether it was interrupted -/
def rounds (next_timeout : UInt64) : List Bool → List ℤ
  | [] => []
  | interrupted :: eintr =>
    let next_timeout := limitTimeout next_timeout
    toInt32 next_timeout.toNat :: if interrupted then rounds next_timeout eintr else []

/-- `stopping(timeout)`; `quiet` is `m_pendingEventCount == 0 && Scheduler::stopping()` -/
def stopping (timeout : UInt64) (quiet : Bool) : Bool := decide (timeout = ~~~0) && quiet

/-- the calls of `epoll_wait` in one round of `idle()`, none if the loop is left -/
def idleRounds (next_timeout : UInt64) (quiet : Bool) (eintr : List Bool) : List ℤ :=
  if stopping next_timeout quiet && decide (next_timeout = ~~~0) then [] else rounds next_timeout eintr

/-- a retry after `EINTR` does not change the timeout -/
theorem limitTimeout_idem (d : UInt64) : limitTimeout (limitTimeout d) = limitTimeout d := by
  have hmax : limitTimeout maxTimeout = maxTimeout := by decide
  by_cases hnone : d ≠ ~~~0
  · by_cases hlong : toInt32 d.toNat > maxTimeout.toNat
    · have : limitTimeout d = maxTimeout := by rw [limitTimeout, if_pos hnone, if_pos hlong]
      rw [this, hmax]
    · have : limitTimeout d = d := by rw [limitTimeout, if_pos hnone, if_neg hlong]
      rw [this, this]
  · have : limitTimeout d = maxTimeout := by rw [limitTimeout, if_neg hnone]
    rw [this, hmax]

theorem mem_rounds {d : UInt64} {eintr : List Bool} {t : ℤ} (h : t ∈ rounds d eintr) :
    t = toInt32 (limitTimeout d).toNat := by
  induction eintr generalizing d with
  | nil => cases h
  | cons interrupted eintr ih =>
    rcases List.mem_cons.mp h with rfl | h
    · rfl
    · split_ifs at h
      · rw [ih h, limitTimeout_idem]
      · cases h

/-- the timeout, as a function of the distance -/
theorem toInt32_limitTimeout (d : UInt64) :
    toInt32 (limitTimeout d).toNat = if d = ~~~0 then 3000 else min 3000 (toInt32 d.toNat) := by
  have hmax : toInt32 maxTimeout.toNat = 3000 := by decide
  have hcmp : (maxTimeout.toNat : ℤ) = 3000 := by decide
  unfold limitTimeout
  by_cases hnone : d = ~~~0
  · rw [if_neg (not_not.mpr hnone), if_pos hnone, hmax]
  · rw [if_pos hnone, if_neg hnone, hcmp]
    split_ifs with hlong
    · rw [hmax, min_eq_left (le_of_lt hlong)]
    · rw [min_eq_right (not_lt.mp hlong)]

/-- the timeout is in range, does not outlast the distance, and is 0 only for the distance 0 -/
def SoundTimeout (d : UInt64) (t : ℤ) : Prop := 0 ≤ t ∧ t ≤ 3000 ∧ t ≤ d.toNat ∧ (t = 0 → d = 0)

/-- the distances that are not damaged on their way through `int` -/
def Representable (d : UInt64) : Prop := d = 0 ∨ d = ~~~0 ∨ 0 < d.toNat % 2 ^ 32 ∧ d.toNat % 2 ^ 32 < 2 ^ 31

instance (d : UInt64) : Decidable (Representable d) := inferInstanceAs (Decidable (_ ∨ _ ∨ _ ∧ _))

theorem soundTimeout_iff (d : UInt64) : SoundTimeout d (toInt32 (limitTimeout d).toNat) ↔ Representable d := by
  have hzero : d = 0 ↔ d.toNat = 0 := UInt64.toNat_inj.symm
  rw [toInt32_limitTimeout]
  unfold SoundTimeout Representable
  by_cases hnone : d = ~~~0
  · subst hnone
    decide
  · rw [if_neg hnone, hzero]
    simp only [hnone, false_or]
    unfold toInt32
    omega

/-- **The sound distances.** Every call of `epoll_wait` in a round of `idle()` gets a sound timeout, whatever
interrupts it and whether the manager is stopping, iff the distance is representable. -/
theorem rounds_iff (d : UInt64) :
    (∀ quiet eintr, ∀ t ∈ idleRounds d quiet eintr, SoundTimeout d t) ↔ Representable d := by
  rw [← soundTimeout_iff]
  constructor
  · intro h
    apply h false [false]
    simp [idleRounds, stopping, rounds]
  · intro h quiet eintr t ht
    unfold idleRounds at ht
    split_ifs at ht
    · cases ht
    · rwa [mem_rounds ht]

/-! ## The distance -/

/-- the distance `getNextTimer` computes -/
def distance (t : Timer β) (now : UInt64) : UInt64 := if now ≥ t.next then 0 else t.next - now

theorem getNextTimer_nil {s : TimerManager β} (hnil : s.timers = []) (now : UInt64) :
    s.getNextTimer now = (.next (~~~0), { s with tickled := false }) := by
  simp only [getNextTimer, hnil]

theorem getNextTimer_cons {s : TimerManager β} {front : ℕ} {rest : List ℕ} {t : Timer β}
    (hcons : s.timers = front :: rest) (ht : s.heap front = some t) (now : UInt64) :
    s.getNextTimer now = (.next (distance t now), { s with tickled := false }) := by
  simp only [getNextTimer, hcons, ht, distance]

theorem distance_add (t : Timer β) (now : UInt64) :
    (t.next ≤ now ∧ distance t now = 0) ∨ (now < t.next ∧ distance t now = t.next - now ∧ now + distance t now = t.next) := by
  unfold distance
  by_cases hdue : t.next ≤ now
  · exact .inl ⟨hdue, if_pos hdue⟩
  · rw [if_neg hdue]
    refine .inr ⟨UInt64.not_le.mp hdue, rfl, ?_⟩
    rw [UInt64.add_comm]
    exact UInt64.sub_add_cancel t.next now

/-- without a rollover, no callback before the first due time -/
theorem listExpiredCb_before {s : TimerManager β} (h : Inv s) {front : ℕ} {rest : List ℕ} {t : Timer β}
    (hcons : s.timers = front :: rest) (ht : s.heap front = some t) {now : UInt64} (addr : ℕ)
    (hroll : (s.detectClockRollover now).1 = false) (hlt : now < t.next) : (s.listExpiredCb now addr).1 = .cbs [] := by
  have hcut : (s.cut (s.detectClockRollover now).1 now).1 = [] := by
    apply List.eq_nil_iff_forall_not_mem.mpr
    intro id hid
    rw [hroll, mem_cut h] at hid
    obtain ⟨hmem, hor⟩ := hid
    obtain ⟨u, hu, hle⟩ := dueBy_iff.mp (hor.resolve_left Bool.false_ne_true)
    exact absurd (UInt64.le_trans (first_next_le h hcons ht hmem hu) hle) (UInt64.not_le.mpr hlt)
  rw [listExpiredCb_eq h (by rw [hcons]; exact List.cons_ne_nil _ _)]
  dsimp only
  rw [hcut]
  rfl

/-- without a rollover, a callback from the first due time on -/
theorem listExpiredCb_due {s : TimerManager β} (h : Inv s) {front : ℕ} {rest : List ℕ} {t : Timer β}
    (hcons : s.timers = front :: rest) (ht : s.heap front = some t) {now : UInt64} (addr : ℕ)
    (hle : t.next ≤ now) : ∃ cbs, (s.listExpiredCb now addr).1 = .cbs cbs ∧ cbs ≠ [] := by
  have hfront : front ∈ (s.cut (s.detectClockRollover now).1 now).1 := by
    rw [mem_cut h, hcons]
    exact ⟨List.mem_cons_self, .inr (dueBy_iff.mpr ⟨t, ht, hle⟩)⟩
  obtain ⟨hcbs, -⟩ := expires_cut h (s.cut_append (s.detectClockRollover now).1 now) now
  rw [listExpiredCb_eq h (by rw [hcons]; exact List.cons_ne_nil _ _)]
  refine ⟨_, rfl, ?_⟩
  rw [hcbs]
  exact List.ne_nil_of_mem (List.mem_map_of_mem hfront)

/-- with the answer `d` of `getNextTimer` at `now`, and no call in between: nothing fires before `now + d`, and
something does at `now + d` -/
structure Agrees (s : TimerManager β) (now d : UInt64) : Prop where
  /-- for `d = 0` there is no such instant from `now` on -/
  before : d ≠ 0 → ∀ now' addr, (s.detectClockRollover now').1 = false → now' < now + d →
    (s.listExpiredCb now' addr).1 = .cbs []
  due : ∀ addr, (s.detectClockRollover (now + d)).1 = false →
    ∃ cbs, (s.listExpiredCb (now + d) addr).1 = .cbs cbs ∧ cbs ≠ []

theorem agrees_distance {s : TimerManager β} (h : Inv s) {front : ℕ} {rest : List ℕ} {t : Timer β}
    (hcons : s.timers = front :: rest) (ht : s.heap front = some t) (now : UInt64) : Agrees s now (distance t now) := by
  rcases distance_add t now with ⟨hdue, hzero⟩ | ⟨-, -, hadd⟩
  · refine ⟨fun hne => absurd hzero hne, fun addr _ => ?_⟩
    rw [hzero, UInt64.add_zero]
    exact listExpiredCb_due h hcons ht addr hdue
  · constructor
    · intro _ now' addr hroll hlt
      rw [hadd] at hlt
      exact listExpiredCb_before h hcons ht addr hroll hlt
    · intro addr _
      rw [hadd]
      exact listExpiredCb_due h hcons ht addr (UInt64.le_refl _)

/-- the distance to the first timer, if there is one and it is not due, is representable -/
def FirstRepresentable (s : TimerManager β) (now : UInt64) : Prop :=
  ∀ front ∈ s.timers.head?, ∀ t ∈ s.heap front, t.next ≤ now ∨ Representable (t.next - now)

theorem representable_distance (t : Timer β) (now : UInt64) :
    Representable (distance t now) ↔ t.next ≤ now ∨ Representable (t.next - now) := by
  rcases distance_add t now with ⟨hdue, hzero⟩ | ⟨hlt, hsub, -⟩
  · rw [hzero]
    exact iff_of_true (.inl rfl) (.inl hdue)
  · rw [hsub]
    exact ⟨.inr, fun hor => hor.resolve_left (UInt64.not_le.mpr hlt)⟩

/-- **The event loop neither oversleeps nor spins**, for every timer set and every clock reading, iff the distance to
the first timer is representable: every timeout of `epoll_wait` is in [0, 3000], at most the answer `d` of
`getNextTimer`, and 0 only if `d` is; and unless `d` says that there is no timer, `listExpiredCb` fires nothing before
`now + d` and something at `now + d`. -/
theorem idle_timeout_iff (s : TimerManager β) (h : Inv s) (now : UInt64) :
    ∃ d, (s.getNextTimer now).1 = .next d ∧
      ((∀ quiet eintr, ∀ t ∈ idleRounds d quiet eintr, SoundTimeout d t) ∧
          (d ≠ ~~~0 → Agrees (s.getNextTimer now).2 now d) ↔
        FirstRepresentable s now) := by
  cases hcons : s.timers with
  | nil =>
    rw [getNextTimer_nil hcons]
    refine ⟨~~~0, rfl, ?_⟩
    rw [rounds_iff]
    refine iff_of_true ⟨.inr (.inl rfl), fun hne => absurd rfl hne⟩ fun front hfront => ?_
    rw [hcons] at hfront
    cases hfront
  | cons front rest =>
    have hmem : front ∈ s.timers := by
      rw [hcons]
      exact List.mem_cons_self
    obtain ⟨t, -, ht, -⟩ := h.object (.inl hmem)
    rw [getNextTimer_cons hcons ht]
    refine ⟨distance t now, rfl, ?_⟩
    have hagrees : Agrees { s with tickled := false } now (distance t now) :=
      agrees_distance (InvOut.tickled h false) hcons ht now
    have hfirst : FirstRepresentable s now ↔ t.next ≤ now ∨ Representable (t.next - now) := by
      simp [FirstRepresentable, hcons, ht]
    rw [rounds_iff, hfirst, representable_distance]
    exact ⟨fun hand => hand.1, fun hrep => ⟨hrep, fun _ => hagrees⟩⟩

/-- a timer 5 s away: `epoll_wait` gets 3 s -/
theorem idle_timeout_iff_five_seconds :
    let s := ((new 1000 : TimerManager Unit).addTimer 5000 () false 1000 0).2
    idleRounds 5000 false [true, false] = [3000, 3000] ∧
      ∃ d, (s.getNextTimer 1000).1 = .next d ∧
        ((∀ quiet eintr, ∀ t ∈ idleRounds d quiet eintr, SoundTimeout d t) ∧
          (d ≠ ~~~0 → Agrees (s.getNextTimer 1000).2 1000 d) ↔ FirstRepresentable s 1000) := by
  intro s
  have hinv : Inv s := (addTimer_spec (inv_new 1000) 5000 () false 1000 nofun).1
  exact ⟨by decide, idle_timeout_iff s hinv 1000⟩

/-- **The event loop can sleep without an end and spin.** With a timer 2^31 ms away `epoll_wait` gets a negative
timeout, and with one 2^32 ms away it gets 0. -/
theorem idle_sleeps_or_spins :
    let far (ms : UInt64) := ((new 1000 : TimerManager Unit).addTimer ms () false 1000 0).2
    ((far 2147483648).getNextTimer 1000).1 = .next 2147483648 ∧
      idleRounds 2147483648 false [false] = [-2147483648] ∧ ¬SoundTimeout 2147483648 (-2147483648) ∧
      ((far 4294967296).getNextTimer 1000).1 = .next 4294967296 ∧
      idleRounds 4294967296 false [false] = [0] ∧ ¬SoundTimeout 4294967296 0 := by
  refine ⟨by decide, by decide, ?_, by decide, by decide, ?_⟩
  · exact fun hsound => absurd hsound.1 (by decide)
  · exact fun hsound => absurd (hsound.2.2.2 rfl) (by decide)

end Sylar.Idle
