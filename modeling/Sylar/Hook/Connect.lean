/-
`connect_with_timeout` (`sylar/hook.cpp`): connecting with a time limit, beside everything `do_io` races with.

A connect that is under way waits as `do_io` does: the same condition timer, `addEvent` for `WRITE`, `YieldToHold`,
`timer->cancel()` and the test of `tinfo->cancelled`. So the machine here is the one of `Hook/DoIo` (`io`), in which a
connect takes a place of its own among the calls, with a second program counter (`ConnectPhase`) for what differs: one
system call that is not repeated, a failed `addEvent` that does not end the call, and `getsockopt(SO_ERROR)` at the end
in place of another try. Any number of connects and of other blocking calls are under way at once.

- `connect_blocking`: in every run, a connect that has returned has returned what `connect` or `SO_ERROR` said, or
  `ETIMEDOUT` after the callback of a timer of its own; none of its timers and no registration is left; until then it
  waits or can go on. The other calls are as `do_io_blocking` says also beside connects.
- `connected_without_waiting`: what the failed `addEvent` does: the fiber does not wait, `SO_ERROR` of a connection still
  being made is 0, and the call reports success.
-/
import Mathlib.Tactic
import Sylar.Core.Run
import Sylar.Timer.Model
import Sylar.Timer.Invariant
import Sylar.IOManager.Events
import Sylar.IOManager.Contexts
import Sylar.IOManager.Resumption
import Sylar.Hook.Flags
import Sylar.Hook.DoIo
import Sylar.Hook.Blocking

namespace Sylar.Hook

open Sylar.Core IOManager

def EINPROGRESS : ℕ := 115

/-- what `connect_with_timeout` does before it calls `connect_f` to wait for it -/
def connectEntry (hook_enable : Bool) (ctx : Option FdCtx) (timeout_ms : UInt64) : Entry :=
  if !hook_enable then .direct
  else
    match ctx with
    | none => .closed
    | some ctx =>
      if ctx.isClosed then .closed
      else if !ctx.isSocket then .direct
      else if ctx.userNonblock then .direct
      else .loop timeout_ms

/-- why it returned; for `SO_ERROR`, whether the fiber has waited, and the answer of `getsockopt` -/
inductive ConnectWhy where
  | syscall
  | timeout
  | sockError (waited : Bool) (error : Option ℕ)
deriving DecidableEq, Repr

structure ConnectResult where
  n : ℤ
  errno : Option ℕ
  why : ConnectWhy
deriving DecidableEq, Repr

/-- where a connect is; in `pending` the place of the call in `io` says more -/
inductive ConnectPhase where
  | idle
  /-- before `connect_f` -/
  | connecting
  /-- `EINPROGRESS`: from the timer to the test of `tinfo->cancelled` -/
  | pending
  /-- before `getsockopt` -/
  | sockError (waited : Bool)
  | returned (r : ConnectResult)
deriving DecidableEq, Repr

structure ConnectSt where
  io : St
  conn : ℕ → ConnectPhase

def ConnectSt.start (now : UInt64) : ConnectSt := ⟨Hook.start now, fun _ => .idle⟩

inductive ConnectLabel where
  /-- a step of the rest: the other calls, the timers, the contexts, and what a connect does as `do_io` does -/
  | io (l : Label)
  | connect (k : ℕ) (hook_enable : Bool) (ctx : Option FdCtx) (timeout_ms : UInt64)
  /-- `connect_f` returns -/
  | connectF (k : ℕ) (n : ℤ) (errno : ℕ)
  /-- `timer->cancel()`, after the wait or after a failed `addEvent` -/
  | cancelTimer (k : ℕ)
  /-- the test of `tinfo->cancelled` -/
  | check (k : ℕ)
  /-- `getsockopt` answers; `none` if it fails -/
  | getsockopt (k : ℕ) (error : Option ℕ)

/-- a step of `do_io` that `connect_with_timeout` does not have -/
def Label.drives (conn : ℕ → ConnectPhase) : Label → Bool
  | .enter k .. | .sys k .. | .cancelTimer k | .check k => conn k ≠ .idle
  | _ => false

def ConnectSt.goto (s : ConnectSt) (k : ℕ) (io : St) (p : ConnectPhase) : ConnectSt := ⟨io, Function.update s.conn k p⟩

/-- `tinfo` goes out of scope; what the call returns is kept in `conn`, and its place in `io` holds no result of its own -/
def ConnectSt.leave (s : ConnectSt) (k : ℕ) (r : ConnectResult) : ConnectSt :=
  s.goto k (s.io.goto k (.returned { n := 0, errno := some 0, why := .syscall })) (.returned r)

/-- what `getsockopt(SO_ERROR)` makes the call return -/
def sockErrorResult (waited : Bool) (error : Option ℕ) : ConnectResult :=
  match error with
  | none => { n := -1, errno := none, why := .sockError waited none }
  | some 0 => { n := 0, errno := none, why := .sockError waited (some 0) }
  | some e => { n := -1, errno := some e, why := .sockError waited (some e) }

def ConnectSt.stepAlive (s : ConnectSt) : ConnectLabel → ConnectSt
  | .io l => if l.drives s.conn then s else { s with io := Hook.stepAlive s.io l }
  | .connect k hook_enable ctx timeout_ms =>
    match s.conn k, (s.io.calls k).phase, connectEntry hook_enable ctx timeout_ms with
    | .idle, .idle, .loop ms =>
      s.goto k (s.io.setCall k { phase := .retry, fd := ctx.elim 0 FdCtx.fd, event := .write, ms := ms }) .connecting
    | _, _, _ => s
  | .connectF k n errno =>
    match s.conn k with
    | .connecting =>
      if n = -1 ∧ errno = EINPROGRESS then s.goto k (s.io.goto k .blocked) .pending
      else s.leave k { n := n, errno := some errno, why := .syscall }
    | _ => s
  | .cancelTimer k =>
    match s.conn k, (s.io.calls k).phase with
    | .pending, .woken timer => s.goto k ((s.io.cancelTimer timer).goto k .checking) .pending
    -- the message, and on to `getsockopt`
    | .pending, .failing timer => s.goto k ((s.io.cancelTimer timer).goto k .retry) (.sockError false)
    | _, _ => s
  | .check k =>
    match s.conn k, (s.io.calls k).phase with
    | .pending, .checking =>
      if (s.io.calls k).cancelled then
        s.goto k (s.io.goto k (.returned { n := -1, errno := some ETIMEDOUT, why := .timeout }))
          (.returned { n := -1, errno := some ETIMEDOUT, why := .timeout })
      else s.goto k (s.io.goto k .retry) (.sockError true)
    | _, _ => s
  | .getsockopt k error =>
    match s.conn k with
    | .sockError waited => s.leave k (sockErrorResult waited error)
    | _ => s

def ConnectSt.step (s : ConnectSt) (l : ConnectLabel) : ConnectSt := if s.io.gone then s else s.stepAlive l

/-- `new` returns an address that no timer of the set has -/
def ConnectSt.Ok (s : ConnectSt) : ConnectLabel → Prop
  | .io l => Hook.Ok s.io l
  | _ => True

instance (s : ConnectSt) : (l : ConnectLabel) → Decidable (s.Ok l)
  | .io l => inferInstanceAs (Decidable (Hook.Ok s.io l))
  | .connect .. | .connectF .. | .cancelTimer _ | .check _ | .getsockopt .. => isTrue trivial

/-! ## The two program counters -/

/-- the places of a connect that waits -/
def Phase.pending : Phase → Bool
  | .blocked | .armed _ | .waiting _ | .woken _ | .failing _ | .checking => true
  | _ => false

/-- how the two program counters of a connect go together -/
def ConnectPhase.Fits (p : ConnectPhase) (c : CallSt) : Prop :=
  match p with
  | .idle => True
  | .connecting => c.phase = .retry
  | .pending => c.phase.pending = true
  | .sockError _ => c.phase = .retry
  | .returned r =>
    if r.why = .timeout then
      r.n = -1 ∧ r.errno = some ETIMEDOUT ∧ c.phase = .returned { n := -1, errno := some ETIMEDOUT, why := .timeout }
    else c.phase = .returned { n := 0, errno := some 0, why := .syscall }

/-- what `connect_with_timeout` may return without a timeout -/
def ConnectResult.Lawful (r : ConnectResult) : Prop :=
  match r.why with
  | .syscall => ∃ errno, r.errno = some errno ∧ ¬(r.n = -1 ∧ errno = EINPROGRESS)
  | .timeout => r.n = -1 ∧ r.errno = some ETIMEDOUT
  | .sockError _ error => (r.n = 0 ↔ error = some 0) ∧ (r.n = 0 ∨ r.n = -1 ∧ r.errno = error)

theorem sockErrorResult_lawful (waited : Bool) (error : Option ℕ) :
    (sockErrorResult waited error).Lawful ∧ (sockErrorResult waited error).why = .sockError waited error := by
  unfold sockErrorResult
  split <;> simp_all [ConnectResult.Lawful]

structure ConnectInv (s : ConnectSt) : Prop where
  io : Inv s.io
  fits : ∀ k, (s.conn k).Fits (s.io.calls k)
  lawful : ∀ k r, s.conn k = .returned r → r.Lawful

theorem connect_start_inv (now : UInt64) : ConnectInv (ConnectSt.start now) :=
  ⟨start_inv now, fun _ => trivial, fun k r h => by cases h⟩

section Frame

variable {s : St} {conn : ℕ → ConnectPhase} {k : ℕ}

theorem not_driven {l : Label} (hk : conn k ≠ .idle) (hd : l.drives conn = false) :
    (∀ b c e t, l ≠ .enter k b c e t) ∧ (∀ n e, l ≠ .sys k n e) ∧ l ≠ .cancelTimer k ∧ l ≠ .check k := by
  refine ⟨?_, ?_, ?_, ?_⟩
  · rintro b c e t rfl
    simp [Label.drives, hk] at hd
  · rintro n e rfl
    simp [Label.drives, hk] at hd
  · rintro rfl
    simp [Label.drives, hk] at hd
  · rintro rfl
    simp [Label.drives, hk] at hd

/-- a call that goes on beside call `k`, or `k` itself along its wait -/
theorem goto_frame (s : St) (j : ℕ) (p : Phase) (h : j = k → (s.calls k).phase.pending = true ∧ p.pending = true) :
    ((s.goto j p).calls k).phase = (s.calls k).phase ∨
      (s.calls k).phase.pending = true ∧ ((s.goto j p).calls k).phase.pending = true := by
  by_cases hj : j = k
  · subst hj
    rw [goto_phase_self]
    exact Or.inr (h rfl)
  · rw [goto_ne _ _ _ (Ne.symm hj)]
    exact Or.inl rfl

/-- **The rest keeps a connect where it is**, or takes it along its wait. -/
theorem phase_frame (l : Label) (hk : conn k ≠ .idle) (hd : l.drives conn = false) :
    ((Hook.stepAlive s l).calls k).phase = (s.calls k).phase ∨
      (s.calls k).phase.pending = true ∧ ((Hook.stepAlive s l).calls k).phase.pending = true := by
  obtain ⟨henter, hsys, hcancel, hcheck⟩ := not_driven hk hd
  cases l with
  | enter j b c e t =>
    have hj : k ≠ j := by
      rintro rfl
      exact henter b c e t rfl
    simp only [Hook.stepAlive]
    split
    · rw [setCall_ne _ _ _ hj]
      exact Or.inl rfl
    · exact Or.inl rfl
  | sys j n e =>
    have hj : j = k → False := by
      rintro rfl
      exact hsys n e rfl
    simp only [Hook.stepAlive]
    split
    · split_ifs
      · exact Or.inl rfl
      · exact goto_frame s j _ fun h => (hj h).elim
      · exact goto_frame s j _ fun h => (hj h).elim
    · exact Or.inl rfl
  | addTimer j now addr =>
    simp only [Hook.stepAlive]
    split
    · next hphase =>
      split_ifs
      · exact goto_frame s j _ fun h => by rw [← h, hphase]; exact ⟨rfl, rfl⟩
      · split
        · by_cases hj : j = k
          · subst hj
            rw [setCall_self, hphase]
            exact Or.inr ⟨rfl, rfl⟩
          · rw [setCall_ne _ _ _ (Ne.symm hj)]
            exact Or.inl rfl
        · exact Or.inl rfl
    · exact Or.inl rfl
  | addEvent j ok =>
    simp only [Hook.stepAlive]
    split
    · next timer hphase =>
      split
      · exact Or.inl rfl
      · exact goto_frame { s with ctx := _ } j _ fun h => by rw [← h]; exact ⟨by simp [hphase, Phase.pending], rfl⟩
      · exact goto_frame s j _ fun h => by rw [← h, hphase]; exact ⟨rfl, rfl⟩
    · exact Or.inl rfl
  | resume j =>
    simp only [Hook.stepAlive]
    split
    · next timer hphase =>
      split_ifs
      · exact goto_frame { s with queue := _ } j _ fun h => by rw [← h]; exact ⟨by simp [hphase, Phase.pending], rfl⟩
      · exact Or.inl rfl
    · exact Or.inl rfl
  | cancelTimer j =>
    have hj : j = k → False := by
      rintro rfl
      exact hcancel rfl
    have hcalls : ∀ timer, (s.cancelTimer timer).calls = s.calls := fun timer => (Inv.cancelTimer_frame s timer).2.2.1
    simp only [Hook.stepAlive]
    split
    · next timer hphase =>
      rw [← hcalls timer]
      exact goto_frame (s.cancelTimer timer) j _ fun h => (hj h).elim
    · next timer hphase =>
      rw [← hcalls timer]
      exact goto_frame (s.cancelTimer timer) j _ fun h => (hj h).elim
    · exact Or.inl rfl
  | check j =>
    have hj : j = k → False := by
      rintro rfl
      exact hcheck rfl
    simp only [Hook.stepAlive]
    split
    · split_ifs
      · exact goto_frame s j _ fun h => (hj h).elim
      · exact goto_frame s j _ fun h => (hj h).elim
    · exact Or.inl rfl
  | expire now addr => exact Or.inl rfl
  | lock x =>
    left
    rw [(Inv.lock_frame s x).2.2.2.1]
  | setCancelled x =>
    left
    simp only [Hook.stepAlive]
    split_ifs
    · rfl
    · by_cases hj : k = x.2
      · simp [hj]
      · rw [setCall_ne _ _ _ hj]
    · rfl
  | cancelEvent j ok =>
    left
    simp only [Hook.stepAlive, St.act]
    split_ifs
    · split <;> rfl
    · rfl
  | timerOp o =>
    left
    simp only [Hook.stepAlive]
    split_ifs <;> rfl
  | act p a =>
    left
    simp only [Hook.stepAlive, St.act]
    split_ifs
    · split <;> rfl
    · rfl

end Frame

namespace ConnectInv

variable {s : ConnectSt}

/-- a call of `io` that returned stays as it was, and so do the timers it created and those whose callbacks ran -/
theorem rest (h : ConnectInv s) {l : Label} (hg : s.io.gone = false) (hd : l.drives s.conn = false) (hok : Hook.Ok s.io l) :
    ConnectInv { s with io := Hook.stepAlive s.io l } := by
  refine ⟨?_, fun k => ?_, h.lawful⟩
  · have := h.io.step l hok
    rwa [Hook.step, if_neg (by rw [hg]; decide)] at this
  · have hfits := h.fits k
    by_cases hk : s.conn k = .idle
    · show (s.conn k).Fits _
      rw [hk]
      trivial
    · rcases phase_frame (s := s.io) l hk hd with hsame | ⟨h1, h2⟩
      · show (s.conn k).Fits _
        unfold ConnectPhase.Fits at hfits ⊢
        simp only [hsame]
        exact hfits
      · -- a connect that waits is pending
        show (s.conn k).Fits _
        unfold ConnectPhase.Fits at hfits ⊢
        cases hc : s.conn k with
        | idle => trivial
        | connecting => rw [hc] at hfits; simp only at hfits; rw [hfits] at h1; cases h1
        | pending => exact h2
        | sockError w => rw [hc] at hfits; simp only at hfits; rw [hfits] at h1; cases h1
        | returned r =>
          rw [hc] at hfits
          simp only at hfits
          split_ifs at hfits
          · rw [hfits.2.2] at h1; cases h1
          · rw [hfits] at h1; cases h1

/-- a connect goes on: the other calls stay where they are -/
theorem goto (h : ConnectInv s) {k : ℕ} {io : St} {p : ConnectPhase} (hio : Inv io)
    (hother : ∀ j, j ≠ k → (io.calls j).phase = (s.io.calls j).phase) (hfits : p.Fits (io.calls k))
    (hlawful : ∀ r, p = .returned r → r.Lawful) : ConnectInv (s.goto k io p) := by
  refine ⟨hio, fun j => ?_, fun j r hr => ?_⟩
  · by_cases hj : j = k
    · subst hj
      simpa [ConnectSt.goto] using hfits
    · have := h.fits j
      simp only [ConnectSt.goto, Function.update_of_ne hj]
      unfold ConnectPhase.Fits at this ⊢
      rw [hother j hj]
      exact this
  · by_cases hj : j = k
    · subst hj
      exact hlawful r (by simpa [ConnectSt.goto] using hr)
    · exact h.lawful j r (by simpa [ConnectSt.goto, Function.update_of_ne hj] using hr)

/-- the call returns without a timer in hand -/
theorem leave (h : ConnectInv s) {k : ℕ} {r : ConnectResult} (hphase : (s.io.calls k).phase = .retry) (hwhy : r.why ≠ .timeout)
    (hr : r.Lawful) : ConnectInv (s.leave k r) := by
  refine h.goto ?_ (fun j hj => by rw [goto_ne _ _ _ hj]) ?_ fun r' hr' => by cases hr'; exact hr
  · refine h.io.goto (by simp [hphase]) (by simp [hphase, Phase.timer]) (by simp) ?_
    rintro r' hr'
    cases hr'
    exact ⟨0, rfl, by decide, by decide⟩
  · simp [ConnectPhase.Fits, hwhy]

theorem connect (h : ConnectInv s) (k : ℕ) (hook_enable : Bool) (ctx : Option FdCtx) (timeout_ms : UInt64) :
    ConnectInv (s.stepAlive (.connect k hook_enable ctx timeout_ms)) := by
  simp only [ConnectSt.stepAlive]
  split
  · next ms hc hidle hentry =>
    cases ctx with
    | none => cases hook_enable <;> simp [connectEntry] at hentry
    | some ctx =>
      have hwait : hook_enable = true ∧ ctx.isClosed = false ∧ ctx.isSocket = true ∧ ctx.userNonblock = false ∧
          timeout_ms = ms := by
        unfold connectEntry at hentry
        simp only at hentry
        split_ifs at hentry with h1 h2 h3 h4
        cases hentry
        simp_all
      obtain ⟨rfl, h2, h3, h4, rfl⟩ := hwait
      -- the entry of `do_io` on a descriptor with this send timeout
      have henter := h.io.enter k true (some { ctx with sendTimeout := timeout_ms }) .write .snd
      simp only [Hook.stepAlive, hidle, doIoEntry, Bool.not_true, h2, h3, h4, FdCtx.getTimeout] at henter
      exact h.goto henter (fun j hj => by rw [setCall_ne _ _ _ hj]) (by simp [ConnectPhase.Fits]) (by simp)
  · exact h

theorem connectF (h : ConnectInv s) (k : ℕ) (n : ℤ) (errno : ℕ) : ConnectInv (s.stepAlive (.connectF k n errno)) := by
  simp only [ConnectSt.stepAlive]
  split
  · next hc =>
    have hphase : (s.io.calls k).phase = .retry := by simpa [hc, ConnectPhase.Fits] using h.fits k
    split_ifs with hpending
    · refine h.goto ?_ (fun j hj => by rw [goto_ne _ _ _ hj]) (by simp [ConnectPhase.Fits, Phase.pending]) (by simp)
      exact h.io.goto (by simp [hphase]) (by simp [hphase, Phase.timer]) (by simp) (by simp)
    · exact h.leave hphase (by simp) ⟨errno, rfl, hpending⟩
  · exact h

theorem cancelTimer (h : ConnectInv s) (k : ℕ) : ConnectInv (s.stepAlive (.cancelTimer k)) := by
  have hother : ∀ timer p j, j ≠ k → (((s.io.cancelTimer timer).goto k p).calls j).phase = (s.io.calls j).phase := by
    intro timer p j hj
    rw [goto_ne _ _ _ hj, (Inv.cancelTimer_frame s.io timer).2.2.1]
  simp only [ConnectSt.stepAlive]
  split
  · next timer hc hphase =>
    refine h.goto ?_ (hother timer _) (by simp [ConnectPhase.Fits, Phase.pending]) (by simp)
    exact h.io.cancelled (by simp [hphase]) (by simp [hphase, Phase.timer]) rfl (by simp) (by simp)
  · next timer hc hphase =>
    refine h.goto ?_ (hother timer _) (by simp [ConnectPhase.Fits]) (by simp)
    exact h.io.cancelled (by simp [hphase]) (by simp [hphase, Phase.timer]) rfl (by simp) (by simp)
  · exact h

theorem check (h : ConnectInv s) (k : ℕ) : ConnectInv (s.stepAlive (.check k)) := by
  simp only [ConnectSt.stepAlive]
  split
  · next hc hphase =>
    have hio := h.io.check k
    simp only [Hook.stepAlive, hphase] at hio
    split_ifs at hio ⊢ with hcan
    · refine h.goto hio (fun j hj => by rw [goto_ne _ _ _ hj]) (by simp [ConnectPhase.Fits]) ?_
      rintro r hr
      cases hr
      exact ⟨rfl, rfl⟩
    · exact h.goto hio (fun j hj => by rw [goto_ne _ _ _ hj]) (by simp [ConnectPhase.Fits]) (by simp)
  · exact h

theorem getsockopt (h : ConnectInv s) (k : ℕ) (error : Option ℕ) : ConnectInv (s.stepAlive (.getsockopt k error)) := by
  simp only [ConnectSt.stepAlive]
  split
  · next waited hc =>
    obtain ⟨hlawful, hwhy⟩ := sockErrorResult_lawful waited error
    exact h.leave (by simpa [hc, ConnectPhase.Fits] using h.fits k) (by simp [hwhy]) hlawful
  · exact h

/-- **Every step keeps the invariant.** -/
theorem step (h : ConnectInv s) (l : ConnectLabel) (hok : s.Ok l) : ConnectInv (s.step l) := by
  unfold ConnectSt.step
  split_ifs with hg
  · exact h
  cases l with
  | io l =>
    simp only [ConnectSt.stepAlive]
    split_ifs with hd
    · exact h
    · exact h.rest (by simpa using hg) (by simpa using hd) hok
  | connect k hook_enable ctx timeout_ms => exact h.connect k hook_enable ctx timeout_ms
  | connectF k n errno => exact h.connectF k n errno
  | cancelTimer k => exact h.cancelTimer k
  | check k => exact h.check k
  | getsockopt k error => exact h.getsockopt k error

end ConnectInv

/-! ## Blocking connects -/

/-- a step of connect `k` itself -/
def ConnectLabel.Own (k : ℕ) : ConnectLabel → Prop
  | .io l => Hook.Own k l
  | .connectF j _ _ | .cancelTimer j | .check j | .getsockopt j _ => j = k
  | .connect .. => False

/-- what holds of connect `k` at any moment of a run -/
structure ConnectBlocking (s : ConnectSt) (k : ℕ) : Prop where
  /-- the result of `connect`, or of `SO_ERROR`, or a timeout -/
  lawful : ∀ r, s.conn k = .returned r → r.Lawful
  /-- after a timeout, the callback of a timer of this connect has run -/
  timeout : ∀ r, s.conn k = .returned r → r.why = .timeout → ∃ id ∈ (s.io.calls k).created, (id, k) ∈ s.io.ran
  /-- no timer of the connect is left in the set -/
  no_timer : ∀ r, s.conn k = .returned r → ∀ id ∈ (s.io.calls k).created, id ∉ s.io.timers.timers
  /-- its registration has been consumed, and the wake-up used -/
  consumed : ∀ r, s.conn k = .returned r →
    (∀ p e sched, slot (s.io.ctx p) e ≠ some (sched, .fiber k)) ∧ Task.fiber k ∉ s.io.queue
  /-- until it returns, it waits for its wake-up or can go on -/
  progress : s.io.gone = false → s.conn k ≠ .idle → (∀ r, s.conn k ≠ .returned r) →
    (∃ t, (s.io.calls k).phase = .waiting t ∧ Task.fiber k ∉ s.io.queue) ∨
      ∃ l, l.Own k ∧ s.Ok l ∧ ((s.step l).io.gone = true ∨ (s.step l).conn k ≠ s.conn k ∨
        ((s.step l).io.calls k).phase ≠ (s.io.calls k).phase)

/-- a connect that has returned has returned in `io` -/
theorem ConnectInv.returned {s : ConnectSt} (h : ConnectInv s) {k : ℕ} {r : ConnectResult} (hr : s.conn k = .returned r) :
    ∃ r', (s.io.calls k).phase = .returned r' ∧ (r.why = .timeout → r'.why = .timeout) := by
  have hfits := h.fits k
  rw [hr] at hfits
  unfold ConnectPhase.Fits at hfits
  simp only at hfits
  split_ifs at hfits with hwhy
  · exact ⟨_, hfits.2.2, fun _ => rfl⟩
  · exact ⟨_, hfits, fun h => absurd h hwhy⟩

/-- a connect that has begun and not returned waits for its wake-up, or one of its own steps takes it on -/
theorem ConnectInv.goes_on {s : ConnectSt} (h : ConnectInv s) (hg : s.io.gone = false) {k : ℕ} (hidle : s.conn k ≠ .idle)
    (hret : ∀ r, s.conn k ≠ .returned r) :
    (∃ t, (s.io.calls k).phase = .waiting t ∧ Task.fiber k ∉ s.io.queue) ∨
      ∃ l, l.Own k ∧ s.Ok l ∧ ((s.step l).io.gone = true ∨ (s.step l).conn k ≠ s.conn k ∨
        ((s.step l).io.calls k).phase ≠ (s.io.calls k).phase) := by
  have hstep : ∀ l, s.step l = s.stepAlive l := fun l => by simp [ConnectSt.step, hg]
  have hfits := h.fits k
  cases hc : s.conn k with
  | idle => exact absurd hc hidle
  | returned r => exact absurd hc (hret r)
  | connecting =>
    refine Or.inr ⟨.connectF k 0 0, rfl, trivial, Or.inr (Or.inl ?_)⟩
    rw [hstep]
    simp [ConnectSt.stepAlive, hc, ConnectSt.leave, ConnectSt.goto]
  | sockError w =>
    refine Or.inr ⟨.getsockopt k none, rfl, trivial, Or.inr (Or.inl ?_)⟩
    rw [hstep]
    simp [ConnectSt.stepAlive, hc, ConnectSt.leave, ConnectSt.goto]
  | pending =>
    have hpend : (s.io.calls k).phase.pending = true := by simpa [hc, ConnectPhase.Fits] using hfits
    cases hp : (s.io.calls k).phase with
    | woken timer =>
      refine Or.inr ⟨.cancelTimer k, rfl, trivial, Or.inr (Or.inr ?_)⟩
      rw [hstep]
      simp [ConnectSt.stepAlive, hc, hp, ConnectSt.goto]
    | failing timer =>
      refine Or.inr ⟨.cancelTimer k, rfl, trivial, Or.inr (Or.inl ?_)⟩
      rw [hstep]
      simp [ConnectSt.stepAlive, hc, hp, ConnectSt.goto]
    | checking =>
      refine Or.inr ⟨.check k, rfl, trivial, Or.inr (Or.inl ?_)⟩
      rw [hstep]
      simp only [ConnectSt.stepAlive, hc, hp]
      split_ifs <;> simp [ConnectSt.goto]
    | idle => simp [hp, Phase.pending] at hpend
    | retry => simp [hp, Phase.pending] at hpend
    | returned r => simp [hp, Phase.pending] at hpend
    | blocked | armed | waiting =>
      -- the next step is one that `do_io` has too
      rcases Hook.goes_on hg (k := k) (by simp [hp, Phase.alive]) with hwait | ⟨l, hown, hok, hmoves⟩
      · exact Or.inl (by rwa [hp] at hwait)
      · have hd : l.drives s.conn = false := by
          by_contra hd
          have hstay : Hook.step s.io l = s.io := by
            cases l <;> simp_all [Own, Label.drives, Hook.step, Hook.stepAlive]
          rw [hstay] at hmoves
          rcases hmoves with hgone | hmoves
          · rw [hg] at hgone
            cases hgone
          · exact hmoves rfl
        refine Or.inr ⟨.io l, hown, hok, ?_⟩
        have hl : s.step (.io l) = { s with io := Hook.step s.io l } := by
          simp [hstep, ConnectSt.stepAlive, hd, Hook.step, hg]
        rw [hl, ← hp]
        rcases hmoves with hgone | hmoves
        · exact Or.inl hgone
        · exact Or.inr (Or.inr hmoves)

theorem ConnectInv.blocking {s : ConnectSt} (h : ConnectInv s) (k : ℕ) : ConnectBlocking s k := by
  refine ⟨h.lawful k, fun r hr hwhy => ?_, fun r hr => ?_, fun r hr => ?_,
    fun hg hidle hret => h.goes_on hg hidle hret⟩
  · have hfits := h.fits k
    rw [hr] at hfits
    simp only [ConnectPhase.Fits, hwhy, if_true] at hfits
    exact (h.io.results.lawful k _ hfits.2.2).2.2
  · obtain ⟨r', hr', -⟩ := h.returned hr
    exact (h.io.blocking k).no_timer r' hr'
  · obtain ⟨r', hr', -⟩ := h.returned hr
    exact (h.io.blocking k).consumed r' hr'

/-- **Connecting blocks the fiber alone.** In every run of any number of connects and other blocking calls, with any
results of the system calls and of `epoll_ctl`, any order of wake-ups, expiries and callbacks, and any other users of the
timers and the contexts, every connect is as `ConnectBlocking` says and every other call as `Blocking` says, at every
moment. -/
theorem connect_blocking (now : UInt64) (ls : List ConnectLabel)
    (hok : Along ConnectSt.Ok ConnectSt.step (ConnectSt.start now) ls) (k : ℕ) :
    Along (fun s _ => ConnectBlocking s k ∧ Blocking s.io k) ConnectSt.step (ConnectSt.start now) ls ∧
      ConnectBlocking (run ConnectSt.step (ConnectSt.start now) ls) k ∧
      Blocking (run ConnectSt.step (ConnectSt.start now) ls).io k := by
  have hstep : ∀ s l, s.Ok l → ConnectInv s → ConnectInv (s.step l) := fun s l ho hi => hi.step l ho
  obtain ⟨halong, hinv⟩ := run_along hstep (q := fun s _ => ConnectBlocking s k ∧ Blocking s.io k)
    (fun s l _ hi => ⟨hi.blocking k, hi.io.blocking k⟩) ls (connect_start_inv now) hok
  exact ⟨halong, hinv.blocking k, hinv.io.blocking k⟩

/-- **A connect that cannot wait.** If `addEvent` fails, the call goes on to `SO_ERROR`, which says 0 as long as the
connection is being made: it reports success, and the fiber has not waited. -/
theorem connected_without_waiting {s : ConnectSt} (hg : s.io.gone = false) {k : ℕ} {timer : Option ℕ}
    (hc : s.conn k = .pending) (hphase : (s.io.calls k).phase = .failing timer) :
    (run ConnectSt.step s [.cancelTimer k, .getsockopt k (some 0)]).conn k =
      .returned { n := 0, errno := none, why := .sockError false (some 0) } := by
  have h1 : s.step (.cancelTimer k) = s.goto k ((s.io.cancelTimer timer).goto k .retry) (.sockError false) := by
    simp [ConnectSt.step, hg, ConnectSt.stepAlive, hc, hphase]
  have hg' : ((s.io.cancelTimer timer).goto k .retry).gone = false := by
    cases timer <;> exact hg
  rw [run_cons, h1, run_cons, run_nil]
  simp [ConnectSt.step, ConnectSt.goto, hg', ConnectSt.stepAlive, ConnectSt.leave, sockErrorResult]

/-- a connect that times out while a `recv` on another descriptor waits: its callback runs, and `SO_ERROR` is not read -/
def connectTimesOut : List ConnectLabel :=
  [.connect 0 true (some { fd := 5, isInit := true, isSocket := true, sysNonblock := true }) 100,
    .io (.enter 1 true (some { fd := 6, isInit := true, isSocket := true, sysNonblock := true }) .read .rcv),
    .connectF 0 (-1) EINPROGRESS, .io (.addTimer 0 0 7), .io (.sys 1 (-1) EAGAIN), .io (.addEvent 0 true),
    .io (.addTimer 1 0 8), .io (.addEvent 1 true), .io (.expire 150 9), .io (.lock (0, .timeout 0)),
    .io (.setCancelled (0, 0)), .io (.cancelEvent 0 true), .io (.resume 0), .cancelTimer 0, .check 0]

theorem connect_blocking_timesOut :
    (run ConnectSt.step (ConnectSt.start 0) connectTimesOut).conn 0 =
        .returned { n := -1, errno := some ETIMEDOUT, why := .timeout } ∧
      ConnectBlocking (run ConnectSt.step (ConnectSt.start 0) connectTimesOut) 0 :=
  ⟨by decide, (connect_blocking 0 connectTimesOut (by decide) 0).2.1⟩

end Sylar.Hook
