/-
`do_io` (`sylar/hook.cpp`): the blocking system calls of fibers, with everything they can race with.

Any number of calls run at once, each in a fiber of its own. A call is a state machine: every point at which another
thread can get in between is a phase. Around the calls stand the timer manager (`Timer/Model`), the fd contexts
(`IOManager/Contexts`), the fibers the schedulers are about to resume, and the timer callbacks that `listExpiredCb` has
collected and that have not run yet. A callback of a condition timer is three steps: lock the weak pointer, test and set
`cancelled`, and `cancelEvent`; between any two of them the call it belongs to may move on, return, or be woken.

`step` takes the results of the system call and of `epoll_ctl` from its label. Other threads may use the timers and the
contexts in any way (`timerOp`, `act`), short of passing off a timer or a registration as one of a call: other waiters
are other calls or callbacks. A failed assertion stops the process (`gone`).
-/
import Mathlib.Tactic
import Sylar.Core.Run
import Sylar.Timer.Model
import Sylar.IOManager.Events
import Sylar.IOManager.Contexts
import Sylar.Hook.Flags

namespace Sylar.Hook

open Sylar.Core IOManager

def EINTR : ℕ := 4
def EAGAIN : ℕ := 11
def ETIMEDOUT : ℕ := 110

/-! ## The entry -/

/-- `SO_RCVTIMEO` or `SO_SNDTIMEO` -/
inductive TimeoutSo where
  | rcv
  | snd
deriving DecidableEq, Repr

def FdCtx.getTimeout (ctx : FdCtx) : TimeoutSo → UInt64
  | .rcv => ctx.recvTimeout
  | .snd => ctx.sendTimeout

/-- what `do_io` does before its first system call -/
inductive Entry where
  /-- the original function, whatever it returns -/
  | direct
  /-- `EBADF` -/
  | closed
  /-- the loop, with timeout `to` -/
  | loop (ms : UInt64)
deriving DecidableEq, Repr

def doIoEntry (hook_enable : Bool) (ctx : Option FdCtx) (timeout_so : TimeoutSo) : Entry :=
  if !hook_enable then .direct
  else
    match ctx with
    | none => .direct
    | some ctx =>
      if ctx.isClosed then .closed
      else if !ctx.isSocket || ctx.userNonblock then .direct
      else .loop (FdCtx.getTimeout ctx timeout_so)

/-! ## Calls -/

/-- why `do_io` returned -/
inductive Why where
  | syscall
  | addEvent
  | timeout
deriving DecidableEq, Repr

/-- what it returned; `none` for an `errno` it did not set -/
structure Result where
  n : ℤ
  errno : Option ℕ
  why : Why
deriving DecidableEq, Repr

/-- where a call is; `timer` is the local variable of that name -/
inductive Phase where
  | idle
  /-- at `retry`, or in the loop over `EINTR` -/
  | retry
  /-- the system call would block -/
  | blocked
  /-- the timer is set, `addEvent` is next -/
  | armed (timer : Option ℕ)
  /-- in `YieldToHold` -/
  | waiting (timer : Option ℕ)
  | woken (timer : Option ℕ)
  /-- `addEvent` failed -/
  | failing (timer : Option ℕ)
  /-- the timer is cancelled, the test of `tinfo->cancelled` is next -/
  | checking
  | returned (r : Result)
deriving DecidableEq, Repr

/-- the timer a call holds -/
def Phase.timer : Phase → Option ℕ
  | .armed t | .waiting t | .woken t | .failing t => t
  | _ => none

/-- `tinfo` exists -/
def Phase.alive : Phase → Bool
  | .idle | .returned _ => false
  | _ => true

structure CallSt where
  phase : Phase := .idle
  fd : ℕ := 0
  event : Event := .read
  ms : UInt64 := 0
  /-- `tinfo->cancelled` -/
  cancelled : Bool := false
  /-- the timers the call has created -/
  created : List ℕ := []
deriving DecidableEq, Repr

/-- a timer callback: that of a condition timer of call `k`, or any other -/
inductive Cb where
  | timeout (k : ℕ)
  | other (n : ℕ)
deriving DecidableEq, Repr

structure St where
  timers : TimerManager Cb
  ctx : ℕ → FdContext
  /-- the tasks in the schedulers' queues -/
  queue : List Task
  calls : ℕ → CallSt
  /-- callbacks that are scheduled, with the timers they come from -/
  collected : List (ℕ × Cb)
  /-- callbacks that hold `tinfo` of a call -/
  locked : List (ℕ × ℕ)
  /-- callbacks that have set `cancelled` and are about to call `cancelEvent` for a call -/
  cancelling : List ℕ
  /-- the timers whose callback has set `cancelled`, with the call -/
  ran : List (ℕ × ℕ)
  gone : Bool

def start (now : UInt64) : St :=
  { timers := TimerManager.new now, ctx := fun p => { fd := p }, queue := [], calls := fun _ => {}, collected := [],
    locked := [], cancelling := [], ran := [], gone := false }

/-- the fiber of call `k`, on the threads of scheduler 0 -/
def caller (k : ℕ) : Caller := { scheduler := some 0, fiber := k, exec := true }

inductive Label where
  /-- `do_io` on a descriptor with context `ctx` -/
  | enter (k : ℕ) (hook_enable : Bool) (ctx : Option FdCtx) (event : Event) (timeout_so : TimeoutSo)
  /-- the system call returns -/
  | sys (k : ℕ) (n : ℤ) (errno : ℕ)
  | addTimer (k : ℕ) (now : UInt64) (addr : ℕ)
  | addEvent (k : ℕ) (ok : Bool)
  /-- a scheduler resumes the fiber -/
  | resume (k : ℕ)
  | cancelTimer (k : ℕ)
  | check (k : ℕ)
  /-- `listExpiredCb`, and `schedule` of what it returns -/
  | expire (now : UInt64) (addr : ℕ)
  /-- a scheduled callback starts: `OnTimer` locks its weak pointer -/
  | lock (x : ℕ × Cb)
  /-- it tests and sets `cancelled` -/
  | setCancelled (x : ℕ × ℕ)
  | cancelEvent (k : ℕ) (ok : Bool)
  /-- any use of the timers by others -/
  | timerOp (o : TimerManager.Op Cb)
  /-- any use of the contexts by others -/
  | act (p : ℕ) (a : Act)

/-- others do not create timers with the callback of a call; what expires is collected by `expire` -/
def foreignOp : TimerManager.Op Cb → Bool
  | .addTimer _ (.timeout _) _ _ _ => false
  | .listExpiredCb _ _ => false
  | _ => true

/-- others register callbacks; the fibers that wait are those of the calls -/
def foreignAct : Act → Bool
  | .addEvent _ none _ _ => false
  | _ => true

def St.setCall (s : St) (k : ℕ) (c : CallSt) : St := { s with calls := Function.update s.calls k c }

def St.goto (s : St) (k : ℕ) (p : Phase) : St := s.setCall k { s.calls k with phase := p }

/-- `if (timer) timer->cancel();` -/
def St.cancelTimer (s : St) (timer : Option ℕ) : St :=
  match timer with
  | none => s
  | some id => { s with timers := (s.timers.call (.cancel id)).2 }

/-- an action under the mutex of context `p` -/
def St.act (s : St) (p : ℕ) (a : Act) : St :=
  match (s.ctx p).act a with
  | none => { s with gone := true }
  | some r => { s with ctx := Function.update s.ctx p r.2.2, queue := s.queue ++ r.2.1.map fun t => t.2.2 }

/-- what `schedule(cbs.begin(), cbs.end())` puts into the queue -/
def scheduledCbs : TimerManager.Ret Cb → List (ℕ × Cb)
  | .cbs l => l.filterMap fun x => x.2.map fun c => (x.1, c)
  | _ => []

def stepAlive (s : St) : Label → St
  | .enter k hook_enable ctx event timeout_so =>
    match (s.calls k).phase, doIoEntry hook_enable ctx timeout_so with
    | .idle, .loop ms => s.setCall k { phase := .retry, fd := ctx.elim 0 FdCtx.fd, event := event, ms := ms }
    | _, _ => s
  | .sys k n errno =>
    match (s.calls k).phase with
    | .retry =>
      if n = -1 ∧ errno = EINTR then s
      else if n = -1 ∧ errno = EAGAIN then s.goto k .blocked
      else s.goto k (.returned { n := n, errno := some errno, why := .syscall })
    | _ => s
  | .addTimer k now addr =>
    match (s.calls k).phase with
    | .blocked =>
      if (s.calls k).ms = 0xffffffffffffffff then s.goto k (.armed none)
      else
        match s.timers.call (.addTimer (s.calls k).ms (.timeout k) false now addr) with
        | (.added id _, timers) =>
          { s with timers := timers }.setCall k
            { s.calls k with phase := .armed (some id), created := (s.calls k).created ++ [id] }
        | _ => s
    | _ => s
  | .addEvent k ok =>
    match (s.calls k).phase with
    | .armed timer =>
      match (s.ctx (s.calls k).fd).addEvent (s.calls k).event none (caller k) ok with
      | none => { s with gone := true }
      | some (.int 0, c) => { s with ctx := Function.update s.ctx (s.calls k).fd c }.goto k (.waiting timer)
      | some _ => s.goto k (.failing timer)
    | _ => s
  | .resume k =>
    match (s.calls k).phase with
    | .waiting timer =>
      if s.queue.contains (.fiber k) then { s with queue := s.queue.erase (.fiber k) }.goto k (.woken timer) else s
    | _ => s
  | .cancelTimer k =>
    match (s.calls k).phase with
    | .woken timer => (s.cancelTimer timer).goto k .checking
    | .failing timer => (s.cancelTimer timer).goto k (.returned { n := -1, errno := none, why := .addEvent })
    | _ => s
  | .check k =>
    match (s.calls k).phase with
    | .checking =>
      if (s.calls k).cancelled then s.goto k (.returned { n := -1, errno := some ETIMEDOUT, why := .timeout })
      else s.goto k .retry
    | _ => s
  | .expire now addr =>
    { s with timers := (s.timers.call (.listExpiredCb now addr)).2
             collected := s.collected ++ scheduledCbs (s.timers.call (.listExpiredCb now addr)).1 }
  | .lock x =>
    if s.collected.contains x then
      match x.2 with
      | .timeout k =>
        if (s.calls k).phase.alive then { s with collected := s.collected.erase x, locked := s.locked ++ [(x.1, k)] }
        else { s with collected := s.collected.erase x }
      | .other _ => { s with collected := s.collected.erase x }
    else s
  | .setCancelled x =>
    if s.locked.contains x then
      if (s.calls x.2).cancelled then { s with locked := s.locked.erase x }
      else
        { s with locked := s.locked.erase x, cancelling := s.cancelling ++ [x.2], ran := s.ran ++ [x] }.setCall x.2
          { s.calls x.2 with cancelled := true }
    else s
  | .cancelEvent k ok =>
    if s.cancelling.contains k then
      { s with cancelling := s.cancelling.erase k }.act (s.calls k).fd (.cancelEvent (s.calls k).event ok)
    else s
  | .timerOp o => if foreignOp o then { s with timers := (s.timers.call o).2 } else s
  | .act p a => if foreignAct a then s.act p a else s

def step (s : St) (l : Label) : St := if s.gone then s else stepAlive s l

/-- `new` returns an address that no timer of the set has -/
def Ok (s : St) : Label → Prop
  | .addTimer k now addr => (TimerManager.Op.addTimer (s.calls k).ms (.timeout k) false now addr).Ok s.timers
  | .timerOp o => o.Ok s.timers
  | _ => True

instance (s : St) : (l : Label) → Decidable (Ok s l)
  | .addTimer k now addr =>
    inferInstanceAs (Decidable ((TimerManager.Op.addTimer (s.calls k).ms (.timeout k) false now addr).Ok s.timers))
  | .timerOp o => inferInstanceAs (Decidable (o.Ok s.timers))
  | .enter .. | .sys .. | .addEvent .. | .resume _ | .cancelTimer _ | .check _ | .expire .. | .lock _ | .setCancelled _
  | .cancelEvent .. | .act .. => isTrue trivial

end Sylar.Hook
