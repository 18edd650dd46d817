/-
The fd events of `IOManager` (`sylar/iomanager.h`, `sylar/iomanager.cpp`): `addEvent`, `delEvent`, `cancelEvent`,
`cancelAll`, `triggerEvent` and the handling of one ready fd in `idle`.

Event masks are the 32-bit words of the code, `READ = 0x1` and `WRITE = 0x4`, and the guards are written on these
words with the precedence they have in C++. The kernel's interest list is a map from fds to masks: `EPOLL_CTL_ADD`
succeeds iff the fd is not in it, `MOD` and `DEL` iff it is. The read end of the wake-up pipe, which the constructor
registers and nobody else uses, is not an fd of the model.

A call returns `none` when the process is gone: an assertion fails, a null `Scheduler*` is followed, or `m_fdContexts`
is indexed past its end. Each call is one step, as it runs under the mutex of its `FdContext`. `m_fdContexts.size()`
is cast to `int` before it is compared (`intGt`), and `m_pendingEventCount` wraps like a `size_t`.
-/
import Mathlib.Tactic

namespace Sylar

/-- `IOManager::Event`, without `NONE` -/
inductive Event where
  | read
  | write
deriving DecidableEq, Repr

/-- the bit of an event -/
def Event.mask : Event → UInt32
  | .read => 0x1
  | .write => 0x4

/-- what a registration resumes -/
inductive Task where
  | cb (id : ℕ)
  | fiber (id : ℕ)
deriving DecidableEq, Repr

/-- `FdContext::EventContext`: schedulers, fibers and callbacks by number, `none` for null -/
structure EventContext where
  scheduler : Option ℕ := none
  fiber : Option ℕ := none
  cb : Option ℕ := none
deriving DecidableEq, Repr

structure FdContext where
  fd : ℕ
  read : EventContext := {}
  write : EventContext := {}
  events : UInt32 := 0
deriving DecidableEq, Repr

namespace FdContext

def getContext (c : FdContext) : Event → EventContext
  | .read => c.read
  | .write => c.write

/-- assign through the reference `getContext` returns -/
def setContext (c : FdContext) (event : Event) (ctx : EventContext) : FdContext :=
  match event with
  | .read => { c with read := ctx }
  | .write => { c with write := ctx }

def resetContext (c : FdContext) (event : Event) : FdContext := c.setContext event {}

/-- the registered task is moved out by `swap`; an empty one is not pushed by `scheduleNoLock` -/
def triggerEvent (c : FdContext) (event : Event) : Option (List (ℕ × Task) × FdContext) :=
  if c.events &&& event.mask = 0 then none
  else
    let c := { c with events := c.events &&& ~~~event.mask }
    let ctx := c.getContext event
    match ctx.scheduler with
    | none => none
    | some sched =>
      match ctx.cb with
      | some cb => some ([(sched, .cb cb)], c.setContext event { ctx with cb := none, scheduler := none })
      | none =>
        some ((ctx.fiber.map fun f => (sched, Task.fiber f)).toList,
          c.setContext event { ctx with fiber := none, scheduler := none })

end FdContext

structure IOManager where
  fdContexts : List FdContext
  /-- the epoll instance: the mask of every registered fd -/
  interest : ℕ → Option UInt32
  pendingEventCount : ℕ
  /-- what was put into the schedulers' queues, in order -/
  scheduled : List (ℕ × Task)

namespace IOManager

def EPOLLET : UInt32 := 0x80000000
def EPOLLERR : UInt32 := 0x8
def EPOLLHUP : UInt32 := 0x10

/-- `(int)size > fd` for a `size_t` and an fd: a size whose low word has the sign bit is negative as an `int` -/
def intGt (size fd : ℕ) : Prop := size % 2 ^ 32 < 2 ^ 31 ∧ fd < size % 2 ^ 32

instance (size fd : ℕ) : Decidable (intGt size fd) := inferInstanceAs (Decidable (_ ∧ _))

/-- `++` and `--` on the `size_t` counter -/
def incr (n : ℕ) : ℕ := (n + 1) % 2 ^ 64
def decr (n : ℕ) : ℕ := if n = 0 then 2 ^ 64 - 1 else n - 1

/-- `!m` as an integer -/
def not (m : UInt32) : UInt32 := if m = 0 then 1 else 0

inductive CtlOp where
  | add
  | mod
  | del
deriving DecidableEq, Repr

/-- `epoll_ctl`; `true` for result 0 -/
def epollCtl (s : IOManager) (op : CtlOp) (fd : ℕ) (events : UInt32) : Bool × IOManager :=
  match op, s.interest fd with
  | .add, none => (true, { s with interest := Function.update s.interest fd (some events) })
  | .mod, some _ => (true, { s with interest := Function.update s.interest fd (some events) })
  | .del, some _ => (true, { s with interest := Function.update s.interest fd none })
  | _, _ => (false, s)

/-- `contextResize(size)`: contexts past `size` are dropped, missing ones are created -/
def contextResize (s : IOManager) (size : ℕ) : IOManager :=
  let kept := s.fdContexts.take size
  { s with fdContexts := kept ++ (List.range' kept.length (size - kept.length)).map fun i => { fd := i } }

/-- the state after the constructor -/
def new : IOManager :=
  contextResize { fdContexts := [], interest := fun _ => none, pendingEventCount := 0, scheduled := [] } 32

def setFdContext (s : IOManager) (fd : ℕ) (c : FdContext) : IOManager :=
  { s with fdContexts := s.fdContexts.set fd c }

/-- who calls `addEvent`: `Scheduler::GetThis()`, `Fiber::GetThis()`, and whether that fiber is in state `EXEC` -/
structure Caller where
  scheduler : Option ℕ
  fiber : ℕ
  exec : Bool
deriving DecidableEq, Repr

/-- return values; `int` of `addEvent`, `bool` of the others, nothing for a dispatch -/
inductive Ret where
  | int (n : ℤ)
  | bool (b : Bool)
  | unit
deriving DecidableEq, Repr

/-- `addEvent` from the lock of the `FdContext` on -/
def addEventLocked (s : IOManager) (fd : ℕ) (event : Event) (cb : Option ℕ) (who : Caller) (fd_ctx : FdContext) :
    Option (Ret × IOManager) :=
  if fd_ctx.events &&& event.mask ≠ 0 then none
  else
    let op := if fd_ctx.events ≠ 0 then CtlOp.mod else CtlOp.add
    let r := s.epollCtl op fd (EPOLLET ||| fd_ctx.events ||| event.mask)
    if !r.1 then some (.int (-1), r.2)
    else
      let s := { r.2 with pendingEventCount := incr r.2.pendingEventCount }
      let fd_ctx := { fd_ctx with events := fd_ctx.events ||| event.mask }
      let event_ctx := fd_ctx.getContext event
      if event_ctx.scheduler.isSome ∨ event_ctx.fiber.isSome ∨ event_ctx.cb.isSome then none
      else
        match cb with
        | some f => some (.int 0, s.setFdContext fd (fd_ctx.setContext event { scheduler := who.scheduler, cb := some f }))
        | none =>
          if who.exec then
            some (.int 0, s.setFdContext fd
              (fd_ctx.setContext event { scheduler := who.scheduler, fiber := some who.fiber }))
          else none

/-- the table `addEvent` looks its fd up in; `fd * 1.5` is exact -/
def tableFor (s : IOManager) (fd : ℕ) : IOManager :=
  if intGt s.fdContexts.length fd then s else s.contextResize (fd * 3 / 2)

/-- `addEvent(fd, event, cb)` -/
def addEvent (s : IOManager) (fd : ℕ) (event : Event) (cb : Option ℕ) (who : Caller) : Option (Ret × IOManager) :=
  match (s.tableFor fd).fdContexts[fd]? with
  | none => none
  | some fd_ctx => (s.tableFor fd).addEventLocked fd event cb who fd_ctx

/-- the common first part of `delEvent` and `cancelEvent`: look the fd up, test, and update the kernel. A result in
`Sum.inl` is returned at once; the guard is `!events & event`, not `!(events & event)` -/
def removeEvent (s : IOManager) (fd : ℕ) (event : Event) : Option (Ret ⊕ FdContext × IOManager) :=
  if ¬intGt s.fdContexts.length fd then some (.inl (.bool false))
  else
    match s.fdContexts[fd]? with
    | none => none
    | some fd_ctx =>
      if not fd_ctx.events &&& event.mask ≠ 0 then some (.inl (.bool false))
      else
        let new_events := fd_ctx.events &&& ~~~event.mask
        let op := if new_events ≠ 0 then CtlOp.mod else CtlOp.del
        let r := s.epollCtl op fd (EPOLLET ||| new_events)
        if !r.1 then some (.inl (.bool false)) else some (.inr (fd_ctx, r.2))

def delEvent (s : IOManager) (fd : ℕ) (event : Event) : Option (Ret × IOManager) :=
  match s.removeEvent fd event with
  | none => none
  | some (.inl r) => some (r, s)
  | some (.inr (fd_ctx, s)) =>
    let fd_ctx := { fd_ctx with events := fd_ctx.events &&& ~~~event.mask }
    some (.bool true, { s.setFdContext fd (fd_ctx.resetContext event) with
      pendingEventCount := decr s.pendingEventCount })

/-- `fd_ctx->triggerEvent(event); --m_pendingEventCount;` -/
def trigger (s : IOManager) (fd : ℕ) (event : Event) : Option IOManager :=
  match s.fdContexts[fd]? with
  | none => none
  | some fd_ctx =>
    match fd_ctx.triggerEvent event with
    | none => none
    | some (tasks, fd_ctx) =>
      some { s.setFdContext fd fd_ctx with
        scheduled := s.scheduled ++ tasks, pendingEventCount := decr s.pendingEventCount }

def cancelEvent (s : IOManager) (fd : ℕ) (event : Event) : Option (Ret × IOManager) :=
  match s.removeEvent fd event with
  | none => none
  | some (.inl r) => some (r, s)
  | some (.inr (_, s)) => (s.trigger fd event).map fun s => (.bool true, s)

/-- `if (mask & event) { triggerEvent(event); --m_pendingEventCount; }` -/
def triggerIf (s : IOManager) (fd : ℕ) (mask : UInt32) (event : Event) : Option IOManager :=
  if mask &&& event.mask ≠ 0 then s.trigger fd event else some s

/-- both events of `mask`, `READ` first -/
def triggerBoth (s : IOManager) (fd : ℕ) (mask : UInt32) : Option IOManager :=
  (s.triggerIf fd mask .read).bind fun s => s.triggerIf fd mask .write

def cancelAll (s : IOManager) (fd : ℕ) : Option (Ret × IOManager) :=
  if ¬intGt s.fdContexts.length fd then some (.bool false, s)
  else
    match s.fdContexts[fd]? with
    | none => none
    | some fd_ctx =>
      if fd_ctx.events = 0 then some (.bool false, s)
      else
        let r := s.epollCtl .del fd 0
        if !r.1 then some (.bool false, r.2)
        else
          match r.2.triggerBoth fd fd_ctx.events with
          | none => none
          | some s =>
            -- SYLAR_ASSERT(fd_ctx->events == 0)
            match s.fdContexts[fd]? with
            | none => none
            | some fd_ctx => if fd_ctx.events = 0 then some (.bool true, s) else none

/-- the events of a ready fd that are triggered; an error or a hang-up stands for all registered ones -/
def realEvents (revents events : UInt32) : UInt32 :=
  let revents := if revents &&& (EPOLLERR ||| EPOLLHUP) ≠ 0 then revents ||| (0x1 ||| 0x4) &&& events else revents
  (if revents &&& 0x1 ≠ 0 then 0x1 else 0) ||| (if revents &&& 0x4 ≠ 0 then 0x4 else 0)

/-- the body of the loop of `idle` over the ready fds, for the pair `(fd_ctx, revents)` `epoll_wait` reported -/
def dispatch (s : IOManager) (fd : ℕ) (revents : UInt32) : Option (Ret × IOManager) :=
  match s.fdContexts[fd]? with
  | none => none
  | some fd_ctx =>
    let real_events := realEvents revents fd_ctx.events
    if fd_ctx.events &&& real_events = 0 then some (.unit, s)
    else
      let left_events := fd_ctx.events &&& ~~~real_events
      let op := if left_events ≠ 0 then CtlOp.mod else CtlOp.del
      let r := s.epollCtl op fd_ctx.fd (EPOLLET ||| left_events)
      if !r.1 then some (.unit, r.2) else (r.2.triggerBoth fd real_events).map fun s => (.unit, s)

/-! ## Calls as data -/

inductive Op where
  | addEvent (fd : ℕ) (event : Event) (cb : Option ℕ) (who : Caller)
  | delEvent (fd : ℕ) (event : Event)
  | cancelEvent (fd : ℕ) (event : Event)
  | cancelAll (fd : ℕ)
  | dispatch (fd : ℕ) (revents : UInt32)
deriving DecidableEq, Repr

def call (s : IOManager) : Op → Option (Ret × IOManager)
  | .addEvent fd event cb who => s.addEvent fd event cb who
  | .delEvent fd event => s.delEvent fd event
  | .cancelEvent fd event => s.cancelEvent fd event
  | .cancelAll fd => s.cancelAll fd
  | .dispatch fd revents => s.dispatch fd revents

end IOManager

end Sylar
