/-
The timer manager (`sylar/timer.h`, `sylar/timer.cpp`).

A `Timer::ptr` is a number, given out in order of creation; `heap` holds the timer objects, each with the address the
set orders equal due times by. `m_timers` is the list of its elements in order (`Core/OrdSet`), read under the
comparator of the current heap, so a key that changed inside the set would show as a list that is not sorted.
`uint64_t` is `UInt64`, with its wraparound. Every operation that reads the clock takes the reading as an argument.

The write-locked sections are state passers. `Ret.fault` is undefined behaviour: `erase(end())` in `cancel`, and
`*begin()` of an empty set in the locked part of `listExpiredCb`. The locks themselves do not appear: each operation is
one step, and `onTimerInsertedAtFront`, called after the lock is released, is the flag of the result.
-/
import Mathlib.Data.FinEnum
import Mathlib.Tactic
import Sylar.Core.OrdSet

namespace Sylar

open Sylar.Core

/-- a timer object; `β` is the type of callbacks, `none` the empty `std::function` -/
structure Timer (β : Type) where
  recurring : Bool
  ms : UInt64
  next : UInt64
  cb : Option β
  /-- `get()` of the shared pointers to it -/
  addr : ℕ
deriving DecidableEq, Repr

/-- `Timer::Comparator` -/
def Timer.comparator {β : Type} : Option (Timer β) → Option (Timer β) → Bool
  | none, none => false
  | none, some _ => true
  | some _, none => false
  | some lhs, some rhs =>
    if lhs.next < rhs.next then true
    else if lhs.next > rhs.next then false
    else decide (lhs.addr < rhs.addr)

structure TimerManager (β : Type) where
  /-- the timer objects; `none` for a handle that was never given out -/
  heap : ℕ → Option (Timer β)
  /-- how many timers `addTimer` has created -/
  created : ℕ
  timers : List ℕ
  tickled : Bool
  previousTime : UInt64

namespace TimerManager

variable {β : Type}

/-- `TimerManager()` at clock reading `now` -/
def new (now : UInt64) : TimerManager β :=
  { heap := fun _ => none, created := 0, timers := [], tickled := false, previousTime := now }

/-- the order of `m_timers` under the due times the timers hold now -/
def less (s : TimerManager β) (a b : ℕ) : Bool := Timer.comparator (s.heap a) (s.heap b)

/-- assign to the object behind a handle -/
def store (s : TimerManager β) (id : ℕ) (t : Timer β) : TimerManager β :=
  { s with heap := Function.update s.heap id (some t) }

/-- `m_timers.find(p) != m_timers.end()` -/
def found (s : TimerManager β) (id : ℕ) : Bool := (OrdSet.find s.less id s.timers).isSome

/-- `m_timers.erase(m_timers.find(p))` -/
def erase (s : TimerManager β) (id : ℕ) : TimerManager β :=
  { s with timers := OrdSet.eraseAt s.less id s.timers }

/-- `m_timers.insert(p)` -/
def insert (s : TimerManager β) (id : ℕ) : TimerManager β :=
  { s with timers := OrdSet.insert s.less id s.timers }

/-- what an operation returns; `front` says that `onTimerInsertedAtFront` was called -/
inductive Ret (β : Type) where
  | added (id : ℕ) (front : Bool)
  | bool (b : Bool) (front : Bool)
  | next (ms : UInt64)
  /-- the callbacks pushed, each with the timer it was copied from -/
  | cbs (cbs : List (ℕ × Option β))
  | fault
deriving DecidableEq, Repr

/-- `addTimer(val, lock)`: insert, and wake the manager if the timer is the first and no wake-up is under way -/
def addTimerLocked (s : TimerManager β) (id : ℕ) : Bool × TimerManager β :=
  let s := s.insert id
  let at_front := decide (s.timers.head? = some id) && !s.tickled
  (at_front, if at_front then { s with tickled := true } else s)

/-- `addTimer(ms, cb, recurring)`: the object gets the next handle and the address `addr` -/
def addTimer (s : TimerManager β) (ms : UInt64) (cb : β) (recurring : Bool) (now : UInt64) (addr : ℕ) :
    Ret β × TimerManager β :=
  let t : Timer β := { recurring := recurring, ms := ms, next := now + ms, cb := some cb, addr := addr }
  let r := addTimerLocked { s.store s.created t with created := s.created + 1 } s.created
  (.added s.created r.1, r.2)

/-- `Timer::cancel` -/
def cancel (s : TimerManager β) (id : ℕ) : Ret β × TimerManager β :=
  match s.heap id with
  | none => (.bool false false, s)
  | some t =>
    if t.cb.isSome then
      let s := s.store id { t with cb := none }
      if s.found id then (.bool true false, s.erase id) else (.fault, s)
    else (.bool false false, s)

/-- `Timer::refresh`: erase, move the due time, insert again -/
def refresh (s : TimerManager β) (id : ℕ) (now : UInt64) : Ret β × TimerManager β :=
  match s.heap id with
  | none => (.bool false false, s)
  | some t =>
    if t.cb.isNone then (.bool false false, s)
    else if !s.found id then (.bool false false, s)
    else (.bool true false, ((s.erase id).store id { t with next := now + t.ms }).insert id)

/-- `Timer::reset`: the test before the lock returns `true` whether the timer is pending or not -/
def reset (s : TimerManager β) (id : ℕ) (ms : UInt64) (from_now : Bool) (now : UInt64) : Ret β × TimerManager β :=
  match s.heap id with
  | none => (.bool false false, s)
  | some t =>
    if ms = t.ms ∧ from_now = false then (.bool true false, s)
    else if t.cb.isNone then (.bool false false, s)
    else if !s.found id then (.bool false false, s)
    else
      let start := if from_now then now else t.next - t.ms
      let r := ((s.erase id).store id { t with ms := ms, next := start + ms }).addTimerLocked id
      (.bool true r.1, r.2)

def detectClockRollover (s : TimerManager β) (now_ms : UInt64) : Bool × TimerManager β :=
  (decide (now_ms < s.previousTime) && decide (now_ms < s.previousTime - 60 * 60 * 1000),
    { s with previousTime := now_ms })

/-- the loop over `expired`: push the callback, then put a recurring timer back or empty a one-shot one -/
def expireLoop (now_ms : UInt64) : List ℕ → TimerManager β → List (ℕ × Option β) × TimerManager β
  | [], s => ([], s)
  | id :: rest, s =>
    match s.heap id with
    | none => expireLoop now_ms rest s
    | some t =>
      let s :=
        if t.recurring then (s.store id { t with next := now_ms + t.ms }).insert id
        else s.store id { t with cb := none }
      let r := expireLoop now_ms rest s
      ((id, t.cb) :: r.1, r.2)

/-- the iterator of `listExpiredCb`: the timers before it and those from it on; `addr` is the address of `now_timer` -/
def expired (s : TimerManager β) (rollover : Bool) (now_ms : UInt64) (addr : ℕ) : List ℕ × List ℕ :=
  if rollover then (s.timers, [])
  else
    let now_timer : Timer β := { recurring := false, ms := 0, next := now_ms, cb := none, addr := addr }
    let it := OrdSet.lowerBound (fun id => Timer.comparator (s.heap id) (some now_timer)) s.timers
    let due : ℕ → Bool := fun id => (s.heap id).elim false fun t => decide (t.next = now_ms)
    (it.1 ++ it.2.takeWhile due, it.2.dropWhile due)

/-- the write-locked part of `listExpiredCb` -/
def listExpiredCbLocked (s : TimerManager β) (now_ms : UInt64) (addr : ℕ) : Ret β × TimerManager β :=
  let r := s.detectClockRollover now_ms
  let s := r.2
  match s.timers with
  | [] => if r.1 then (.cbs [], s) else (.fault, s)
  | front :: _ =>
    if !r.1 && (s.heap front).elim false fun t => decide (t.next > now_ms) then (.cbs [], s)
    else
      let e := s.expired r.1 now_ms addr
      let r := expireLoop now_ms e.1 { s with timers := e.2 }
      (.cbs r.1, r.2)

/-- `listExpiredCb`: the emptiness test, then the locked part -/
def listExpiredCb (s : TimerManager β) (now_ms : UInt64) (addr : ℕ) : Ret β × TimerManager β :=
  if s.timers = [] then (.cbs [], s) else s.listExpiredCbLocked now_ms addr

/-- `getNextTimer`: the time to the first timer, all ones if there is none -/
def getNextTimer (s : TimerManager β) (now_ms : UInt64) : Ret β × TimerManager β :=
  let s := { s with tickled := false }
  match s.timers with
  | [] => (.next (~~~0), s)
  | front :: _ =>
    match s.heap front with
    | none => (.fault, s)
    | some next => (.next (if now_ms ≥ next.next then 0 else next.next - now_ms), s)

/-! ## Calls as data -/

/-- a call, with the clock readings and the addresses `new` returns during it -/
inductive Op (β : Type) where
  | addTimer (ms : UInt64) (cb : β) (recurring : Bool) (now : UInt64) (addr : ℕ)
  | cancel (id : ℕ)
  | refresh (id : ℕ) (now : UInt64)
  | reset (id : ℕ) (ms : UInt64) (from_now : Bool) (now : UInt64)
  | listExpiredCb (now : UInt64) (addr : ℕ)
  | getNextTimer (now : UInt64)
deriving DecidableEq, Repr

def call (s : TimerManager β) : Op β → Ret β × TimerManager β
  | .addTimer ms cb recurring now addr => s.addTimer ms cb recurring now addr
  | .cancel id => s.cancel id
  | .refresh id now => s.refresh id now
  | .reset id ms from_now now => s.reset id ms from_now now
  | .listExpiredCb now addr => s.listExpiredCb now addr
  | .getNextTimer now => s.getNextTimer now

/-- `new` returns an address that no timer of the set has -/
def Op.Ok (s : TimerManager β) : Op β → Prop
  | .addTimer _ _ _ _ addr => ∀ id ∈ s.timers, (s.heap id).map Timer.addr ≠ some addr
  | _ => True

instance (s : TimerManager β) : (o : Op β) → Decidable (o.Ok s)
  | .addTimer .. => inferInstanceAs (Decidable (∀ id ∈ s.timers, _))
  | .cancel _ | .refresh .. | .reset .. | .listExpiredCb .. | .getNextTimer _ => isTrue trivial

end TimerManager

end Sylar
