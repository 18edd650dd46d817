/-
The non-blocking flag of a managed socket (`sylar/fd_manager.cpp`, and `fcntl` and `ioctl` of `sylar/hook.cpp`).

A managed socket is non-blocking for the kernel and, unless the user asks otherwise, blocking for the user. The kernel
keeps the status flags of the open file as a word; `F_SETFL` replaces the flags it may change, `FIONBIO` the one flag
`O_NONBLOCK`. Both may fail (`ok`), which leaves the word alone. `FdCtx` keeps what the user asked for.

- `getfl_reports`: `fcntl(F_GETFL)` reports `O_NONBLOCK` iff the user's last request was for it, in every run.
- `nonblock_emulated_iff`: the kernel's flag is set at all times as well iff no call of the run is `ioctl(FIONBIO)` with
  value 0 that succeeds. `ioctl` forwards the value it was given, where `fcntl` rewrites its argument.
- `fionbio_clears`: that call.
-/
import Mathlib.Tactic
import Sylar.Core.Run

namespace Sylar

open Sylar.Core

/-- `FdCtx`; `fd` and the timeouts included, as `do_io` reads them -/
structure FdCtx where
  fd : ℕ
  isInit : Bool := false
  isSocket : Bool := false
  sysNonblock : Bool := false
  userNonblock : Bool := false
  isClosed : Bool := false
  recvTimeout : UInt64 := 0xffffffffffffffff
  sendTimeout : UInt64 := 0xffffffffffffffff
deriving DecidableEq, Repr

namespace Hook

def O_NONBLOCK : UInt32 := 0x800

/-- the flags `F_SETFL` may change: `O_APPEND`, `O_NONBLOCK`, `O_ASYNC`, `O_DIRECT`, `O_NOATIME` -/
def SETFL_MASK : UInt32 := 0x400 ||| 0x800 ||| 0x2000 ||| 0x4000 ||| 0x40000

/-- `flags & O_NONBLOCK` as a condition -/
def nonblock (flags : UInt32) : Bool := decide (flags &&& O_NONBLOCK ≠ 0)

/-! ## The kernel -/

/-- `fcntl_f(fd, F_SETFL, arg)`: the result and the new flags -/
def setfl (flags arg : UInt32) (ok : Bool) : ℤ × UInt32 :=
  if ok then (0, arg &&& SETFL_MASK ||| flags &&& ~~~SETFL_MASK) else (-1, flags)

/-- `ioctl_f(fd, FIONBIO, &value)` -/
def fionbio (flags value : UInt32) (ok : Bool) : ℤ × UInt32 :=
  if ok then (0, if value ≠ 0 then flags ||| O_NONBLOCK else flags &&& ~~~O_NONBLOCK) else (-1, flags)

/-! ## The hooked calls -/

/-- an fd: the entry of `FdManager`, `none` if there is none, and the kernel's flags -/
structure Fd where
  ctx : Option FdCtx
  flags : UInt32

/-- `FdCtx(fd)` on an fd with the given flags; `isSock` is what `fstat` says, `none` if it fails -/
def FdCtx.init (fd : ℕ) (isSock : Option Bool) (flags : UInt32) : Fd :=
  let isSocket := isSock.getD false
  { ctx := some { fd := fd, isInit := isSock.isSome, isSocket := isSocket, sysNonblock := isSocket }
    flags := if isSocket && !nonblock flags then (setfl flags (flags ||| O_NONBLOCK) true).2 else flags }

/-- `!ctx || ctx->isClosed() || !ctx->isSocket()` -/
def unmanaged (ctx : FdCtx) : Bool := ctx.isClosed || !ctx.isSocket

/-- `fcntl(fd, F_SETFL, arg)` -/
def fcntlSetfl (s : Fd) (arg : UInt32) (ok : Bool) : ℤ × Fd :=
  match s.ctx with
  | none => ((setfl s.flags arg ok).1, { s with flags := (setfl s.flags arg ok).2 })
  | some ctx =>
    if unmanaged ctx then ((setfl s.flags arg ok).1, { s with flags := (setfl s.flags arg ok).2 })
    else
      let ctx := { ctx with userNonblock := nonblock arg }
      let arg := if ctx.sysNonblock then arg ||| O_NONBLOCK else arg &&& ~~~O_NONBLOCK
      ((setfl s.flags arg ok).1, { ctx := some ctx, flags := (setfl s.flags arg ok).2 })

/-- `fcntl(fd, F_GETFL)` -/
def fcntlGetfl (s : Fd) : UInt32 :=
  match s.ctx with
  | none => s.flags
  | some ctx =>
    if unmanaged ctx then s.flags
    else if ctx.userNonblock then s.flags ||| O_NONBLOCK else s.flags &&& ~~~O_NONBLOCK

/-- `ioctl(fd, FIONBIO, &value)` -/
def ioctlFionbio (s : Fd) (value : UInt32) (ok : Bool) : ℤ × Fd :=
  let user_nonblock := decide (value ≠ 0)
  let ctx := s.ctx.map fun ctx => if unmanaged ctx then ctx else { ctx with userNonblock := user_nonblock }
  ((fionbio s.flags value ok).1, { ctx := ctx, flags := (fionbio s.flags value ok).2 })

/-! ## Runs -/

inductive Call where
  | setfl (arg : UInt32) (ok : Bool)
  | getfl
  | fionbio (value : UInt32) (ok : Bool)
deriving DecidableEq, Repr

def call (s : Fd) : Call → Fd
  | .setfl arg ok => (fcntlSetfl s arg ok).2
  | .getfl => s
  | .fionbio value ok => (ioctlFionbio s value ok).2

/-- what the call asks for, if it asks for anything -/
def Call.request : Call → Option Bool
  | .setfl arg _ => some (nonblock arg)
  | .getfl => none
  | .fionbio value _ => some (decide (value ≠ 0))

/-- the user's last request; a socket starts out blocking -/
def lastRequest (calls : List Call) : Bool := (calls.filterMap Call.request).getLast?.getD false

/-- at every moment of the run the kernel's flag is set, and `F_GETFL` tells the user's last request -/
def Emulated (s : Fd) (calls : List Call) : Prop :=
  ∀ pre post, calls = pre ++ post →
    nonblock (run call s pre).flags = true ∧ nonblock (fcntlGetfl (run call s pre)) = lastRequest pre

/-- `ioctl(FIONBIO)` with value 0, and it succeeds -/
def Call.clears : Call → Bool
  | .fionbio value ok => decide (value = 0) && ok
  | _ => false

/-! ## The flag in a word -/

theorem nonblock_or (a b : UInt32) : nonblock (a ||| b) = (nonblock a || nonblock b) := by
  have hdist : (a ||| b) &&& O_NONBLOCK = (a &&& O_NONBLOCK) ||| (b &&& O_NONBLOCK) := by
    apply UInt32.toBitVec_inj.1
    ext i hi
    simp [Bool.and_or_distrib_right]
  unfold nonblock
  rw [hdist, ← Bool.decide_or]
  refine decide_eq_decide.2 ?_
  rw [Ne, UInt32.or_eq_zero_iff]
  tauto

/-- a mask that has the flag lets it through -/
theorem nonblock_and_of_has {m : UInt32} (h : m &&& O_NONBLOCK = O_NONBLOCK) (a : UInt32) :
    nonblock (a &&& m) = nonblock a := by
  unfold nonblock
  rw [UInt32.and_assoc, h]

/-- a mask that has it not clears it -/
theorem nonblock_and_of_not {m : UInt32} (h : m &&& O_NONBLOCK = 0) (a : UInt32) : nonblock (a &&& m) = false := by
  unfold nonblock
  rw [UInt32.and_assoc, h, UInt32.and_zero]
  rfl

/-- `F_SETFL` sets the flag as its argument has it -/
theorem nonblock_setfl (flags arg : UInt32) (ok : Bool) :
    nonblock (setfl flags arg ok).2 = if ok then nonblock arg else nonblock flags := by
  cases ok with
  | false => rfl
  | true =>
    show nonblock (arg &&& SETFL_MASK ||| flags &&& ~~~SETFL_MASK) = nonblock arg
    rw [nonblock_or, nonblock_and_of_has (by decide), nonblock_and_of_not (by decide), Bool.or_false]

theorem nonblock_fionbio (flags value : UInt32) (ok : Bool) :
    nonblock (fionbio flags value ok).2 = if ok then decide (value ≠ 0) else nonblock flags := by
  cases ok with
  | false => rfl
  | true =>
    show nonblock (if value ≠ 0 then flags ||| O_NONBLOCK else flags &&& ~~~O_NONBLOCK) = decide (value ≠ 0)
    split_ifs with h
    · rw [nonblock_or, decide_eq_true h, show nonblock O_NONBLOCK = true by decide, Bool.or_true]
    · rw [nonblock_and_of_not (by decide), decide_eq_false h]

/-! ## The emulation -/

/-- a managed socket, and what the user has asked for -/
def Managed (s : Fd) (user : Bool) : Prop :=
  ∃ ctx, s.ctx = some ctx ∧ unmanaged ctx = false ∧ ctx.sysNonblock = true ∧ ctx.userNonblock = user

theorem init_managed (fd : ℕ) (flags : UInt32) :
    Managed (FdCtx.init fd (some true) flags) false ∧ nonblock (FdCtx.init fd (some true) flags).flags = true := by
  refine ⟨⟨_, rfl, rfl, rfl, rfl⟩, ?_⟩
  simp only [FdCtx.init, Option.getD_some, Bool.true_and]
  split_ifs with h
  · rw [nonblock_setfl, if_pos rfl, nonblock_or, show nonblock O_NONBLOCK = true by decide, Bool.or_true]
  · simpa using h

/-- what a call does to the user's view and to the kernel's flag -/
theorem call_managed {s : Fd} {user : Bool} (h : Managed s user) (c : Call) :
    Managed (call s c) (c.request.getD user) ∧
      (nonblock s.flags = true → nonblock (call s c).flags = !c.clears) := by
  obtain ⟨ctx, hctx, hman, hsys, huser⟩ := h
  cases c with
  | getfl => exact ⟨⟨ctx, hctx, hman, hsys, huser⟩, fun hs => hs⟩
  | setfl arg ok =>
    simp only [call, fcntlSetfl, hctx, hman, Bool.false_eq_true, if_false, hsys, if_true]
    refine ⟨⟨_, rfl, hman, rfl, rfl⟩, fun hs => ?_⟩
    show nonblock (setfl s.flags (arg ||| O_NONBLOCK) ok).2 = true
    rw [nonblock_setfl, nonblock_or, show nonblock O_NONBLOCK = true by decide, Bool.or_true, hs]
    cases ok <;> rfl
  | fionbio value ok =>
    simp only [call, ioctlFionbio, hctx, Option.map_some, hman, Bool.false_eq_true, if_false]
    refine ⟨⟨_, rfl, hman, hsys, rfl⟩, fun hs => ?_⟩
    rw [nonblock_fionbio, hs]
    cases ok with
    | false => simp [Call.clears]
    | true => simp [Call.clears]

theorem lastRequest_snoc (calls : List Call) (c : Call) :
    lastRequest (calls ++ [c]) = c.request.getD (lastRequest calls) := by
  unfold lastRequest
  rw [List.filterMap_append]
  cases hc : c.request with
  | none => simp [hc]
  | some b => simp [hc]

theorem run_managed (fd : ℕ) (flags : UInt32) (calls : List Call) :
    Managed (run call (FdCtx.init fd (some true) flags) calls) (lastRequest calls) := by
  induction calls using List.reverseRecOn with
  | nil => exact (init_managed fd flags).1
  | append_singleton calls c ih =>
    rw [run_append, lastRequest_snoc]
    exact (call_managed ih c).1

/-- **The user's view.** In every run `fcntl(F_GETFL)` reports `O_NONBLOCK` iff the last request was for it. -/
theorem getfl_reports (fd : ℕ) (flags : UInt32) (calls : List Call) :
    nonblock (fcntlGetfl (run call (FdCtx.init fd (some true) flags) calls)) = lastRequest calls := by
  obtain ⟨ctx, hctx, hman, -, huser⟩ := run_managed fd flags calls
  simp only [fcntlGetfl, hctx, hman, Bool.false_eq_true, if_false, huser]
  cases lastRequest calls with
  | true => rw [if_pos rfl, nonblock_or, show nonblock O_NONBLOCK = true by decide, Bool.or_true]
  | false => rw [if_neg (by simp), nonblock_and_of_not (by decide)]

/-- the kernel's flag stays set as long as no call clears it -/
theorem run_nonblock (fd : ℕ) (flags : UInt32) (calls : List Call) (h : ∀ c ∈ calls, c.clears = false) :
    nonblock (run call (FdCtx.init fd (some true) flags) calls).flags = true := by
  induction calls using List.reverseRecOn with
  | nil => exact (init_managed fd flags).2
  | append_singleton calls c ih =>
    have hs := ih fun c' hc' => h c' (List.mem_append_left _ hc')
    rw [run_append]
    have := (call_managed (run_managed fd flags calls) c).2 hs
    rw [h c (by simp)] at this
    exact this

/-- **The emulation of blocking sockets.** For every socket fd `FdManager` has initialised and every sequence of calls,
the kernel's flag is set and `F_GETFL` is right at every moment iff no call is `ioctl(FIONBIO)` with value 0 that
succeeds. -/
theorem nonblock_emulated_iff (fd : ℕ) (flags : UInt32) (calls : List Call) :
    Emulated (FdCtx.init fd (some true) flags) calls ↔ ∀ c ∈ calls, c.clears = false := by
  constructor
  · intro h c hc
    obtain ⟨pre, post, rfl⟩ := List.append_of_mem hc
    -- the flag is set before the call and, as the run goes on, after it
    have hbefore := (h pre (c :: post) rfl).1
    have hafter := (h (pre ++ [c]) post (by simp)).1
    rw [run_append] at hafter
    have := (call_managed (run_managed fd flags pre) c).2 hbefore
    rw [run_cons, run_nil, this] at hafter
    simpa using hafter
  · rintro h pre post rfl
    exact ⟨run_nonblock fd flags pre fun c hc => h c (List.mem_append_left _ hc), getfl_reports fd flags pre⟩

/-- a blocking TCP socket: one `ioctl(FIONBIO)` with value 0 clears the kernel's flag -/
theorem fionbio_clears : ¬Emulated (FdCtx.init 5 (some true) 0x2) [.fionbio 0 true] := by
  intro h
  have := (h [.fionbio 0 true] [] rfl).1
  revert this
  decide

end Hook

end Sylar
