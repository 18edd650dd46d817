/-
Socket timeouts on their way through the hook (`setsockopt` and `do_io` of `sylar/hook.cpp`, `FdCtx::setTimeout`, and
`setRecvTimeout` and `getRecvTimeout` of `sylar/socket.cpp` with their siblings for sending).

A timeout is milliseconds in a `Socket`, a `timeval` in `setsockopt`, and milliseconds as a `uint64_t` in the context
of the fd, where all ones stands for no limit. For the kernel a `timeval` of zero stands for no limit.

- `timeouts_kept_iff`: which `timeval`s a later wait respects, and for which timeouts `getRecvTimeout` returns what
  `setRecvTimeout` was given.
- `timeval_zero_waits`: a `timeval` of zero, which makes a later wait end after 0 ms.
-/
import Mathlib.Tactic
import Sylar.Core.Words
import Sylar.Timer.Expiry
import Sylar.Hook.Flags
import Sylar.Hook.DoIo

namespace Sylar.Hook

open Sylar.Core

/-! ## The calls -/

structure Timeval where
  tv_sec : Int64
  tv_usec : Int64
deriving DecidableEq, Repr

/-- `tv->tv_sec * 1000 + tv->tv_usec / 1000`; `none` if it overflows -/
def Timeval.ms (tv : Timeval) : Option Int64 :=
  (checked (tv.tv_sec.toInt * 1000)).bind fun ms => checked (ms.toInt + (tv.tv_usec / 1000).toInt)

def FdCtx.setTimeout (ctx : FdCtx) (type : TimeoutSo) (v : UInt64) : FdCtx :=
  match type with
  | .rcv => { ctx with recvTimeout := v }
  | .snd => { ctx with sendTimeout := v }

/-- `SO_RCVTIMEO` or `SO_SNDTIMEO` of level `SOL_SOCKET` with the value behind the pointer, or any other option -/
inductive SockOpt where
  | timeout (optname : TimeoutSo) (tv : Timeval)
  | other
deriving DecidableEq, Repr

/-- what `setsockopt` does to the context of the fd; `none` is undefined behaviour -/
def setsockopt (hook_enable : Bool) (ctx : Option FdCtx) (opt : SockOpt) : Option (Option FdCtx) :=
  if !hook_enable then some ctx
  else
    match opt, ctx with
    | .timeout optname tv, some ctx => tv.ms.map fun ms => some (FdCtx.setTimeout ctx optname ms.toUInt64)
    | _, _ => some ctx

/-- `timeval{int(v / 1000), int(v % 1000 * 1000)}` -/
def timevalOf (v : Int64) : Timeval :=
  { tv_sec := (v / 1000).toInt32.toInt64, tv_usec := (v % 1000 * 1000).toInt32.toInt64 }

/-- `Socket::setRecvTimeout` and `Socket::setSendTimeout` -/
def setSocketTimeout (hook_enable : Bool) (ctx : Option FdCtx) (type : TimeoutSo) (v : Int64) : Option (Option FdCtx) :=
  setsockopt hook_enable ctx (.timeout type (timevalOf v))

def setRecvTimeout (hook_enable : Bool) (ctx : Option FdCtx) (v : Int64) : Option (Option FdCtx) :=
  setSocketTimeout hook_enable ctx .rcv v

def setSendTimeout (hook_enable : Bool) (ctx : Option FdCtx) (v : Int64) : Option (Option FdCtx) :=
  setSocketTimeout hook_enable ctx .snd v

/-- `Socket::getRecvTimeout` and `Socket::getSendTimeout` -/
def getSocketTimeout (ctx : Option FdCtx) (type : TimeoutSo) : Int64 :=
  match ctx with
  | some ctx => (FdCtx.getTimeout ctx type).toInt64
  | none => -1

def getRecvTimeout (ctx : Option FdCtx) : Int64 := getSocketTimeout ctx .rcv

def getSendTimeout (ctx : Option FdCtx) : Int64 := getSocketTimeout ctx .snd

/-! ## What a timeout is for -/

/-- a call on a managed socket between the setting of a timeout and the wait -/
inductive SockCall where
  | flag (c : Call)
  | setsockopt (hook_enable : Bool) (opt : SockOpt)
deriving DecidableEq, Repr

def sockCall (s : Fd) : SockCall → Option Fd
  | .flag c => some (call s c)
  | .setsockopt hook_enable opt => (setsockopt hook_enable s.ctx opt).map fun ctx => { s with ctx := ctx }

/-- the call sets the timeout of direction `so` -/
def SockCall.sets (so : TimeoutSo) : SockCall → Bool
  | .setsockopt true (.timeout so' _) => decide (so' = so)
  | _ => false

def Timeval.Zero (tv : Timeval) : Prop := tv.tv_sec.toInt = 0 ∧ tv.tv_usec.toInt = 0

def Timeval.microseconds (tv : Timeval) : ℤ := tv.tv_sec.toInt * 1000000 + tv.tv_usec.toInt

/-- a `do_io` about to wait with the limit `ms` sets no timer if `tv` is zero, and otherwise one of at least `tv` -/
def WaitKeeps (tv : Timeval) (ms : UInt64) : Prop :=
  ∀ (s : St) (k : ℕ) (now : UInt64) (addr : ℕ), (s.calls k).phase = .blocked → (s.calls k).ms = ms →
    let s' := stepAlive s (.addTimer k now addr)
    (tv.Zero → (s'.calls k).phase = .armed none) ∧
      (¬tv.Zero → ∃ id t, (s'.calls k).phase = .armed (some id) ∧ s'.timers.heap id = some t ∧
        tv.microseconds ≤ t.ms.toNat * 1000)

/-- set through the hook, `tv` is kept by every later wait in its direction, up to the next timeout that is set for it
-/
def KeepsTimeout (s : Fd) (so : TimeoutSo) (tv : Timeval) : Prop :=
  ∃ s1, sockCall s (.setsockopt true (.timeout so tv)) = some s1 ∧
    ∀ (calls : List SockCall) (s2 : Fd), (∀ c ∈ calls, c.sets so = false) → calls.foldlM sockCall s1 = some s2 →
      ∀ ms, doIoEntry true s2.ctx so = .loop ms → WaitKeeps tv ms

/-- setting a timeout of `v` ms and reading it back -/
def RoundTrip (hook_enable : Bool) (ctx : Option FdCtx) (so : TimeoutSo) (v : Int64) : Prop :=
  ∃ ctx', setSocketTimeout hook_enable ctx so v = some ctx' ∧ getSocketTimeout ctx' so = v

/-! ## The wait -/

/-- the step that sets the timer: all ones is no limit, any other value the period of a timer -/
theorem addTimer_armed {s : St} {k : ℕ} (hphase : (s.calls k).phase = .blocked) (now : UInt64) (addr : ℕ) :
    let s' := stepAlive s (.addTimer k now addr)
    ((s.calls k).ms = 0xffffffffffffffff → (s'.calls k).phase = .armed none) ∧
      ((s.calls k).ms ≠ 0xffffffffffffffff → ∃ id t, (s'.calls k).phase = .armed (some id) ∧
        s'.timers.heap id = some t ∧ t.ms = (s.calls k).ms) := by
  intro s'
  have hs' : s' = stepAlive s (.addTimer k now addr) := rfl
  simp only [stepAlive, hphase] at hs'
  constructor
  · intro hms
    rw [if_pos hms] at hs'
    rw [hs']
    simp [St.goto, St.setCall]
  · intro hms
    have hheap := TimerManager.addTimer_heap s.timers (s.calls k).ms (Cb.timeout k) false now addr
    rw [if_neg hms] at hs'
    rw [hs']
    refine ⟨s.timers.created, _, ?_, (congrFun hheap s.timers.created).trans (Function.update_self ..), rfl⟩
    simp [TimerManager.call, TimerManager.addTimer, St.setCall]

theorem waitKeeps_iff (tv : Timeval) (ms : UInt64) :
    WaitKeeps tv ms ↔ (tv.Zero ∧ ms = 0xffffffffffffffff) ∨
      (¬tv.Zero ∧ ms ≠ 0xffffffffffffffff ∧ tv.microseconds ≤ ms.toNat * 1000) := by
  constructor
  · intro h
    -- any state with one blocked call tells
    have hcall := h { start 0 with calls := fun _ => { phase := .blocked, ms := ms } } 0 0 0 rfl rfl
    have harmed :=
      addTimer_armed (s := { start 0 with calls := fun _ => { phase := .blocked, ms := ms } }) (k := 0) rfl 0 0
    obtain ⟨hzero, hpos⟩ := hcall
    obtain ⟨hones, hother⟩ := harmed
    by_cases htv : tv.Zero
    · refine .inl ⟨htv, ?_⟩
      by_contra hms
      obtain ⟨id, t, hphase, -⟩ := hother hms
      rw [hzero htv] at hphase
      cases hphase
    · obtain ⟨id, t, hphase, ht, hle⟩ := hpos htv
      have hms : ms ≠ 0xffffffffffffffff := by
        intro hms
        rw [hones hms] at hphase
        cases hphase
      obtain ⟨id', t', hphase', ht', hms'⟩ := hother hms
      rw [hphase] at hphase'
      cases hphase'
      rw [ht] at ht'
      cases ht'
      refine .inr ⟨htv, hms, ?_⟩
      rwa [hms'] at hle
  · rintro (⟨htv, hms⟩ | ⟨htv, hms, hle⟩) s k now addr hphase hk
    · exact ⟨fun _ => (addTimer_armed hphase now addr).1 (hk.trans hms), fun hn => absurd htv hn⟩
    · refine ⟨fun hz => absurd hz htv, fun _ => ?_⟩
      obtain ⟨id, t, hphase', ht, hms'⟩ := (addTimer_armed hphase now addr).2 (by rwa [hk])
      exact ⟨id, t, hphase', ht, by rwa [hms', hk]⟩

/-! ## The setting -/

/-- the milliseconds of a `timeval`, where nothing overflows -/
theorem ms_eq_some {tv : Timeval} (husec : 0 ≤ tv.tv_usec.toInt) {ms : Int64} :
    tv.ms = some ms ↔ Fits64 (tv.tv_sec.toInt * 1000) ∧ ms.toInt = tv.tv_sec.toInt * 1000 + tv.tv_usec.toInt / 1000 := by
  have hdiv : (tv.tv_usec / 1000).toInt = tv.tv_usec.toInt / 1000 := toInt_div_of_nonneg husec (by decide)
  rw [Timeval.ms, Option.bind_eq_some_iff, ← hdiv]
  constructor
  · rintro ⟨p, hp, hms⟩
    rw [checked_eq_some] at hp hms
    rw [← hp]
    exact ⟨fits64_toInt p, hms⟩
  · rintro ⟨hfits, hms⟩
    obtain ⟨p, hp⟩ := exists_checked hfits
    refine ⟨p, hp, ?_⟩
    rw [checked_eq_some] at hp ⊢
    rw [hp, hms]

theorem setTimeout_getTimeout (ctx : FdCtx) (so so' : TimeoutSo) (v : UInt64) :
    FdCtx.getTimeout (FdCtx.setTimeout ctx so v) so' = if so' = so then v else FdCtx.getTimeout ctx so' := by
  cases so <;> cases so' <;> rfl

theorem setTimeout_unmanaged (ctx : FdCtx) (so : TimeoutSo) (v : UInt64) :
    unmanaged (FdCtx.setTimeout ctx so v) = unmanaged ctx := by
  cases so <;> rfl

/-- the socket is managed and its limit in direction `so` is `v` -/
def Limit (s : Fd) (so : TimeoutSo) (v : UInt64) : Prop :=
  ∃ ctx, s.ctx = some ctx ∧ unmanaged ctx = false ∧ FdCtx.getTimeout ctx so = v

/-- **Step lemma.** A call that does not set the limit keeps it. -/
theorem sockCall_limit {s s' : Fd} {so : TimeoutSo} {v : UInt64} (h : Limit s so v) {c : SockCall}
    (hc : c.sets so = false)
    (hs : sockCall s c = some s') : Limit s' so v := by
  obtain ⟨ctx, hctx, hman, hv⟩ := h
  cases c with
  | flag c =>
    obtain rfl := Option.some.inj hs
    cases c with
    | getfl => exact ⟨ctx, hctx, hman, hv⟩
    | setfl arg ok =>
      simp only [call, fcntlSetfl, hctx, hman, Bool.false_eq_true, if_false]
      refine ⟨_, rfl, hman, ?_⟩
      rw [← hv]
      cases so <;> rfl
    | fionbio value ok =>
      simp only [call, ioctlFionbio, hctx, Option.map_some, hman, Bool.false_eq_true, if_false]
      refine ⟨_, rfl, hman, ?_⟩
      rw [← hv]
      cases so <;> rfl
  | setsockopt hook_enable opt =>
    obtain ⟨ctx', hset, rfl⟩ := Option.map_eq_some_iff.mp hs
    rw [hctx] at hset
    cases hook_enable with
    | false =>
      obtain rfl := Option.some.inj hset
      exact ⟨ctx, rfl, hman, hv⟩
    | true =>
      cases opt with
      | other =>
        obtain rfl := Option.some.inj hset
        exact ⟨ctx, rfl, hman, hv⟩
      | timeout so' tv =>
        obtain ⟨ms, -, rfl⟩ := Option.map_eq_some_iff.mp hset
        have hne : so ≠ so' := by
          rintro rfl
          simp [SockCall.sets] at hc
        refine ⟨_, rfl, (setTimeout_unmanaged ctx so' _).trans hman, ?_⟩
        rw [setTimeout_getTimeout, if_neg hne, hv]

/-- **Run lemma.** -/
theorem sockCalls_limit {so : TimeoutSo} {v : UInt64} {calls : List SockCall} {s s' : Fd} (h : Limit s so v)
    (hc : ∀ c ∈ calls, c.sets so = false) (hs : calls.foldlM sockCall s = some s') : Limit s' so v := by
  induction calls generalizing s with
  | nil =>
    obtain rfl := Option.some.inj hs
    exact h
  | cons c calls ih =>
    rw [List.foldlM_cons] at hs
    obtain ⟨s1, h1, h2⟩ := Option.bind_eq_some_iff.mp hs
    apply ih (sockCall_limit h (hc c List.mem_cons_self) h1)
    · intro c' hc'
      exact hc c' (List.mem_cons_of_mem _ hc')
    · exact h2

theorem doIoEntry_some (ctx : FdCtx) (so : TimeoutSo) :
    doIoEntry true (some ctx) so =
      if ctx.isClosed then .closed
      else if !ctx.isSocket || ctx.userNonblock then .direct
      else .loop (FdCtx.getTimeout ctx so) := rfl

/-- `tv` is whole milliseconds, at least one, and few enough for an `int64_t` -/
def Timeval.Exact (tv : Timeval) : Prop :=
  ¬tv.Zero ∧ tv.tv_usec.toInt % 1000 = 0 ∧ tv.tv_sec.toInt * 1000 + tv.tv_usec.toInt / 1000 < 2 ^ 63

/-- a word that is not negative, as an unsigned one -/
theorem toNat_toUInt64_of_nonneg {x : Int64} (h : 0 ≤ x.toInt) : (x.toUInt64.toNat : ℤ) = x.toInt := by
  have hlt := x.toInt_lt
  rw [toNat_toUInt64]
  exact Int.emod_eq_of_lt h (by omega)

/-- the limit that `tv` comes to is kept by a wait iff `tv` is exact -/
theorem waitKeeps_ms_iff {tv : Timeval} (hsec : 0 ≤ tv.tv_sec.toInt) (husec : 0 ≤ tv.tv_usec.toInt) {ms : Int64}
    (hms : tv.ms = some ms) : WaitKeeps tv ms.toUInt64 ↔ ¬tv.Zero ∧ tv.tv_usec.toInt % 1000 = 0 := by
  obtain ⟨-, hval⟩ := (ms_eq_some husec).mp hms
  have hnat : (ms.toUInt64.toNat : ℤ) = ms.toInt := toNat_toUInt64_of_nonneg (by omega)
  have hlt := ms.toInt_lt
  have hones : ms.toUInt64 ≠ 0xffffffffffffffff := by
    intro he
    rw [he, show (0xffffffffffffffff : UInt64).toNat = 2 ^ 64 - 1 by decide] at hnat
    omega
  rw [waitKeeps_iff, hnat, hval, Timeval.microseconds]
  constructor
  · rintro (⟨-, he⟩ | ⟨htv, -, hle⟩)
    · exact absurd he hones
    · exact ⟨htv, by omega⟩
  · rintro ⟨htv, hmod⟩
    exact .inr ⟨htv, hones, by omega⟩

/-- a timeout that is set is the limit -/
theorem limit_setTimeout {ctx : FdCtx} (hman : unmanaged ctx = false) (s : Fd) (so : TimeoutSo) (v : UInt64) :
    Limit { s with ctx := some (FdCtx.setTimeout ctx so v) } so v := by
  refine ⟨_, rfl, (setTimeout_unmanaged ctx so v).trans hman, ?_⟩
  rw [setTimeout_getTimeout, if_pos rfl]

/-- a wait has the limit of the socket -/
theorem Limit.entry {s : Fd} {so : TimeoutSo} {v ms : UInt64} (h : Limit s so v)
    (hloop : doIoEntry true s.ctx so = .loop ms) : ms = v := by
  obtain ⟨ctx, hctx, -, rfl⟩ := h
  rw [hctx, doIoEntry_some] at hloop
  split_ifs at hloop
  injection hloop with hloop
  exact hloop.symm

/-- made blocking, whatever it was, the socket waits -/
theorem Limit.blocking {s : Fd} {so : TimeoutSo} {v : UInt64} (h : Limit s so v) :
    doIoEntry true (call s (.setfl 0 true)).ctx so = .loop v := by
  obtain ⟨ctx', hctx', hman', hv⟩ : Limit (call s (.setfl 0 true)) so v :=
    @sockCall_limit s _ so v h (.flag (.setfl 0 true)) rfl rfl
  obtain ⟨hclosed, hsock⟩ : ctx'.isClosed = false ∧ ctx'.isSocket = true := by simpa [unmanaged] using hman'
  have hblock : ctx'.userNonblock = false := by
    obtain ⟨ctx, hctx, hman, -⟩ := h
    simp only [call, fcntlSetfl, hctx, hman, Bool.false_eq_true, if_false, Option.some.injEq] at hctx'
    have hzero : nonblock 0 = false := by decide
    rw [← hctx']
    exact hzero
  rw [hctx', doIoEntry_some]
  simp [hclosed, hsock, hblock, hv]

theorem keepsTimeout_iff {s : Fd} {ctx : FdCtx} (hctx : s.ctx = some ctx) (hman : unmanaged ctx = false)
    (so : TimeoutSo)
    {tv : Timeval} (hsec : 0 ≤ tv.tv_sec.toInt) (husec : 0 ≤ tv.tv_usec.toInt) : KeepsTimeout s so tv ↔ tv.Exact := by
  have hset : sockCall s (.setsockopt true (.timeout so tv)) =
      tv.ms.map fun ms => { s with ctx := some (FdCtx.setTimeout ctx so ms.toUInt64) } := by
    simp only [sockCall, setsockopt, hctx, Bool.not_true, Bool.false_eq_true, if_false, Option.map_map]
    rfl
  constructor
  · rintro ⟨s1, h1, hkeeps⟩
    rw [hset] at h1
    obtain ⟨ms, hms, rfl⟩ := Option.map_eq_some_iff.mp h1
    have hloop := (limit_setTimeout hman s so ms.toUInt64).blocking
    have hwait := hkeeps [.flag (.setfl 0 true)] _ (by simp [SockCall.sets]) rfl _ hloop
    obtain ⟨htv, hmod⟩ := (waitKeeps_ms_iff hsec husec hms).mp hwait
    refine ⟨htv, hmod, ?_⟩
    rw [← ((ms_eq_some husec).mp hms).2]
    exact ms.toInt_lt
  · rintro ⟨htv, hmod, hlt⟩
    have hsum : Fits64 (tv.tv_sec.toInt * 1000 + tv.tv_usec.toInt / 1000) := ⟨by omega, hlt⟩
    obtain ⟨ms, hms⟩ : ∃ ms, tv.ms = some ms :=
      ⟨_, (ms_eq_some husec).mpr ⟨⟨by omega, by omega⟩, Int64.toInt_ofInt_of_le hsum.1 hsum.2⟩⟩
    refine ⟨_, by rw [hset, hms]; rfl, ?_⟩
    intro calls s2 hcalls hrun ms' hloop
    obtain rfl := (sockCalls_limit (limit_setTimeout hman s so ms.toUInt64) hcalls hrun).entry hloop
    exact (waitKeeps_ms_iff hsec husec hms).mpr ⟨htv, hmod⟩

/-! ## Reading back -/

/-- the fd has a context, and with the hook the seconds fit an `int`; without the hook the context has the value
already -/
def Readable (hook_enable : Bool) (ctx : Option FdCtx) (so : TimeoutSo) (v : Int64) : Prop :=
  ∃ c, ctx = some c ∧ if hook_enable then v.toInt / 1000 < 2 ^ 31 else (FdCtx.getTimeout c so).toInt64 = v

/-- the milliseconds that come out: the seconds cut to an `int`, and the rest -/
theorem timevalOf_ms {v : Int64} (hv : 0 ≤ v.toInt) :
    ∃ ms, (timevalOf v).ms = some ms ∧ ms.toInt = (v.toInt / 1000).bmod (2 ^ 32) * 1000 + v.toInt % 1000 := by
  have hthousand : (1000 : Int64).toInt = 1000 := by decide
  have hsec : (timevalOf v).tv_sec.toInt = (v.toInt / 1000).bmod (2 ^ 32) := by
    rw [timevalOf, Int32.toInt_toInt64, Int64.toInt_toInt32, toInt_div_of_nonneg hv (by decide), hthousand]
  have hmod : (v % 1000).toInt = v.toInt % 1000 := by
    rw [toInt_mod_of_nonneg hv, hthousand]
  have hmul : (v % 1000 * 1000).toInt = v.toInt % 1000 * 1000 := by
    rw [toInt_mul_of_fits, hmod, hthousand]
    rw [hmod, hthousand]
    exact ⟨by omega, by omega⟩
  have husec : (timevalOf v).tv_usec.toInt = v.toInt % 1000 * 1000 := by
    rw [timevalOf, Int32.toInt_toInt64, Int64.toInt_toInt32, hmul]
    exact Int.bmod_eq_of_le (by omega) (by omega)
  have hlo := Int.le_bmod (x := v.toInt / 1000) (m := 2 ^ 32) (by norm_num)
  have hhi := Int.bmod_lt (x := v.toInt / 1000) (m := 2 ^ 32) (by norm_num)
  have hdiv : v.toInt % 1000 * 1000 / 1000 = v.toInt % 1000 := Int.mul_ediv_cancel _ (by norm_num)
  refine ⟨Int64.ofInt ((v.toInt / 1000).bmod (2 ^ 32) * 1000 + v.toInt % 1000), ?_, ?_⟩
  · rw [ms_eq_some (by rw [husec]; omega), hsec, husec, hdiv]
    exact ⟨⟨by omega, by omega⟩, Int64.toInt_ofInt_of_le (by omega) (by omega)⟩
  · exact Int64.toInt_ofInt_of_le (by omega) (by omega)

theorem roundTrip_iff (hook_enable : Bool) (ctx : Option FdCtx) (so : TimeoutSo) {v : Int64} (hv : 0 ≤ v.toInt) :
    RoundTrip hook_enable ctx so v ↔ Readable hook_enable ctx so v := by
  cases ctx with
  | none =>
    refine iff_of_false ?_ nofun
    rintro ⟨ctx', hset, hget⟩
    have hctx' : ctx' = none := by
      cases hook_enable <;> exact (Option.some.inj hset).symm
    rw [hctx'] at hget
    have hneg : v = -1 := hget.symm
    rw [hneg] at hv
    exact absurd hv (by decide)
  | some c =>
    cases hook_enable with
    | false => simp [RoundTrip, Readable, setSocketTimeout, setsockopt, getSocketTimeout]
    | true =>
      obtain ⟨ms, hms, hval⟩ := timevalOf_ms hv
      have hlt := v.toInt_lt
      have hset : setSocketTimeout true (some c) so v = some (some (FdCtx.setTimeout c so ms.toUInt64)) := by
        simp [setSocketTimeout, setsockopt, hms]
      have hget : getSocketTimeout (some (FdCtx.setTimeout c so ms.toUInt64)) so = ms := by
        rw [getSocketTimeout, setTimeout_getTimeout, if_pos rfl, Int64.toInt64_toUInt64]
      have heq : RoundTrip true (some c) so v ↔ ms = v := by
        rw [RoundTrip, hset]
        simp [hget]
      have hsec : ms = v ↔ v.toInt / 1000 < 2 ^ 31 := by
        rw [← Int64.toInt_inj, hval, Int.bmod_def]
        omega
      rw [heq, hsec]
      simp [Readable]

/-- **Socket timeouts.** On a managed socket every `timeval` that is not negative is kept by every later wait in its
direction iff it is exact; and a timeout of `v` ms, not negative, reads back as `v` iff it is readable. -/
theorem timeouts_kept_iff (so : TimeoutSo) :
    (∀ (s : Fd) (ctx : FdCtx), s.ctx = some ctx → unmanaged ctx = false → ∀ tv : Timeval,
      0 ≤ tv.tv_sec.toInt → 0 ≤ tv.tv_usec.toInt → (KeepsTimeout s so tv ↔ tv.Exact)) ∧
      ∀ (hook_enable : Bool) (ctx : Option FdCtx) (v : Int64), 0 ≤ v.toInt →
        (RoundTrip hook_enable ctx so v ↔ Readable hook_enable ctx so v) := by
  constructor
  · intro s ctx hctx hman tv hsec husec
    exact keepsTimeout_iff hctx hman so hsec husec
  · intro hook_enable ctx v hv
    exact roundTrip_iff hook_enable ctx so hv

/-- a blocking TCP socket: 1.5 s are kept, and 30 s read back -/
theorem timeouts_kept_iff_tcp :
    KeepsTimeout (FdCtx.init 5 (some true) 0x2) .rcv ⟨1, 500000⟩ ∧
      RoundTrip true (FdCtx.init 5 (some true) 0x2).ctx .snd 30000 := by
  constructor
  · rw [(timeouts_kept_iff .rcv).1 (FdCtx.init 5 (some true) 0x2) _ rfl rfl ⟨1, 500000⟩ (by decide) (by decide)]
    exact ⟨fun h => absurd h.1 (by decide), by decide, by decide⟩
  · rw [(timeouts_kept_iff .snd).2 true _ 30000 (by decide)]
    exact ⟨_, rfl, by decide⟩

/-- **A `timeval` of zero**, no limit to the kernel, is not kept: a later wait ends after 0 ms. -/
theorem timeval_zero_waits : ¬KeepsTimeout (FdCtx.init 5 (some true) 0x2) .rcv ⟨0, 0⟩ := by
  rw [keepsTimeout_iff rfl rfl .rcv (by decide) (by decide)]
  rintro ⟨hzero, -⟩
  exact hzero ⟨by decide, by decide⟩

end Sylar.Hook
