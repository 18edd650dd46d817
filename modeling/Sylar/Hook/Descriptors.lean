/-
Descriptors and what the process keeps about them (`socket`, `accept`, `close`, `fcntl`, `ioctl` and `setsockopt` of
`sylar/hook.cpp`, `FdManager`, and the fd contexts of `IOManager`).

The kernel gives a number to an open file and gives it again after `close`. The table of `FdManager` and the contexts of
`IOManager` know the number only. A hooked `close` is four steps of a thread, `found`, `cancelAll`, `del` and `close_f`,
and other threads get in between; all other calls are one step. `epoll_ctl` succeeds where the kernel makes it succeed:
`ADD` on a file that is not in the interest list, `MOD` and `DEL` on one that is, and a file leaves the list when it is
closed.

The purpose (`Table`): a descriptor is an object that begins with its file, ends with it, and is nobody else's.
- `descriptors_refine`: in every run in which managed descriptors are closed through the hook, on a thread with an
  `IOManager` if somebody waits, and nobody begins to wait in the middle of a close, the process answers like the table,
  whatever a number was used for before; nothing is kept about a number without a file.
- `stale_after_unhooked_close`: after any other close the next socket with the number takes over the old context: the old
  settings, and a kernel flag that nobody sets.
- `wait_inside_close`: somebody begins to wait in the middle of a close. The registration outlives the file, and the next
  one to wait on the number stops the process.
-/
import Mathlib.Tactic
import Sylar.Core.Run
import Sylar.IOManager.Resumption
import Sylar.Hook.Flags
import Sylar.Hook.Timeouts
import Sylar.Hook.FdManager

namespace Sylar.Descriptors

open Sylar.Core Sylar.Hook

/-! ## The process -/

/-- an open file -/
structure File where
  flags : UInt32
  /-- the epoll instance has it in its interest list -/
  interest : Bool
deriving DecidableEq, Repr

/-- where a thread is in `close` -/
inductive Stage where
  /-- it has found a context; whether the thread has an `IOManager` -/
  | found (iom : Bool)
  /-- after `cancelAll` -/
  | cancelled
  /-- `close_f` is next -/
  | last
deriving DecidableEq, Repr

structure Process where
  files : Int32 → Option File
  fdMgr : FdManager
  /-- the `FdCtx` objects, in order of creation -/
  ctxs : ℕ → FdCtx
  /-- `m_fdContexts` -/
  contexts : Int32 → FdContext
  scheduled : List Enqueue
  /-- what each thread closes -/
  closing : ℕ → Option (Int32 × Stage)
  gone : Bool

inductive Op where
  /-- `socket`; `fd` is what the kernel answers -/
  | socket (hook_enable : Bool) (fd : Int32) (flags : UInt32)
  /-- `accept`, when the kernel has answered -/
  | accept (fd : Int32) (flags : UInt32)
  /-- anything that opens a file and is not hooked -/
  | open_f (fd : Int32) (flags : UInt32)
  /-- thread `k` calls `close` -/
  | close (k : ℕ) (hook_enable iom : Bool) (fd : Int32)
  /-- thread `k` goes on with it -/
  | next (k : ℕ)
  | setfl (fd : Int32) (arg : UInt32) (ok : Bool)
  | getfl (fd : Int32)
  | fionbio (fd : Int32) (value : UInt32) (ok : Bool)
  | setsockopt (hook_enable : Bool) (fd : Int32) (opt : SockOpt)
  /-- how a blocking call on the descriptor begins -/
  | do_io (hook_enable : Bool) (fd : Int32) (timeout_so : TimeoutSo)
  /-- `addEvent` and the others -/
  | event (fd : Int32) (a : Act)
deriving DecidableEq, Repr

inductive Out where
  | unit
  | int (n : ℤ)
  | flags (w : UInt32)
  | entry (e : Entry)
  | ret (r : IOManager.Ret)
  | gone
deriving DecidableEq, Repr

/-- the action, with the answer of `epoll_ctl` put in -/
def answered (ok : Bool) : Act → Act
  | .addEvent event cb who _ => .addEvent event cb who ok
  | .delEvent event _ => .delEvent event ok
  | .cancelEvent event _ => .cancelEvent event ok
  | .cancelAll _ => .cancelAll ok
  | .dispatch revents _ => .dispatch revents ok

def noContext (fd : Int32) : FdContext := { fd := fd.toNatClampNeg }

namespace Process

def start : Process :=
  { files := fun _ => none, fdMgr := FdManager.new, ctxs := fun _ => { fd := 0 }, contexts := noContext, scheduled := []
    closing := fun _ => none, gone := false }

def lose (p : Process) : Out × Process := (.gone, { p with gone := true })

/-- `FdMgr::GetInstance()->get(fd)` -/
def get (p : Process) (fd : Int32) : Option FdCtx :=
  match (p.fdMgr.get fd false).1 with
  | .found ctx => some (p.ctxs ctx)
  | _ => none

/-- the context and the kernel's flags; `F_GETFL` of no file is -1 -/
def view (p : Process) (fd : Int32) : Fd := { ctx := p.get fd, flags := (p.files fd).elim 0xffffffff File.flags }

/-- the context is an object, and the flags are the file's -/
def store (p : Process) (fd : Int32) (s : Fd) : Process :=
  let p := { p with files := Function.update p.files fd ((p.files fd).map fun x : File => { x with flags := s.flags }) }
  match (p.fdMgr.get fd false).1, s.ctx with
  | .found n, some ctx => { p with ctxs := Function.update p.ctxs n ctx }
  | _, _ => p

/-- the kernel opens a file -/
def openFile (p : Process) (fd : Int32) (flags : UInt32) : Process :=
  { p with files := Function.update p.files fd (some { flags := flags, interest := false }) }

/-- `FdMgr::GetInstance()->get(fd, true)` on a socket -/
def manage (p : Process) (fd : Int32) : Out × Process :=
  match p.fdMgr.get fd true with
  | (.created n, fdMgr) =>
    let s := Hook.FdCtx.init fd.toNatClampNeg (some true) (p.view fd).flags
    (.int fd.toInt,
      { p with fdMgr := fdMgr
               files := Function.update p.files fd ((p.files fd).map fun x : File => { x with flags := s.flags })
               ctxs := Function.update p.ctxs n (s.ctx.getD { fd := 0 }) })
  | (.found _, fdMgr) => (.int fd.toInt, { p with fdMgr := fdMgr })
  | _ => p.lose

/-- `ADD` and `MOD` of `addEvent`, `MOD` and `DEL` of the others -/
def ctlOk (p : Process) (fd : Int32) : Act → Bool
  | .addEvent .. => (p.files fd).any fun x => x.interest = decide ((p.contexts fd).events ≠ 0)
  | _ => (p.files fd).any File.interest

/-- an action under the mutex of the fd context -/
def act (p : Process) (fd : Int32) (a : Act) : Out × Process :=
  match (p.contexts fd).act (answered (p.ctlOk fd a) a) with
  | none => p.lose
  | some r =>
    let interest := fun x : File => if r.2.2.events = (p.contexts fd).events then x.interest else decide (r.2.2.events ≠ 0)
    (.ret r.1, { p with contexts := Function.update p.contexts fd r.2.2, scheduled := p.scheduled ++ r.2.1
                        files := Function.update p.files fd ((p.files fd).map fun x : File => { x with interest := interest x }) })

def setStage (p : Process) (k : ℕ) (x : Option (Int32 × Stage)) : Process :=
  { p with closing := Function.update p.closing k x }

/-- the next step of `close` -/
def next (p : Process) (k : ℕ) : Out × Process :=
  match p.closing k with
  | none => (.unit, p)
  | some (fd, .found iom) =>
    if iom then
      let r := p.act fd (.cancelAll true)
      if r.2.gone then (.gone, r.2) else (.unit, r.2.setStage k (some (fd, .cancelled)))
    else (.unit, p.setStage k (some (fd, .cancelled)))
  | some (fd, .cancelled) =>
    match p.fdMgr.del fd with
    | (.done, fdMgr) => (.unit, ({ p with fdMgr := fdMgr } : Process).setStage k (some (fd, .last)))
    | _ => p.lose
  | some (fd, .last) =>
    (.int (if (p.files fd).isSome then 0 else -1),
      ({ p with files := Function.update p.files fd none } : Process).setStage k none)

def stepAlive (p : Process) : Op → Out × Process
  | .socket hook_enable fd flags =>
    if hook_enable then (p.openFile fd flags).manage fd else (.int fd.toInt, p.openFile fd flags)
  | .accept fd flags => (p.openFile fd flags).manage fd
  | .open_f fd flags => (.int fd.toInt, p.openFile fd flags)
  | .close k hook_enable iom fd =>
    (.unit, p.setStage k (some (fd, if hook_enable && (p.get fd).isSome then .found iom else .last)))
  | .next k => p.next k
  | .setfl fd arg ok =>
    let r := fcntlSetfl (p.view fd) arg (ok && (p.files fd).isSome)
    (.int r.1, p.store fd r.2)
  | .getfl fd => (.flags (fcntlGetfl (p.view fd)), p)
  | .fionbio fd value ok =>
    let r := ioctlFionbio (p.view fd) value (ok && (p.files fd).isSome)
    (.int r.1, p.store fd r.2)
  | .setsockopt hook_enable fd opt =>
    match Hook.setsockopt hook_enable (p.get fd) opt with
    | none => p.lose
    | some ctx => (.unit, p.store fd { p.view fd with ctx := ctx })
  | .do_io hook_enable fd timeout_so => (.entry (doIoEntry hook_enable (p.get fd) timeout_so), p)
  | .event fd a => p.act fd a

def step (p : Process) (o : Op) : Out × Process := if p.gone then (.gone, p) else p.stepAlive o

end Process

/-! ## Descriptors as objects -/

structure Descriptor where
  /-- what the user has set, if it is managed, and the kernel's flags -/
  io : Fd
  /-- who waits -/
  context : FdContext

structure Table where
  desc : Int32 → Option Descriptor
  scheduled : List Enqueue
  closing : ℕ → Option (Int32 × Stage)
  gone : Bool

namespace Table

def start : Table := { desc := fun _ => none, scheduled := [], closing := fun _ => none, gone := false }

def lose (t : Table) : Out × Table := (.gone, { t with gone := true })

def view (t : Table) (fd : Int32) : Fd := (t.desc fd).elim { ctx := none, flags := 0xffffffff } Descriptor.io

def set (t : Table) (fd : Int32) (d : Option Descriptor) : Table := { t with desc := Function.update t.desc fd d }

/-- a descriptor begins, as if there had never been one with its number -/
def begin (t : Table) (fd : Int32) (io : Fd) : Out × Table :=
  (.int fd.toInt, t.set fd (some { io := io, context := noContext fd }))

def store (t : Table) (fd : Int32) (s : Fd) : Table := t.set fd ((t.desc fd).map fun d => { d with io := s })

/-- an open file is in the interest list iff somebody waits -/
def ctlOk (c : FdContext) : Act → Bool
  | .addEvent .. => true
  | _ => decide (c.events ≠ 0)

def act (t : Table) (fd : Int32) (a : Act) : Out × Table :=
  match t.desc fd with
  | none =>
    match (noContext fd).act (answered false a) with
    | none => t.lose
    | some r => (.ret r.1, t)
  | some d =>
    match d.context.act (answered (ctlOk d.context a) a) with
    | none => t.lose
    | some r => (.ret r.1, { t.set fd (some { d with context := r.2.2 }) with scheduled := t.scheduled ++ r.2.1 })

def setStage (t : Table) (k : ℕ) (x : Option (Int32 × Stage)) : Table :=
  { t with closing := Function.update t.closing k x }

def next (t : Table) (k : ℕ) : Out × Table :=
  match t.closing k with
  | none => (.unit, t)
  | some (fd, .found iom) =>
    if iom then
      let r := t.act fd (.cancelAll true)
      if r.2.gone then (.gone, r.2) else (.unit, r.2.setStage k (some (fd, .cancelled)))
    else (.unit, t.setStage k (some (fd, .cancelled)))
  | some (fd, .cancelled) => (.unit, (t.store fd { t.view fd with ctx := none }).setStage k (some (fd, .last)))
  | some (fd, .last) => (.int (if (t.desc fd).isSome then 0 else -1), (t.set fd none).setStage k none)

def stepAlive (t : Table) : Op → Out × Table
  | .socket hook_enable fd flags =>
    t.begin fd (if hook_enable then Hook.FdCtx.init fd.toNatClampNeg (some true) flags else { ctx := none, flags := flags })
  | .accept fd flags => t.begin fd (Hook.FdCtx.init fd.toNatClampNeg (some true) flags)
  | .open_f fd flags => t.begin fd { ctx := none, flags := flags }
  | .close k hook_enable iom fd =>
    (.unit, t.setStage k (some (fd, if hook_enable && (t.view fd).ctx.isSome then .found iom else .last)))
  | .next k => t.next k
  | .setfl fd arg ok =>
    let r := fcntlSetfl (t.view fd) arg (ok && (t.desc fd).isSome)
    (.int r.1, t.store fd r.2)
  | .getfl fd => (.flags (fcntlGetfl (t.view fd)), t)
  | .fionbio fd value ok =>
    let r := ioctlFionbio (t.view fd) value (ok && (t.desc fd).isSome)
    (.int r.1, t.store fd r.2)
  | .setsockopt hook_enable fd opt =>
    match Hook.setsockopt hook_enable (t.view fd).ctx opt with
    | none => t.lose
    | some ctx => (.unit, t.store fd { t.view fd with ctx := ctx })
  | .do_io hook_enable fd timeout_so => (.entry (doIoEntry hook_enable (t.view fd).ctx timeout_so), t)
  | .event fd a => t.act fd a

def step (t : Table) (o : Op) : Out × Table := if t.gone then (.gone, t) else t.stepAlive o

/-- a number the kernel can give, and that the table of contexts has room for -/
def Free (t : Table) (fd : Int32) : Prop := t.desc fd = none ∧ 0 ≤ fd.toInt ∧ fd.toInt < 64

/-- how the program uses descriptors -/
def Ok (t : Table) : Op → Prop
  | .socket true fd _ | .accept fd _ => t.Free fd
  | .socket false fd _ | .open_f fd _ => t.desc fd = none
  | .close k hook_enable iom fd =>
    t.closing k = none ∧ (∀ k' stage, t.closing k' ≠ some (fd, stage)) ∧
      ∃ d, t.desc fd = some d ∧ (d.io.ctx.isSome → hook_enable = true) ∧
        (d.context.events ≠ 0 → d.io.ctx.isSome ∧ iom = true)
  | .event fd (.addEvent ..) => ∀ k stage, t.closing k = some (fd, stage) → stage = .found true
  | _ => True

end Table

/-! ## Contexts without waiters -/

theorem noContext_sound (fd : Int32) : Sound (noContext fd) := by
  refine ⟨Or.inl rfl, fun e => ?_, fun e => ?_⟩
  · cases e <;> rfl
  · rw [show (noContext fd).events = 0 from rfl, IOManager.has_zero]
    cases e <;> rfl

/-- an fd nobody waits on, as it was made -/
theorem eq_of_events {c : FdContext} (h : Sound c) (hev : c.events = 0) : c = { fd := c.fd } := by
  have hctx : ∀ e, c.getContext e = {} := by
    intro e
    have hbit := h.bit e
    rw [hev, IOManager.has_zero] at hbit
    rw [h.content e, Option.isSome_eq_false_iff.mp hbit.symm |> Option.isNone_iff_eq_none.mp]
    rfl
  have hread := hctx .read
  have hwrite := hctx .write
  cases c
  simp_all [FdContext.getContext]

theorem setContext_fd (c : FdContext) (e : Event) (x : EventContext) : (c.setContext e x).fd = c.fd := by
  cases e <;> rfl

theorem trigger_fd {c c' : FdContext} {e : Event} {tasks : List Enqueue} (h : c.trigger e = some (tasks, c')) :
    c'.fd = c.fd := by
  obtain ⟨⟨ts, c1⟩, htrig, he⟩ := Option.map_eq_some_iff.mp h
  cases he
  unfold FdContext.triggerEvent at htrig
  split_ifs at htrig
  dsimp only at htrig
  split at htrig
  · cases htrig
  · split at htrig
    · cases htrig
      rw [setContext_fd]
    · cases htrig
      rw [setContext_fd]

theorem triggerBoth_fd {c c' : FdContext} {m : UInt32} {tasks : List Enqueue}
    (h : c.triggerBoth m = some (tasks, c')) : c'.fd = c.fd := by
  have hif : ∀ {c c' : FdContext} {e : Event} {tasks : List Enqueue}, c.triggerIf m e = some (tasks, c') → c'.fd = c.fd := by
    intro c c' e tasks h
    unfold FdContext.triggerIf at h
    split_ifs at h
    · exact trigger_fd h
    · cases h
      rfl
  obtain ⟨⟨t1, c1⟩, h1, h⟩ := Option.bind_eq_some_iff.mp h
  obtain ⟨⟨t2, c2⟩, h2, h⟩ := Option.map_eq_some_iff.mp h
  cases h
  exact (hif h2).trans (hif h1)

theorem act_fd {c c' : FdContext} {a : Act} {r : IOManager.Ret} {tasks : List Enqueue} (h : c.act a = some (r, tasks, c')) :
    c'.fd = c.fd := by
  cases a with
  | addEvent event cb who ok =>
    obtain ⟨⟨r1, c1⟩, hadd, he⟩ := Option.map_eq_some_iff.mp h
    cases he
    rcases addEvent_cases hadd with ⟨-, rfl⟩ | ⟨-, -, rfl⟩
    · rfl
    · rw [setContext_fd]
  | delEvent event ok =>
    simp only [FdContext.act, FdContext.delEvent] at h
    split_ifs at h <;> cases h
    · rfl
    · rfl
    · rw [FdContext.resetContext, setContext_fd]
  | cancelEvent event ok =>
    simp only [FdContext.act, FdContext.cancelEvent] at h
    split_ifs at h
    · cases h
      rfl
    · cases h
      rfl
    · obtain ⟨⟨t1, c1⟩, ht, he⟩ := Option.map_eq_some_iff.mp h
      cases he
      exact trigger_fd ht
  | cancelAll ok =>
    simp only [FdContext.act, FdContext.cancelAll] at h
    split_ifs at h
    · cases h
      rfl
    · cases h
      rfl
    · split at h
      · cases h
      · next hr =>
        split_ifs at h
        cases h
        exact triggerBoth_fd hr
  | dispatch revents ok =>
    simp only [FdContext.act, FdContext.dispatch] at h
    split_ifs at h
    · cases h
      rfl
    · cases h
      rfl
    · obtain ⟨⟨t1, c1⟩, ht, he⟩ := Option.map_eq_some_iff.mp h
      cases he
      exact triggerBoth_fd ht

theorem act_cancelAll {c c' : FdContext} {r : IOManager.Ret} {tasks : List Enqueue}
    (h : c.act (.cancelAll (decide (c.events ≠ 0))) = some (r, tasks, c')) : c'.events = 0 := by
  simp only [FdContext.act, FdContext.cancelAll] at h
  by_cases hev : c.events = 0
  · rw [if_pos hev] at h
    cases h
    exact hev
  · simp only [hev, decide_true, ne_eq, not_false_eq_true, Bool.not_true, Bool.false_eq_true, if_false] at h
    split at h
    · cases h
    · split_ifs at h with hzero
      cases h
      exact hzero

/-- on a file that is closed nothing is done -/
theorem noContext_refused (fd : Int32) (a : Act) :
    ∃ r, (noContext fd).act (answered false a) = some (r, [], noContext fd) := by
  have hzero : ∀ m : UInt32, (noContext fd).events &&& m = 0 := fun m => UInt32.zero_and
  cases a with
  | addEvent event cb who ok => exact ⟨.int (-1), by simp [answered, FdContext.act, FdContext.addEvent, hzero]⟩
  | delEvent event ok => exact ⟨.bool false, by simp [answered, FdContext.act, FdContext.delEvent]⟩
  | cancelEvent event ok => exact ⟨.bool false, by simp [answered, FdContext.act, FdContext.cancelEvent]⟩
  | cancelAll ok => exact ⟨.bool false, by simp [answered, FdContext.act, FdContext.cancelAll]⟩
  | dispatch revents ok => exact ⟨.unit, by simp [answered, FdContext.act, FdContext.dispatch, hzero]⟩

/-! ## The relation -/

structure Rel (p : Process) (t : Table) : Prop where
  gone : p.gone = t.gone
  scheduled : p.scheduled = t.scheduled
  closing : p.closing = t.closing
  length : p.fdMgr.datas.length = 64
  files : ∀ fd, p.files fd =
    (t.desc fd).map fun d => { flags := d.io.flags, interest := decide (d.context.events ≠ 0) }
  contexts : ∀ fd, p.contexts fd = (t.desc fd).elim (noContext fd) Descriptor.context
  ctx : ∀ fd, (p.fdMgr.slot fd).map p.ctxs = (t.view fd).ctx
  created : ∀ fd n, p.fdMgr.slot fd = some n → n < p.fdMgr.created
  own : ∀ fd fd' n, p.fdMgr.slot fd = some n → p.fdMgr.slot fd' = some n → fd = fd'
  sound : ∀ fd d, t.desc fd = some d → Sound d.context ∧ d.context.fd = fd.toNatClampNeg
  /-- a close is of an open file; nobody waits once `cancelAll` is behind, and no context is left at the end -/
  stage : ∀ k fd stage, t.closing k = some (fd, stage) → ∃ d, t.desc fd = some d ∧
    (stage ≠ .found true → d.context.events = 0) ∧ (stage = .last → d.io.ctx = none)
  one : ∀ k k' fd stage stage', t.closing k = some (fd, stage) → t.closing k' = some (fd, stage') → k = k'

theorem rel_start : Rel Process.start Table.start := by
  have hslot : ∀ fd, Process.start.fdMgr.slot fd = none := by
    intro fd
    exact FdManager.history_slot [] nofun fd
  refine ⟨rfl, rfl, rfl, rfl, fun _ => rfl, fun _ => rfl, fun fd => ?_, fun fd n hn => ?_, fun fd fd' n hn => ?_,
    fun _ _ h => (by cases h), fun _ _ _ h => (by cases h), fun _ _ _ _ _ h => (by cases h)⟩
  · rw [hslot]
    rfl
  · rw [hslot] at hn
    cases hn
  · rw [hslot] at hn
    cases hn

section Steps

variable {p : Process} {t : Table} {fd : Int32}

theorem get_false (m : FdManager) (hlen : m.datas.length = 64) (fd : Int32) :
    (m.get fd false).1 = (m.slot fd).elim .null .found :=
  (FdManager.call_slot hlen (.get fd false) trivial).1

theorem Rel.get (h : Rel p t) (fd : Int32) : p.get fd = (t.view fd).ctx := by
  rw [Process.get, get_false _ h.length, ← h.ctx fd]
  cases p.fdMgr.slot fd <;> rfl

theorem Rel.view (h : Rel p t) (fd : Int32) : p.view fd = t.view fd := by
  have hget := h.get fd
  have hfile := h.files fd
  cases hd : t.desc fd with
  | none => simp_all [Process.view, Table.view]
  | some d => simp_all [Process.view, Table.view]

theorem Table.view_set (t : Table) (fd fd' : Int32) (d : Option Descriptor) :
    (t.set fd d).view fd' = if fd' = fd then d.elim { ctx := none, flags := 0xffffffff } Descriptor.io else t.view fd' := by
  by_cases hfd : fd' = fd
  · simp [Table.view, Table.set, hfd]
  · simp [Table.view, Table.set, hfd]

/-- the settings of one descriptor change -/
theorem Rel.store (h : Rel p t) {s : Fd} (hsome : s.ctx.isSome = (t.view fd).ctx.isSome) :
    Rel (p.store fd s) (t.store fd s) := by
  have hctx := h.ctx fd
  obtain ⟨ctxs, hstore, hself, hother⟩ : ∃ ctxs, p.store fd s = { p with
      files := Function.update p.files fd ((p.files fd).map fun x : File => { x with flags := s.flags }), ctxs := ctxs } ∧
      (p.fdMgr.slot fd).map ctxs = s.ctx ∧
      ∀ fd', fd' ≠ fd → (p.fdMgr.slot fd').map ctxs = (p.fdMgr.slot fd').map p.ctxs := by
    cases hslot : p.fdMgr.slot fd with
    | none =>
      rw [hslot] at hctx
      have hnone : s.ctx = none := by
        rw [← hctx] at hsome
        exact Option.not_isSome_iff_eq_none.mp (by simp [hsome])
      exact ⟨p.ctxs, by simp [Process.store, get_false _ h.length, hslot], by simp [hnone], fun _ _ => rfl⟩
    | some n =>
      rw [hslot] at hctx
      obtain ⟨x, hx⟩ := Option.isSome_iff_exists.mp (hsome.trans (by rw [← hctx]; rfl))
      refine ⟨Function.update p.ctxs n x, by simp [Process.store, get_false _ h.length, hslot, hx], by simp [hx],
        fun fd' hfd => ?_⟩
      cases hslot' : p.fdMgr.slot fd' with
      | none => rfl
      | some n' =>
        have hn : n' ≠ n := by
          rintro rfl
          exact hfd (h.own fd' fd n' hslot' hslot)
        simp [hn]
  rw [hstore]
  have hdesc : ∀ fd', (t.store fd s).desc fd' =
      if fd' = fd then (t.desc fd).map fun d => { d with io := s } else t.desc fd' := by
    intro fd'
    by_cases hfd : fd' = fd
    · simp [Table.store, Table.set, hfd]
    · simp [Table.store, Table.set, hfd]
  refine ⟨h.gone, h.scheduled, h.closing, h.length, fun fd' => ?_, fun fd' => ?_, fun fd' => ?_, h.created, h.own,
    fun fd' d hd => ?_, fun k fd' stage hk => ?_, h.one⟩
  · rw [hdesc]
    by_cases hfd : fd' = fd
    · subst hfd
      simp only [Function.update_self, if_true, h.files fd', Option.map_map]
      rfl
    · simp only [Function.update_of_ne hfd, if_neg hfd, h.files fd']
  · rw [hdesc, h.contexts fd']
    by_cases hfd : fd' = fd
    · subst hfd
      cases t.desc fd' <;> simp
    · rw [if_neg hfd]
  · rw [Table.store, Table.view_set]
    by_cases hfd : fd' = fd
    · subst hfd
      rw [if_pos rfl, hself]
      cases hd : t.desc fd' with
      | none =>
        have hnone : (t.view fd').ctx.isSome = false := by simp [Table.view, hd]
        exact Option.not_isSome_iff_eq_none.mp (by simp [hsome, hnone])
      | some d => rfl
    · rw [if_neg hfd, hother fd' hfd, h.ctx fd']
  · rw [hdesc] at hd
    by_cases hfd : fd' = fd
    · subst hfd
      rw [if_pos rfl] at hd
      obtain ⟨d0, hd0, rfl⟩ := Option.map_eq_some_iff.mp hd
      exact h.sound fd' d0 hd0
    · rw [if_neg hfd] at hd
      exact h.sound fd' d hd
  · obtain ⟨d, hd, hev, hlast⟩ := h.stage k fd' stage hk
    by_cases hfd : fd' = fd
    · subst hfd
      refine ⟨{ d with io := s }, by simp [hdesc, hd], hev, fun hst => ?_⟩
      have hnone : (t.view fd').ctx.isSome = false := by simp [Table.view, hd, hlast hst]
      exact Option.not_isSome_iff_eq_none.mp (by simp [hsome, hnone])
    · exact ⟨d, by simp [hdesc, hfd, hd], hev, hlast⟩

/-- the kernel opens a file with a number that has none -/
theorem Rel.openFile (h : Rel p t) (hfree : t.desc fd = none) (flags : UInt32) :
    Rel (p.openFile fd flags) (t.begin fd { ctx := none, flags := flags }).2 := by
  have hdesc : ∀ fd', (t.begin fd { ctx := none, flags := flags }).2.desc fd' =
      if fd' = fd then some { io := { ctx := none, flags := flags }, context := noContext fd } else t.desc fd' := by
    intro fd'
    by_cases hfd : fd' = fd
    · simp [Table.begin, Table.set, hfd]
    · simp [Table.begin, Table.set, hfd]
  refine ⟨h.gone, h.scheduled, h.closing, h.length, fun fd' => ?_, fun fd' => ?_, fun fd' => ?_, h.created, h.own,
    fun fd' d hd => ?_, fun k fd' stage hk => ?_, h.one⟩
  · rw [hdesc]
    by_cases hfd : fd' = fd
    · subst hfd
      simp only [Process.openFile, Function.update_self, if_true, Option.map_some]
      rfl
    · simp only [Process.openFile, Function.update_of_ne hfd, if_neg hfd, h.files fd']
  · rw [hdesc]
    by_cases hfd : fd' = fd
    · subst hfd
      rw [if_pos rfl]
      simp [Process.openFile, h.contexts, hfree]
    · rw [if_neg hfd]
      exact h.contexts fd'
  · rw [Table.begin, Table.view_set]
    by_cases hfd : fd' = fd
    · subst hfd
      have hctx := h.ctx fd'
      rw [Table.view, hfree] at hctx
      rw [if_pos rfl]
      exact hctx
    · rw [if_neg hfd]
      exact h.ctx fd'
  · rw [hdesc] at hd
    by_cases hfd : fd' = fd
    · subst hfd
      rw [if_pos rfl] at hd
      cases hd
      exact ⟨noContext_sound fd', rfl⟩
    · rw [if_neg hfd] at hd
      exact h.sound fd' d hd
  · obtain ⟨d, hd, hev, hlast⟩ := h.stage k fd' stage hk
    have hfd : fd' ≠ fd := by
      rintro rfl
      rw [hfree] at hd
      cases hd
    exact ⟨d, by simp [hdesc, hfd, hd], hev, hlast⟩

/-- a slot of the table that is empty is filled -/
theorem get_true {m : FdManager} (hlen : m.datas.length = 64) (hin : FdManager.index fd < 64) (hslot : m.slot fd = none) :
    m.get fd true = m.create fd := by
  unfold FdManager.get
  rw [if_neg (by omega)]
  cases hget : m.datas[FdManager.index fd]? with
  | none =>
    rw [List.getElem?_eq_none_iff] at hget
    omega
  | some x =>
    rw [FdManager.slot, hget] at hslot
    cases x with
    | none => rfl
    | some n => cases hslot

theorem create_created (m : FdManager) (fd : Int32) : (m.create fd).2.created = m.created + 1 := by
  unfold FdManager.create
  dsimp only
  split_ifs <;> rfl

/-- the file gets a context of its own -/
theorem Rel.manage (h : Rel p t) (hfree : t.Free fd) (flags : UInt32) :
    ((p.openFile fd flags).manage fd).1 = .int fd.toInt ∧
      Rel ((p.openFile fd flags).manage fd).2 (t.begin fd (Hook.FdCtx.init fd.toNatClampNeg (some true) flags)).2 := by
  obtain ⟨hnone, hin⟩ := hfree
  have hindex := (FdManager.index_lt_iff fd).mpr hin
  have hslot : p.fdMgr.slot fd = none := by
    have hctx := h.ctx fd
    rw [Table.view, hnone] at hctx
    exact Option.map_eq_none_iff.mp hctx
  have hget := get_true h.length hindex hslot
  obtain ⟨hcreated, hslots⟩ := FdManager.create_slot
    (show FdManager.index fd < p.fdMgr.datas.length by rw [h.length]; exact hindex)
  have hview : ((p.openFile fd flags).view fd).flags = flags := by simp [Process.view, Process.openFile]
  obtain ⟨x, hx⟩ : ∃ x, (Hook.FdCtx.init fd.toNatClampNeg (some true) flags).ctx = some x := ⟨_, rfl⟩
  have hmanage : (p.openFile fd flags).manage fd = (.int fd.toInt, { p.openFile fd flags with
      fdMgr := (p.fdMgr.create fd).2
      files := Function.update (p.openFile fd flags).files fd
        (some { flags := (Hook.FdCtx.init fd.toNatClampNeg (some true) flags).flags, interest := false })
      ctxs := Function.update p.ctxs p.fdMgr.created x }) := by
    have hpair : p.fdMgr.get fd true = (.created p.fdMgr.created, (p.fdMgr.create fd).2) := by
      rw [hget]
      exact Prod.ext hcreated rfl
    have hopen : (p.openFile fd flags).fdMgr = p.fdMgr := rfl
    have hfile : (p.openFile fd flags).files fd = some { flags := flags, interest := false } := by simp [Process.openFile]
    simp only [Process.manage, hopen, hpair, hview, hx, hfile, Option.map_some, Option.getD_some]
    rfl
  rw [hmanage]
  have hdesc : ∀ fd', (t.begin fd (Hook.FdCtx.init fd.toNatClampNeg (some true) flags)).2.desc fd' =
      if fd' = fd then some { io := Hook.FdCtx.init fd.toNatClampNeg (some true) flags, context := noContext fd }
      else t.desc fd' := by
    intro fd'
    by_cases hfd : fd' = fd
    · simp [Table.begin, Table.set, hfd]
    · simp [Table.begin, Table.set, hfd]
  refine ⟨rfl, h.gone, h.scheduled, h.closing, (FdManager.create_length _ _).trans h.length, fun fd' => ?_, fun fd' => ?_,
    fun fd' => ?_, fun fd' n hn => ?_, fun fd1 fd2 n h1 h2 => ?_, fun fd' d hd => ?_, fun k fd' stage hk => ?_, h.one⟩
  · rw [hdesc]
    by_cases hfd : fd' = fd
    · subst hfd
      simp only [Function.update_self, if_true, Option.map_some]
      rfl
    · simp only [Process.openFile, Function.update_of_ne hfd, if_neg hfd, h.files fd']
  · rw [hdesc]
    by_cases hfd : fd' = fd
    · subst hfd
      rw [if_pos rfl]
      simp [Process.openFile, h.contexts, hnone]
    · rw [if_neg hfd]
      exact h.contexts fd'
  · rw [Table.begin, Table.view_set, hslots fd']
    by_cases hfd : fd' = fd
    · subst hfd
      simp [hx]
    · rw [if_neg hfd, if_neg (Ne.symm hfd), ← h.ctx fd']
      cases hn : p.fdMgr.slot fd' with
      | none => rfl
      | some n =>
        have hn' : n ≠ p.fdMgr.created := (h.created fd' n hn).ne
        simp [hn', Process.openFile]
  · rw [create_created]
    rw [hslots] at hn
    split_ifs at hn with hfd
    · cases hn
      exact Nat.lt_succ_self _
    · exact (h.created fd' n hn).trans (Nat.lt_succ_self _)
  · rw [hslots] at h1 h2
    split_ifs at h1 h2 with hfd1 hfd2 hfd2
    · exact hfd1.symm.trans hfd2
    · cases h1
      exact absurd (h.created fd2 _ h2) (lt_irrefl _)
    · cases h2
      exact absurd (h.created fd1 _ h1) (lt_irrefl _)
    · exact h.own fd1 fd2 n h1 h2
  · rw [hdesc] at hd
    by_cases hfd : fd' = fd
    · subst hfd
      rw [if_pos rfl] at hd
      cases hd
      exact ⟨noContext_sound fd', rfl⟩
    · rw [if_neg hfd] at hd
      exact h.sound fd' d hd
  · obtain ⟨d, hd, hev, hlast⟩ := h.stage k fd' stage hk
    have hfd : fd' ≠ fd := by
      rintro rfl
      rw [hnone] at hd
      cases hd
    exact ⟨d, by simp [hdesc, hfd, hd], hev, hlast⟩

theorem Rel.lose (h : Rel p t) : Rel p.lose.2 t.lose.2 :=
  ⟨rfl, h.scheduled, h.closing, h.length, h.files, h.contexts, h.ctx, h.created, h.own, h.sound, h.stage, h.one⟩

/-- where somebody has called `cancelAll`, only `addEvent` can change anything -/
theorem act_idle {c c' : FdContext} (hs : Sound c) (hev : c.events = 0) {a : Act} {r : IOManager.Ret} {tasks : List Enqueue}
    (hadd : ∀ event cb who ok, a ≠ .addEvent event cb who ok)
    (h : c.act (answered (Table.ctlOk c a) a) = some (r, tasks, c')) : c'.events = 0 := by
  have hok : Table.ctlOk c a = false := by
    cases a with
    | addEvent event cb who ok => exact absurd rfl (hadd event cb who ok)
    | _ => simp [Table.ctlOk, hev]
  have hzero : ∀ m : UInt32, c.events &&& m = 0 := fun m => by rw [hev, UInt32.zero_and]
  rw [hok] at h
  cases a with
  | addEvent event cb who ok => exact absurd rfl (hadd event cb who ok)
  | delEvent event ok =>
    simp only [answered, FdContext.act, FdContext.delEvent, Bool.not_false, if_true, ite_self, Option.some.injEq,
      Prod.mk.injEq] at h
    rw [← h.2.2, hev]
  | cancelEvent event ok =>
    simp only [answered, FdContext.act, FdContext.cancelEvent, Bool.not_false, if_true, ite_self, Option.some.injEq,
      Prod.mk.injEq] at h
    rw [← h.2.2, hev]
  | cancelAll ok =>
    simp only [answered, FdContext.act, FdContext.cancelAll, hev, if_true, Option.some.injEq, Prod.mk.injEq] at h
    rw [← h.2.2, hev]
  | dispatch revents ok =>
    simp only [answered, FdContext.act, FdContext.dispatch, hzero, if_true, Option.some.injEq, Prod.mk.injEq] at h
    rw [← h.2.2, hev]

/-- an action on the fd context -/
theorem Rel.act (h : Rel p t) {a : Act} (hadd : ∀ event cb who ok, a = .addEvent event cb who ok →
      ∀ k stage, t.closing k = some (fd, stage) → stage = .found true) :
    (p.act fd a).1 = (t.act fd a).1 ∧ Rel (p.act fd a).2 (t.act fd a).2 := by
  have hctx := h.contexts fd
  have hfile := h.files fd
  cases hd : t.desc fd with
  | none =>
    rw [hd] at hctx hfile
    have hok : p.ctlOk fd a = false := by cases a <;> simp [Process.ctlOk, hfile]
    obtain ⟨r, hr⟩ := noContext_refused fd a
    have hact : p.act fd a = (.ret r, p) := by
      have hsame : Function.update p.contexts fd (noContext fd) = p.contexts := by
        rw [show noContext fd = p.contexts fd from hctx.symm, Function.update_eq_self]
      have hsame' : Function.update p.files fd none = p.files := by
        rw [show none = p.files fd from hfile.symm, Function.update_eq_self]
      simp [Process.act, hctx, hok, hr, hfile, hsame, hsame']
    have hact' : t.act fd a = (.ret r, t) := by simp [Table.act, hd, hr]
    rw [hact, hact']
    exact ⟨rfl, h⟩
  | some d =>
    rw [hd] at hctx hfile
    have hctx : p.contexts fd = d.context := hctx
    have hok : p.ctlOk fd a = Table.ctlOk d.context a := by
      cases a <;> simp [Process.ctlOk, Table.ctlOk, hfile, hctx]
    obtain ⟨hsound, hnum⟩ := h.sound fd d hd
    cases hr : d.context.act (answered (Table.ctlOk d.context a) a) with
    | none =>
      have hact : p.act fd a = p.lose := by simp [Process.act, hctx, hok, hr]
      have hact' : t.act fd a = t.lose := by simp [Table.act, hd, hr]
      rw [hact, hact']
      exact ⟨rfl, h.lose⟩
    | some r =>
      obtain ⟨r, tasks, c⟩ := r
      have hact : p.act fd a = (.ret r, { p with
          contexts := Function.update p.contexts fd c, scheduled := p.scheduled ++ tasks
          files := Function.update p.files fd (some { flags := d.io.flags, interest := decide (c.events ≠ 0) }) }) := by
        have hint : (if c.events = d.context.events then decide (d.context.events ≠ 0) else decide (c.events ≠ 0)) =
            decide (c.events ≠ 0) := by
          split_ifs with hsame
          · rw [hsame]
          · rfl
        simp only [Process.act, hctx, hok, hr, hfile, Option.map_some, hint]
      have hact' : t.act fd a = (.ret r, { t.set fd (some { d with context := c }) with
          scheduled := t.scheduled ++ tasks }) := by simp [Table.act, hd, hr]
      rw [hact, hact']
      have hdesc : ∀ fd', (t.set fd (some { d with context := c })).desc fd' =
          if fd' = fd then some { d with context := c } else t.desc fd' := by
        intro fd'
        by_cases hfd : fd' = fd
        · simp [Table.set, hfd]
        · simp [Table.set, hfd]
      refine ⟨rfl, h.gone, by rw [h.scheduled], h.closing, h.length, fun fd' => ?_, fun fd' => ?_, fun fd' => ?_,
        h.created, h.own, fun fd' d' hd' => ?_, fun k fd' stage hk => ?_, h.one⟩
      · show Function.update p.files fd _ fd' = Option.map _ ((t.set fd _).desc fd')
        rw [hdesc]
        by_cases hfd : fd' = fd
        · subst hfd
          simp
        · rw [Function.update_of_ne hfd, if_neg hfd]
          exact h.files fd'
      · show Function.update p.contexts fd c fd' = ((t.set fd _).desc fd').elim _ _
        rw [hdesc]
        by_cases hfd : fd' = fd
        · subst hfd
          simp
        · rw [Function.update_of_ne hfd, if_neg hfd]
          exact h.contexts fd'
      · have hview : (t.set fd (some { d with context := c })).view fd' = t.view fd' := by
          rw [Table.view_set]
          split_ifs with hfd
          · rw [hfd, Table.view, hd]
            rfl
          · rfl
        show (p.fdMgr.slot fd').map p.ctxs = ((t.set fd _).view fd').ctx
        rw [hview]
        exact h.ctx fd'
      · have hd' : (t.set fd (some { d with context := c })).desc fd' = some d' := hd'
        rw [hdesc] at hd'
        split_ifs at hd' with hfd
        · cases hd'
          exact ⟨(act_follows hsound hr).1, by rw [act_fd hr, hnum, hfd]⟩
        · exact h.sound fd' d' hd'
      · obtain ⟨d', hd', hev, hlast⟩ := h.stage k fd' stage hk
        by_cases hfd : fd' = fd
        · subst hfd
          rw [hd] at hd'
          cases hd'
          refine ⟨{ d with context := c }, by show (t.set fd' _).desc fd' = _; rw [hdesc, if_pos rfl], fun hst => ?_, hlast⟩
          refine act_idle hsound (hev hst) (fun event cb who ok ha => hst ?_) hr
          exact hadd event cb who ok ha k stage hk
        · exact ⟨d', by show (t.set fd _).desc fd' = _; rw [hdesc, if_neg hfd, hd'], hev, hlast⟩

/-- a thread gets to another point of its close -/
theorem Rel.setStage (h : Rel p t) (k : ℕ) {x : Option (Int32 × Stage)}
    (hstage : ∀ fd stage, x = some (fd, stage) → ∃ d, t.desc fd = some d ∧
      (stage ≠ .found true → d.context.events = 0) ∧ (stage = .last → d.io.ctx = none))
    (hone : ∀ fd stage, x = some (fd, stage) → ∀ k' stage', t.closing k' = some (fd, stage') → k' = k) :
    Rel (p.setStage k x) (t.setStage k x) := by
  have hclosing : ∀ k', (t.setStage k x).closing k' = if k' = k then x else t.closing k' := by
    intro k'
    by_cases hk : k' = k
    · simp [Table.setStage, hk]
    · simp [Table.setStage, hk]
  refine ⟨h.gone, h.scheduled, ?_, h.length, h.files, h.contexts, h.ctx, h.created, h.own, h.sound,
    fun k' fd stage hk => ?_, fun k1 k2 fd stage stage' h1 h2 => ?_⟩
  · show Function.update p.closing k x = Function.update t.closing k x
    rw [h.closing]
  · rw [hclosing] at hk
    split_ifs at hk with hkk
    · exact hstage fd stage hk
    · exact h.stage k' fd stage hk
  · rw [hclosing] at h1 h2
    split_ifs at h1 h2 with hk1 hk2 hk2
    · rw [hk1, hk2]
    · rw [hk1, hone fd stage h1 k2 stage' h2]
    · rw [hk2, hone fd stage' h2 k1 stage h1]
    · exact h.one k1 k2 fd stage stage' h1 h2

theorem del_slot {m : FdManager} (hlen : m.datas.length = 64) (fd : Int32) :
    (m.del fd).1 = .done ∧ (m.del fd).2.created = m.created ∧ (m.del fd).2.datas.length = 64 ∧
      ∀ fd', (m.del fd).2.slot fd' = if fd = fd' then none else m.slot fd' := by
  obtain ⟨hret, hslot⟩ := FdManager.call_slot hlen (.del fd) trivial
  have hret : (m.del fd).1 = .done := hret
  refine ⟨hret, ?_, (FdManager.call_length m (.del fd)).trans hlen, fun fd' => hslot fd'⟩
  unfold FdManager.del
  split_ifs <;> rfl

/-- the context of a descriptor is dropped -/
theorem Rel.del (h : Rel p t) : Rel { p with fdMgr := (p.fdMgr.del fd).2 } (t.store fd { t.view fd with ctx := none }) := by
  obtain ⟨-, hcreated, hlen, hslot⟩ := del_slot h.length fd
  have hdesc : ∀ fd', (t.store fd { t.view fd with ctx := none }).desc fd' =
      if fd' = fd then (t.desc fd).map fun d => { d with io := { t.view fd with ctx := none } } else t.desc fd' := by
    intro fd'
    by_cases hfd : fd' = fd
    · simp [Table.store, Table.set, hfd]
    · simp [Table.store, Table.set, hfd]
  refine ⟨h.gone, h.scheduled, h.closing, hlen, fun fd' => ?_, fun fd' => ?_, fun fd' => ?_, fun fd' n hn => ?_,
    fun fd1 fd2 n h1 h2 => ?_, fun fd' d hd => ?_, fun k fd' stage hk => ?_, h.one⟩
  · rw [hdesc]
    by_cases hfd : fd' = fd
    · subst hfd
      rw [if_pos rfl, Option.map_map, h.files fd']
      cases hd : t.desc fd' with
      | none => rfl
      | some d => simp [Table.view, hd]
    · rw [if_neg hfd]
      exact h.files fd'
  · rw [hdesc]
    by_cases hfd : fd' = fd
    · subst hfd
      rw [if_pos rfl, h.contexts fd']
      cases t.desc fd' <;> rfl
    · rw [if_neg hfd]
      exact h.contexts fd'
  · rw [Table.store, Table.view_set, hslot]
    by_cases hfd : fd' = fd
    · subst hfd
      rw [if_pos rfl, if_pos rfl]
      cases t.desc fd' <;> rfl
    · rw [if_neg hfd, if_neg (Ne.symm hfd)]
      exact h.ctx fd'
  · rw [hslot] at hn
    split_ifs at hn
    rw [hcreated]
    exact h.created fd' n hn
  · rw [hslot] at h1 h2
    split_ifs at h1 h2
    exact h.own fd1 fd2 n h1 h2
  · rw [hdesc] at hd
    split_ifs at hd with hfd
    · obtain ⟨d0, hd0, rfl⟩ := Option.map_eq_some_iff.mp hd
      rw [hfd]
      exact h.sound fd d0 hd0
    · exact h.sound fd' d hd
  · obtain ⟨d, hd, hev, hlast⟩ := h.stage k fd' stage hk
    by_cases hfd : fd' = fd
    · subst hfd
      exact ⟨{ d with io := { t.view fd' with ctx := none } }, by rw [hdesc, if_pos rfl, hd, Option.map_some], hev,
        fun _ => rfl⟩
    · exact ⟨d, by rw [hdesc, if_neg hfd, hd], hev, hlast⟩

/-- a file nobody waits on, and that has no context, is closed -/
theorem Rel.closeFile (h : Rel p t) {d : Descriptor} (hd : t.desc fd = some d) (hev : d.context.events = 0)
    (hctx : d.io.ctx = none) (hnobody : ∀ k stage, t.closing k ≠ some (fd, stage)) :
    Rel { p with files := Function.update p.files fd none } (t.set fd none) := by
  obtain ⟨hsound, hnum⟩ := h.sound fd d hd
  have hdesc : ∀ fd', (t.set fd none).desc fd' = if fd' = fd then none else t.desc fd' := by
    intro fd'
    by_cases hfd : fd' = fd
    · simp [Table.set, hfd]
    · simp [Table.set, hfd]
  refine ⟨h.gone, h.scheduled, h.closing, h.length, fun fd' => ?_, fun fd' => ?_, fun fd' => ?_, h.created, h.own,
    fun fd' d' hd' => ?_, fun k fd' stage hk => ?_, h.one⟩
  · rw [hdesc]
    by_cases hfd : fd' = fd
    · subst hfd
      simp
    · simp only [Function.update_of_ne hfd, if_neg hfd]
      exact h.files fd'
  · rw [hdesc, h.contexts fd']
    by_cases hfd : fd' = fd
    · subst hfd
      rw [if_pos rfl, hd]
      exact (eq_of_events hsound hev).trans (by rw [hnum]; rfl)
    · rw [if_neg hfd]
  · rw [Table.view_set, h.ctx fd']
    by_cases hfd : fd' = fd
    · subst hfd
      rw [if_pos rfl, Table.view, hd]
      exact hctx
    · rw [if_neg hfd]
  · rw [hdesc] at hd'
    split_ifs at hd'
    exact h.sound fd' d' hd'
  · obtain ⟨d', hd', hrest⟩ := h.stage k fd' stage hk
    have hfd : fd' ≠ fd := by
      rintro rfl
      exact hnobody k stage hk
    exact ⟨d', by rw [hdesc, if_neg hfd, hd'], hrest⟩

/-- a thread goes on with its close -/
theorem Rel.next (h : Rel p t) (k : ℕ) : (p.next k).1 = (t.next k).1 ∧ Rel (p.next k).2 (t.next k).2 := by
  have hclosing : p.closing k = t.closing k := by rw [h.closing]
  unfold Process.next Table.next
  rw [hclosing]
  cases hk : t.closing k with
  | none => exact ⟨rfl, h⟩
  | some x =>
    obtain ⟨fd, stage⟩ := x
    obtain ⟨d, hd, hev, hlast⟩ := h.stage k fd stage hk
    have hone : ∀ k' stage', t.closing k' = some (fd, stage') → k' = k := fun k' stage' hk' =>
      h.one k' k fd stage' stage hk' hk
    cases stage with
    | found iom =>
      cases iom with
      | false =>
        refine ⟨rfl, h.setStage k ?_ ?_⟩
        · rintro fd' stage' he
          cases he
          exact ⟨d, hd, fun _ => hev (by simp), nofun⟩
        · rintro fd' stage' he
          cases he
          exact hone
      | true =>
        simp only [if_true]
        obtain ⟨-, hrel⟩ : _ ∧ Rel (p.act fd (.cancelAll true)).2 (t.act fd (.cancelAll true)).2 := h.act nofun
        cases hr : d.context.act (answered (Table.ctlOk d.context (.cancelAll true)) (.cancelAll true)) with
        | none =>
          have hact : (t.act fd (.cancelAll true)).2.gone = true := by simp [Table.act, hd, hr, Table.lose]
          rw [hrel.gone, if_pos hact, if_pos hact]
          exact ⟨rfl, hrel⟩
        | some r =>
          obtain ⟨r, tasks, c⟩ := r
          have hact : (t.act fd (.cancelAll true)).2 = { t.set fd (some { d with context := c }) with
              scheduled := t.scheduled ++ tasks } := by simp [Table.act, hd, hr]
          rw [hrel.gone]
          by_cases hgone : (t.act fd (.cancelAll true)).2.gone = true
          · rw [if_pos hgone, if_pos hgone]
            exact ⟨rfl, hrel⟩
          · rw [if_neg hgone, if_neg hgone]
            refine ⟨rfl, hrel.setStage k ?_ ?_⟩
            · rintro fd' stage' he
              cases he
              exact ⟨{ d with context := c }, by simp [hact, Table.set], fun _ => act_cancelAll hr, nofun⟩
            · rintro fd' stage' he k' stage'' hk'
              cases he
              rw [hact] at hk'
              exact hone k' stage'' hk'
    | cancelled =>
      obtain ⟨m, hm⟩ : ∃ m, p.fdMgr.del fd = (.done, m) := ⟨_, Prod.ext (del_slot h.length fd).1 rfl⟩
      have hdel : Rel { p with fdMgr := (p.fdMgr.del fd).2 } (t.store fd { t.view fd with ctx := none }) := h.del
      rw [hm] at hdel
      simp only [hm]
      refine ⟨trivial, hdel.setStage k ?_ ?_⟩
      · rintro fd' stage' he
        cases he
        exact ⟨{ d with io := { t.view fd with ctx := none } }, by simp [Table.store, Table.set, hd],
          fun _ => hev (by simp), fun _ => rfl⟩
      · rintro fd' stage' he
        cases he
        exact hone
    | last =>
      have hfile : (p.files fd).isSome = (t.desc fd).isSome := by
        rw [h.files fd, Option.isSome_map]
      refine ⟨by simp only [hfile], ?_⟩
      -- once the thread is done with it, nobody closes the descriptor
      have hdone : Rel (p.setStage k none) (t.setStage k none) := h.setStage k nofun nofun
      refine hdone.closeFile (show (t.setStage k none).desc fd = some d from hd) (hev (by simp)) (hlast rfl) fun k' stage' hk' => ?_
      by_cases hkk : k' = k
      · simp [Table.setStage, hkk] at hk'
      · have hk' : Function.update t.closing k none k' = some (fd, stage') := hk'
        rw [Function.update_of_ne hkk] at hk'
        exact hkk (hone k' stage' hk')

/-- the calls of the user change what a context says, not whether there is one -/
theorem fcntlSetfl_isSome (s : Fd) (arg : UInt32) (ok : Bool) : (fcntlSetfl s arg ok).2.ctx.isSome = s.ctx.isSome := by
  unfold fcntlSetfl
  split
  · next hctx => simp [hctx]
  · next ctx hctx => split_ifs <;> simp [hctx]

theorem ioctlFionbio_isSome (s : Fd) (value : UInt32) (ok : Bool) :
    (ioctlFionbio s value ok).2.ctx.isSome = s.ctx.isSome := Option.isSome_map

theorem setsockopt_isSome {hook_enable : Bool} {ctx ctx' : Option FdCtx} {opt : SockOpt}
    (h : Hook.setsockopt hook_enable ctx opt = some ctx') : ctx'.isSome = ctx.isSome := by
  unfold Hook.setsockopt at h
  split_ifs at h
  · cases h
    rfl
  · split at h
    · obtain ⟨ms, -, he⟩ := Option.map_eq_some_iff.mp h
      cases he
      rfl
    · cases h
      rfl

/-- **Every call answers as the descriptor's own history says.** -/
theorem Rel.step (h : Rel p t) (o : Op) (hok : t.Ok o) : (p.step o).1 = (t.step o).1 ∧ Rel (p.step o).2 (t.step o).2 := by
  unfold Process.step Table.step
  rw [h.gone]
  split_ifs with hgone
  · exact ⟨rfl, h⟩
  have hfile : ∀ fd, (p.files fd).isSome = (t.desc fd).isSome := fun fd => by rw [h.files fd, Option.isSome_map]
  cases o with
  | socket hook_enable fd flags =>
    cases hook_enable with
    | true =>
      obtain ⟨hout, hrel⟩ := h.manage hok flags
      exact ⟨hout, hrel⟩
    | false => exact ⟨rfl, h.openFile hok flags⟩
  | accept fd flags =>
    obtain ⟨hout, hrel⟩ := h.manage hok flags
    exact ⟨hout, hrel⟩
  | open_f fd flags => exact ⟨rfl, h.openFile hok flags⟩
  | close k hook_enable iom fd =>
    obtain ⟨hidle, hnobody, d, hd, hhook, hwait⟩ := hok
    have hview : (t.view fd).ctx = d.io.ctx := by rw [Table.view, hd]; rfl
    simp only [Process.stepAlive, Table.stepAlive, h.get]
    refine ⟨trivial, h.setStage k ?_ ?_⟩
    · rintro fd' stage he
      cases he
      rw [hview]
      refine ⟨d, hd, fun hst => ?_, fun hst => ?_⟩
      · by_contra hev
        obtain ⟨hctx, rfl⟩ := hwait hev
        rw [hhook hctx, hctx] at hst
        exact hst rfl
      · by_contra hctx
        have hctx := Option.isSome_iff_ne_none.mpr hctx
        rw [hhook hctx, hctx] at hst
        cases hst
    · rintro fd' stage he k' stage' hk'
      cases he
      exact absurd hk' (hnobody k' stage')
  | next k => exact h.next k
  | setfl fd arg ok =>
    simp only [Process.stepAlive, Table.stepAlive, h.view, hfile]
    exact ⟨trivial, h.store (fcntlSetfl_isSome _ _ _)⟩
  | getfl fd => exact ⟨by simp only [Process.stepAlive, Table.stepAlive, h.view], h⟩
  | fionbio fd value ok =>
    simp only [Process.stepAlive, Table.stepAlive, h.view, hfile]
    exact ⟨trivial, h.store (ioctlFionbio_isSome _ _ _)⟩
  | setsockopt hook_enable fd opt =>
    simp only [Process.stepAlive, Table.stepAlive, h.view, h.get]
    cases hopt : Hook.setsockopt hook_enable (t.view fd).ctx opt with
    | none => exact ⟨rfl, h.lose⟩
    | some ctx => exact ⟨rfl, h.store (setsockopt_isSome hopt)⟩
  | do_io hook_enable fd timeout_so => exact ⟨by simp only [Process.stepAlive, Table.stepAlive, h.get], h⟩
  | event fd a =>
    refine h.act fun event cb who ok ha k stage hk => ?_
    subst ha
    exact hok k stage hk

end Steps

/-- **Descriptors are objects.** In every run in which managed descriptors are closed through the hook, on a thread with
an `IOManager` if somebody waits, and nobody begins to wait in the middle of a close: every call answers as the life of
its own file says, and about a number without a file neither a context nor a registration is kept. -/
theorem descriptors_refine (ops : List Op) (hok : Along Table.Ok (fun t o => (t.step o).2) Table.start ops) :
    (runOut Process.step Process.start ops).1 = (runOut Table.step Table.start ops).1 ∧
      ∀ fd, (runOut Process.step Process.start ops).2.files fd = none →
        (runOut Process.step Process.start ops).2.get fd = none ∧
          (runOut Process.step Process.start ops).2.contexts fd = noContext fd := by
  obtain ⟨hout, hrel⟩ := runOut_sim (R := Rel) (fun p t o hok h => h.step o hok) ops rel_start hok
  refine ⟨hout, fun fd hfile => ?_⟩
  have hdesc : (runOut Table.step Table.start ops).2.desc fd = none := by
    rw [hrel.files fd] at hfile
    exact Option.map_eq_none_iff.mp hfile
  rw [hrel.get, hrel.contexts, Table.view, hdesc]
  exact ⟨rfl, rfl⟩

/-- a socket that is made non-blocking, and on which a fiber waits; it is closed, and another one has its number -/
def reused : List Op :=
  [.socket true 5 0x2, .setfl 5 0x802 true, .event 5 (.addEvent .read none { scheduler := some 0, fiber := 7, exec := true } true),
    .close 0 true true 5, .next 0, .next 0, .next 0, .socket true 5 0x2, .getfl 5, .do_io true 5 .rcv]

theorem descriptors_refine_reused :
    (runOut Process.step Process.start reused).1 = (runOut Table.step Table.start reused).1 ∧
      (runOut Process.step Process.start reused).2.get 6 = none := by
  have hok : Along Table.Ok (fun t o => (t.step o).2) Table.start reused := by
    refine ⟨⟨rfl, by decide, by decide⟩, trivial, nofun, ⟨rfl, nofun, _, rfl, fun _ => rfl, fun _ => ⟨rfl, rfl⟩⟩, trivial,
      trivial, trivial, ⟨rfl, by decide, by decide⟩, trivial, trivial, trivial⟩
  exact ⟨(descriptors_refine reused hok).1, ((descriptors_refine reused hok).2 6 rfl).1⟩

-- the new socket is blocking for the user, and a call on it waits without a limit
example : (runOut Process.step Process.start reused).1.drop 8 = [.flags 0x2, .entry (.loop 0xffffffffffffffff)] := by decide

/-! ## Where the number outlives what is kept about it -/

section Stale

variable {ops : List Op} {fd : Int32} {k : ℕ}

theorem get_found {m : FdManager} {n : ℕ} (hslot : m.slot fd = some n) (auto_create : Bool) :
    m.get fd auto_create = (.found n, m) := by
  have hget : m.datas[FdManager.index fd]? = some (some n) := by
    rw [FdManager.slot] at hslot
    cases hd : m.datas[FdManager.index fd]? with
    | none => simp [hd] at hslot
    | some x =>
      rw [hd] at hslot
      exact congrArg some hslot
  have hlt : FdManager.index fd < m.datas.length := (List.getElem?_eq_some_iff.mp hget).1
  unfold FdManager.get
  rw [if_neg (Nat.not_le.mpr hlt), hget]

/-- **A close that is not hooked**, or is made by code that does not know of the hook. The next socket with the number,
though hooked, has the context of the old one: what the user had asked for there, and its kernel flags are as the kernel
gives them, so that for a socket taken for non-blocking the kernel blocks the thread. -/
theorem stale_after_unhooked_close (hok : Along Table.Ok (fun t o => (t.step o).2) Table.start ops)
    (hgone : (runOut Process.step Process.start ops).2.gone = false) {ctx : FdCtx}
    (hctx : (runOut Process.step Process.start ops).2.get fd = some ctx) (iom : Bool) (flags : UInt32) :
    (runOut Process.step (runOut Process.step Process.start ops).2
      [.close k false iom fd, .next k, .socket true fd flags]).2.view fd = { ctx := some ctx, flags := flags } := by
  obtain ⟨-, hrel⟩ := runOut_sim (R := Rel) (fun p t o hok h => h.step o hok) ops rel_start hok
  generalize (runOut Process.step Process.start ops).2 = p at hrel hgone hctx ⊢
  obtain ⟨n, hslot, hn⟩ : ∃ n, p.fdMgr.slot fd = some n ∧ p.ctxs n = ctx := by
    rw [hrel.get, ← hrel.ctx] at hctx
    exact Option.map_eq_some_iff.mp hctx
  have hclose : (p.step (.close k false iom fd)).2 = p.setStage k (some (fd, .last)) := by
    simp [Process.step, hgone, Process.stepAlive]
  have hnext : ((p.setStage k (some (fd, .last))).step (.next k)).2 =
      { p with files := Function.update p.files fd none, closing := Function.update p.closing k none } := by
    simp [Process.step, Process.setStage, hgone, Process.stepAlive, Process.next]
  simp only [runOut, hclose, hnext]
  simp [Process.step, hgone, Process.stepAlive, Process.manage, Process.openFile, get_found hslot, Process.view, Process.get, hn]

/-- a socket made non-blocking, closed behind the hook's back -/
theorem stale_after_unhooked_close_five : (runOut Process.step (runOut Process.step Process.start
    [.socket true 5 0x2, .setfl 5 0x802 true]).2 [.close 0 false true 5, .next 0, .socket true 5 0x2]).2.view 5 =
    { ctx := some { fd := 5, isInit := true, isSocket := true, sysNonblock := true, userNonblock := true }, flags := 0x2 } := by
  have hok : Along Table.Ok (fun t o => (t.step o).2) Table.start [.socket true 5 0x2, .setfl 5 0x802 true] :=
    ⟨⟨rfl, by decide, by decide⟩, trivial, trivial⟩
  exact stale_after_unhooked_close (k := 0) hok rfl rfl true 0x2

/-- **A wait that begins in the middle of a close**, after `cancelAll`: the fiber that was woken tries again, the socket
is still open, and it registers itself once more. The file goes, the registration stays, and whoever waits on the next
socket with the number fails the assertion of `addEvent`. -/
theorem wait_inside_close (hok : Along Table.Ok (fun t o => (t.step o).2) Table.start ops)
    (hgone : (runOut Process.step Process.start ops).2.gone = false)
    (hclosing : (runOut Process.step Process.start ops).2.closing k = some (fd, .cancelled))
    (hctx : ((runOut Process.step Process.start ops).2.get fd).isSome) (e : Event) {who who' : IOManager.Caller}
    (hexec : who.exec = true) (cb' : Option ℕ) (flags : UInt32) :
    (runOut Process.step (runOut Process.step Process.start ops).2
      [.event fd (.addEvent e none who true), .next k, .next k, .socket true fd flags,
        .event fd (.addEvent e cb' who' true)]).1 =
      [.ret (.int 0), .unit, .int 0, .int fd.toInt, .gone] := by
  obtain ⟨-, hrel⟩ := runOut_sim (R := Rel) (fun p t o hok h => h.step o hok) ops rel_start hok
  generalize (runOut Process.step Process.start ops).2 = p at hrel hgone hclosing hctx ⊢
  generalize (runOut Table.step Table.start ops).2 = t at hrel
  obtain ⟨n, hslot⟩ : ∃ n, p.fdMgr.slot fd = some n := by
    rw [hrel.get, ← hrel.ctx, Option.isSome_map] at hctx
    exact Option.isSome_iff_exists.mp hctx
  have hindex : FdManager.index fd < 64 := by
    by_contra hout
    have hlen := hrel.length
    rw [FdManager.slot, List.getElem?_eq_none (by omega)] at hslot
    cases hslot
  obtain ⟨d, hd, hev, -⟩ := hrel.stage k fd .cancelled (by rw [← hrel.closing]; exact hclosing)
  obtain ⟨hsound, hnum⟩ := hrel.sound fd d hd
  have hfresh : p.contexts fd = noContext fd := by
    rw [hrel.contexts fd, hd]
    exact (eq_of_events hsound (hev (by simp))).trans (by rw [hnum]; rfl)
  have hfile : p.files fd = some { flags := d.io.flags, interest := false } := by
    rw [hrel.files fd, hd, Option.map_some, hev (by simp)]
    rfl
  -- the registration, and what the last `addEvent` makes of it
  obtain ⟨c, hadd, hbit⟩ : ∃ c, (noContext fd).act (.addEvent e none who true) = some (.int 0, [], c) ∧
      c.events &&& e.mask ≠ 0 := by
    cases e with
    | read =>
      refine ⟨_, by simp [FdContext.act, FdContext.addEvent, noContext, FdContext.getContext, hexec, Event.mask]; rfl, ?_⟩
      exact show (1 : UInt32) &&& 1 ≠ 0 by decide
    | write =>
      refine ⟨_, by simp [FdContext.act, FdContext.addEvent, noContext, FdContext.getContext, hexec, Event.mask]; rfl, ?_⟩
      exact show (4 : UInt32) &&& 4 ≠ 0 by decide
  have hagain : ∀ ok, c.act (.addEvent e cb' who' ok) = none := by
    intro ok
    simp [FdContext.act, FdContext.addEvent, hbit]
  obtain ⟨m, hm⟩ : ∃ m, p.fdMgr.del fd = (.done, m) := ⟨_, Prod.ext (del_slot hrel.length fd).1 rfl⟩
  have hmslot : m.slot fd = none := by
    have := (del_slot hrel.length fd).2.2.2 fd
    rwa [hm, if_pos rfl] at this
  have hmlen : m.datas.length = 64 := by
    have := (del_slot hrel.length fd).2.2.1
    rwa [hm] at this
  have hcreate : m.get fd true = (.created m.created, (m.create fd).2) := by
    rw [get_true hmlen hindex hmslot]
    exact Prod.ext (FdManager.create_slot (by rw [hmlen]; exact hindex)).1 rfl
  have h1 : p.step (.event fd (.addEvent e none who true)) = (.ret (.int 0), { p with
      contexts := Function.update p.contexts fd c, scheduled := p.scheduled ++ []
      files := Function.update p.files fd (some { flags := d.io.flags, interest :=
        if c.events = (noContext fd).events then false else decide (c.events ≠ 0) }) }) := by
    have hctl : p.ctlOk fd (.addEvent e none who true) = true := by
      simp [Process.ctlOk, hfile, hfresh, noContext]
    simp only [Process.step, hgone, Bool.false_eq_true, if_false, Process.stepAlive, Process.act, hfresh, hctl, answered, hadd,
      hfile, Option.map_some]
  rw [runOut, h1]
  simp [runOut, Process.step, hgone, Process.stepAlive, Process.next, hclosing, hm, Process.setStage, Process.openFile,
    Process.manage, hcreate, Process.act, answered, hagain, Process.lose]

/-- a fiber of a pool, and later a callback -/
theorem wait_inside_close_five : (runOut Process.step (runOut Process.step Process.start
    [.socket true 5 0x2, .close 0 true true 5, .next 0]).2
      [.event 5 (.addEvent .read none { scheduler := some 0, fiber := 7, exec := true } true), .next 0, .next 0,
        .socket true 5 0x2, .event 5 (.addEvent .read (some 1) { scheduler := some 0, fiber := 8, exec := true } true)]).1 =
      [.ret (.int 0), .unit, .int 0, .int 5, .gone] := by
  have hok : Along Table.Ok (fun t o => (t.step o).2) Table.start [.socket true 5 0x2, .close 0 true true 5, .next 0] :=
    ⟨⟨rfl, by decide, by decide⟩, ⟨rfl, nofun, _, rfl, fun _ => rfl, fun hev => absurd rfl hev⟩, trivial, trivial⟩
  exact wait_inside_close (k := 0) hok rfl rfl rfl .read rfl (some 1) 0x2

end Stale

end Sylar.Descriptors
