/-
Cancelling through a `Socket` (`sylar/socket.cpp`, on `cancelEvent` and `cancelAll` of `sylar/iomanager.cpp`).

A `Socket` has no descriptor, -1, until `bind` or `connect` makes one or `init` takes over that of an accepted
connection, and again after `close`. The cancel operations pass the descriptor on as it is. `cancelEvent` and
`cancelAll` compare it, as an `int`, with the size of `m_fdContexts` and then index the table.

Any number of sockets are used on hooked threads of an `IOManager`, in any order; between two operations others may
use the `IOManager` (`others`). The results of the system calls come with the operations. An access outside the table
is `outOfRange`, a failed assertion `assertFailed`; the process does not go on after either.

- `cancel_in_table_iff`: in a whole run every access is inside the table, and cancelling on a socket without a
  descriptor returns `false` and does nothing, iff no cancel operation is called on a socket without a descriptor.
- `cancel_unopened`: a socket that was never opened.
-/
import Mathlib.Tactic
import Sylar.Core.Run
import Sylar.Hook.FdManager
import Sylar.IOManager.Events

namespace Sylar.Socket

open Sylar.Core

/-- the members of a `Socket` that the operations read; the others are passed on to the system calls -/
structure Sock where
  /-- `m_sock` -/
  sock : Int32 := -1
  isConnected : Bool := false
  family : ℤ
deriving DecidableEq, Repr

structure St where
  /-- the sockets there are -/
  socks : ℕ → Option Sock
  fdm : FdManager
  iom : IOManager
  stopped : Bool

def start : St := { socks := fun _ => none, fdm := FdManager.new, iom := IOManager.new, stopped := false }

/-- what an operation returns -/
inductive Out where
  | unit
  | bool (b : Bool)
  | outOfRange
  | assertFailed
deriving DecidableEq, Repr

def St.setSock (s : St) (k : ℕ) (c : Sock) : St := { s with socks := Function.update s.socks k (some c) }

/-! ## The table -/

/-- `(int)m_fdContexts.size() <= fd` -/
def beyond (iom : IOManager) (fd : Int32) : Prop := (Int32.ofNat iom.fdContexts.length).toInt ≤ fd.toInt

instance (iom : IOManager) (fd : Int32) : Decidable (beyond iom fd) := inferInstanceAs (Decidable (_ ≤ _))

/-- test the descriptor, index the table with it, and go on with `f`; a negative `int` is no index -/
def St.lookup (s : St) (fd : Int32) (f : IOManager → ℕ → Option (IOManager.Ret × IOManager)) : Out × St :=
  if beyond s.iom fd then (.bool false, s)
  else if 0 ≤ fd.toInt ∧ fd.toInt.toNat < s.iom.fdContexts.length then
    match f s.iom fd.toInt.toNat with
    | some (.bool b, iom) => (.bool b, { s with iom := iom })
    | some (_, iom) => (.unit, { s with iom := iom })
    | none => (.assertFailed, { s with stopped := true })
  else (.outOfRange, { s with stopped := true })

/-- `IOManager::cancelEvent` -/
def St.cancelEvent (s : St) (fd : Int32) (event : Event) : Out × St := s.lookup fd fun iom i => iom.cancelEvent i event

/-- `IOManager::cancelAll` -/
def St.cancelAll (s : St) (fd : Int32) : Out × St := s.lookup fd fun iom i => iom.cancelAll i

/-! ## Hooked system calls -/

/-- hooked `socket`, of which the kernel returns `fd` -/
def St.hookSocket (s : St) (fd : Int32) : St := if fd = -1 then s else { s with fdm := (s.fdm.get fd true).2 }

/-- hooked `close` -/
def St.hookClose (s : St) (fd : Int32) : Out × St :=
  match (s.fdm.get fd false).1 with
  | .found _ =>
    let r := s.cancelAll fd
    if r.2.stopped then r else (.unit, { r.2 with fdm := (r.2.fdm.del fd).2 })
  | _ => (.unit, s)

/-- what `connect` meets: its result, and if it has to wait, who waits and whether the time runs out -/
structure Connecting where
  ok : Bool
  wait : Option (IOManager.Caller × Bool)
deriving DecidableEq, Repr

/-- hooked `connect`; `true` for result 0 -/
def St.hookConnect (s : St) (fd : Int32) (e : Connecting) : Out × St :=
  match (s.fdm.get fd false).1 with
  | .found _ =>
    match e.wait with
    | none => (.bool e.ok, s)
    | some (who, timedOut) =>
      match s.iom.addEvent fd.toInt.toNat .write none who with
      | none => (.assertFailed, { s with stopped := true })
      | some (rt, iom) =>
        let s := { s with iom := iom }
        if rt = .int 0 ∧ timedOut then
          let r := s.cancelEvent fd .write
          if r.2.stopped then r else (.bool false, r.2)
        else (.bool e.ok, s)
  | _ => (.bool false, s)

/-! ## The operations of a socket `k`, which is `c` -/

/-- `newSock` -/
def St.newSock (s : St) (k : ℕ) (c : Sock) (fd : Int32) : St := (s.hookSocket fd).setSock k { c with sock := fd }

def St.close (s : St) (k : ℕ) (c : Sock) : Out × St :=
  if !c.isConnected ∧ c.sock = -1 then (.bool true, s)
  else
    let c := { c with isConnected := false }
    if c.sock = -1 then (.bool false, s.setSock k c)
    else
      let r := (s.setSock k c).hookClose c.sock
      if r.2.stopped then r else (.bool false, r.2.setSock k { c with sock := -1 })

/-- what `bind` and `connect` begin with: a descriptor, `fd` of the kernel if there is none yet, and the test of the
family -/
def St.prepare (s : St) (k : ℕ) (c : Sock) (fd : Int32) (family : ℤ) : Option Sock × St :=
  let c' := if c.sock = -1 then { c with sock := fd } else c
  let s := if c.sock = -1 then s.newSock k c fd else s
  if c'.sock = -1 ∨ family ≠ c'.family then (none, s) else (some c', s)

def St.bind (s : St) (k : ℕ) (c : Sock) (fd : Int32) (family : ℤ) (ok : Bool) : Out × St :=
  match s.prepare k c fd family with
  | (none, s) => (.bool false, s)
  | (some _, s) => (.bool ok, s)

def St.connect (s : St) (k : ℕ) (c : Sock) (fd : Int32) (family : ℤ) (e : Connecting) : Out × St :=
  match s.prepare k c fd family with
  | (none, s) => (.bool false, s)
  | (some c, s) =>
    let r := s.hookConnect c.sock e
    if r.2.stopped then r
    else if r.1 = .bool true then (.bool true, r.2.setSock k { c with isConnected := true })
    else
      let r := r.2.close k c
      if r.2.stopped then r else (.bool false, r.2)

/-- a new socket takes over the descriptor of an accepted connection, for which hooked `accept` has made a context -/
def St.acceptInit (s : St) (k : ℕ) (family : ℤ) (fd : Int32) (isSocket : Bool) : Out × St :=
  let s := { s with fdm := (s.fdm.get fd true).2 }
  match (s.fdm.get fd false).1 with
  | .found _ =>
    if isSocket then (.bool true, s.setSock k { sock := fd, isConnected := true, family := family }) else (.bool false, s)
  | _ => (.bool false, s)

/-- `~Socket` -/
def St.destroy (s : St) (k : ℕ) (c : Sock) : Out × St :=
  let r := s.close k c
  if r.2.stopped then r else (.unit, { r.2 with socks := Function.update r.2.socks k none })

inductive Op where
  | create (k : ℕ) (family : ℤ)
  | acceptInit (k : ℕ) (family : ℤ) (fd : Int32) (isSocket : Bool)
  | bind (k : ℕ) (fd : Int32) (family : ℤ) (ok : Bool)
  | connect (k : ℕ) (fd : Int32) (family : ℤ) (e : Connecting)
  | close (k : ℕ)
  | cancelRead (k : ℕ)
  | cancelWrite (k : ℕ)
  | cancelAccept (k : ℕ)
  | cancelAll (k : ℕ)
  | destroy (k : ℕ)
  /-- a use of the `IOManager` by others -/
  | others (o : IOManager.Op)

/-- an operation on a socket there is -/
def St.on (s : St) (k : ℕ) (f : Sock → Out × St) : Out × St := (s.socks k).elim (.unit, s) f

/-- an operation that makes socket `k` -/
def St.make (s : St) (k : ℕ) (r : Out × St) : Out × St := if (s.socks k).isSome then (.unit, s) else r

def stepAlive (s : St) : Op → Out × St
  | .create k family => s.make k (.unit, s.setSock k { family := family })
  | .acceptInit k family fd isSocket => s.make k (s.acceptInit k family fd isSocket)
  | .bind k fd family ok => s.on k fun c => s.bind k c fd family ok
  | .connect k fd family e => s.on k fun c => s.connect k c fd family e
  | .close k => s.on k fun c => s.close k c
  | .cancelRead k => s.on k fun c => s.cancelEvent c.sock .read
  | .cancelWrite k => s.on k fun c => s.cancelEvent c.sock .write
  | .cancelAccept k => s.on k fun c => s.cancelEvent c.sock .read
  | .cancelAll k => s.on k fun c => s.cancelAll c.sock
  | .destroy k => s.on k fun c => s.destroy k c
  | .others o =>
    match s.iom.call o with
    | none => (.assertFailed, { s with stopped := true })
    | some r => (.unit, { s with iom := r.2 })

def step (s : St) (o : Op) : Out × St := if s.stopped then (.unit, s) else stepAlive s o

def after (s : St) (o : Op) : St := (step s o).2

/-- the kernel's descriptors are not negative; `socket` may fail with -1 -/
def Op.Kernel : Op → Prop
  | .acceptInit _ _ fd _ => 0 ≤ fd.toInt
  | .bind _ fd _ _ | .connect _ fd _ _ => -1 ≤ fd.toInt
  | _ => True

/-- the socket a cancel operation is called on -/
def Op.cancels : Op → Option ℕ
  | .cancelRead k | .cancelWrite k | .cancelAccept k | .cancelAll k => some k
  | _ => none

/-- the operation makes no access outside the table, and if it cancels on a socket without a descriptor it returns
`false` and does nothing -/
def Safe (s : St) (o : Op) : Prop :=
  (step s o).1 ≠ .outOfRange ∧
    ∀ k c, s.stopped = false → o.cancels = some k → s.socks k = some c → c.sock = -1 → step s o = (.bool false, s)

/-- a cancel operation is called on a socket with a descriptor; or the table has at least 2^31 contexts, of which the
`int` is negative -/
def Covered (s : St) (o : Op) : Prop :=
  ∀ k c, s.stopped = false → o.cancels = some k → s.socks k = some c → c.sock ≠ -1 ∨ beyond s.iom (-1)

/-! ## Lookups -/

/-- a descriptor that is not negative and not beyond the table is in it -/
theorem lt_length_of_not_beyond {iom : IOManager} {fd : Int32} (h0 : 0 ≤ fd.toInt) (h : ¬beyond iom fd) :
    fd.toInt.toNat < iom.fdContexts.length := by
  have hsize : Int32.size = 4294967296 := rfl
  rw [beyond, Int32.toInt_ofNat', Int.bmod_def, hsize] at h
  split_ifs at h with hlow <;> omega

theorem lookup_ne_outOfRange (s : St) {fd : Int32} (h0 : 0 ≤ fd.toInt)
    (f : IOManager → ℕ → Option (IOManager.Ret × IOManager)) : (s.lookup fd f).1 ≠ .outOfRange := by
  unfold St.lookup
  split_ifs with hb hin
  · nofun
  · split <;> nofun
  · exact absurd ⟨h0, lt_length_of_not_beyond h0 hb⟩ hin

theorem lookup_socks (s : St) (fd : Int32) (f : IOManager → ℕ → Option (IOManager.Ret × IOManager)) :
    (s.lookup fd f).2.socks = s.socks := by
  unfold St.lookup
  split_ifs
  · rfl
  · split <;> rfl
  · rfl

/-- without a descriptor the test is the only guard -/
theorem lookup_neg (s : St) (f : IOManager → ℕ → Option (IOManager.Ret × IOManager)) :
    s.lookup (-1) f = if beyond s.iom (-1) then (.bool false, s) else (.outOfRange, { s with stopped := true }) := by
  unfold St.lookup
  split_ifs with hb hin
  · rfl
  · exact absurd hin.1 (by decide)
  · rfl

/-! ## What an operation keeps -/

/-- every descriptor is that of the kernel, or -1 -/
def Inv (s : St) : Prop := ∀ k c, s.socks k = some c → -1 ≤ c.sock.toInt

theorem start_inv : Inv start := by
  intro k c h
  cases h

theorem nonneg_of_ne {fd : Int32} (h : -1 ≤ fd.toInt) (hne : fd ≠ -1) : 0 ≤ fd.toInt := by
  have hne' : fd.toInt ≠ -1 := fun he => hne (Int32.toInt_inj.mp he)
  omega

/-- the result of an operation that made no access outside the table -/
structure Fine (r : Out × St) : Prop where
  inRange : r.1 ≠ .outOfRange
  inv : Inv r.2

section
variable {s : St} {k : ℕ} {c : Sock} {fd : Int32}

theorem Inv.update (h : Inv s) {x : Option Sock} (hx : ∀ d ∈ x, -1 ≤ d.sock.toInt) {s' : St}
    (hs : s'.socks = Function.update s.socks k x) : Inv s' := by
  intro j d hj
  rw [hs] at hj
  by_cases hjk : j = k
  · subst hjk
    rw [Function.update_self] at hj
    exact hx d hj
  · rw [Function.update_of_ne hjk] at hj
    exact h j d hj

theorem Inv.setSock (h : Inv s) (hc : -1 ≤ c.sock.toInt) : Inv (s.setSock k c) := by
  refine h.update (x := some c) ?_ rfl
  intro d hd
  obtain rfl := Option.some.inj hd
  exact hc

theorem fine_lookup (h : Inv s) (h0 : 0 ≤ fd.toInt) (f : IOManager → ℕ → Option (IOManager.Ret × IOManager)) :
    Fine (s.lookup fd f) := by
  refine ⟨lookup_ne_outOfRange s h0 f, ?_⟩
  intro j d hj
  rw [lookup_socks] at hj
  exact h j d hj

theorem fine_hookClose (h : Inv s) (h0 : 0 ≤ fd.toInt) : Fine (s.hookClose fd) := by
  unfold St.hookClose
  split
  · have hr : Fine (s.cancelAll fd) := fine_lookup h h0 _
    dsimp only
    split_ifs
    · exact hr
    · exact ⟨nofun, hr.inv⟩
  · exact ⟨nofun, h⟩

theorem fine_hookConnect (h : Inv s) (h0 : 0 ≤ fd.toInt) (e : Connecting) : Fine (s.hookConnect fd e) := by
  unfold St.hookConnect
  split
  · split
    · exact ⟨nofun, h⟩
    · split
      · exact ⟨nofun, h⟩
      · next iom _ =>
        have h' : Inv { s with iom := iom } := h
        have hr : Fine (St.cancelEvent { s with iom := iom } fd .write) := fine_lookup h' h0 _
        dsimp only
        split_ifs
        · exact hr
        · exact ⟨nofun, hr.inv⟩
        · exact ⟨nofun, h⟩
  · exact ⟨nofun, h⟩

theorem fine_close (h : Inv s) (hc : -1 ≤ c.sock.toInt) : Fine (s.close k c) := by
  unfold St.close
  split_ifs with hclosed
  · exact ⟨nofun, h⟩
  · dsimp only
    split_ifs with hneg hstop
    · exact ⟨nofun, h.setSock hc⟩
    · exact fine_hookClose (h.setSock hc) (nonneg_of_ne hc hneg)
    · have hr : Fine ((s.setSock k { c with isConnected := false }).hookClose c.sock) :=
        fine_hookClose (h.setSock hc) (nonneg_of_ne hc hneg)
      exact ⟨nofun, hr.inv.setSock (show -1 ≤ (-1 : Int32).toInt by decide)⟩

theorem hookSocket_inv (h : Inv s) (fd : Int32) : Inv (s.hookSocket fd) := by
  unfold St.hookSocket
  split_ifs
  · exact h
  · exact h

/-- after the beginning of `bind` and `connect` the socket has a descriptor -/
theorem prepare_inv (h : Inv s) (hc : -1 ≤ c.sock.toInt) (hfd : -1 ≤ fd.toInt) (family : ℤ) :
    Inv (s.prepare k c fd family).2 ∧ ∀ d ∈ (s.prepare k c fd family).1, 0 ≤ d.sock.toInt := by
  -- what is returned has passed the test
  have hret : ∀ (s' : St) (c' : Sock), Inv s' → -1 ≤ c'.sock.toInt →
      let r := if c'.sock = -1 ∨ family ≠ c'.family then (none, s') else (some c', s')
      Inv r.2 ∧ ∀ d ∈ r.1, 0 ≤ d.sock.toInt := by
    intro s' c' hs' hc' r
    by_cases hfail : c'.sock = -1 ∨ family ≠ c'.family
    · rw [show r = (none, s') from if_pos hfail]
      exact ⟨hs', nofun⟩
    · rw [show r = (some c', s') from if_neg hfail]
      refine ⟨hs', ?_⟩
      intro d hd
      obtain rfl := Option.some.inj hd
      exact nonneg_of_ne hc' fun he => hfail (.inl he)
  by_cases hneg : c.sock = -1
  · simp only [St.prepare, hneg, if_true]
    exact hret _ { c with sock := fd } ((hookSocket_inv h fd).setSock hfd) hfd
  · simp only [St.prepare, hneg, if_false]
    have := hret s c h hc
    simpa only [hneg, false_or] using this

theorem fine_bind (h : Inv s) (hc : -1 ≤ c.sock.toInt) (hfd : -1 ≤ fd.toInt) (family : ℤ) (ok : Bool) :
    Fine (s.bind k c fd family ok) := by
  obtain ⟨hinv, -⟩ := prepare_inv (k := k) h hc hfd family
  unfold St.bind
  split
  · next hp =>
    rw [hp] at hinv
    exact ⟨nofun, hinv⟩
  · next hp =>
    rw [hp] at hinv
    exact ⟨nofun, hinv⟩

theorem fine_connect (h : Inv s) (hc : -1 ≤ c.sock.toInt) (hfd : -1 ≤ fd.toInt) (family : ℤ) (e : Connecting) :
    Fine (s.connect k c fd family e) := by
  obtain ⟨hinv, hsock⟩ := prepare_inv (k := k) h hc hfd family
  unfold St.connect
  split
  · next hp =>
    rw [hp] at hinv
    exact ⟨nofun, hinv⟩
  · next d s1 hp =>
    rw [hp] at hinv hsock
    have hd : 0 ≤ d.sock.toInt := hsock d rfl
    have hd' : -1 ≤ d.sock.toInt := by omega
    have hr := fine_hookConnect hinv hd e
    have hclose : Fine ((s1.hookConnect d.sock e).2.close k d) := fine_close hr.inv hd'
    dsimp only
    split_ifs
    · exact hr
    · exact ⟨nofun, hr.inv.setSock hd'⟩
    · exact hclose
    · exact ⟨nofun, hclose.inv⟩

theorem fine_acceptInit (h : Inv s) (family : ℤ) (h0 : 0 ≤ fd.toInt) (isSocket : Bool) :
    Fine (s.acceptInit k family fd isSocket) := by
  have hfd : -1 ≤ fd.toInt := by omega
  unfold St.acceptInit
  dsimp only
  split
  · split_ifs
    · exact ⟨nofun, Inv.setSock h hfd⟩
    · exact ⟨nofun, h⟩
  · exact ⟨nofun, h⟩

theorem fine_destroy (h : Inv s) (hc : -1 ≤ c.sock.toInt) : Fine (s.destroy k c) := by
  have hr : Fine (s.close k c) := fine_close h hc
  unfold St.destroy
  dsimp only
  split_ifs
  · exact hr
  · exact ⟨nofun, hr.inv.update (x := none) nofun rfl⟩

theorem fine_on (h : Inv s) {f : Sock → Out × St} (hf : ∀ c, s.socks k = some c → Fine (f c)) : Fine (s.on k f) := by
  unfold St.on
  cases hk : s.socks k with
  | none => exact ⟨nofun, h⟩
  | some c => exact hf c hk

theorem fine_make (h : Inv s) {r : Out × St} (hr : Fine r) : Fine (s.make k r) := by
  unfold St.make
  split_ifs
  · exact ⟨nofun, h⟩
  · exact hr

end

/-! ## Runs -/

/-- what a cancel operation is on its socket -/
theorem step_cancels {s : St} {o : Op} {k : ℕ} {c : Sock} (hs : s.stopped = false) (ho : o.cancels = some k)
    (hk : s.socks k = some c) : ∃ f, step s o = s.lookup c.sock f := by
  have hstep : step s o = stepAlive s o := by
    rw [step, hs, if_neg Bool.false_ne_true]
  rw [hstep]
  cases o with
  | create | acceptInit | bind | connect | close | destroy | others => cases ho
  | cancelRead j | cancelWrite j | cancelAccept j | cancelAll j =>
    obtain rfl := Option.some.inj ho
    simp only [stepAlive, St.on, hk, Option.elim_some]
    exact ⟨_, rfl⟩

/-- **Step lemma.** Any operation but a cancel on a socket without a descriptor is fine. -/
theorem step_fine {s : St} (h : Inv s) {o : Op} (hkernel : o.Kernel)
    (hopen : ∀ k c, o.cancels = some k → s.socks k = some c → c.sock ≠ -1) : Fine (step s o) := by
  unfold step
  split_ifs with hs
  · exact ⟨nofun, h⟩
  · -- the cancel operations alone need `hopen`
    have hcancel : ∀ k, o.cancels = some k → ∀ c, s.socks k = some c →
        ∀ f : IOManager → ℕ → Option (IOManager.Ret × IOManager), Fine (s.lookup c.sock f) := by
      intro k hk c hc f
      exact fine_lookup h (nonneg_of_ne (h k c hc) (hopen k c hk hc)) f
    cases o with
    | create k family => exact fine_make h ⟨nofun, h.setSock (show -1 ≤ (-1 : Int32).toInt by decide)⟩
    | acceptInit k family fd isSocket => exact fine_make h (fine_acceptInit h family hkernel isSocket)
    | bind k fd family ok => exact fine_on h fun c hc => fine_bind h (h k c hc) hkernel family ok
    | connect k fd family e => exact fine_on h fun c hc => fine_connect h (h k c hc) hkernel family e
    | close k => exact fine_on h fun c hc => fine_close h (h k c hc)
    | destroy k => exact fine_on h fun c hc => fine_destroy h (h k c hc)
    | cancelRead k => exact fine_on h fun c hc => hcancel k rfl c hc _
    | cancelWrite k => exact fine_on h fun c hc => hcancel k rfl c hc _
    | cancelAccept k => exact fine_on h fun c hc => hcancel k rfl c hc _
    | cancelAll k => exact fine_on h fun c hc => hcancel k rfl c hc _
    | others o =>
      simp only [stepAlive]
      split
      · exact ⟨nofun, h⟩
      · exact ⟨nofun, h⟩

/-- a cancel on a socket without a descriptor leaves the sockets alone, whatever becomes of it -/
theorem after_inv {s : St} (h : Inv s) {o : Op} (hkernel : o.Kernel) : Inv (after s o) := by
  unfold after
  by_cases hopen : ∀ k c, o.cancels = some k → s.socks k = some c → c.sock ≠ -1
  · exact (step_fine h hkernel hopen).inv
  · push Not at hopen
    obtain ⟨k, c, ho, hk, -⟩ := hopen
    by_cases hs : s.stopped = true
    · rw [step, if_pos hs]
      exact h
    · obtain ⟨f, hf⟩ := step_cancels (Bool.not_eq_true _ ▸ hs) ho hk
      rw [hf]
      intro j d hj
      rw [lookup_socks] at hj
      exact h j d hj

theorem step_safe_iff {s : St} (h : Inv s) {o : Op} (hkernel : o.Kernel) : Safe s o ↔ Covered s o := by
  constructor
  · rintro ⟨hrange, -⟩ k c hs ho hk
    by_contra hcov
    push Not at hcov
    obtain ⟨hneg, hb⟩ := hcov
    obtain ⟨f, hf⟩ := step_cancels hs ho hk
    rw [hf, hneg, lookup_neg, if_neg hb] at hrange
    exact hrange rfl
  · intro hcov
    have hclosed : ∀ k c, s.stopped = false → o.cancels = some k → s.socks k = some c → c.sock = -1 →
        step s o = (.bool false, s) := by
      intro k c hs ho hk hneg
      obtain ⟨f, hf⟩ := step_cancels hs ho hk
      have hb : beyond s.iom (-1) := (hcov k c hs ho hk).resolve_left fun hne => hne hneg
      rw [hf, hneg, lookup_neg, if_pos hb]
    refine ⟨?_, hclosed⟩
    by_cases hopen : ∀ k c, o.cancels = some k → s.socks k = some c → c.sock ≠ -1
    · exact (step_fine h hkernel hopen).inRange
    · push Not at hopen
      obtain ⟨k, c, ho, hk, hneg⟩ := hopen
      by_cases hs : s.stopped = true
      · rw [step, if_pos hs]
        nofun
      · rw [hclosed k c (Bool.not_eq_true _ ▸ hs) ho hk hneg]
        nofun

/-- **Cancelling through sockets.** For every sequence of operations with the kernel's descriptors: every step is safe
iff every cancel operation is called on a socket with a descriptor, or on a table of at least 2^31 contexts. -/
theorem cancel_in_table_iff (ops : List Op) (hkernel : ∀ o ∈ ops, o.Kernel) :
    Along Safe after start ops ↔ Along Covered after start ops := by
  have hk : Along (fun _ o => o.Kernel) after start ops := Along.of_forall hkernel start
  exact along_congr (P := Inv) (fun _ _ hk h => after_inv h hk) (fun _ _ hk h => step_safe_iff h hk) ops start_inv hk

/-- a socket that is bound, cancelled, closed and destroyed -/
theorem cancel_in_table_iff_bound :
    let ops : List Op := [.create 0 2, .bind 0 5 2 true, .cancelAccept 0, .close 0, .destroy 0]
    Along Safe after start ops ↔ Along Covered after start ops := by
  refine cancel_in_table_iff _ ?_
  simp [Op.Kernel]

/-- **A socket that was never opened**: `cancelRead` indexes the table with -1. -/
theorem cancel_unopened : ¬Along Safe after start [.create 0 2, .cancelRead 0] := by
  rintro ⟨-, ⟨hrange, -⟩, -⟩
  exact hrange (by decide)

end Sylar.Socket
