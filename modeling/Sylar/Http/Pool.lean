/-
`HttpConnectionPool` (`http_connection.h`, `http_connection.cpp`): `getConnection` and `ReleasePtr`.

Any number of calls are in progress at once. Each is a program counter (`PoolCall`), and a step of it is what it does up
to the next point where another call can come in between: a lock section, one `delete`, one change of `m_total`, one
attempt to connect. Connectivity, the clock, the result of connecting and the address that `new` returns are the
environment's, and are given with the step. `m_conns` is only touched under the lock, and a connection only by the call
or the holder that owns it.

A connection is owned by the idle list, by one holder or by one call in progress, and `m_total` counts the owned ones,
with those deleted and not yet subtracted and without those created and not yet added (`Holds`). `pool_accounting` reads
off what this says between the calls.
-/
import Mathlib.Tactic
import Sylar.Core.Run

namespace Sylar.ConnPool

open Sylar.Core

abbrev Ptr := ℕ

/-- the fields of a `HttpConnection` that the pool uses; `served` counts the releases and is not in the source -/
structure Conn where
  createTime : BitVec 64 := 0
  request : BitVec 64 := 0
  served : ℕ := 0
deriving DecidableEq, Repr

structure PoolConfig where
  maxAliveTime : BitVec 32
  maxRequest : BitVec 32
deriving DecidableEq, Repr

inductive Outcome where
  | noAddress
  | noSocket
  | notConnected
  | connected
deriving DecidableEq, Repr

/-- what the environment answers in one step -/
structure Env where
  isConnected : Ptr → Bool
  now : BitVec 64
  outcome : Outcome
  fresh : Ptr

/-- a call in progress: before `m_conns` is locked, in the loop over `invalid_conns` (`n` of them in all), and so on -/
inductive PoolCall where
  | locking (now : BitVec 64)
  | deleting (rest : List Ptr) (n : ℕ) (ptr : Option Ptr)
  | connecting
  /-- before `++m_total` -/
  | created (ptr : Ptr)
  | handing (ptr : Ptr)
  | releasing (ptr : Ptr)
  | dropping (ptr : Ptr)
  /-- before `--m_total` -/
  | dropped
  | pushing (ptr : Ptr)
deriving DecidableEq, Repr

structure Pool where
  mem : Ptr → Conn
  alive : Ptr → Bool
  conns : List Ptr
  total : BitVec 32
  /-- handed out and not yet released, once for each holder -/
  held : List Ptr
  calls : List PoolCall

def Pool.new (mem : Ptr → Conn) : Pool := ⟨mem, fun _ => false, [], 0, [], []⟩

structure Selected where
  invalid : List Ptr
  ptr : Option Ptr
  rest : List Ptr
deriving DecidableEq, Repr

/-- the loop of `getConnection` over `m_conns` -/
def select (cfg : PoolConfig) (mem : Ptr → Conn) (isConnected : Ptr → Bool) (now : BitVec 64) : List Ptr → Selected
  | [] => ⟨[], none, []⟩
  | c :: conns =>
    if isConnected c = false ∨ (mem c).createTime + cfg.maxAliveTime.setWidth 64 > now then
      let r := select cfg mem isConnected now conns
      { r with invalid := c :: r.invalid }
    else ⟨[], some c, conns⟩

/-- the test of `ReleasePtr`, after `++m_request` -/
def unfit (cfg : PoolConfig) (env : Env) (ptr : Ptr) (conn : Conn) : Prop :=
  env.isConnected ptr = false ∨ conn.createTime + cfg.maxAliveTime.setWidth 64 ≥ env.now ∨
    conn.request ≥ cfg.maxRequest.setWidth 64

instance (cfg : PoolConfig) (env : Env) (ptr : Ptr) (conn : Conn) : Decidable (unfit cfg env ptr conn) :=
  inferInstanceAs (Decidable (_ ∨ _ ∨ _))

def Conn.serve (c : Conn) : Conn := { c with request := c.request + 1, served := c.served + 1 }

/-- one step of a call: the pool, and where the call goes on if it does -/
def PoolCall.step (cfg : PoolConfig) (env : Env) (p : Pool) : PoolCall → Pool × Option PoolCall
  | .locking now =>
    let r := select cfg p.mem env.isConnected now p.conns
    ({ p with conns := r.rest }, some (.deleting r.invalid r.invalid.length r.ptr))
  | .deleting (c :: rest) n ptr => ({ p with alive := Function.update p.alive c false }, some (.deleting rest n ptr))
  | .deleting [] n ptr =>
    ({ p with total := p.total - BitVec.ofNat 32 n },
      match ptr with
      | some c => some (.handing c)
      | none => some .connecting)
  | .connecting =>
    match env.outcome with
    | .connected =>
      -- `new` does not return an address that is in use
      if p.alive env.fresh then (p, some .connecting)
      else ({ p with mem := Function.update p.mem env.fresh {}, alive := Function.update p.alive env.fresh true },
        some (.created env.fresh))
    | _ => (p, none)
  | .created c => ({ p with total := p.total + 1 }, some (.handing c))
  | .handing c => ({ p with held := p.held ++ [c] }, none)
  | .releasing c =>
    let conn := (p.mem c).serve
    ({ p with mem := Function.update p.mem c conn },
      if unfit cfg env c conn then some (.dropping c) else some (.pushing c))
  | .dropping c => ({ p with alive := Function.update p.alive c false }, some .dropped)
  | .dropped => ({ p with total := p.total - 1 }, none)
  | .pushing c => ({ p with conns := p.conns ++ [c] }, none)

inductive PoolAct where
  | getConnection (now : BitVec 64)
  /-- the `k`-th holder lets go of its connection -/
  | releasePtr (k : ℕ)
  /-- the `i`-th call in progress takes a step -/
  | advance (i : ℕ) (env : Env)

def Pool.step (cfg : PoolConfig) (p : Pool) : PoolAct → Pool
  | .getConnection now => { p with calls := .locking now :: p.calls }
  | .releasePtr k =>
    match p.held[k]? with
    | none => p
    | some c => { p with held := p.held.eraseIdx k, calls := .releasing c :: p.calls }
  | .advance i env =>
    match p.calls[i]? with
    | none => p
    | some c =>
      let r := c.step cfg env p
      { r.1 with calls := r.2.toList ++ p.calls.eraseIdx i }

/-! ## Who owns a connection -/

def PoolCall.owns : PoolCall → List Ptr
  | .deleting rest _ ptr => rest ++ ptr.toList
  | .created c => [c]
  | .handing c => [c]
  | .releasing c => [c]
  | .dropping c => [c]
  | .pushing c => [c]
  | _ => []

/-- what a call has in `m_total` -/
def PoolCall.counted : PoolCall → ℕ
  | .deleting _ n ptr => n + ptr.toList.length
  | .handing _ => 1
  | .releasing _ => 1
  | .dropping _ => 1
  | .dropped => 1
  | .pushing _ => 1
  | _ => 0

def owned (p : Pool) (cs : List PoolCall) : List Ptr := p.conns ++ p.held ++ cs.flatMap PoolCall.owns

/-- `m_request` counts the releases, and the next one does not wrap it around -/
def Conn.Sound (cfg : PoolConfig) (c : Conn) : Prop :=
  c.request.toNat = c.served ∧ (c.served = 0 ∨ c.served < cfg.maxRequest.toNat)

/-- fit for the idle list -/
def Conn.Ready (cfg : PoolConfig) (c : Conn) : Prop := c.request.toNat = c.served ∧ c.served < cfg.maxRequest.toNat

def PoolCall.Ok (cfg : PoolConfig) (mem : Ptr → Conn) : PoolCall → Prop
  | .deleting _ _ ptr => ∀ c ∈ ptr, (mem c).Sound cfg
  | .created c => (mem c).Sound cfg
  | .handing c => (mem c).Sound cfg
  | .releasing c => (mem c).Sound cfg
  | .pushing c => (mem c).Ready cfg
  | _ => True

/-- the invariant, for a pool and its calls in progress in any order -/
structure Holds (cfg : PoolConfig) (p : Pool) (cs : List PoolCall) : Prop where
  count : p.total.toNat = (p.conns.length + p.held.length + (cs.map PoolCall.counted).sum) % 2 ^ 32
  nodup : (owned p cs).Nodup
  alive : ∀ c ∈ owned p cs, p.alive c = true
  idle : ∀ c ∈ p.conns, (p.mem c).Ready cfg
  held : ∀ c ∈ p.held, (p.mem c).Sound cfg
  calls : ∀ x ∈ cs, x.Ok cfg p.mem

theorem Conn.Ready.sound {cfg : PoolConfig} {c : Conn} (h : c.Ready cfg) : c.Sound cfg := ⟨h.1, Or.inr h.2⟩

theorem Conn.Sound.serve {cfg : PoolConfig} {c : Conn} (h : c.Sound cfg) : c.serve.request.toNat = c.serve.served := by
  obtain ⟨heq, hlt⟩ := h
  have hmax : cfg.maxRequest.toNat < 2 ^ 32 := cfg.maxRequest.isLt
  show (c.request + 1).toNat = c.served + 1
  rw [BitVec.toNat_add, heq]
  apply Nat.mod_eq_of_lt
  rcases hlt with hzero | hlt
  · rw [hzero]
    decide
  · show c.served + 1 < 2 ^ 64
    omega

/-- a call says nothing about connections it does not own -/
theorem PoolCall.Ok.congr {cfg : PoolConfig} {mem mem' : Ptr → Conn} {x : PoolCall} (h : x.Ok cfg mem)
    (hsame : ∀ c ∈ x.owns, mem' c = mem c) : x.Ok cfg mem' := by
  cases x with
  | deleting rest n ptr =>
    intro c hc
    rw [hsame c (List.mem_append_right _ (Option.mem_toList.mpr hc))]
    exact h c hc
  | created c => simpa only [PoolCall.Ok, hsame c (List.mem_singleton_self c)] using h
  | handing c => simpa only [PoolCall.Ok, hsame c (List.mem_singleton_self c)] using h
  | releasing c => simpa only [PoolCall.Ok, hsame c (List.mem_singleton_self c)] using h
  | pushing c => simpa only [PoolCall.Ok, hsame c (List.mem_singleton_self c)] using h
  | _ => trivial

theorem Holds.perm {cfg : PoolConfig} {p : Pool} {cs cs' : List PoolCall} (h : Holds cfg p cs) (hp : cs.Perm cs') :
    Holds cfg p cs' := by
  have howned : (owned p cs).Perm (owned p cs') := (List.Perm.refl _).append (hp.flatMap_right _)
  refine ⟨?_, howned.nodup_iff.mp h.nodup, ?_, h.idle, h.held, ?_⟩
  · rw [h.count, (hp.map _).sum_eq]
  · intro c hc
    exact h.alive c (howned.mem_iff.mpr hc)
  · intro x hx
    exact h.calls x (hp.mem_iff.mpr hx)

theorem holds_new (cfg : PoolConfig) (mem : Ptr → Conn) : Holds cfg (Pool.new mem) [] := by
  refine ⟨rfl, List.nodup_nil, ?_, ?_, ?_, ?_⟩ <;> simp [Pool.new, owned]

/-- the loop splits `m_conns` -/
theorem select_split (cfg : PoolConfig) (mem : Ptr → Conn) (isConnected : Ptr → Bool) (now : BitVec 64)
    (conns : List Ptr) :
    let r := select cfg mem isConnected now conns
    conns = r.invalid ++ r.ptr.toList ++ r.rest := by
  induction conns with
  | nil => rfl
  | cons c conns ih =>
    intro r
    by_cases hc : isConnected c = false ∨ (mem c).createTime + cfg.maxAliveTime.setWidth 64 > now
    · have hr : r = { select cfg mem isConnected now conns with
          invalid := c :: (select cfg mem isConnected now conns).invalid } := if_pos hc
      rw [hr]
      exact congrArg (c :: ·) ih
    · have hr : r = ⟨[], some c, conns⟩ := if_neg hc
      rw [hr]
      rfl

/-! ## One step -/

section Step

variable {cfg : PoolConfig} {p : Pool} {cs : List PoolCall} {c : Ptr}

/-- what the call in front owns, nobody else does -/
theorem Holds.fresh {x : PoolCall} (h : Holds cfg p (x :: cs)) (hc : c ∈ x.owns) :
    c ∉ p.conns ∧ c ∉ p.held ∧ ∀ y ∈ cs, c ∉ y.owns := by
  have hnodup := h.nodup
  unfold owned at hnodup
  rw [List.flatMap_cons] at hnodup
  obtain ⟨-, hright, hdisj⟩ := List.nodup_append.mp hnodup
  obtain ⟨-, -, hcalls⟩ := List.nodup_append.mp hright
  refine ⟨?_, ?_, ?_⟩
  · intro hin
    exact hdisj c (List.mem_append_left _ hin) c (List.mem_append_left _ hc) rfl
  · intro hin
    exact hdisj c (List.mem_append_right _ hin) c (List.mem_append_left _ hc) rfl
  · intro y hy hin
    exact hcalls c hc c (List.mem_flatMap.mpr ⟨y, hy, hin⟩) rfl

theorem mem_owned {x : PoolCall} {q : Ptr} :
    q ∈ owned p (x :: cs) ↔ q ∈ p.conns ∨ q ∈ p.held ∨ q ∈ x.owns ∨ ∃ y ∈ cs, q ∈ y.owns := by
  simp [owned]

/-- a step that touches neither memory nor the count, and moves connections between owners -/
theorem Holds.move {p' : Pool} {cs' : List PoolCall} (h : Holds cfg p cs)
    (hmem : p'.mem = p.mem) (halive : p'.alive = p.alive)
    (hcount : p'.total.toNat = (p'.conns.length + p'.held.length + (cs'.map PoolCall.counted).sum) % 2 ^ 32)
    (howned : (owned p' cs').Perm (owned p cs)) (hidle : ∀ q ∈ p'.conns, (p.mem q).Ready cfg)
    (hheld : ∀ q ∈ p'.held, (p.mem q).Sound cfg) (hcalls : ∀ y ∈ cs', y.Ok cfg p.mem) : Holds cfg p' cs' := by
  refine ⟨hcount, howned.nodup_iff.mpr h.nodup, ?_, ?_, ?_, ?_⟩
  · intro q hq
    rw [halive]
    exact h.alive q (howned.mem_iff.mp hq)
  · rw [hmem]
    exact hidle
  · rw [hmem]
    exact hheld
  · rw [hmem]
    exact hcalls

theorem Holds.locking {now : BitVec 64} (h : Holds cfg p (.locking now :: cs)) (env : Env) :
    let r := select cfg p.mem env.isConnected now p.conns
    Holds cfg { p with conns := r.rest } (.deleting r.invalid r.invalid.length r.ptr :: cs) := by
  intro r
  have hsplit : p.conns = r.invalid ++ r.ptr.toList ++ r.rest := select_split cfg p.mem env.isConnected now p.conns
  have hlen := congrArg List.length hsplit
  rw [List.length_append, List.length_append] at hlen
  have hin : ∀ q, q ∈ r.ptr.toList ∨ q ∈ r.rest → q ∈ p.conns := by
    intro q hq
    rw [hsplit]
    rcases hq with hq | hq
    · exact List.mem_append_left _ (List.mem_append_right _ hq)
    · exact List.mem_append_right _ hq
  refine h.move rfl rfl ?_ ?_ ?_ ?_ ?_
  · have hcount := h.count
    simp only [List.map_cons, List.sum_cons, PoolCall.counted] at hcount ⊢
    rw [hcount]
    congr 1
    omega
  · unfold owned
    rw [List.flatMap_cons, List.flatMap_cons]
    show (r.rest ++ p.held ++ (r.invalid ++ r.ptr.toList ++ cs.flatMap PoolCall.owns)).Perm
      (p.conns ++ p.held ++ ([] ++ cs.flatMap PoolCall.owns))
    rw [hsplit, List.nil_append]
    rw [← Multiset.coe_eq_coe]
    simp only [← Multiset.coe_add]
    abel
  · intro q hq
    exact h.idle q (hin q (Or.inr hq))
  · exact h.held
  · intro y hy
    rcases List.mem_cons.mp hy with rfl | hy
    · intro q hq
      exact (h.idle q (hin q (Or.inl (Option.mem_toList.mpr hq)))).sound
    · exact h.calls y (List.mem_cons_of_mem _ hy)

/-- the call in front deletes a connection it owns -/
theorem Holds.delete {x x' : PoolCall} (h : Holds cfg p (x :: cs)) (howns : x.owns = c :: x'.owns)
    (hcounted : x'.counted = x.counted) (hok : x'.Ok cfg p.mem) :
    Holds cfg { p with alive := Function.update p.alive c false } (x' :: cs) := by
  obtain ⟨hconns, hheld, hcalls⟩ := h.fresh (c := c) (by rw [howns]; exact List.mem_cons_self)
  have hperm : (owned p (x :: cs)).Perm (c :: owned p (x' :: cs)) := by
    unfold owned
    rw [List.flatMap_cons, List.flatMap_cons, howns]
    exact List.perm_middle
  have hnodup := hperm.nodup_iff.mp h.nodup
  rw [List.nodup_cons] at hnodup
  obtain ⟨hc, hnodup⟩ := hnodup
  refine ⟨?_, hnodup, ?_, h.idle, h.held, ?_⟩
  · have hcount := h.count
    rw [List.map_cons, List.sum_cons] at hcount ⊢
    rw [hcounted]
    exact hcount
  · intro q hq
    have hne : q ≠ c := by
      intro heq
      exact hc (heq ▸ hq)
    show Function.update p.alive c false q = true
    rw [Function.update_of_ne hne]
    exact h.alive q (hperm.mem_iff.mpr (List.mem_cons_of_mem _ hq))
  · intro y hy
    rcases List.mem_cons.mp hy with rfl | hy
    · exact hok
    · exact h.calls y (List.mem_cons_of_mem _ hy)

/-- the call in front changes `m_total` and goes on with the same connections -/
theorem Holds.recount {x : PoolCall} {cs' : List PoolCall} {total : BitVec 32} (h : Holds cfg p (x :: cs))
    (hcount : total.toNat = (p.conns.length + p.held.length + (cs'.map PoolCall.counted).sum) % 2 ^ 32)
    (howned : cs'.flatMap PoolCall.owns = (x :: cs).flatMap PoolCall.owns) (hcalls : ∀ y ∈ cs', y.Ok cfg p.mem) :
    Holds cfg { p with total := total } cs' := by
  refine h.move rfl rfl hcount ?_ ?_ ?_ ?_
  · unfold owned
    rw [howned]
  · exact h.idle
  · exact h.held
  · exact hcalls

theorem Holds.create (h : Holds cfg p (.connecting :: cs)) (hc : p.alive c = false) :
    Holds cfg { p with mem := Function.update p.mem c {}, alive := Function.update p.alive c true }
      (.created c :: cs) := by
  -- nobody owns a dead address
  have hnot : ∀ q ∈ owned p (.connecting :: cs), q ≠ c := by
    intro q hq heq
    have := h.alive q hq
    rw [heq, hc] at this
    cases this
  have hperm : (owned p (.created c :: cs)).Perm (c :: owned p (.connecting :: cs)) := by
    unfold owned
    rw [List.flatMap_cons, List.flatMap_cons]
    exact List.perm_middle
  refine ⟨h.count, ?_, ?_, ?_, ?_, ?_⟩
  · apply hperm.nodup_iff.mpr
    apply List.nodup_cons.mpr
    exact ⟨fun hin => hnot c hin rfl, h.nodup⟩
  · intro q hq
    show Function.update p.alive c true q = true
    rcases List.mem_cons.mp (hperm.mem_iff.mp hq) with rfl | hq
    · exact Function.update_self ..
    · rw [Function.update_of_ne (hnot q hq)]
      exact h.alive q hq
  · intro q hq
    show (Function.update p.mem c {} q).Ready cfg
    rw [Function.update_of_ne (hnot q (mem_owned.mpr (Or.inl hq)))]
    exact h.idle q hq
  · intro q hq
    show (Function.update p.mem c {} q).Sound cfg
    rw [Function.update_of_ne (hnot q (mem_owned.mpr (Or.inr (Or.inl hq))))]
    exact h.held q hq
  · intro y hy
    rcases List.mem_cons.mp hy with rfl | hy
    · show (Function.update p.mem c {} c).Sound cfg
      rw [Function.update_self]
      exact ⟨rfl, Or.inl rfl⟩
    · apply (h.calls y (List.mem_cons_of_mem _ hy)).congr
      intro q hq
      exact Function.update_of_ne (hnot q (mem_owned.mpr (Or.inr (Or.inr (Or.inr ⟨y, hy, hq⟩))))) ..

theorem Holds.serve (h : Holds cfg p (.releasing c :: cs)) {x' : PoolCall} (howns : x'.owns = [c])
    (hcounted : x'.counted = 1) (hok : ∀ mem, mem c = (p.mem c).serve → x'.Ok cfg mem) :
    Holds cfg { p with mem := Function.update p.mem c (p.mem c).serve } (x' :: cs) := by
  obtain ⟨hconns, hheld, hcalls⟩ := h.fresh (c := c) (List.mem_singleton_self c)
  have howned : owned p (x' :: cs) = owned p (.releasing c :: cs) := by
    unfold owned
    rw [List.flatMap_cons, List.flatMap_cons, howns]
    rfl
  refine ⟨?_, ?_, ?_, ?_, ?_, ?_⟩
  · have hcount := h.count
    rw [List.map_cons, List.sum_cons] at hcount ⊢
    rw [hcounted]
    exact hcount
  · exact howned ▸ h.nodup
  · intro q hq
    exact h.alive q (howned ▸ hq)
  · intro q hq
    show (Function.update p.mem c _ q).Ready cfg
    rw [Function.update_of_ne (ne_of_mem_of_not_mem hq hconns)]
    exact h.idle q hq
  · intro q hq
    show (Function.update p.mem c _ q).Sound cfg
    rw [Function.update_of_ne (ne_of_mem_of_not_mem hq hheld)]
    exact h.held q hq
  · intro y hy
    rcases List.mem_cons.mp hy with rfl | hy
    · exact hok _ (Function.update_self ..)
    · apply (h.calls y (List.mem_cons_of_mem _ hy)).congr
      intro q hq
      exact Function.update_of_ne (ne_of_mem_of_not_mem hq (hcalls y hy)) ..

theorem Holds.tail {x : PoolCall} (h : Holds cfg p (x :: cs)) : ∀ y ∈ cs, y.Ok cfg p.mem :=
  fun y hy => h.calls y (List.mem_cons_of_mem _ hy)

theorem Holds.head {x : PoolCall} (h : Holds cfg p (x :: cs)) : x.Ok cfg p.mem := h.calls x List.mem_cons_self

theorem Holds.subtract {n : ℕ} {ptr : Option Ptr} (h : Holds cfg p (.deleting [] n ptr :: cs)) {x' : PoolCall}
    (howns : x'.owns = ptr.toList) (hcounted : x'.counted = ptr.toList.length) (hok : x'.Ok cfg p.mem) :
    Holds cfg { p with total := p.total - BitVec.ofNat 32 n } (x' :: cs) := by
  refine h.recount ?_ ?_ ?_
  · have hcount := h.count
    rw [List.map_cons, List.sum_cons] at hcount ⊢
    rw [BitVec.toNat_sub, BitVec.toNat_ofNat, hcount, hcounted]
    simp only [PoolCall.counted]
    omega
  · rw [List.flatMap_cons, List.flatMap_cons, howns]
    rfl
  · intro y hy
    rcases List.mem_cons.mp hy with rfl | hy
    · exact hok
    · exact h.tail y hy

theorem Holds.giveUp (h : Holds cfg p (.connecting :: cs)) : Holds cfg p cs := by
  refine h.recount ?_ rfl h.tail
  have hcount := h.count
  simp only [List.map_cons, List.sum_cons, PoolCall.counted, Nat.zero_add] at hcount
  exact hcount

theorem Holds.created (h : Holds cfg p (.created c :: cs)) :
    Holds cfg { p with total := p.total + 1 } (.handing c :: cs) := by
  refine h.recount ?_ rfl ?_
  · have hcount := h.count
    simp only [List.map_cons, List.sum_cons, PoolCall.counted] at hcount ⊢
    rw [BitVec.toNat_add, hcount]
    show _ % 2 ^ 32 = _
    rw [show (1 : BitVec 32).toNat = 1 from rfl]
    omega
  · intro y hy
    rcases List.mem_cons.mp hy with rfl | hy
    · exact h.head
    · exact h.tail y hy

theorem Holds.dropped (h : Holds cfg p (.dropped :: cs)) : Holds cfg { p with total := p.total - 1 } cs := by
  refine h.recount ?_ rfl h.tail
  have hcount := h.count
  simp only [List.map_cons, List.sum_cons, PoolCall.counted] at hcount
  rw [BitVec.toNat_sub, hcount, show (1 : BitVec 32).toNat = 1 from rfl]
  omega

theorem Holds.handing (h : Holds cfg p (.handing c :: cs)) : Holds cfg { p with held := p.held ++ [c] } cs := by
  refine h.move rfl rfl ?_ ?_ h.idle ?_ h.tail
  · have hcount := h.count
    simp only [List.map_cons, List.sum_cons, PoolCall.counted] at hcount
    show p.total.toNat = (p.conns.length + (p.held ++ [c]).length + _) % 2 ^ 32
    rw [hcount, List.length_append, List.length_singleton]
    congr 1
    omega
  · unfold owned
    simp [PoolCall.owns]
  · intro q hq
    rcases List.mem_append.mp hq with hq | hq
    · exact h.held q hq
    · rw [List.mem_singleton.mp hq]
      exact h.head

theorem Holds.pushing (h : Holds cfg p (.pushing c :: cs)) : Holds cfg { p with conns := p.conns ++ [c] } cs := by
  refine h.move rfl rfl ?_ ?_ ?_ h.held h.tail
  · have hcount := h.count
    simp only [List.map_cons, List.sum_cons, PoolCall.counted] at hcount
    show p.total.toNat = ((p.conns ++ [c]).length + p.held.length + _) % 2 ^ 32
    rw [hcount, List.length_append, List.length_singleton]
    congr 1
    omega
  · unfold owned
    rw [List.flatMap_cons]
    show (p.conns ++ [c] ++ p.held ++ cs.flatMap PoolCall.owns).Perm (p.conns ++ p.held ++ ([c] ++ cs.flatMap PoolCall.owns))
    rw [← Multiset.coe_eq_coe]
    simp only [← Multiset.coe_add]
    abel
  · intro q hq
    rcases List.mem_append.mp hq with hq | hq
    · exact h.idle q hq
    · rw [List.mem_singleton.mp hq]
      exact h.head

theorem Holds.begin (h : Holds cfg p cs) (now : BitVec 64) : Holds cfg p (.locking now :: cs) := by
  refine h.move rfl rfl ?_ (List.Perm.refl _) h.idle h.held ?_
  · have hcount := h.count
    simp only [List.map_cons, List.sum_cons, PoolCall.counted, Nat.zero_add]
    exact hcount
  · intro x hx
    rcases List.mem_cons.mp hx with rfl | hx
    · trivial
    · exact h.calls x hx

theorem Holds.letGo (h : Holds cfg p cs) {k : ℕ} (hk : p.held[k]? = some c) :
    Holds cfg { p with held := p.held.eraseIdx k } (.releasing c :: cs) := by
  have hperm := perm_cons_eraseIdx hk
  have hlen := hperm.length_eq
  rw [List.length_cons] at hlen
  refine h.move rfl rfl ?_ ?_ h.idle ?_ ?_
  · have hcount := h.count
    simp only [List.map_cons, List.sum_cons, PoolCall.counted]
    rw [hcount, hlen]
    congr 1
    omega
  · unfold owned
    rw [List.flatMap_cons]
    show (p.conns ++ p.held.eraseIdx k ++ ([c] ++ cs.flatMap PoolCall.owns)).Perm _
    refine List.Perm.trans ?_ (((List.Perm.refl p.conns).append hperm.symm).append (List.Perm.refl _))
    rw [← Multiset.coe_eq_coe]
    simp only [← Multiset.coe_add, ← Multiset.singleton_add, ← Multiset.cons_coe]
    abel
  · intro q hq
    exact h.held q (List.mem_of_mem_eraseIdx hq)
  · intro x hx
    rcases List.mem_cons.mp hx with rfl | hx
    · exact h.held c (List.mem_of_getElem? hk)
    · exact h.calls x hx

/-- one step of the call in front -/
theorem Holds.step {x : PoolCall} (h : Holds cfg p (x :: cs)) (env : Env) :
    Holds cfg (x.step cfg env p).1 ((x.step cfg env p).2.toList ++ cs) := by
  cases x with
  | locking now => exact h.locking env
  | deleting rest n ptr =>
    cases rest with
    | cons c rest => exact h.delete rfl rfl h.head
    | nil =>
      cases ptr with
      | some c => exact h.subtract rfl rfl (h.head c rfl)
      | none => exact h.subtract rfl rfl trivial
  | connecting =>
    unfold PoolCall.step
    cases env.outcome with
    | connected =>
      simp only
      split_ifs with halive
      · exact h
      · exact h.create (Bool.eq_false_iff.mpr halive)
    | _ => exact h.giveUp
  | created c => exact h.created
  | handing c => exact h.handing
  | releasing c =>
    have hserve := Conn.Sound.serve h.head
    unfold PoolCall.step
    simp only
    split_ifs with hfit
    · exact h.serve rfl rfl fun _ _ => trivial
    · -- the test has passed, so the connection may be used again
      refine h.serve rfl rfl ?_
      intro mem hmem
      show (mem c).Ready cfg
      rw [hmem]
      refine ⟨hserve, ?_⟩
      have hlt : ¬ cfg.maxRequest.setWidth 64 ≤ (p.mem c).serve.request := fun hge => hfit (Or.inr (Or.inr hge))
      rw [BitVec.le_def, BitVec.toNat_setWidth, hserve] at hlt
      have hmax : cfg.maxRequest.toNat < 2 ^ 32 := cfg.maxRequest.isLt
      omega
  | dropping c => exact h.delete rfl rfl trivial
  | dropped => exact h.dropped
  | pushing c => exact h.pushing

end Step

/-! ## Whole runs -/

def Pool.Inv (cfg : PoolConfig) (p : Pool) : Prop := Holds cfg p p.calls

/-- the list of calls is not part of what the calls see -/
theorem Holds.withCalls {cfg : PoolConfig} {p : Pool} {cs : List PoolCall} (h : Holds cfg p cs)
    (calls : List PoolCall) :
    Holds cfg { p with calls := calls } cs := ⟨h.count, h.nodup, h.alive, h.idle, h.held, h.calls⟩

theorem inv_step (cfg : PoolConfig) (p : Pool) (a : PoolAct) (h : p.Inv cfg) : (p.step cfg a).Inv cfg := by
  cases a with
  | getConnection now => exact (Holds.begin h now).withCalls _
  | releasePtr k =>
    cases hk : p.held[k]? with
    | none =>
      have hstep : p.step cfg (.releasePtr k) = p := by simp only [Pool.step, hk]
      rw [hstep]
      exact h
    | some c =>
      have hstep :
          p.step cfg (.releasePtr k) = { p with held := p.held.eraseIdx k, calls := .releasing c :: p.calls } := by
        simp only [Pool.step, hk]
      rw [hstep]
      exact (Holds.letGo h hk).withCalls _
  | advance i env =>
    cases hi : p.calls[i]? with
    | none =>
      have hstep : p.step cfg (.advance i env) = p := by simp only [Pool.step, hi]
      rw [hstep]
      exact h
    | some x =>
      have hstep : p.step cfg (.advance i env) = { (x.step cfg env p).1 with
          calls := (x.step cfg env p).2.toList ++ p.calls.eraseIdx i } := by
        simp only [Pool.step, hi]
      rw [hstep]
      exact ((Holds.perm h (perm_cons_eraseIdx hi)).step env).withCalls _

theorem inv_run (cfg : PoolConfig) (mem : Ptr → Conn) (acts : List PoolAct) :
    (run (Pool.step cfg) (Pool.new mem) acts).Inv cfg := by
  induction acts using List.reverseRecOn with
  | nil => exact holds_new cfg mem
  | append_singleton acts a ih =>
    rw [run_append]
    exact inv_step cfg _ a ih

/-- **The accounts of the pool.** After any interleaving of any calls: no connection is idle twice, held twice or idle
and held, none of these is deleted, and an idle one has served less than `m_maxRequest` requests; and if no call is in
progress, `m_total`, an `int32_t`, is the number of idle and held connections. -/
theorem pool_accounting (cfg : PoolConfig) (mem : Ptr → Conn) (acts : List PoolAct) :
    let p := run (Pool.step cfg) (Pool.new mem) acts
    (p.calls = [] → p.total = BitVec.ofNat 32 (p.conns.length + p.held.length) ∧
      (p.conns.length + p.held.length < 2 ^ 31 → p.total.toInt = (p.conns.length + p.held.length : ℕ))) ∧
    p.conns.Nodup ∧ p.held.Nodup ∧ (∀ c ∈ p.conns, c ∉ p.held) ∧
    (∀ c ∈ p.conns, p.alive c = true) ∧ (∀ c ∈ p.held, p.alive c = true) ∧
    ∀ c ∈ p.conns, (p.mem c).request.toNat = (p.mem c).served ∧ (p.mem c).served < cfg.maxRequest.toNat := by
  intro p
  have h : Holds cfg p p.calls := inv_run cfg mem acts
  obtain ⟨hboth, -, -⟩ := List.nodup_append.mp h.nodup
  obtain ⟨hconns, hheld, hdisj⟩ := List.nodup_append.mp hboth
  refine ⟨?_, hconns, hheld, ?_, ?_, ?_, h.idle⟩
  · intro hidle
    have hcount := h.count
    rw [hidle, List.map_nil, List.sum_nil, Nat.add_zero] at hcount
    have htotal : p.total = BitVec.ofNat 32 (p.conns.length + p.held.length) := by
      apply BitVec.eq_of_toNat_eq
      rw [hcount, BitVec.toNat_ofNat]
    refine ⟨htotal, ?_⟩
    intro hlt
    rw [BitVec.toInt_eq_toNat_of_lt (by omega), hcount, Nat.mod_eq_of_lt (by omega)]
  · intro c hc hin
    exact hdisj c hc c hin rfl
  · intro c hc
    exact h.alive c (List.mem_append_left _ (List.mem_append_left _ hc))
  · intro c hc
    exact h.alive c (List.mem_append_left _ (List.mem_append_right _ hc))

/-- a connection is made, handed out and put back -/
example :
    let env : Env := ⟨fun _ => true, 100, .connected, 7⟩
    let acts : List PoolAct := [.getConnection 0, .advance 0 env, .advance 0 env, .advance 0 env, .advance 0 env,
      .advance 0 env, .releasePtr 0, .advance 0 env, .advance 0 env]
    let p := run (Pool.step ⟨10, 3⟩) (Pool.new fun _ => {}) acts
    p.conns = [7] ∧ p.held = [] ∧ p.total = 1 := by
  decide

end Sylar.ConnPool
