/-
The age limit of `HttpConnectionPool` (`http_connection.cpp`, `http_connection.h`).

A connection is meant to be used for `m_maxAliveTime` ms from the time it is made. `m_createTime` is that time, but
nothing ever sets it: it is 0 in every connection. Both tests of the age are also turned round. `ReleasePtr` deletes a
connection while the clock is at most `m_maxAliveTime`, and `getConnection` throws one away while it is less.

`TimedPool` is the pool with the time of every step, which never goes back, and the time at which each connection was
made. One call runs at a time.

- `select_of_zero`: at a clock past the limit the loop of `getConnection` takes the first connection that is
  connected.
- `TimedPool.Inv.step`: what is in the pool has been released past the limit, so the clock is past it at every later
  call.
- `age_limit_iff`: no connection of that age is handed out and no younger one is thrown away iff, at every call, the
  first connection in the pool that is connected is younger.
- `old_connection`: a connection that is handed out after 200 s with a limit of 30 s.
-/
import Mathlib.Tactic
import Sylar.Core.Run
import Sylar.Http.Pool

namespace Sylar.ConnPool

open Sylar.Core

structure TimedPool where
  pool : Pool
  /-- the time at which a connection was made -/
  born : Ptr → ℕ
  /-- the time of the last step -/
  clock : ℕ

def TimedPool.new (mem : Ptr → Conn) : TimedPool := ⟨Pool.new mem, fun _ => 0, 0⟩

/-- the time of a step, if it has one; `ReleasePtr` reads the clock in the step behind its start -/
def PoolAct.time : PoolAct → Option ℕ
  | .getConnection now => some now.toNat
  | .releasePtr _ => none
  | .advance _ env => some env.now.toNat

/-- the connection that a step makes -/
def Pool.made (p : Pool) : PoolAct → Option Ptr
  | .advance i env =>
    if p.calls[i]? = some .connecting ∧ env.outcome = .connected ∧ p.alive env.fresh = false then some env.fresh
    else none
  | _ => none

def TimedPool.step (cfg : PoolConfig) (t : TimedPool) (a : PoolAct) : TimedPool :=
  let now := a.time.getD t.clock
  { pool := t.pool.step cfg a
    born := (t.pool.made a).elim t.born fun c => Function.update t.born c now
    clock := now }

/-- the clock does not go back, and a call starts when no other one is in progress -/
def TimedPool.Legal (t : TimedPool) (a : PoolAct) : Prop :=
  t.clock ≤ a.time.getD t.clock ∧
    match a with
    | .advance _ _ => True
    | _ => t.pool.calls = []

instance : ∀ (t : TimedPool) (a : PoolAct), Decidable (t.Legal a)
  | t, .getConnection now => inferInstanceAs (Decidable (t.clock ≤ now.toNat ∧ t.pool.calls = []))
  | t, .releasePtr _ => inferInstanceAs (Decidable (t.clock ≤ t.clock ∧ t.pool.calls = []))
  | t, .advance _ env => inferInstanceAs (Decidable (t.clock ≤ env.now.toNat ∧ True))

/-! ## The loop of `getConnection` -/

section
variable {cfg : PoolConfig} {mem : Ptr → Conn} {isConnected : Ptr → Bool} {now : BitVec 64} {conns : List Ptr}

/-- the sum that both tests compare with the clock, where the creation time is 0 -/
theorem age_sum {conn : Conn} (h : conn.createTime = 0) :
    (conn.createTime + cfg.maxAliveTime.setWidth 64).toNat = cfg.maxAliveTime.toNat := by
  have hlt := cfg.maxAliveTime.isLt
  have hzero : (0 : BitVec 64).toNat = 0 := rfl
  rw [h, BitVec.toNat_add, BitVec.toNat_setWidth, hzero]
  omega

/-- **Past the limit** the loop takes the first connection that is connected, and throws away the others before it. -/
theorem select_of_zero (hzero : ∀ c ∈ conns, (mem c).createTime = 0) (hnow : cfg.maxAliveTime.toNat ≤ now.toNat) :
    (select cfg mem isConnected now conns).ptr = conns.find? isConnected ∧
      ∀ c ∈ (select cfg mem isConnected now conns).invalid, isConnected c = false := by
  induction conns with
  | nil => exact ⟨rfl, by simp [select]⟩
  | cons c conns ih =>
    obtain ⟨hptr, hinvalid⟩ := ih (fun q hq => hzero q (List.mem_cons_of_mem c hq))
    have hage : ¬(mem c).createTime + cfg.maxAliveTime.setWidth 64 > now := by
      rw [gt_iff_lt, BitVec.lt_def, age_sum (hzero c List.mem_cons_self)]
      omega
    cases hconn : isConnected c with
    | false =>
      rw [select, if_pos (.inl hconn), List.find?_cons_of_neg (by rw [hconn]; exact Bool.false_ne_true)]
      refine ⟨hptr, ?_⟩
      intro q hq
      rcases List.mem_cons.mp hq with rfl | hq
      · exact hconn
      · exact hinvalid q hq
    | true =>
      rw [select, if_neg (by rw [hconn]; exact not_or.mpr ⟨Bool.noConfusion, hage⟩), List.find?_cons_of_pos hconn]
      exact ⟨rfl, by simp⟩

end

/-! ## What is in the pool -/

/-- a pooled connection has been released past the limit, and a call that looks for one starts later -/
def PoolCall.Late (cfg : PoolConfig) (t : TimedPool) : PoolCall → Prop
  | .locking now => t.pool.conns ≠ [] → cfg.maxAliveTime.toNat < now.toNat
  | .pushing _ => cfg.maxAliveTime.toNat < t.clock
  | _ => True

section
variable (cfg : PoolConfig) (env : Env) (p : Pool) (x : PoolCall)

/-- no step sets a creation time -/
theorem PoolCall.step_zero (h : ∀ c, p.alive c = true → (p.mem c).createTime = 0) (c : Ptr)
    (hc : (x.step cfg env p).1.alive c = true) : ((x.step cfg env p).1.mem c).createTime = 0 := by
  have hdelete : ∀ q, Function.update p.alive q false c = true → p.alive c = true := by
    intro q hq
    by_cases hcq : c = q
    · rw [hcq, Function.update_self] at hq
      cases hq
    · rwa [Function.update_of_ne hcq] at hq
  cases x with
  | deleting rest n ptr =>
    cases rest with
    | nil => exact h c hc
    | cons q rest => exact h c (hdelete q hc)
  | connecting =>
    unfold PoolCall.step at hc ⊢
    cases hout : env.outcome with
    | connected =>
      rw [hout] at hc
      dsimp only at hc ⊢
      split_ifs at hc ⊢ with halive
      · exact h c hc
      · dsimp only at hc ⊢
        by_cases hcf : c = env.fresh
        · rw [hcf, Function.update_self]
        · rw [Function.update_of_ne hcf] at hc ⊢
          exact h c hc
    | _ =>
      rw [hout] at hc
      exact h c hc
  | releasing q =>
    have hsame : (Function.update p.mem q (p.mem q).serve c).createTime = (p.mem c).createTime := by
      by_cases hcq : c = q
      · rw [hcq, Function.update_self]
        rfl
      · rw [Function.update_of_ne hcq]
    exact hsame.trans (h c hc)
  | dropping q => exact h c (hdelete q hc)
  | _ => exact h c hc

/-- a connection comes into the pool from a release -/
theorem PoolCall.step_conns (h : (x.step cfg env p).1.conns ≠ []) : p.conns ≠ [] ∨ ∃ c, x = .pushing c := by
  cases x with
  | locking now =>
    left
    intro hnil
    apply h
    show (select cfg p.mem env.isConnected now p.conns).rest = []
    rw [hnil]
    rfl
  | deleting rest n ptr => cases rest <;> exact .inl h
  | connecting =>
    left
    unfold PoolCall.step at h
    cases hout : env.outcome with
    | connected =>
      rw [hout] at h
      dsimp only at h
      split_ifs at h <;> exact h
    | _ => rw [hout] at h; exact h
  | pushing c => exact .inr ⟨c, rfl⟩
  | _ => exact .inl h

/-- a call that goes on does not look for a connection, and puts one back behind a passed test only -/
theorem PoolCall.step_call {y : PoolCall} (h : (x.step cfg env p).2 = some y) :
    (∀ now, y ≠ .locking now) ∧
      ∀ c, y = .pushing c → x = .releasing c ∧ ¬unfit cfg env c (p.mem c).serve := by
  cases x with
  | locking now =>
    have hy := Option.some.inj h
    subst hy
    simp
  | deleting rest n ptr =>
    cases rest with
    | nil => cases ptr <;> (have hy := Option.some.inj h; subst hy; simp)
    | cons q rest =>
      have hy := Option.some.inj h
      subst hy
      simp
  | connecting =>
    unfold PoolCall.step at h
    cases hout : env.outcome with
    | connected =>
      rw [hout] at h
      dsimp only at h
      split_ifs at h <;> (have hy := Option.some.inj h; subst hy; simp)
    | _ => rw [hout] at h; cases h
  | releasing q =>
    have hstep : (if unfit cfg env q (p.mem q).serve then some (.dropping q) else some (.pushing q)) = some y := h
    split_ifs at hstep with hfit
    · have hy := Option.some.inj hstep
      subst hy
      simp
    · have hy := Option.some.inj hstep
      subst hy
      refine ⟨by simp, ?_⟩
      intro c hc
      injection hc with hc
      subst hc
      exact ⟨rfl, hfit⟩
  | created c =>
    have hy := Option.some.inj h
    subst hy
    simp
  | dropping c =>
    have hy := Option.some.inj h
    subst hy
    simp
  | _ => cases h

end

structure TimedPool.Inv (cfg : PoolConfig) (t : TimedPool) : Prop where
  pool : t.pool.Inv cfg
  one : t.pool.calls.length ≤ 1
  zero : ∀ c, t.pool.alive c = true → (t.pool.mem c).createTime = 0
  idle : t.pool.conns ≠ [] → cfg.maxAliveTime.toNat < t.clock
  call : ∀ x ∈ t.pool.calls, x.Late cfg t

theorem TimedPool.inv_new (cfg : PoolConfig) (mem : Ptr → Conn) : (TimedPool.new mem).Inv cfg where
  pool := holds_new cfg mem
  one := Nat.zero_le 1
  zero := by simp [TimedPool.new, Pool.new]
  idle := by simp [TimedPool.new, Pool.new]
  call := by simp [TimedPool.new, Pool.new]

section
variable {cfg : PoolConfig} {t : TimedPool} {a : PoolAct}

/-- the one call in progress takes the step -/
theorem TimedPool.Inv.only (h : t.Inv cfg) {i : ℕ} {x : PoolCall} (hi : t.pool.calls[i]? = some x) :
    i = 0 ∧ t.pool.calls = [x] := by
  obtain ⟨hlt, hx⟩ := List.getElem?_eq_some_iff.mp hi
  have hlen := h.one
  have hzero : i = 0 := by omega
  subst hzero
  refine ⟨rfl, ?_⟩
  rw [← hx]
  exact List.eq_getElem_of_length_eq_one _ (by omega)

/-- time that passes changes nothing in the pool -/
theorem TimedPool.Inv.later (h : t.Inv cfg) {t' : TimedPool} (hpool : t'.pool = t.pool) (hclock : t.clock ≤ t'.clock) :
    t'.Inv cfg := by
  refine ⟨hpool ▸ h.pool, hpool ▸ h.one, hpool ▸ h.zero, ?_, ?_⟩
  · rw [hpool]
    exact fun hne => lt_of_lt_of_le (h.idle hne) hclock
  · rw [hpool]
    intro x hx
    have hlate := h.call x hx
    cases x with
    | locking now => exact fun hne => hlate (hpool ▸ hne)
    | pushing c => exact lt_of_lt_of_le hlate hclock
    | _ => trivial

/-- the step of the call in progress -/
theorem TimedPool.Inv.advance (h : t.Inv cfg) {x : PoolCall} (hcalls : t.pool.calls = [x]) {env : Env}
    (hclock : t.clock ≤ env.now.toNat) {t' : TimedPool}
    (hpool : t'.pool = { (x.step cfg env t.pool).1 with calls := (x.step cfg env t.pool).2.toList })
    (hnow : t'.clock = env.now.toNat) (hinv : t'.pool.Inv cfg) : t'.Inv cfg := by
  have hx : x ∈ t.pool.calls := by
    rw [hcalls]
    exact List.mem_singleton_self x
  refine ⟨hinv, ?_, ?_, ?_, ?_⟩
  · rw [hpool]
    show (x.step cfg env t.pool).2.toList.length ≤ 1
    cases (x.step cfg env t.pool).2 <;> simp
  · rw [hpool]
    exact PoolCall.step_zero cfg env t.pool x h.zero
  · rw [hpool, hnow]
    intro hne
    rcases PoolCall.step_conns cfg env t.pool x hne with hne | ⟨c, rfl⟩
    · exact lt_of_lt_of_le (h.idle hne) hclock
    · exact lt_of_lt_of_le (h.call _ hx) hclock
  · rw [hpool]
    intro y hy
    obtain ⟨hlock, hpush⟩ := PoolCall.step_call cfg env t.pool x (Option.mem_toList.mp hy)
    cases y with
    | locking now => exact absurd rfl (hlock now)
    | pushing c =>
      obtain ⟨rfl, hfit⟩ := hpush c rfl
      -- the connection is not deleted, so its creation time is still 0
      have halive : t.pool.alive c = true := by
        apply h.pool.alive
        rw [hcalls]
        exact mem_owned.mpr (.inr (.inr (.inl (List.mem_singleton_self c))))
      have hage : ¬(t.pool.mem c).serve.createTime + cfg.maxAliveTime.setWidth 64 ≥ env.now :=
        fun hle => hfit (.inr (.inl hle))
      have hzero : (t.pool.mem c).serve.createTime = 0 := h.zero c halive
      rw [ge_iff_le, BitVec.le_def, age_sum hzero] at hage
      show cfg.maxAliveTime.toNat < t'.clock
      omega
    | _ => trivial

/-- **One step** of a legal run keeps what is known of the pool. -/
theorem TimedPool.Inv.step (h : t.Inv cfg) (hlegal : t.Legal a) : (t.step cfg a).Inv cfg := by
  obtain ⟨hclock, hstart⟩ := hlegal
  have hpool : (t.step cfg a).pool.Inv cfg := inv_step cfg t.pool a h.pool
  cases a with
  | getConnection now =>
    have hcalls : t.pool.calls = [] := hstart
    refine ⟨hpool, ?_, h.zero, fun hne => lt_of_lt_of_le (h.idle hne) hclock, ?_⟩
    · show (PoolCall.locking now :: t.pool.calls).length ≤ 1
      rw [hcalls]
      exact le_refl 1
    · intro x hx
      have hx : x ∈ PoolCall.locking now :: t.pool.calls := hx
      rw [hcalls, List.mem_singleton] at hx
      subst hx
      exact fun hne => lt_of_lt_of_le (h.idle hne) hclock
  | releasePtr k =>
    have hcalls : t.pool.calls = [] := hstart
    cases hk : t.pool.held[k]? with
    | none =>
      have hstep : t.pool.step cfg (.releasePtr k) = t.pool := by simp only [Pool.step, hk]
      exact h.later hstep hclock
    | some c =>
      have hstep : t.pool.step cfg (.releasePtr k) =
          { t.pool with held := t.pool.held.eraseIdx k, calls := .releasing c :: t.pool.calls } := by
        simp only [Pool.step, hk]
      have hsame : (t.step cfg (.releasePtr k)).pool =
          { t.pool with held := t.pool.held.eraseIdx k, calls := [.releasing c] } := by
        rw [← hcalls]
        exact hstep
      refine ⟨hpool, ?_, ?_, ?_, ?_⟩
      · rw [hsame]
        exact le_refl 1
      · rw [hsame]
        exact h.zero
      · rw [hsame]
        exact h.idle
      · rw [hsame]
        intro x hx
        rw [List.mem_singleton.mp hx]
        trivial
  | advance i env =>
    cases hi : t.pool.calls[i]? with
    | none =>
      have hstep : t.pool.step cfg (.advance i env) = t.pool := by simp only [Pool.step, hi]
      exact h.later hstep hclock
    | some x =>
      obtain ⟨rfl, hcalls⟩ := h.only hi
      refine h.advance hcalls hclock ?_ rfl hpool
      show t.pool.step cfg (.advance 0 env) = _
      simp only [Pool.step, hcalls, List.getElem?_cons_zero, List.eraseIdx_cons_zero, List.append_nil]

end

/-! ## The age limit -/

/-- where `getConnection` looks through the pool, it takes no connection made `m_maxAliveTime` ms ago, and throws none
away that is connected, younger and below `m_maxRequest` requests -/
def TimedPool.Meets (cfg : PoolConfig) (t : TimedPool) : PoolAct → Prop
  | .advance i env =>
    ∀ now, t.pool.calls[i]? = some (.locking now) →
      let r := select cfg t.pool.mem env.isConnected now t.pool.conns
      (∀ c, r.ptr = some c → now.toNat < t.born c + cfg.maxAliveTime.toNat) ∧
        ∀ c ∈ r.invalid, ¬(env.isConnected c = true ∧ now.toNat < t.born c + cfg.maxAliveTime.toNat ∧
          (t.pool.mem c).request.toNat < cfg.maxRequest.toNat)
  | _ => True

/-- where `getConnection` looks through the pool, the first connection there that is connected is young -/
def TimedPool.Young (cfg : PoolConfig) (t : TimedPool) : PoolAct → Prop
  | .advance i env =>
    ∀ now, t.pool.calls[i]? = some (.locking now) →
      ∀ c, t.pool.conns.find? env.isConnected = some c → now.toNat < t.born c + cfg.maxAliveTime.toNat
  | _ => True

theorem TimedPool.meets_iff {cfg : PoolConfig} {t : TimedPool} (h : t.Inv cfg) (a : PoolAct) :
    t.Meets cfg a ↔ t.Young cfg a := by
  cases a with
  | advance i env =>
    apply forall_congr'
    intro now
    apply forall_congr'
    intro hi
    obtain ⟨-, hcalls⟩ := h.only hi
    have hlate : t.pool.conns ≠ [] → cfg.maxAliveTime.toNat < now.toNat := by
      apply h.call (.locking now)
      rw [hcalls]
      exact List.mem_singleton_self _
    have hselect : (select cfg t.pool.mem env.isConnected now t.pool.conns).ptr = t.pool.conns.find? env.isConnected ∧
        ∀ c ∈ (select cfg t.pool.mem env.isConnected now t.pool.conns).invalid, env.isConnected c = false := by
      by_cases hnil : t.pool.conns = []
      · rw [hnil]
        exact ⟨rfl, by simp [select]⟩
      · apply select_of_zero _ (hlate hnil).le
        intro c hc
        exact h.zero c (h.pool.alive c (List.mem_append_left _ (List.mem_append_left _ hc)))
    dsimp only
    rw [hselect.1]
    constructor
    · exact fun hmeets => hmeets.1
    · refine fun hyoung => ⟨hyoung, ?_⟩
      rintro c hc ⟨hconn, -⟩
      exact Bool.false_ne_true ((hselect.2 c hc).symm.trans hconn)
  | _ => exact Iff.rfl

/-- **The age limit.** In every run of `getConnection` and `ReleasePtr` calls over a clock that does not go back: no
connection that has reached the limit is handed out, and no young one thrown away, iff at every call the first
connection in the pool that is connected is young. -/
theorem age_limit_iff (cfg : PoolConfig) (mem : Ptr → Conn) (acts : List PoolAct)
    (hlegal : Along TimedPool.Legal (TimedPool.step cfg) (TimedPool.new mem) acts) :
    Along (TimedPool.Meets cfg) (TimedPool.step cfg) (TimedPool.new mem) acts ↔
      Along (TimedPool.Young cfg) (TimedPool.step cfg) (TimedPool.new mem) acts := by
  have hstep : ∀ t a, TimedPool.Legal t a → TimedPool.Inv cfg t → TimedPool.Inv cfg (TimedPool.step cfg t a) :=
    fun t a hlegal h => h.step hlegal
  apply along_congr hstep
  · exact fun t a _ h => TimedPool.meets_iff h a
  · exact TimedPool.inv_new cfg mem
  · exact hlegal

/-- the environment at a time, with every connection connected -/
def online (now : BitVec 64) : Env := ⟨fun _ => true, now, .connected, 7⟩

/-- a connection made at 100 s, put back at 101 s, and asked for at `again` -/
def usedTwice (again : BitVec 64) : List PoolAct :=
  .getConnection 100000 :: List.replicate 5 (.advance 0 (online 100000)) ++
    .releasePtr 0 :: List.replicate 2 (.advance 0 (online 101000)) ++ [.getConnection again]

/-- the pool of `test_pool` -/
def testPool : PoolConfig := ⟨1000 * 30, 5⟩

/-- within the limit, 30 s -/
theorem age_limit_iff_young :
    let acts := usedTwice 120000 ++ [.advance 0 (online 120000)]
    Along (TimedPool.Meets testPool) (TimedPool.step testPool) (TimedPool.new fun _ => {}) acts ↔
      Along (TimedPool.Young testPool) (TimedPool.step testPool) (TimedPool.new fun _ => {}) acts := by
  apply age_limit_iff
  decide

/-- **An old connection**: it is handed out again after 200 s. -/
theorem old_connection :
    ¬Along (TimedPool.Meets testPool) (TimedPool.step testPool) (TimedPool.new fun _ => {})
      (usedTwice 300000 ++ [.advance 0 (online 300000)]) := by
  intro h
  obtain ⟨hmeets, -⟩ := h.append.2
  obtain ⟨hold, -⟩ := hmeets 300000 (by decide)
  have hyoung := hold 7 (by decide)
  exact absurd hyoung (by decide)

end Sylar.ConnPool
