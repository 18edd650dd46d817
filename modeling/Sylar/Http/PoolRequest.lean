/-
`HttpConnectionPool::doRequest` (`http_connection.cpp`): any number of requests over the connections of one pool.

A request takes a connection from the pool (`Http/Pool`, with all its interleavings), sends, waits for the response, and
lets go of the connection when its `shared_ptr` goes out of scope, whichever way it ends. Behind each connection stand
the two streams to the server and back (`Wire`): whole requests and whole responses, by the number of the request they
belong to, or, once a message has been written or read in part, nothing that can be told apart (`astray`). Only
`recvResponse` closes; a `sendRequest` that fails leaves `m_isConnected` as it is, and so the connection goes back to the
pool.

- `responses_matched`: in every run in which a request that is sent in part has lost its connection, and a response that
  is given up closes it, every response that is returned answers the request it is returned for; no connection is used by
  two requests at once, and all that have been used have been given back.
- `torn_goes_back`: a request that is sent in part over a connection that lives on. The connection is idle again, in the
  middle of a request.
-/
import Mathlib.Tactic
import Sylar.Core.Run
import Sylar.Http.Pool
import Sylar.Http.DoRequest

namespace Sylar.ConnPool.Requests

open Sylar.Core
open Sylar.Http (HttpError)

/-- what is on the way over a connection -/
structure Wire where
  /-- the requests the server has not answered, oldest first -/
  requests : List ℕ := []
  /-- the answers; `none` for what the server makes of a stream that has gone astray -/
  responses : List (Option ℕ) := []
  astray : Bool := false
  /-- `m_isConnected` -/
  connected : Bool := true
  /-- the TCP connection is gone -/
  dead : Bool := false
deriving DecidableEq, Repr

structure Result where
  result : HttpError
  /-- the request it answers -/
  response : Option (Option ℕ)
deriving DecidableEq, Repr

/-- where a call of `doRequest` is -/
inductive Client where
  | idle
  /-- in `getConnection` -/
  | getting
  | sending (c : Ptr)
  | receiving (c : Ptr)
  /-- the result is made, and the connection is let go of next -/
  | done (c : Ptr) (r : Result)
  | returned (r : Result)
deriving DecidableEq, Repr

structure St where
  pool : Pool
  /-- handed out by `getConnection`, and not yet taken by its caller -/
  handed : List Ptr
  wire : Ptr → Wire
  client : ℕ → Client

/-- how `sendRequest` ends -/
inductive Sending where
  | whole
  /-- with result 0 or less, after a part of the request or after nothing -/
  | failed (zero part : Bool)
deriving DecidableEq, Repr

/-- how `recvResponse` ends -/
inductive Receiving where
  | response
  /-- `nullptr`, with the connection closed or not -/
  | null (close : Bool)
deriving DecidableEq, Repr

inductive Label where
  | start (k : ℕ) (now : BitVec 64)
  /-- a call of `getConnection` or `ReleasePtr` in progress takes a step -/
  | pool (i : ℕ) (env : Env)
  /-- `getConnection` returns -/
  | got (k : ℕ) (c : Ptr)
  | refused (k : ℕ)
  | send (k : ℕ) (x : Sending)
  /-- the server answers a request -/
  | answer (c : Ptr)
  | recv (k : ℕ) (x : Receiving)
  /-- the last reference goes; the connection is the `i`-th of those held -/
  | release (k i : ℕ)
  /-- the TCP connection breaks -/
  | breaks (c : Ptr)

def start (mem : Ptr → Conn) : St :=
  { pool := Pool.new mem, handed := [], wire := fun _ => {}, client := fun _ => .idle }

def St.setWire (s : St) (c : Ptr) (w : Wire) : St := { s with wire := Function.update s.wire c w }

def St.setClient (s : St) (k : ℕ) (x : Client) : St := { s with client := Function.update s.client k x }

/-- the server answers the oldest request -/
def Wire.answer (w : Wire) : Wire :=
  if w.dead then w
  else if w.astray then { w with responses := w.responses ++ [none] }
  else
    match w.requests with
    | [] => w
    | k :: rest => { w with requests := rest, responses := w.responses ++ [some k] }

/-- the error of a failed `sendRequest` -/
def sendError (zero : Bool) : HttpError := if zero then .SEND_CLOSE_BY_PEER else .SEND_SOCKET_ERROR

def step (cfg : PoolConfig) (s : St) : Label → St
  | .start k now =>
    match s.client k with
    | .idle => { s with pool := s.pool.step cfg (.getConnection now) }.setClient k .getting
    | _ => s
  | .pool i env =>
    let pool := s.pool.step cfg (.advance i { env with isConnected := fun c => (s.wire c).connected })
    { s with pool := pool
             handed := s.handed ++ pool.held.drop s.pool.held.length
             -- a new connection
             wire := fun c => if s.pool.alive c = false ∧ pool.alive c = true then {} else s.wire c }
  | .got k c =>
    match s.client k with
    | .getting => if c ∈ s.handed then { s with handed := s.handed.erase c }.setClient k (.sending c) else s
    | _ => s
  | .refused k =>
    match s.client k with
    | .getting => s.setClient k (.returned ⟨.POOL_GET_CONNECTION, none⟩)
    | _ => s
  | .send k x =>
    match s.client k, x with
    | .sending c, .whole =>
      if (s.wire c).connected ∧ (s.wire c).dead = false then
        (s.setWire c { s.wire c with requests := (s.wire c).requests ++ [k] }).setClient k (.receiving c)
      else s
    | .sending c, .failed zero part =>
      (s.setWire c { s.wire c with astray := (s.wire c).astray || part }).setClient k (.done c ⟨sendError zero, none⟩)
    | _, _ => s
  | .answer c => s.setWire c (s.wire c).answer
  | .recv k x =>
    match s.client k, x with
    | .receiving c, .response =>
      match (s.wire c).responses with
      | [] => s
      | r :: rest => (s.setWire c { s.wire c with responses := rest }).setClient k (.done c ⟨.OK, some r⟩)
    | .receiving c, .null close =>
      (s.setWire c { s.wire c with connected := (s.wire c).connected && !close, astray := true }).setClient k
        (.done c ⟨.TIMEOUT, none⟩)
    | _, _ => s
  | .release k i =>
    match s.client k with
    | .done c r =>
      if s.pool.held[i]? = some c then { s with pool := s.pool.step cfg (.releasePtr i) }.setClient k (.returned r) else s
    | _ => s
  | .breaks c => s.setWire c { s.wire c with dead := true }

/-- a request that is sent in part has lost its connection, and a response that is given up closes it -/
def Ok (s : St) : Label → Prop
  | .send k (.failed _ true) => ∀ c, s.client k = .sending c → (s.wire c).dead = true
  | .recv k (.null false) => ∀ c, s.client k = .receiving c → (s.wire c).dead = true
  | _ => True

/-- the connection a call uses -/
def Client.uses : Client → Option Ptr
  | .sending c | .receiving c | .done c _ => some c
  | _ => none

/-! ## The invariant -/

/-- nothing of an old request is left, as far as the connection can still be used -/
def Wire.Settled (w : Wire) : Prop :=
  w.dead = true ∨ w.connected = false ∨ (w.requests = [] ∧ w.responses = [] ∧ w.astray = false)

/-- one request, or its answer -/
def Wire.Asked (w : Wire) (k : ℕ) : Prop :=
  w.astray = false ∧ ((w.requests = [k] ∧ w.responses = []) ∨ (w.requests = [] ∧ w.responses = [some k]))

def Client.Fits (wire : Ptr → Wire) (k : ℕ) : Client → Prop
  | .sending c => (wire c).Settled
  | .receiving c => (wire c).Asked k
  | .done c r => (wire c).Settled ∧ ∀ x, r.response = some x → x = some k
  | .returned r => ∀ x, r.response = some x → x = some k
  | _ => True

structure Inv (cfg : PoolConfig) (s : St) : Prop where
  pool : s.pool.Inv cfg
  handed : ∀ c ∈ s.handed, c ∈ s.pool.held
  nodup : s.handed.Nodup
  used : ∀ k c, (s.client k).uses = some c → c ∈ s.pool.held ∧ c ∉ s.handed
  one : ∀ k k' c, (s.client k).uses = some c → (s.client k').uses = some c → k = k'
  taken : ∀ c ∈ s.pool.held, c ∈ s.handed ∨ ∃ k, (s.client k).uses = some c
  settled : ∀ c, (∀ k, (s.client k).uses ≠ some c) → (s.wire c).Settled
  fits : ∀ k, (s.client k).Fits s.wire k

theorem inv_start (cfg : PoolConfig) (mem : Ptr → Conn) : Inv cfg (start mem) := by
  refine ⟨holds_new cfg mem, nofun, List.nodup_nil, nofun, nofun, nofun, fun c _ => ?_, fun k => trivial⟩
  exact Or.inr (Or.inr ⟨rfl, rfl, rfl⟩)

section Steps

variable {cfg : PoolConfig} {s : St} {k : ℕ} {c : Ptr}

theorem callStep_held (p : Pool) (env : Env) (x : PoolCall) :
    (x.step cfg env p).1.held = p.held ∨ ∃ c, (x.step cfg env p).1.held = p.held ++ [c] := by
  cases x with
  | handing c => exact Or.inr ⟨c, rfl⟩
  | deleting rest n ptr =>
    left
    cases rest <;> rfl
  | connecting =>
    left
    simp only [PoolCall.step]
    split
    · split_ifs <;> rfl
    · rfl
  | releasing c => exact Or.inl rfl
  | _ => exact Or.inl rfl

theorem Inv.held_nodup (h : Inv cfg s) : s.pool.held.Nodup := by
  have hnodup := h.pool.nodup
  exact ((List.nodup_append.mp (List.nodup_append.mp hnodup).1).2).1

/-- a step of a call in progress hands out one connection, which nobody holds, or none -/
theorem advance_held {p : Pool} (h : p.Inv cfg) (i : ℕ) (env : Env) :
    (p.step cfg (.advance i env)).held = p.held ∨
      ∃ c, (p.step cfg (.advance i env)).held = p.held ++ [c] ∧ c ∉ p.held := by
  have hcases : (p.step cfg (.advance i env)).held = p.held ∨
      ∃ c, (p.step cfg (.advance i env)).held = p.held ++ [c] := by
    cases hi : p.calls[i]? with
    | none =>
      left
      simp only [Pool.step, hi]
    | some x =>
      simp only [Pool.step, hi]
      exact callStep_held p env x
  rcases hcases with hsame | ⟨c, hc⟩
  · exact Or.inl hsame
  · refine Or.inr ⟨c, hc, fun hmem => ?_⟩
    have hnodup := (inv_step cfg p (.advance i env) h).nodup
    have hheld := (List.nodup_append.mp (List.nodup_append.mp hnodup).1).2.1
    rw [hc] at hheld
    exact (List.nodup_append.mp hheld).2.2 c hmem c (List.mem_singleton_self c) rfl

/-- what is held is alive -/
theorem Inv.alive (h : Inv cfg s) (hc : c ∈ s.pool.held) : s.pool.alive c = true := by
  refine h.pool.alive c ?_
  rw [owned, List.mem_append, List.mem_append]
  exact Or.inl (Or.inr hc)

theorem Client.Fits.congr {wire wire' : Ptr → Wire} {x : Client} (h : x.Fits wire k)
    (hsame : ∀ c, x.uses = some c → wire' c = wire c) : x.Fits wire' k := by
  cases x with
  | sending c =>
    show (wire' c).Settled
    rw [hsame c rfl]
    exact h
  | receiving c =>
    show (wire' c).Asked k
    rw [hsame c rfl]
    exact h
  | done c r =>
    refine ⟨?_, h.2⟩
    rw [hsame c rfl]
    exact h.1
  | _ => exact h

theorem Inv.pool_step (h : Inv cfg s) (i : ℕ) (env : Env) : Inv cfg (step cfg s (.pool i env)) := by
  have hinv := inv_step cfg s.pool (.advance i { env with isConnected := fun c => (s.wire c).connected }) h.pool
  have hheld := advance_held h.pool i { env with isConnected := fun c => (s.wire c).connected }
  unfold Requests.step
  dsimp only
  generalize s.pool.step cfg (.advance i { env with isConnected := fun c => (s.wire c).connected }) = p at hinv hheld ⊢
  -- the connections in use are not new
  have hwire : ∀ k c, (s.client k).uses = some c →
      (if s.pool.alive c = false ∧ p.alive c = true then {} else s.wire c) = s.wire c := by
    intro k c huses
    refine if_neg fun hnew => ?_
    rw [h.alive (h.used k c huses).1] at hnew
    cases hnew.1
  have hsettled : ∀ c, (∀ k, (s.client k).uses ≠ some c) →
      (if s.pool.alive c = false ∧ p.alive c = true then ({} : Wire) else s.wire c).Settled := by
    intro c hc
    split_ifs
    · exact Or.inr (Or.inr ⟨rfl, rfl, rfl⟩)
    · exact h.settled c hc
  have hfits : ∀ k, (s.client k).Fits
      (fun c => if s.pool.alive c = false ∧ p.alive c = true then {} else s.wire c) k := fun k =>
    (h.fits k).congr fun c hc => hwire k c hc
  rcases hheld with hsame | ⟨c, hc, hnew⟩
  · have hdrop : p.held.drop s.pool.held.length = [] := by rw [hsame, List.drop_length]
    rw [hdrop, List.append_nil]
    refine ⟨hinv, fun c hc => ?_, h.nodup, fun k c hk => ?_, h.one, fun c hc => ?_, hsettled, hfits⟩
    · rw [hsame]
      exact h.handed c hc
    · rw [hsame]
      exact h.used k c hk
    · rw [hsame] at hc
      exact h.taken c hc
  · have hdrop : p.held.drop s.pool.held.length = [c] := by rw [hc, List.drop_left]
    rw [hdrop]
    refine ⟨hinv, fun c' hc' => ?_, ?_, fun k c' hk => ?_, h.one, fun c' hc' => ?_, hsettled, hfits⟩
    · rw [hc]
      rcases List.mem_append.mp hc' with hc' | hc'
      · exact List.mem_append_left _ (h.handed c' hc')
      · exact List.mem_append_right _ hc'
    · refine List.nodup_append.mpr ⟨h.nodup, List.nodup_singleton c, fun a ha b hb => ?_⟩
      rw [List.mem_singleton.mp hb]
      rintro rfl
      exact hnew (h.handed a ha)
    · obtain ⟨hmem, hnot⟩ := h.used k c' hk
      refine ⟨by rw [hc]; exact List.mem_append_left _ hmem, fun hin => ?_⟩
      rcases List.mem_append.mp hin with hin | hin
      · exact hnot hin
      · rw [List.mem_singleton.mp hin] at hmem
        exact hnew hmem
    · rw [hc] at hc'
      rcases List.mem_append.mp hc' with hc' | hc'
      · rcases h.taken c' hc' with hh | hh
        · exact Or.inl (List.mem_append_left _ hh)
        · exact Or.inr hh
      · exact Or.inl (List.mem_append_right _ hc')

theorem uses_setClient (s : St) (k k' : ℕ) (x : Client) :
    ((s.setClient k x).client k').uses = if k' = k then x.uses else (s.client k').uses := by
  by_cases hk : k' = k
  · simp [St.setClient, hk]
  · simp [St.setClient, hk]

/-- a call that uses no connection goes on without one -/
theorem Inv.client_step (h : Inv cfg s) (hnone : (s.client k).uses = none) {x : Client} (hx : x.uses = none)
    (hfits : x.Fits s.wire k) : Inv cfg (s.setClient k x) := by
  have huses : ∀ k', ((s.setClient k x).client k').uses = (s.client k').uses := by
    intro k'
    rw [uses_setClient]
    split_ifs with hk
    · rw [hx, hk, hnone]
    · rfl
  refine ⟨h.pool, h.handed, h.nodup, fun k' c hk => ?_, fun k1 k2 c h1 h2 => ?_, fun c hc => ?_, fun c hc => ?_,
    fun k' => ?_⟩
  · rw [huses] at hk
    exact h.used k' c hk
  · rw [huses] at h1 h2
    exact h.one k1 k2 c h1 h2
  · rcases h.taken c hc with hh | ⟨k', hk⟩
    · exact Or.inl hh
    · exact Or.inr ⟨k', by rw [huses]; exact hk⟩
  · exact h.settled c fun k' => by rw [← huses]; exact hc k'
  · by_cases hk : k' = k
    · simpa [St.setClient, hk] using hfits
    · simpa [St.setClient, hk] using h.fits k'

/-- a call that uses `c` changes what is on the way over `c`, and goes on using it -/
theorem Inv.wire_step (h : Inv cfg s) (huses : (s.client k).uses = some c) {w : Wire} {x : Client} (hx : x.uses = some c)
    (hfits : x.Fits (Function.update s.wire c w) k) : Inv cfg ((s.setWire c w).setClient k x) := by
  have huses' : ∀ k', (((s.setWire c w).setClient k x).client k').uses = (s.client k').uses := by
    intro k'
    rw [uses_setClient]
    split_ifs with hk
    · rw [hx, hk, huses]
    · rfl
  refine ⟨h.pool, h.handed, h.nodup, fun k' c' hk => ?_, fun k1 k2 c' h1 h2 => ?_, fun c' hc => ?_, fun c' hc => ?_,
    fun k' => ?_⟩
  · rw [huses'] at hk
    exact h.used k' c' hk
  · rw [huses'] at h1 h2
    exact h.one k1 k2 c' h1 h2
  · rcases h.taken c' hc with hh | ⟨k', hk⟩
    · exact Or.inl hh
    · exact Or.inr ⟨k', by rw [huses']; exact hk⟩
  · have hne : c' ≠ c := by
      rintro rfl
      exact hc k (by rw [huses']; exact huses)
    show (Function.update s.wire c w c').Settled
    rw [Function.update_of_ne hne]
    exact h.settled c' fun k' => by rw [← huses']; exact hc k'
  · by_cases hk : k' = k
    · subst hk
      simpa [St.setClient, St.setWire] using hfits
    · have hclient : ((s.setWire c w).setClient k x).client k' = s.client k' := by simp [St.setClient, St.setWire, hk]
      rw [hclient]
      refine (h.fits k').congr fun c' hc' => ?_
      have hne : c' ≠ c := by
        rintro rfl
        exact hk (h.one k' k c' hc' huses)
      exact Function.update_of_ne hne _ _

/-- something happens to the connection `c` that its user does not see -/
theorem Inv.beside (h : Inv cfg s) (c : Ptr) {w : Wire} (hsettled : (s.wire c).Settled → w.Settled)
    (hasked : ∀ k, (s.wire c).Asked k → w.Asked k) : Inv cfg (s.setWire c w) := by
  by_cases hused : ∃ k, (s.client k).uses = some c
  · obtain ⟨k, hk⟩ := hused
    have hsame : s.setWire c w = (s.setWire c w).setClient k (s.client k) := by
      simp [St.setClient, St.setWire]
    rw [hsame]
    refine h.wire_step hk hk ?_
    have hfits := h.fits k
    generalize s.client k = x at hk hfits
    cases x with
    | sending c' =>
      cases hk
      simpa [Client.Fits] using hsettled hfits
    | receiving c' =>
      cases hk
      simpa [Client.Fits] using hasked k hfits
    | done c' r =>
      cases hk
      exact ⟨by simpa using hsettled hfits.1, hfits.2⟩
    | _ => cases hk
  · refine ⟨h.pool, h.handed, h.nodup, h.used, h.one, h.taken, fun c' hc => ?_, fun k => ?_⟩
    · show (Function.update s.wire c w c').Settled
      by_cases hcc : c' = c
      · subst hcc
        rw [Function.update_self]
        exact hsettled (h.settled c' hc)
      · rw [Function.update_of_ne hcc]
        exact h.settled c' hc
    · refine (h.fits k).congr fun c' hc' => ?_
      have hne : c' ≠ c := by
        rintro rfl
        exact hused ⟨k, hc'⟩
      exact Function.update_of_ne hne _ _

theorem Wire.answer_settled {w : Wire} (h : w.Settled) : w.answer.Settled := by
  unfold Wire.answer
  rcases h with hd | hc | ⟨hreq, hrsp, hastray⟩
  · rw [if_pos hd]
    exact Or.inl hd
  · split_ifs
    · exact Or.inr (Or.inl hc)
    · exact Or.inr (Or.inl hc)
    · split
      · exact Or.inr (Or.inl hc)
      · exact Or.inr (Or.inl hc)
  · split_ifs with hd ha
    · exact Or.inl hd
    · rw [hastray] at ha
      cases ha
    · rw [hreq]
      exact Or.inr (Or.inr ⟨hreq, hrsp, hastray⟩)

theorem Wire.answer_asked {w : Wire} (h : w.Asked k) : w.answer.Asked k := by
  obtain ⟨hastray, hcases⟩ := h
  unfold Wire.answer
  split_ifs with hd ha
  · exact ⟨hastray, hcases⟩
  · rw [hastray] at ha
    cases ha
  · rcases hcases with ⟨hreq, hrsp⟩ | ⟨hreq, hrsp⟩
    · rw [hreq]
      exact ⟨hastray, Or.inr ⟨rfl, by rw [hrsp]; rfl⟩⟩
    · rw [hreq]
      exact ⟨hastray, Or.inr ⟨hreq, hrsp⟩⟩

/-- `getConnection` is called -/
theorem Inv.start_step (h : Inv cfg s) (now : BitVec 64) : Inv cfg { s with pool := s.pool.step cfg (.getConnection now) } :=
  ⟨inv_step cfg s.pool (.getConnection now) h.pool, h.handed, h.nodup, h.used, h.one, h.taken, h.settled, h.fits⟩

/-- a call takes the connection that is handed to it -/
theorem Inv.got_step (h : Inv cfg s) (hgetting : s.client k = .getting) (hc : c ∈ s.handed) :
    Inv cfg ({ s with handed := s.handed.erase c }.setClient k (.sending c)) := by
  have hfree : ∀ k', (s.client k').uses ≠ some c := fun k' hk => (h.used k' c hk).2 hc
  have huses : ∀ k', (({ s with handed := s.handed.erase c }.setClient k (.sending c)).client k').uses =
      if k' = k then some c else (s.client k').uses := fun k' => uses_setClient _ k k' _
  have hmem : ∀ c', c' ∈ s.handed.erase c ↔ c' ≠ c ∧ c' ∈ s.handed := fun c' => h.nodup.mem_erase_iff
  refine ⟨h.pool, fun c' hc' => h.handed c' (List.mem_of_mem_erase hc'), h.nodup.erase c, fun k' c' hk => ?_,
    fun k1 k2 c' h1 h2 => ?_, fun c' hc' => ?_, fun c' hc' => ?_, fun k' => ?_⟩
  · rw [huses] at hk
    split_ifs at hk with hkk
    · cases hk
      exact ⟨h.handed c hc, fun hin => ((hmem c).mp hin).1 rfl⟩
    · obtain ⟨hheld, hnot⟩ := h.used k' c' hk
      exact ⟨hheld, fun hin => hnot ((hmem c').mp hin).2⟩
  · rw [huses] at h1 h2
    split_ifs at h1 h2 with hk1 hk2 hk2
    · rw [hk1, hk2]
    · cases h1
      exact absurd h2 (hfree k2)
    · cases h2
      exact absurd h1 (hfree k1)
    · exact h.one k1 k2 c' h1 h2
  · by_cases hcc : c' = c
    · exact Or.inr ⟨k, by rw [huses, if_pos rfl, hcc]⟩
    · rcases h.taken c' hc' with hh | ⟨k', hk⟩
      · exact Or.inl ((hmem c').mpr ⟨hcc, hh⟩)
      · refine Or.inr ⟨k', ?_⟩
        rw [huses, if_neg, hk]
        rintro rfl
        rw [hgetting] at hk
        cases hk
  · refine h.settled c' fun k' hk => ?_
    have hkk : k' ≠ k := by
      rintro rfl
      rw [hgetting] at hk
      cases hk
    exact hc' k' (by rw [huses, if_neg hkk]; exact hk)
  · by_cases hkk : k' = k
    · subst hkk
      have hset := h.settled c hfree
      simpa [St.setClient, Client.Fits] using hset
    · simpa [St.setClient, hkk] using h.fits k'

/-- the connection is let go of -/
theorem Inv.release_step (h : Inv cfg s) {r : Result} {i : ℕ} (hdone : s.client k = .done c r)
    (hi : s.pool.held[i]? = some c) :
    Inv cfg ({ s with pool := s.pool.step cfg (.releasePtr i) }.setClient k (.returned r)) := by
  have hheld : (s.pool.step cfg (.releasePtr i)).held = s.pool.held.eraseIdx i := by simp only [Pool.step, hi]
  have hperm := perm_cons_eraseIdx hi
  have hnodup := hperm.nodup_iff.mp h.held_nodup
  have hk : (s.client k).uses = some c := by rw [hdone]; rfl
  have huses : ∀ k', (({ s with pool := s.pool.step cfg (.releasePtr i) }.setClient k (.returned r)).client k').uses =
      if k' = k then none else (s.client k').uses := fun k' => uses_setClient _ k k' _
  have hfits := h.fits k
  rw [hdone] at hfits
  -- the others are still held
  have hstill : ∀ c', c' ≠ c → c' ∈ s.pool.held → c' ∈ s.pool.held.eraseIdx i := by
    intro c' hne hin
    rcases List.mem_cons.mp (hperm.mem_iff.mp hin) with hcc | hin
    · exact absurd hcc hne
    · exact hin
  refine ⟨inv_step cfg s.pool (.releasePtr i) h.pool, fun c' hc' => ?_, h.nodup, fun k' c' hk' => ?_,
    fun k1 k2 c' h1 h2 => ?_, fun c' hc' => ?_, fun c' hc' => ?_, fun k' => ?_⟩
  · show c' ∈ (s.pool.step cfg (.releasePtr i)).held
    rw [hheld]
    refine hstill c' ?_ (h.handed c' hc')
    rintro rfl
    exact (h.used k c' hk).2 hc'
  · rw [huses] at hk'
    split_ifs at hk' with hkk
    obtain ⟨hin, hnot⟩ := h.used k' c' hk'
    refine ⟨?_, hnot⟩
    show c' ∈ (s.pool.step cfg (.releasePtr i)).held
    rw [hheld]
    refine hstill c' ?_ hin
    rintro rfl
    exact hkk (h.one k' k c' hk' hk)
  · rw [huses] at h1 h2
    split_ifs at h1 h2
    exact h.one k1 k2 c' h1 h2
  · have hc' : c' ∈ (s.pool.step cfg (.releasePtr i)).held := hc'
    rw [hheld] at hc'
    have hne : c' ≠ c := by
      rintro rfl
      exact (List.nodup_cons.mp hnodup).1 hc'
    rcases h.taken c' (hperm.mem_iff.mpr (List.mem_cons_of_mem _ hc')) with hh | ⟨k', hk'⟩
    · exact Or.inl hh
    · refine Or.inr ⟨k', ?_⟩
      rw [huses, if_neg, hk']
      rintro rfl
      rw [hk] at hk'
      exact hne (Option.some.inj hk').symm
  · by_cases hcc : c' = c
    · rw [hcc]
      exact hfits.1
    · refine h.settled c' fun k' hk' => ?_
      have hkk : k' ≠ k := by
        rintro rfl
        rw [hk] at hk'
        exact hcc (Option.some.inj hk').symm
      exact hc' k' (by rw [huses, if_neg hkk]; exact hk')
  · by_cases hkk : k' = k
    · subst hkk
      simpa [St.setClient, Client.Fits] using hfits.2
    · simpa [St.setClient, hkk] using h.fits k'

/-- **Step lemma.** -/
theorem Inv.step (h : Inv cfg s) (l : Label) (hok : Ok s l) : Inv cfg (Requests.step cfg s l) := by
  cases l with
  | start k now =>
    simp only [Requests.step]
    split
    · next hidle =>
      refine (h.start_step now).client_step ?_ rfl trivial
      show (s.client k).uses = none
      rw [hidle]
      rfl
    · exact h
  | pool i env => exact h.pool_step i env
  | got k c =>
    simp only [Requests.step]
    split
    · next hgetting =>
      split_ifs with hc
      · exact h.got_step hgetting hc
      · exact h
    · exact h
  | refused k =>
    simp only [Requests.step]
    split
    · next hgetting => exact h.client_step (by rw [hgetting]; rfl) rfl nofun
    · exact h
  | send k x =>
    simp only [Requests.step]
    split
    · next c hk =>
      split_ifs with hsend
      · refine h.wire_step (by rw [hk]; rfl) rfl ?_
        have hfits := h.fits k
        rw [hk] at hfits
        rcases hfits with hd | hc | ⟨hreq, hrsp, hastray⟩
        · rw [hd] at hsend
          cases hsend.2
        · rw [hc] at hsend
          cases hsend.1
        · exact ⟨by simpa using hastray, Or.inl ⟨by simp [hreq], by simpa using hrsp⟩⟩
      · exact h
    · next c zero part hk =>
      refine h.wire_step (by rw [hk]; rfl) rfl ⟨?_, nofun⟩
      have hfits := h.fits k
      rw [hk] at hfits
      cases part with
      | false =>
        have hfits : (s.wire c).Settled := hfits
        simpa [Wire.Settled] using hfits
      | true => exact Or.inl (by simpa using hok c hk)
    · exact h
  | answer c => exact h.beside c Wire.answer_settled fun k => Wire.answer_asked
  | recv k x =>
    simp only [Requests.step]
    split
    · next c hk =>
      have hfits := h.fits k
      rw [hk] at hfits
      obtain ⟨hastray, hcases⟩ := hfits
      split
      · exact h
      · next r rest hrsp =>
        refine h.wire_step (by rw [hk]; rfl) rfl ?_
        rcases hcases with ⟨-, hnone⟩ | ⟨hreq, hone⟩
        · rw [hnone] at hrsp
          cases hrsp
        · rw [hone] at hrsp
          cases hrsp
          refine ⟨Or.inr (Or.inr ⟨by simpa using hreq, by simp, by simpa using hastray⟩), fun x hx => ?_⟩
          exact (Option.some.inj hx).symm
    · next c close hk =>
      refine h.wire_step (by rw [hk]; rfl) rfl ⟨?_, nofun⟩
      cases close with
      | true => exact Or.inr (Or.inl (by simp))
      | false => exact Or.inl (by simpa using hok c hk)
    · exact h
  | release k i =>
    simp only [Requests.step]
    split
    · next c r hk =>
      split_ifs with hi
      · exact h.release_step hk hi
      · exact h
    · exact h
  | breaks c => exact h.beside c (fun _ => Or.inl rfl) fun k h => h

end Steps

/-- **Responses are matched.** For every server, every environment of the pool and every interleaving of any number of
requests in which a request that is sent in part has lost its connection, and a response that is given up closes it: a
response that is returned answers the request it is returned for; two requests never use one connection; and when none
is under way, nothing is held but what `getConnection` has handed out and nobody taken. -/
theorem responses_matched (cfg : PoolConfig) (mem : Ptr → Conn) (ls : List Label)
    (hok : Along Ok (step cfg) (start mem) ls) :
    let s := run (step cfg) (start mem) ls
    (∀ k x, s.client k = .returned ⟨.OK, some x⟩ → x = some k) ∧
      (∀ k k' c, (s.client k).uses = some c → (s.client k').uses = some c → k = k') ∧
      ((∀ k, (s.client k).uses = none) → ∀ c ∈ s.pool.held, c ∈ s.handed) := by
  intro s
  have h : Inv cfg s := run_inv (fun s l hok h => h.step l hok) ls (inv_start cfg mem) hok
  refine ⟨fun k x hk => ?_, h.one, fun hnone c hc => ?_⟩
  · have hfits := h.fits k
    rw [hk] at hfits
    exact hfits x rfl
  · rcases h.taken c hc with hh | ⟨k, hk⟩
    · exact hh
    · rw [hnone k] at hk
      cases hk

/-- a pool of connections that serve five requests each, and what it asks of the world -/
def five : PoolConfig := { maxAliveTime := 30000, maxRequest := 5 }

def up (fresh : Ptr) : Env := { isConnected := fun _ => true, now := 1000000, outcome := .connected, fresh := fresh }

/-- request 0 makes a connection, and request 1 uses it after it -/
def twice : List Label :=
  [.start 0 1000000, .pool 0 (up 7), .pool 0 (up 7), .pool 0 (up 7), .pool 0 (up 7), .pool 0 (up 7), .got 0 7, .send 0 .whole,
    .answer 7, .recv 0 .response, .release 0 0, .pool 0 (up 8), .pool 0 (up 8), .start 1 1000000, .pool 0 (up 8),
    .pool 0 (up 8), .pool 0 (up 8), .got 1 7, .send 1 .whole, .answer 7, .recv 1 .response, .release 1 0]

theorem responses_matched_twice :
    (run (step five) (start fun _ => {}) twice).client 1 = .returned ⟨.OK, some (some 1)⟩ ∧
      ∀ x, (run (step five) (start fun _ => {}) twice).client 1 = .returned ⟨.OK, some x⟩ → x = some 1 := by
  have hok : Along Ok (step five) (start fun _ => {}) twice := by
    refine ⟨trivial, trivial, trivial, trivial, trivial, trivial, trivial, trivial, trivial, trivial, trivial, trivial,
      trivial, trivial, trivial, trivial, trivial, trivial, trivial, trivial, trivial, trivial, trivial⟩
  exact ⟨by decide, (responses_matched five (fun _ => {}) twice hok).1 1⟩

/-- `ReleasePtr` finds the connection fit -/
theorem step_releasing {cfg : PoolConfig} {s : St} {c : Ptr} {env : Env} (hcalls : s.pool.calls = [.releasing c])
    (hfit : ¬unfit cfg { env with isConnected := fun c => (s.wire c).connected } c (s.pool.mem c).serve) :
    step cfg s (.pool 0 env) =
      { s with pool := { s.pool with mem := Function.update s.pool.mem c (s.pool.mem c).serve, calls := [.pushing c] } } := by
  have hnew : ∀ c', ¬(s.pool.alive c' = false ∧ s.pool.alive c' = true) := fun c' h => by
    rw [h.1] at h
    cases h.2
  simp [step, Pool.step, hcalls, PoolCall.step, hfit, hnew]

theorem step_pushing {cfg : PoolConfig} {s : St} {c : Ptr} {env : Env} (hcalls : s.pool.calls = [.pushing c]) :
    step cfg s (.pool 0 env) = { s with pool := { s.pool with conns := s.pool.conns ++ [c], calls := [] } } := by
  have hnew : ∀ c', ¬(s.pool.alive c' = false ∧ s.pool.alive c' = true) := fun c' h => by
    rw [h.1] at h
    cases h.2
  simp [step, Pool.step, hcalls, PoolCall.step, hnew]

/-- **Half a request.** `sendRequest` fails in the middle over a connection that lives on, as after a time limit for
sending. Nobody closes it, and as long as it is neither too old nor used up, it is idle again, with half a request on it.
-/
theorem torn_goes_back {cfg : PoolConfig} {s : St} {k i : ℕ} {c : Ptr} (hk : s.client k = .sending c)
    (hi : s.pool.held[i]? = some c) (hcalls : s.pool.calls = []) (hconn : (s.wire c).connected = true) (env : Env)
    (hfit : ¬unfit cfg { env with isConnected := fun _ => true } c (s.pool.mem c).serve) (zero : Bool) :
    let s' := run (step cfg) s [.send k (.failed zero true), .release k i, .pool 0 env, .pool 0 env]
    c ∈ s'.pool.conns ∧ (s'.wire c).connected = true ∧ (s'.wire c).astray = true ∧
      s'.client k = .returned ⟨sendError zero, none⟩ := by
  have hsend : step cfg s (.send k (.failed zero true)) =
      (s.setWire c { s.wire c with astray := true }).setClient k (.done c ⟨sendError zero, none⟩) := by
    simp [step, hk]
  obtain ⟨s2, hs2⟩ : ∃ s2, s2 = ({ s with pool := { s.pool with
      held := s.pool.held.eraseIdx i, calls := [.releasing c] } }.setWire c { s.wire c with astray := true }).setClient k
        (.returned ⟨sendError zero, none⟩) := ⟨_, rfl⟩
  have hrelease : step cfg ((s.setWire c { s.wire c with astray := true }).setClient k (.done c ⟨sendError zero, none⟩))
      (.release k i) = s2 := by
    rw [hs2]
    simp [step, St.setClient, St.setWire, hi, Pool.step, hcalls]
  have hcalls2 : s2.pool.calls = [.releasing c] := by
    rw [hs2]
    rfl
  have hwire2 : s2.wire c = { s.wire c with astray := true } := by
    rw [hs2]
    simp [St.setClient, St.setWire]
  have hfit2 : ¬unfit cfg { env with isConnected := fun c' => (s2.wire c').connected } c (s2.pool.mem c).serve := by
    have hmem2 : s2.pool.mem = s.pool.mem := by
      rw [hs2]
      rfl
    intro hbad
    refine hfit ?_
    simpa [unfit, hwire2, hconn, hmem2] using hbad
  simp only [run_cons, run_nil, hsend, hrelease]
  rw [step_releasing hcalls2 hfit2, step_pushing rfl]
  refine ⟨List.mem_append_right _ (List.mem_singleton_self c), ?_, ?_, ?_⟩
  · simpa [hwire2] using hconn
  · simp [hwire2]
  · rw [hs2]
    simp [St.setClient]

/-- the connection of request 0, which was cut short, is handed to request 1 -/
theorem torn_goes_back_seven :
    let s := run (step five) (start fun _ => {})
      [.start 0 1000000, .pool 0 (up 7), .pool 0 (up 7), .pool 0 (up 7), .pool 0 (up 7), .pool 0 (up 7), .got 0 7]
    let s' := run (step five) s [.send 0 (.failed false true), .release 0 0, .pool 0 (up 8), .pool 0 (up 8)]
    7 ∈ s'.pool.conns ∧ (s'.wire 7).connected = true ∧ (s'.wire 7).astray = true ∧
      s'.client 0 = .returned ⟨.SEND_SOCKET_ERROR, none⟩ :=
  torn_goes_back (c := 7) rfl rfl rfl rfl (up 8) (by decide) false

-- request 1 is answered, but nobody knows what the server has answered
example : (run (step five) (start fun _ => {})
    [.start 0 1000000, .pool 0 (up 7), .pool 0 (up 7), .pool 0 (up 7), .pool 0 (up 7), .pool 0 (up 7), .got 0 7,
      .send 0 (.failed false true), .release 0 0, .pool 0 (up 8), .pool 0 (up 8), .start 1 1000000, .pool 0 (up 8),
      .pool 0 (up 8), .pool 0 (up 8), .got 1 7, .send 1 .whole, .answer 7, .recv 1 .response, .release 1 0]).client 1 =
    .returned ⟨.OK, some none⟩ := by decide

end Sylar.ConnPool.Requests
