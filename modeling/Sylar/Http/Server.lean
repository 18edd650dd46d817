/-
`HttpServer::handleClient` (`http_server.cpp`): one connection, request after request.

Each turn calls `recvRequest`, hands the request and a new response to the servlets, sends the response, and stops
unless the server keeps connections and the request is not one that closes. `recvRequest` allocates its parser and its
buffer, so every turn starts with fresh memory (`Memory`), and what a read brought behind the end of a request is gone
with the buffer.

Servlets are the user's code; they and the sending of the response do not read from the connection and are left out,
apart from the response object they are given.

- `recvRequest_plain`: a read that starts with a well-formed head without a body gives its request, and the rest of
  the read is lost.
- `handleClient_length_le`: so there are at most as many requests as reads.
- `keepalive_iff`: all requests are delivered iff each comes in a read of its own and none but the last closes.
-/
import Mathlib.Tactic
import Sylar.Core.Scan
import Sylar.Core.Splice
import Sylar.Http.Message
import Sylar.Http.Stream
import Sylar.Http.RequestMachine
import Sylar.Http.RequestParser
import Sylar.Http.RequestHead
import Sylar.Http.Session

namespace Sylar.Http

open Sylar.Core Sylar.Core.Scan Sylar.Http.RequestMachine

/-- what `new` finds: the fields of the parser that nobody sets, and a buffer of `size` bytes -/
structure Memory (size : ℕ) where
  queryStart : ℕ
  uriRelaxed : Bool
  data : Bytes
  length_data : data.length = size

theorem recvHead_weight {d : HttpRequestParser} {data : Bytes} {offset : ℕ} {c c' : Conn}
    {x : HttpRequestParser × Bytes × ℕ} (h : recvHead d data offset c = (.ok x, c')) : c'.weight < c.weight := by
  induction hn : c.weight using Nat.strong_induction_on generalizing d data offset c with
  | _ n ih =>
    subst hn
    rcases hr : c.read (data.length - offset) with ⟨rt, bs, c₁⟩
    have hw := (read_weight c (data.length - offset)).2
    rw [hr] at hw
    rw [recvHead_of_read hr] at h
    split_ifs at h with hrt
    · simp at h
    have hlt : c₁.weight < c.weight := hw (by omega)
    cases hx : d.execute (splice data offset bs) (bs.length + offset) with
    | error e => rw [hx] at h; simp at h
    | ok y =>
      obtain ⟨d', data', n⟩ := y
      rw [hx] at h
      dsimp only at h
      split_ifs at h with h1 h2 h3
      · simp at h
      · simp at h
      · simp only [Prod.mk.injEq] at h
        rw [← h.2]
        exact hlt
      · exact (ih _ hlt h rfl).trans hlt

theorem recvBody_weight (r : HttpRequest) (data : Bytes) (offset : ℕ) (c : Conn) :
    (recvBody r data offset c).conn.weight ≤ c.weight := by
  simp only [recvBody, readFixSize]
  split_ifs
  all_goals first
    | exact le_refl _
    | exact readFixSizeLoop_weight _ _ _ _ _ _

/-- a request takes something from the peer -/
theorem recvRequest_weight {queryStart : ℕ} {uriRelaxed : Bool} {data : Bytes} {c : Conn} {r : HttpRequest}
    (h : (recvRequest queryStart uriRelaxed data c).result = .ok r) :
    (recvRequest queryStart uriRelaxed data c).conn.weight < c.weight := by
  unfold recvRequest at h ⊢
  rcases hh : recvHead (.new queryStart uriRelaxed) data 0 c with ⟨x, c'⟩
  rw [hh] at h
  cases x with
  | error e => simp at h
  | ok y => exact lt_of_le_of_lt (recvBody_weight _ _ _ _) (recvHead_weight hh)

/-- what became of a connection -/
structure Served where
  /-- the requests and the responses the servlets were given, in order -/
  exchanges : List (HttpRequest × HttpResponse)
  /-- how the last `recvRequest` failed, if it did -/
  stop : Option Stop
  conn : Conn
  /-- stores outside a body string -/
  spill : List (ℤ × Bytes)

/-- the turns from the memory `mem 0` on -/
def handleClient {size : ℕ} (isKeepAlive : Bool) (mem : ℕ → Memory size) (c : Conn) : Served :=
  let reply := recvRequest (mem 0).queryStart (mem 0).uriRelaxed (mem 0).data c
  match hr : reply.result with
  | .error .null => ⟨[], some .null, reply.conn.close, reply.spill⟩
  | .error e => ⟨[], some e, reply.conn, reply.spill⟩
  | .ok req =>
    let rsp : HttpResponse := { version := req.version, close := req.close || !isKeepAlive }
    if !isKeepAlive || req.close then ⟨[(req, rsp)], none, reply.conn.close, reply.spill⟩
    else
      let rest := handleClient isKeepAlive (fun k => mem (k + 1)) reply.conn
      ⟨(req, rsp) :: rest.exchanges, rest.stop, rest.conn, reply.spill ++ rest.spill⟩
termination_by c.weight
decreasing_by exact recvRequest_weight hr

/-- the requests, in order -/
def Served.requests (s : Served) : List HttpRequest := s.exchanges.map (·.1)

theorem handleClient_of_ok {size : ℕ} {isKeepAlive : Bool} {mem : ℕ → Memory size} {c c' : Conn} {req : HttpRequest}
    {spill : List (ℤ × Bytes)}
    (h : recvRequest (mem 0).queryStart (mem 0).uriRelaxed (mem 0).data c = ⟨.ok req, c', spill⟩) :
    (handleClient isKeepAlive mem c).requests =
      req :: if !isKeepAlive || req.close then [] else (handleClient isKeepAlive (fun k => mem (k + 1)) c').requests := by
  rw [handleClient]
  split
  · next hr => rw [h] at hr; cases hr
  · next hr => rw [h] at hr; cases hr
  · next req' hr =>
    rw [h] at hr
    obtain rfl := Except.ok.inj hr
    simp only [h]
    split_ifs <;> rfl

theorem handleClient_of_error {size : ℕ} {isKeepAlive : Bool} {mem : ℕ → Memory size} {c : Conn} {e : Stop}
    (h : (recvRequest (mem 0).queryStart (mem 0).uriRelaxed (mem 0).data c).result = .error e) :
    (handleClient isKeepAlive mem c).requests = [] := by
  rw [handleClient]
  split
  · rfl
  · rfl
  · next req hr => rw [h] at hr; cases hr

/-! ## One read -/

theorem init_getContentLength (r : HttpRequest) : r.init.getContentLength = r.getContentLength := by
  simp only [HttpRequest.init]
  split_ifs <;> rfl

/-- a well-formed request without a body -/
structure PlainRequest where
  bytes : Bytes
  request : HttpRequest
  wellFormed : WellFormed false bytes
  parsed : (parseRequest bytes).map HttpRequest.init = .ok request
  noBody : request.getContentLength = 0

section
variable (x : PlainRequest) {more data : Bytes} (rs : List Recv)
  (hfit : (x.bytes ++ more).length ≤ min data.length maxRead) (queryStart : ℕ) (uriRelaxed : Bool)
include hfit

/-- what the head loop makes of a read that starts with a request -/
theorem recvHead_plain :
    ∃ d data', parseRequest x.bytes = .ok d.data ∧
      recvHead (.new queryStart uriRelaxed) data 0 ⟨.data (x.bytes ++ more) :: rs, true⟩ =
        if (more.length : ℤ) = toInt32 data.length then (.error .null, ⟨rs, false⟩)
        else (.ok (d, data', more.length), ⟨rs, true⟩) := by
  obtain ⟨f, hh, hf⟩ := x.wellFormed.accepted
  have hmax : maxRead ≤ maxSize := by decide
  have hlen : x.bytes.length + more.length ≤ min data.length maxRead := by rwa [List.length_append] at hfit
  have hpos : 0 < x.bytes.length := Nat.pos_of_ne_zero (length_of_halts hh)
  obtain ⟨d, hx, herr, hcs, hparse⟩ := execute_head hh x.wellFormed.method (by omega) queryStart uriRelaxed more
    (data.drop (x.bytes ++ more).length)
  have hread : Conn.read ⟨.data (x.bytes ++ more) :: rs, true⟩ (data.length - 0) =
      (((x.bytes ++ more).length : ℤ), x.bytes ++ more, (⟨rs, true⟩ : Conn)) := by
    simp only [Conn.read, if_true, Nat.sub_zero, hfit]
  have hne : d.hasError = false := by
    simp only [HttpRequestParser.hasError, herr, hcs, decide_eq_false_iff_not, not_or, ne_eq, not_true_eq_false,
      not_false_eq_true, true_and]
    intro h0
    rw [h0] at hf
    exact absurd hf (by decide)
  have hfin : d.isFinished = true := by
    simp only [HttpRequestParser.isFinished, hcs, decide_eq_true_eq]
    exact .inr hf
  have hleft : (x.bytes ++ more).length - x.bytes.length = more.length := by rw [List.length_append]; omega
  obtain ⟨data', hexec⟩ : ∃ data', HttpRequestParser.execute (.new queryStart uriRelaxed) (splice data 0 (x.bytes ++ more))
      ((x.bytes ++ more).length + 0) = .ok (d, data', x.bytes.length) := by
    rw [HttpRequestParser.execute, splice_zero_eq, Nat.add_zero, hx]
    exact ⟨_, rfl⟩
  refine ⟨d, data', hparse, ?_⟩
  rw [recvHead_of_read hread, if_neg (by rw [List.length_append]; omega), hexec]
  simp only [hne, hfin, Bool.false_eq_true, if_false, if_true, Nat.add_zero, hleft]
  rfl

/-- **One read.** A read that starts with a request gives this request, unless its rest counts as a full buffer, and
the rest is lost. -/
theorem recvRequest_plain :
    recvRequest queryStart uriRelaxed data ⟨.data (x.bytes ++ more) :: rs, true⟩ =
      if (more.length : ℤ) = toInt32 data.length then ⟨.error .null, ⟨rs, false⟩, []⟩
      else ⟨.ok x.request, ⟨rs, true⟩, []⟩ := by
  obtain ⟨d, data', hparse, hhead⟩ := recvHead_plain x rs hfit queryStart uriRelaxed
  have hreq : d.data.init = x.request := by
    have := x.parsed
    rw [hparse] at this
    exact Except.ok.inj this
  have hzero : d.data.getContentLength = 0 := by rw [← init_getContentLength, hreq, x.noBody]
  rw [recvRequest, hhead]
  split_ifs
  · rfl
  · simp only [recvBody, hzero, hreq]
    rfl

end

/-! ## Whole connections -/

/-- the bytes of a read that brings the requests of `g` -/
def text (g : List PlainRequest) : Bytes := (g.map (·.bytes)).flatten

/-- a peer that sends the requests, each group of them in one read -/
def clientOf (groups : List (List PlainRequest)) : Conn := ⟨groups.map fun g => .data (text g), true⟩

/-- every group fits the buffer and an `int` -/
def Fits (size : ℕ) (groups : List (List PlainRequest)) : Prop := ∀ g ∈ groups, (text g).length ≤ min size maxRead

instance (size : ℕ) (groups : List (List PlainRequest)) : Decidable (Fits size groups) :=
  inferInstanceAs (Decidable (∀ g ∈ groups, _))

theorem handleClient_nil {size : ℕ} (isKeepAlive : Bool) (mem : ℕ → Memory size) :
    (handleClient isKeepAlive mem (clientOf [])).requests = [] := by
  apply handleClient_of_error
  rw [recvRequest, recvHead_of_read rfl]
  rfl

section
variable {size : ℕ} (mem : ℕ → Memory size)

/-- a turn of the loop: the first request of the read, and the next reads if it keeps the connection -/
theorem handleClient_cons (x : PlainRequest) {g : List PlainRequest} {groups : List (List PlainRequest)}
    (hfit : (text (x :: g)).length ≤ min size maxRead) :
    (handleClient true mem (clientOf ((x :: g) :: groups))).requests =
      if ((text g).length : ℤ) = toInt32 size then []
      else x.request :: if x.request.close then []
        else (handleClient true (fun k => mem (k + 1)) (clientOf groups)).requests := by
  have hsize := (mem 0).length_data
  have hbytes : text (x :: g) = x.bytes ++ text g := rfl
  rw [hbytes, ← hsize] at hfit
  have hreq := recvRequest_plain x (clientOf groups).recvs hfit (mem 0).queryStart (mem 0).uriRelaxed
  rw [hsize] at hreq
  by_cases hfull : ((text g).length : ℤ) = toInt32 size
  · rw [if_pos hfull] at hreq ⊢
    exact handleClient_of_error (congrArg Reply.result hreq)
  · rw [if_neg hfull] at hreq ⊢
    exact handleClient_of_ok hreq

/-- there are at most as many requests as reads -/
theorem handleClient_length_le {groups : List (List PlainRequest)} (hne : ∀ g ∈ groups, g ≠ [])
    (hfit : Fits size groups) :
    (handleClient true mem (clientOf groups)).requests.length ≤ groups.length := by
  induction groups generalizing mem with
  | nil => rw [handleClient_nil]; exact le_refl 0
  | cons g groups ih =>
    obtain ⟨x, g, rfl⟩ := List.exists_cons_of_ne_nil (hne g List.mem_cons_self)
    have hrest := ih (fun k => mem (k + 1)) (fun g' hg' => hne g' (List.mem_cons_of_mem _ hg'))
      (fun g' hg' => hfit g' (List.mem_cons_of_mem _ hg'))
    rw [handleClient_cons mem x (hfit _ List.mem_cons_self)]
    split_ifs
    · exact Nat.zero_le _
    · simp only [List.length_cons, List.length_nil]
      omega
    · simp only [List.length_cons]
      omega

/-- with one request in each read the loop goes on up to the first request that closes -/
theorem handleClient_singles {xs : List PlainRequest} (hfit : Fits size (xs.map fun x => [x])) :
    (handleClient true mem (clientOf (xs.map fun x => [x]))).requests = xs.map (·.request) ↔
      (∀ x ∈ xs.dropLast, x.request.close = false) ∧ (xs ≠ [] → toInt32 size ≠ 0) := by
  induction xs generalizing mem with
  | nil => simp [handleClient_nil]
  | cons x xs ih =>
    have hrest := ih (fun k => mem (k + 1)) fun g' hg' => hfit g' (List.mem_cons_of_mem _ hg')
    rw [List.map_cons, List.map_cons, handleClient_cons mem x (hfit _ List.mem_cons_self)]
    simp only [text, List.map_nil, List.flatten_nil, List.length_nil, Nat.cast_zero]
    by_cases hsize : toInt32 size = 0
    · simp [hsize]
    rw [if_neg (Ne.symm hsize)]
    cases xs with
    | nil =>
      rw [List.map_nil, handleClient_nil]
      simp [hsize]
    | cons y xs =>
      simp only [List.cons.injEq, true_and, List.dropLast_cons_cons, List.mem_cons, forall_eq_or_imp, ne_eq,
        reduceCtorEq, not_false_eq_true, forall_const, hsize, and_true] at hrest ⊢
      cases hclose : x.request.close with
      | true => simp
      | false =>
        simp only [Bool.false_eq_true, if_false, true_and]
        exact hrest

end

theorem exists_singles {groups : List (List PlainRequest)} (h : ∀ g ∈ groups, g.length = 1) :
    ∃ xs : List PlainRequest, groups = xs.map fun x => [x] := by
  induction groups with
  | nil => exact ⟨[], rfl⟩
  | cons g groups ih =>
    obtain ⟨x, rfl⟩ := List.length_eq_one_iff.mp (h g List.mem_cons_self)
    obtain ⟨xs, rfl⟩ := ih fun g' hg' => h g' (List.mem_cons_of_mem _ hg')
    exact ⟨x :: xs, rfl⟩

theorem flatten_singles (xs : List PlainRequest) : (xs.map fun x => [x]).flatten = xs := by
  induction xs with
  | nil => rfl
  | cons x xs ih => rw [List.map_cons, List.flatten_cons, ih, List.singleton_append]

theorem lengths_of_count {groups : List (List PlainRequest)} (hne : ∀ g ∈ groups, g ≠ []) :
    groups.length ≤ groups.flatten.length ∧ (groups.flatten.length ≤ groups.length → ∀ g ∈ groups, g.length = 1) := by
  induction groups with
  | nil => exact ⟨le_refl 0, fun _ g hg => absurd hg (by simp)⟩
  | cons g groups ih =>
    obtain ⟨h1, h2⟩ := ih fun g' hg' => hne g' (List.mem_cons_of_mem _ hg')
    have hpos : 0 < g.length := List.length_pos_iff.mpr (hne g List.mem_cons_self)
    simp only [List.length_cons, List.flatten_cons, List.length_append]
    refine ⟨by omega, fun hle g' hg' => ?_⟩
    rcases List.mem_cons.mp hg' with rfl | hg'
    · omega
    · exact h2 (by omega) g' hg'

/-- **Requests of one connection.** For every memory, every sequence of well-formed requests without bodies and every
grouping of it into reads that fit the buffer, a server that keeps connections delivers exactly this sequence iff each
request comes in a read of its own and none but the last closes (and the size of the buffer is not 0 as an `int`). -/
theorem keepalive_iff (size : ℕ) (mem : ℕ → Memory size) (groups : List (List PlainRequest))
    (hne : ∀ g ∈ groups, g ≠ [])
    (hfit : Fits size groups) :
    (handleClient true mem (clientOf groups)).requests = groups.flatten.map (·.request) ↔
      (∀ g ∈ groups, g.length = 1) ∧ (∀ x ∈ groups.flatten.dropLast, x.request.close = false) ∧
        (groups ≠ [] → toInt32 size ≠ 0) := by
  have hlengths := (lengths_of_count hne).2
  have hsingles : (∀ g ∈ groups, g.length = 1) →
      ((handleClient true mem (clientOf groups)).requests = groups.flatten.map (·.request) ↔
        (∀ x ∈ groups.flatten.dropLast, x.request.close = false) ∧ (groups ≠ [] → toInt32 size ≠ 0)) := by
    intro hone
    obtain ⟨xs, rfl⟩ := exists_singles hone
    have hnil : (xs.map fun x => [x]) ≠ [] ↔ xs ≠ [] := by simp
    rw [flatten_singles, handleClient_singles mem hfit, hnil]
  constructor
  · intro hall
    have hle := handleClient_length_le mem hne hfit
    rw [hall, List.length_map] at hle
    exact ⟨hlengths hle, (hsingles (hlengths hle)).mp hall⟩
  · rintro ⟨hone, hclose, hsize⟩
    exact (hsingles hone).mpr ⟨hclose, hsize⟩

/-- a request that keeps the connection -/
def getAlive : PlainRequest where
  bytes := ascii "GET / HTTP/1.1\r\nConnection: keep-alive\r\n\r\n"
  request := { close := false, headers := [(ascii "Connection", ascii "keep-alive")] }
  wellFormed := ⟨⟨348, by decide +kernel, by decide⟩, by decide⟩
  parsed := by decide +kernel
  noBody := by decide

/-- a buffer of the default size -/
def zeros : Memory (4 * 1024) := ⟨0, false, List.replicate (4 * 1024) 0, List.length_replicate⟩

/-- each in a read of its own, both are delivered -/
theorem keepalive_iff_two :
    (handleClient true (fun _ => zeros) (clientOf [[getAlive], [getAlive]])).requests =
      [getAlive.request, getAlive.request] :=
  (keepalive_iff (4 * 1024) (fun _ => zeros) [[getAlive], [getAlive]] (by decide) (by decide)).mpr (by decide)

/-- two requests in one read: the second one is lost -/
theorem pipelined_lost :
    (handleClient true (fun _ => zeros) (clientOf [[getAlive, getAlive]])).requests ≠
      [getAlive.request, getAlive.request] := by
  intro h
  have hle : (handleClient true (fun _ => zeros) (clientOf [[getAlive, getAlive]])).requests.length ≤ 1 :=
    handleClient_length_le (fun _ => zeros) (by decide) (by decide)
  rw [h] at hle
  exact absurd hle (by decide)

end Sylar.Http
