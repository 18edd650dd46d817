/-
Chunked responses: `recvResponse` never returns one.

`recvResponse` copies the parser behind the head and takes the length of every chunk and the end of the chunks from
the copy, while the size lines are parsed into the parser itself. The copy says what the head left in it:
`chunks_done` is 0, so the loop over the chunks has no way out but an error (`recvChunks_ne_ok`).

A head carries `Transfer-Encoding: chunked` if the machine takes the action `trans_chunked` on its path
(`ChunkedHead`). `recvHead_chunked` follows the head through any reads up to the copy: `chunked` is set, and
`chunk_size`, the only action that sets `chunks_done`, does not happen on the path of a head, nor behind it.
-/
import Mathlib.Tactic
import Sylar.Core.Scan
import Sylar.Core.Splice
import Sylar.Http.Message
import Sylar.Http.Stream
import Sylar.Http.ResponseMachine
import Sylar.Http.ResponseParser
import Sylar.Http.Connection

namespace Sylar.Http

open Sylar.Core Sylar.Core.Scan Sylar.Http.ResponseMachine

/-- **The loop over the chunks** ends only with an error, unless the copy says that the chunks are done. -/
theorem recvChunks_ne_ok {contentLen : ℤ} {d : HttpResponseParser} {data : Bytes} {len : ℕ} {body : Bytes} {c : Conn}
    (r : HttpResponseParser × Bytes) : (recvChunks contentLen false d data len body c).1 ≠ .ok r := by
  fun_induction recvChunks contentLen false d data len body c with
  | case1 => simp
  | case2 => simp
  | case3 => simp_all
  | case4 => assumption

/-! ## The head -/

/-- how `chunked` changes on the path of a head, where no chunk size is read -/
def chunkedTr : UInt8 → Action → Bool → Option Bool
  | _, .transChunked, _ => some true
  | _, .chunkSize, _ => none
  | _, _, a => some a

/-- a response head that the machine accepts, with `Transfer-Encoding: chunked` among its headers -/
structure ChunkedHead where
  bytes : Bytes
  final : ℕ
  accepted : halts machine isDone start bytes = some final
  carries : follow machine isDone chunkedTr start bytes false = some true

/-- the states of a head, without the first one -/
def headState (cs : ℕ) : Bool := decide (cs ≠ 1 ∧ cs ≠ 2 ∧ ¬(4 ≤ cs ∧ cs ≤ 7))

def notChunkSize (a : Action) : Bool := decide (a ≠ .chunkSize)

theorem headState_edges :
    checkEdges (fun cs e => !headState cs || (headState e.target && e.actions.all notChunkSize)) = true := by
  decide +kernel

theorem done_edges :
    checkEdges (fun _ e => if e.actions.any isDone then headState e.target else e.target != firstFinal) = true := by
  decide +kernel

/-- no chunk size is read from a state of a head on -/
theorem next_headState (cs : ℕ) (c : UInt8) (h : headState cs = true) :
    headState (machine.next cs c).1 = true ∧ (machine.next cs c).2.all notChunkSize = true := by
  show headState (next cs c).1 = true ∧ (next cs c).2.all notChunkSize = true
  rcases next_edges headState_edges cs c with he | ⟨e, hok, -, he⟩
  · rw [he]; decide
  · rw [he]
    simpa [h] using hok

/-- where a scan ends, and where it has not ended yet -/
theorem next_done (cs : ℕ) (c : UInt8) (herr : (machine.next cs c).1 ≠ machine.error) :
    if (machine.next cs c).2.any isDone then headState (machine.next cs c).1 = true else (machine.next cs c).1 ≠ firstFinal := by
  have herr : (next cs c).1 ≠ error := herr
  show if (next cs c).2.any isDone then headState (next cs c).1 = true else (next cs c).1 ≠ firstFinal
  rcases next_edges done_edges cs c with he | ⟨e, hok, -, he⟩
  · rw [he] at herr; exact absurd rfl herr
  · rw [he]
    dsimp only at hok ⊢
    split_ifs at hok ⊢ with hany
    · exact hok
    · simpa using hok

theorem headState_of_halts {cs f : ℕ} {u : Bytes} (h : halts machine isDone cs u = some f) : headState f = true := by
  induction u generalizing cs with
  | nil => exact absurd h (by simp [halts])
  | cons c u ih =>
    simp only [halts] at h
    split_ifs at h with herr hdone hemp
    · have := next_done cs c herr
      rw [if_pos hdone] at this
      rwa [← Option.some.inj h]
    · exact ih h

/-- before the scan ends the parser is not finished -/
theorem response_reads_not_final {cs cs' : ℕ} {u : Bytes} (h : reads machine isDone cs u = some cs') (hu : u ≠ []) :
    cs' ≠ error ∧ cs' ≠ firstFinal := by
  induction u generalizing cs with
  | nil => exact absurd rfl hu
  | cons c u ih =>
    simp only [reads] at h
    split_ifs at h with hstop
    obtain ⟨hdone, herr⟩ := not_or.mp hstop
    by_cases hnil : u = []
    · subst hnil
      obtain rfl : (machine.next cs c).1 = cs' := by simpa [reads] using h
      have := next_done cs c herr
      rw [if_neg hdone] at this
      exact ⟨herr, this⟩
    · exact ih h hnil

/-- what the value says of the parser -/
structure ChunkedIs (a : Bool) (p : ℕ) (d : HttpResponseParser) : Prop where
  within : Within p d
  chunked : d.parser.chunked = a
  chunksDone : d.parser.chunksDone = false

theorem chunkedIs_after {buffer : Bytes} {i : Action} {c : UInt8} {a a' : Bool} {p : ℕ} {d : HttpResponseParser}
    (h : ChunkedIs a p d) (ht : chunkedTr c i a = some a') : ChunkedIs a' p (d.after buffer i p) := by
  refine ⟨after_within buffer i h.within, ?_, ?_⟩
  · cases i with
    | transChunked => exact Option.some.inj ht
    | chunkSize => exact absurd ht (by simp [chunkedTr])
    | writeValue => rw [after_parser_data (by simp), h.chunked]; exact Option.some.inj ht
    | httpVersion => rw [after_parser_data (by simp), h.chunked]; exact Option.some.inj ht
    | _ => exact h.chunked.trans (Option.some.inj ht)
  · cases i with
    | chunkSize => exact absurd ht (by simp [chunkedTr])
    | writeValue => rw [after_parser_data (by simp), h.chunksDone]
    | httpVersion => rw [after_parser_data (by simp), h.chunksDone]
    | _ => exact h.chunksDone

def chunkedTracking (buffer : Bytes) : Tracking (HttpResponseParser.act buffer) isDone UInt8 Bool where
  tr := chunkedTr
  holds := ChunkedIs
  sym := fun p => if p ≤ maxSize then buffer[p]? else none
  ends := response_act_ends buffer
  sound := by
    intro i a a' p c d hsym h ht
    have hp : p ≤ maxSize := by
      by_contra hc
      rw [if_neg hc] at hsym
      cases hsym
    refine ⟨d.after buffer i p, ?_, chunkedIs_after h ht⟩
    rw [act_eq buffer i hp h.within]
    split_ifs
    · exact .inr rfl
    · exact .inl rfl

/-- `execute` on a part `u` of the path of a head that has been read, or on its end and what follows -/
theorem execute_chunked {d d₁ : HttpResponseParser} {buffer u data₁ : Bytes} (more : Bytes) {cs' n : ℕ} {a : Bool}
    (hx : d.execute buffer (u ++ more).length false = .ok (d₁, data₁, n)) (hbuf : buffer.take (u ++ more).length = u ++ more)
    (hmax : (u ++ more).length ≤ maxSize)
    (hu : reads machine isDone d.parser.cs u = some cs' ∧ more = [] ∨ halts machine isDone d.parser.cs u = some cs')
    (hf : follow machine isDone chunkedTr d.parser.cs u d.parser.chunked = some a) (hdone : d.parser.chunksDone = false) :
    n = u.length ∧ d₁.parser.cs = cs' ∧ d₁.parser.chunked = a ∧ d₁.parser.chunksDone = false := by
  obtain ⟨cs, d₂, hscan, rfl, -⟩ := exec_of_httpclientParserExecute (HttpResponseParser.execute_ok hx).1
  rw [hbuf] at hscan
  have hsym : ∀ k c, u[k]? = some c → (chunkedTracking buffer).sym (0 + k) = some c := by
    intro k c hk
    have hlt : k < u.length := (List.getElem?_eq_some_iff.mp hk).1
    rw [List.length_append] at hmax hbuf
    show (if 0 + k ≤ maxSize then buffer[0 + k]? else none) = some c
    rw [Nat.zero_add, if_pos (by omega), ← List.getElem?_take_of_lt (show k < u.length + more.length by omega), hbuf,
      List.getElem?_append_left hlt, hk]
  have hadv : ∀ a p c d, (chunkedTracking buffer).sym p = some c → (chunkedTracking buffer).holds a p d →
      (chunkedTracking buffer).holds a (p + 1) d :=
    fun a p c d _ h => ⟨h.within.mono (Nat.le_succ p), h.chunked, h.chunksDone⟩
  have hstart : (chunkedTracking buffer).holds d.parser.chunked 0 d.reset := ⟨reset_within d, rfl, hdone⟩
  have hpath : reads machine isDone d.parser.cs u = some cs' ∨ halts machine isDone d.parser.cs u = some cs' :=
    hu.imp And.left id
  obtain ⟨d₃, hfollow, hold⟩ := exec_follow (chunkedTracking buffer) hadv hpath hf hsym hstart
  have hold : ChunkedIs a (0 + u.length) d₃ := hold
  have hsame : exec machine (HttpResponseParser.act buffer) (u ++ more) 0 d.parser.cs d.reset =
      exec machine (HttpResponseParser.act buffer) u 0 d.parser.cs d.reset := by
    rcases hu with ⟨-, rfl⟩ | hh
    · rw [List.append_nil]
    · exact exec_append_of_halts (response_act_ends buffer) hh more 0 d.reset
  rw [hsame, hfollow, Nat.zero_add] at hscan
  simp only [Except.ok.injEq, Prod.mk.injEq] at hscan
  obtain ⟨rfl, rfl, rfl⟩ := hscan
  exact ⟨rfl, rfl, hold.chunked, hold.chunksDone⟩

/-- from a state of a head on, what `client_parser` will say stays as it is -/
structure Stale (d : HttpResponseParser) : Prop where
  state : headState d.parser.cs = true
  chunked : d.parser.chunked = true
  chunksDone : d.parser.chunksDone = false

theorem act_keeps {buffer : Bytes} {i : Action} {p : ℕ} {d d' : HttpResponseParser} (hi : notChunkSize i = true)
    (h : HttpResponseParser.act buffer i p d = .go d' ∨ HttpResponseParser.act buffer i p d = .fbreak d')
    (hd : d.parser.chunked = true ∧ d.parser.chunksDone = false) :
    d'.parser.chunked = true ∧ d'.parser.chunksDone = false := by
  cases i with
  | chunkSize => exact absurd hi (by decide)
  | writeValue => rw [(onResponseHttpField_keeps (by simpa [HttpResponseParser.act] using h)).1]; exact hd
  | reasonPhrase => rw [(onResponseReason_keeps (by simpa [HttpResponseParser.act] using h)).1]; exact hd
  | httpVersion => rw [(onResponseVersion_keeps (by simpa [HttpResponseParser.act] using h)).1]; exact hd
  | done =>
    simp only [HttpResponseParser.act, reduceCtorEq, Flow.fbreak.injEq, false_or] at h
    rw [← h]
    exact hd
  | transChunked =>
    simp only [HttpResponseParser.act, Flow.go.injEq, reduceCtorEq, or_false] at h
    rw [← h]
    exact ⟨rfl, hd.2⟩
  | _ =>
    simp only [HttpResponseParser.act, Flow.go.injEq, reduceCtorEq, or_false] at h
    rw [← h]
    exact hd

theorem Stale.execute {d d₁ : HttpResponseParser} {buffer data₁ : Bytes} {len n : ℕ} (h : Stale d)
    (hx : d.execute buffer len false = .ok (d₁, data₁, n)) : Stale d₁ := by
  obtain ⟨cs, d₂, hscan, rfl, -⟩ := exec_of_httpclientParserExecute (HttpResponseParser.execute_ok hx).1
  obtain ⟨h1, h2, h3⟩ := exec_invariant (I := fun d => d.parser.chunked = true ∧ d.parser.chunksDone = false)
    next_headState (fun i p d d' hi h hd => act_keeps hi h hd) hscan h.state ⟨h.chunked, h.chunksDone⟩
  exact ⟨h1, h2, h3⟩

theorem Stale.readParse {d : HttpResponseParser} (h : Stale d) {data : Bytes} {offset : ℕ} {c c' : Conn}
    {x : HttpResponseParser × Bytes × ℕ} (hx : readParse false d data offset c = (.ok x, c')) : Stale x.1 := by
  induction hn : c.weight using Nat.strong_induction_on generalizing d data offset c with
  | _ n ih =>
    subst hn
    obtain ⟨rt, bs, c₁, d₁, data₁, n, hr, hpos, hexec, hend⟩ := readParse_ok hx
    have hd₁ := h.execute hexec
    have hw := (read_weight c (buffSize data - offset)).2
    rw [hr] at hw
    rcases hend with ⟨-, rfl, -⟩ | ⟨-, hrest⟩
    · exact hd₁
    · exact ih _ (hw hpos) hd₁ hrest rfl

/-- **The head, in any reads.** With `v` of the head still to come, the loop of the head ends with a stale copy. -/
theorem recvHead_chunked {d : HttpResponseParser} {data v rest : Bytes} {c c' : Conn} {f : ℕ}
    {x : HttpResponseParser × Bytes × ℕ} (hc : c.available = v ++ rest)
    (hv : halts machine isDone d.parser.cs v = some f)
    (hf : follow machine isDone chunkedTr d.parser.cs v d.parser.chunked = some true)
    (hdone : d.parser.chunksDone = false) (hx : readParse false d data 0 c = (.ok x, c')) :
    x.1.parser.chunked = true ∧ x.1.parser.chunksDone = false := by
  induction hn : c.weight using Nat.strong_induction_on generalizing d data v c with
  | _ n ih =>
    subst hn
    obtain ⟨rt, bs, c₁, d₁, data₁, n, hr, hpos, hexec, hend⟩ := readParse_ok hx
    have hw := (read_weight c (buffSize data - 0)).2
    rw [hr] at hw
    obtain ⟨-, hbs, hfit, happ⟩ := read_pos hr hpos
    have hmax : bs.length ≤ maxSize := hfit.trans ((min_le_right _ _).trans (by decide))
    have htake := take_loaded data bs
    rw [hc] at happ
    rw [Nat.add_zero] at hexec htake
    -- the read stops inside the head, or it brings its end
    have hcut : (∃ y, v = bs ++ y ∧ y ≠ [] ∧ c₁.available = y ++ rest) ∨ ∃ more, bs = v ++ more := by
      rcases List.append_eq_append_iff.mp happ.symm with ⟨y, hvy, hrest⟩ | ⟨more, hbv, -⟩
      · by_cases hy : y = []
        · exact .inr ⟨[], by rw [hvy, hy, List.append_nil, List.append_nil]⟩
        · exact .inl ⟨y, hvy, hy, hrest⟩
      · exact .inr ⟨more, hbv⟩
    rcases hcut with ⟨y, rfl, hy, hrest⟩ | ⟨more, rfl⟩
    · obtain ⟨cs', hreads, hhalts⟩ := halts_split hv hy
      obtain ⟨a, ha, hfy⟩ := follow_append hreads hf
      have hbs' : bs ++ [] = bs := List.append_nil bs
      obtain ⟨hn, hcs, hch, hcd⟩ := execute_chunked [] (by rw [hbs']; exact hexec) (by rw [hbs', htake])
        (by rw [hbs']; exact hmax) (.inl ⟨hreads, rfl⟩) ha hdone
      obtain ⟨hne, hnf⟩ := response_reads_not_final hreads (List.ne_nil_of_length_pos hbs)
      rcases hend with ⟨hfin, -, -⟩ | ⟨-, hmore⟩
      · -- not finished here
        simp only [HttpResponseParser.isFinished, hcs, decide_eq_true_eq] at hfin
        exact absurd hfin (not_or.mpr ⟨hne, hnf⟩)
      · rw [hn, Nat.add_zero, Nat.sub_self] at hmore
        exact ih _ (hw hpos) hrest (by rw [hcs]; exact hhalts) (by rw [hcs, hch]; exact hfy) hcd hmore rfl
    · obtain ⟨-, hcs, hch, hcd⟩ := execute_chunked more hexec htake hmax (.inr hv) hf hdone
      have hstale : Stale d₁ := ⟨by rw [hcs]; exact headState_of_halts hv, hch, hcd⟩
      rcases hend with ⟨-, rfl, -⟩ | ⟨-, hmore⟩
      · exact ⟨hch, hcd⟩
      · exact ⟨(hstale.readParse hmore).chunked, (hstale.readParse hmore).chunksDone⟩

/-- behind a chunked head nothing is returned, whatever follows -/
theorem recvResponse_chunked (head : ChunkedHead) (rest : Bytes) {data : Bytes} {c : Conn}
    (hc : c.available = head.bytes ++ rest)
    (r : HttpResponse) : (recvResponse data c).result ≠ .ok r := by
  unfold recvResponse
  rcases hp : readParse false .new data 0 c with ⟨x, c'⟩
  cases x with
  | error e => simp
  | ok y =>
    obtain ⟨d, data', offset⟩ := y
    obtain ⟨hch, hcd⟩ := recvHead_chunked hc head.accepted head.carries rfl hp
    dsimp only at hch hcd ⊢
    rw [if_pos hch, hcd]
    have hno := @recvChunks_ne_ok d.parser.contentLen d data' offset [] c'
    rcases hr : recvChunks d.parser.contentLen false d data' offset [] c' with ⟨z, c''⟩
    rw [hr] at hno
    cases z with
    | error e => simp
    | ok z => exact absurd rfl (hno z)

/-! ## Encoded bodies -/

/-- the size of a chunk, in hexadecimal -/
def hexSize (n : ℕ) : Bytes := (Nat.toDigits 16 n).map fun c => c.toNat.toUInt8

/-- the chunks, each behind its size, and the empty one -/
def encodeChunks (chunks : List Bytes) : Bytes :=
  (chunks.map fun b => hexSize b.length ++ crlf ++ b ++ crlf).flatten ++ hexSize 0 ++ crlf ++ crlf

/-- `recvResponse` returns a response with the body of the chunks, and every store goes into the string -/
def Decodes (data : Bytes) (c : Conn) (chunks : List Bytes) : Prop :=
  (∃ r, (recvResponse data c).result = .ok r ∧ r.body = chunks.flatten) ∧ (recvResponse data c).spill = []

/-- **Chunked bodies.** For every chunked head, every list of chunks, every buffer and every way in which the peer
brings the bytes, the response is not decoded. -/
theorem chunked_never (data : Bytes) (head : ChunkedHead) (chunks : List Bytes) (c : Conn)
    (hc : c.available = head.bytes ++ encodeChunks chunks) : ¬Decodes data c chunks := by
  rintro ⟨⟨r, hr, -⟩, -⟩
  exact recvResponse_chunked head _ hc r hr

def okChunked : ChunkedHead where
  bytes := ascii "HTTP/1.1 200 OK\r\nTransfer-Encoding: chunked\r\n\r\n"
  final := firstFinal
  accepted := by decide +kernel
  carries := by decide +kernel

/-- a chunk of two bytes, all in one read -/
theorem chunked_never_two : ¬Decodes (List.replicate 4097 0)
    ⟨[.data (okChunked.bytes ++ encodeChunks [ascii "ab"])], true⟩ [ascii "ab"] :=
  chunked_never (List.replicate 4097 0) okChunked [ascii "ab"] _ (by decide +kernel)

/-- the head in one read, and the body in another -/
theorem chunked_lost : ¬Decodes (List.replicate 4097 0)
    ⟨[.data okChunked.bytes, .data (encodeChunks [ascii "ab"])], true⟩ [ascii "ab"] := by
  rintro ⟨⟨r, hr, -⟩, -⟩
  exact recvResponse_chunked okChunked (encodeChunks [ascii "ab"]) (by decide +kernel) r hr

end Sylar.Http
