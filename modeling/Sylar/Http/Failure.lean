/-
Failed responses: which ways out of `HttpConnection::recvResponse` close the connection.

Every `return nullptr` of the loop of the head and of the part for a body with a length stands behind a `close()`. Two
of the loops over the chunks do not: a size line that leaves the buffer full (`FullLine`), and a read that fails
inside a chunk (`RestFails`). A connection that is still open then is not deleted by the pool for what happened.

- `fullLine_iff`, `takeChunk_null_iff`: the two ways out, by what the peer sends. The first needs a buffer whose size
  is no `int` (`not_fullLine`).
- `closed_iff`: whenever `nullptr` is returned the connection is closed, and so deleted by `ReleasePtr`, iff the
  response is not given up inside its chunks (`OpenChunks`).
- `cut_in_chunk`: a peer that stops behind the size of a chunk.
-/
import Mathlib.Tactic
import Sylar.Http.Connection
import Sylar.Http.Pool

namespace Sylar.Http

open Sylar.Core Sylar.Core.Scan Sylar.Http.ResponseMachine

/-! ## One read -/

theorem read_connected (c : Conn) (n : ℕ) : (c.read n).2.2.connected = c.connected := by
  unfold Conn.read
  split_ifs with hconn
  · split
    · rfl
    · exact hconn.symm ▸ rfl
    · dsimp only
      split_ifs <;> rfl
  · rfl

theorem connected_of_read {c c' : Conn} {n : ℕ} {rt : ℤ} {bs : Bytes} (hr : c.read n = (rt, bs, c')) (hpos : 0 < rt) :
    c.connected = true ∧ c'.connected = true := by
  have hsame := read_connected c n
  rw [hr] at hsame
  have hconn : c.connected = true := by
    by_contra hno
    rw [Conn.read, if_neg hno] at hr
    injection hr with hrt
    omega
  exact ⟨hconn, hsame.trans hconn⟩

/-! ## A call of the parser

No exception is a `nullptr`. -/

/-- a text that is too long raises `std::length_error` -/
theorem str_error {buffer : Bytes} {start len : ℕ} {e : Stop} (h : str buffer start len = .error e) :
    e = .lengthError := by
  unfold str at h
  split_ifs at h
  exact (Except.error.inj h).symm

theorem map_str_error {β : Type} {buffer : Bytes} {start len : ℕ} {f : Bytes → β} {e : Stop}
    (h : (str buffer start len).map f = .error e) : e = .lengthError := by
  cases hs : str buffer start len with
  | ok s => rw [hs] at h; cases h
  | error e' =>
    rw [hs] at h
    have he : e' = e := Except.error.inj h
    exact he ▸ str_error hs

/-- an action raises nothing else -/
theorem act_raise {buffer : Bytes} {a : Action} {p : ℕ} {d : HttpResponseParser} {e : Stop}
    (h : HttpResponseParser.act buffer a p d = .raise e) : e = .lengthError := by
  cases a with
  | writeValue =>
    simp only [HttpResponseParser.act, Flow.ofExcept_eq_raise, onResponseHttpField] at h
    split_ifs at h
    cases hk : str buffer d.parser.fieldStart d.parser.fieldLen with
    | ok k => rw [hk] at h; exact map_str_error h
    | error e' =>
      rw [hk] at h
      have he : e' = e := Except.error.inj h
      exact he ▸ str_error hk
  | reasonPhrase =>
    simp only [HttpResponseParser.act, Flow.ofExcept_eq_raise] at h
    exact map_str_error h
  | httpVersion =>
    simp only [HttpResponseParser.act, Flow.ofExcept_eq_raise, onResponseVersion] at h
    split_ifs at h
    exact map_str_error h
  | _ => simp [HttpResponseParser.act] at h

theorem execute_ne_null (d : HttpResponseParser) (data : Bytes) (len : ℕ) (chunk : Bool) :
    d.execute data len chunk ≠ .error .null := by
  intro h
  unfold HttpResponseParser.execute at h
  generalize (if chunk then { d with parser := .init } else d) = d₁ at h
  cases hx : httpclientParserExecute d₁ data len with
  | ok y => rw [hx] at h; cases h
  | error e =>
    rw [hx] at h
    have he : e = .null := Except.error.inj h
    rw [he] at hx
    unfold httpclientParserExecute at hx
    by_cases hassert : data[len]? = some 0 ∧ toInt32 len = len
    swap
    · rw [if_neg hassert] at hx
      cases hx
    rw [if_pos hassert] at hx
    cases hs : exec machine (HttpResponseParser.act data) (data.take len) 0 d₁.parser.cs d₁.reset with
    | error e' =>
      rw [hs] at hx
      obtain ⟨a, q, d', ha⟩ := exec_raise hs
      have hnull : e' = .null := Except.error.inj hx
      rw [hnull] at ha
      cases act_raise ha
    | ok r =>
      rw [hs] at hx
      dsimp only at hx
      split_ifs at hx <;> cases hx

/-- a call that returns has scanned, from either parser -/
theorem execute_scan {d d' : HttpResponseParser} {data data' : Bytes} {len n : ℕ} {chunk : Bool}
    (h : d.execute data len chunk = .ok (d', data', n)) :
    ∃ (d₀ : HttpResponseParser) (cs : ℕ) (d₁ : HttpResponseParser),
      exec machine (HttpResponseParser.act data) (data.take len) 0 d₀.parser.cs d₀.reset = .ok (n, cs, d₁) ∧
      d' = d₁.stopped cs n ∧ n ≤ len ∧ data' = splice data 0 ((data.drop n).take (len - n)) := by
  unfold HttpResponseParser.execute at h
  generalize (if chunk then { d with parser := .init } else d) = d₀ at h
  cases hx : httpclientParserExecute d₀ data len with
  | error e => rw [hx] at h; cases h
  | ok r =>
    obtain ⟨d₂, n₂⟩ := r
    rw [hx] at h
    simp only [Except.ok.injEq, Prod.mk.injEq] at h
    obtain ⟨rfl, rfl, rfl⟩ := h
    obtain ⟨cs, d₁, hscan, hd, hn⟩ := exec_of_httpclientParserExecute hx
    exact ⟨d₀, cs, d₁, hscan, hd, hn, rfl⟩

/-! ## Size lines -/

/-- a turn of the loop of a size line, up to the test for a full buffer -/
structure SizeTurn (d : HttpResponseParser) (data : Bytes) (offset : ℕ) (c : Conn) (d' : HttpResponseParser) (data' : Bytes)
    (offset' : ℕ) (c' : Conn) : Prop where
  turn : ∃ rt bs n, c.read (buffSize data - offset) = (rt, bs, c') ∧ 0 < rt ∧
    d.execute ((splice data offset bs).set (bs.length + offset) 0) (bs.length + offset) true = .ok (d', data', n) ∧
    offset' = bs.length + offset - n
  noError : d'.hasError = false

/-- the loop comes to a buffer that is full of unparsed bytes -/
inductive FullLine : HttpResponseParser → Bytes → ℕ → Conn → Prop
  | here {d data offset c d' data' offset' c'} (ht : SizeTurn d data offset c d' data' offset' c')
      (hfull : (offset' : ℤ) = toInt32 (buffSize data)) : FullLine d data offset c
  | later {d data offset c d' data' offset' c'} (ht : SizeTurn d data offset c d' data' offset' c')
      (hroom : (offset' : ℤ) ≠ toInt32 (buffSize data)) (hfin : d'.isFinished = false)
      (h : FullLine d' data' offset' c') : FullLine d data offset c

section
variable {d d' : HttpResponseParser} {data data' : Bytes} {offset offset' : ℕ} {c c' : Conn}

theorem SizeTurn.connected (h : SizeTurn d data offset c d' data' offset' c') : c'.connected = true := by
  obtain ⟨rt, bs, n, hr, hpos, -, -⟩ := h.turn
  exact (connected_of_read hr hpos).2

theorem SizeTurn.weight (h : SizeTurn d data offset c d' data' offset' c') : c'.weight < c.weight := by
  obtain ⟨rt, bs, n, hr, hpos, -, -⟩ := h.turn
  have hw := (read_weight c (buffSize data - offset)).2
  rw [hr] at hw
  exact hw hpos

/-- a turn without an error decides how the loop goes on -/
theorem readParse_of_turn (h : SizeTurn d data offset c d' data' offset' c') :
    readParse true d data offset c =
      if (offset' : ℤ) = toInt32 (buffSize data) then (.error .null, c')
      else if d'.isFinished then (.ok (d', data', offset'), c') else readParse true d' data' offset' c' := by
  obtain ⟨rt, bs, n, hr, hpos, hx, rfl⟩ := h.turn
  rw [readParse_of_read hr, if_neg (not_le.mpr hpos), hx]
  dsimp only
  rw [if_neg (by rw [h.noError]; exact Bool.false_ne_true), if_pos rfl]

/-- with a turn that has an error, or none, `nullptr` is returned behind a `close()` -/
theorem turn_of_open (hnull : (readParse true d data offset c).1 = .error .null)
    (hopen : (readParse true d data offset c).2.connected = true) :
    ∃ d' data' offset' c', SizeTurn d data offset c d' data' offset' c' := by
  rcases hr : c.read (buffSize data - offset) with ⟨rt, bs, c₁⟩
  rw [readParse_of_read hr] at hnull hopen
  by_cases hrt : rt ≤ 0
  · rw [if_pos hrt] at hopen
    cases hopen
  rw [if_neg hrt] at hnull hopen
  cases hx : d.execute ((splice data offset bs).set (bs.length + offset) 0) (bs.length + offset) true with
  | error e =>
    rw [hx] at hnull
    have he : e = .null := Except.error.inj hnull
    rw [he] at hx
    exact absurd hx (execute_ne_null d _ _ true)
  | ok y =>
    obtain ⟨d', data', n⟩ := y
    rw [hx] at hopen
    dsimp only at hopen
    cases herr : d'.hasError with
    | true =>
      rw [if_pos herr] at hopen
      cases hopen
    | false => exact ⟨d', data', _, c₁, ⟨rt, bs, n, hr, not_le.mp hrt, hx, rfl⟩, herr⟩

/-- a turn parses a byte, and keeps the buffer -/
theorem SizeTurn.parsed (h : SizeTurn d data offset c d' data' offset' c') (hoff : offset ≤ buffSize data) :
    offset' < buffSize data ∧ buffSize data' = buffSize data := by
  obtain ⟨rt, bs, n, hr, hpos, hx, rfl⟩ := h.turn
  obtain ⟨-, hbs, hfit, -⟩ := read_pos hr hpos
  have hroom : bs.length ≤ buffSize data - offset := hfit.trans (min_le_left _ _)
  have hsize : buffSize data = data.length - 1 := rfl
  obtain ⟨d₀, cs, d₁, hscan, rfl, hn, rfl⟩ := execute_scan hx
  have hblen : ((splice data offset bs).set (bs.length + offset) 0).length = data.length := by
    rw [List.length_set, splice_length_of_le _ _ _ (by omega)]
  have hcs : cs ≠ machine.error := by
    intro herr
    have hno := h.noError
    simp only [HttpResponseParser.hasError, decide_eq_false_iff_not, not_or] at hno
    exact hno.2 herr
  have hprogress : 0 < n := by
    rcases ht : ((splice data offset bs).set (bs.length + offset) 0).take (bs.length + offset) with - | ⟨x, w⟩
    · have := congrArg List.length ht
      rw [List.length_take, hblen, List.length_nil] at this
      omega
    · rw [ht] at hscan
      exact exec_progress hscan hcs
  refine ⟨by omega, ?_⟩
  rw [buffSize, splice_length_of_le, hblen, hsize]
  rw [List.length_take, List.length_drop, hblen]
  omega

/-- with a size that is an `int` the buffer is never full behind a turn -/
theorem not_fullLine (hsize : buffSize data < 2147483648) (hoff : offset ≤ buffSize data) :
    ¬FullLine d data offset c := by
  intro h
  induction h with
  | here ht hfull =>
    rw [toInt32_of_lt (by omega) (by omega)] at hfull
    have := (ht.parsed hoff).1
    omega
  | later ht _ _ _ ih =>
    obtain ⟨hlt, hsame⟩ := ht.parsed hoff
    exact ih (by omega) (by omega)

/-- **A size line** ends the response with the connection open iff it leaves the buffer full. -/
theorem fullLine_iff : ((readParse true d data offset c).1 = .error .null ∧
    (readParse true d data offset c).2.connected = true) ↔ FullLine d data offset c := by
  constructor
  · rintro ⟨hnull, hopen⟩
    induction hw : c.weight using Nat.strong_induction_on generalizing d data offset c with
    | _ w ih =>
      subst hw
      obtain ⟨d', data', offset', c', ht⟩ := turn_of_open hnull hopen
      rw [readParse_of_turn ht] at hnull hopen
      by_cases hfull : (offset' : ℤ) = toInt32 (buffSize data)
      · exact .here ht hfull
      rw [if_neg hfull] at hnull hopen
      cases hfin : d'.isFinished with
      | true =>
        rw [hfin, if_pos rfl] at hnull
        cases hnull
      | false =>
        rw [hfin, if_neg Bool.false_ne_true] at hnull hopen
        exact .later ht hfull hfin (ih _ ht.weight hnull hopen rfl)
  · intro h
    induction h with
    | here ht hfull =>
      rw [readParse_of_turn ht, if_pos hfull]
      exact ⟨rfl, ht.connected⟩
    | later ht hroom hfin _ ih =>
      rw [readParse_of_turn ht, if_neg hroom, hfin, if_neg Bool.false_ne_true]
      exact ih

end

/-! ## The rest of a chunk -/

/-- the peer stops before `left` bytes of a chunk, or they are read into no room -/
def RestFails (data : Bytes) (left : ℤ) (c : Conn) : Prop :=
  0 < left ∧ 0 ≤ toInt32 (buffSize data) ∧ (toInt32 (buffSize data) = 0 ∨ (c.available.length : ℤ) < left)

theorem readLeft_connected (body data : Bytes) (left : ℤ) (c : Conn) :
    (readLeft body data left c).2.connected = c.connected := by
  fun_induction readLeft body data left c with
  | case1 => rfl
  | case2 body data left c hleft size n hn rt bs c' hr hrt =>
    have hsame := read_connected c n.toNat
    rwa [hr] at hsame
  | case3 body data left c hleft size n hn rt bs c' hr hrt ih =>
    have hsame := read_connected c n.toNat
    rw [hr] at hsame
    exact ih.trans hsame
  | case4 => rfl

/-- **The rest of a chunk** ends the response with `nullptr` iff the peer stops inside it; nothing is closed. -/
theorem readLeft_null_iff (body data : Bytes) (left : ℤ) (c : Conn) :
    (readLeft body data left c).1 = .error .null ↔ RestFails data left c := by
  fun_induction readLeft body data left c with
  | case1 body data left c hleft size n hn =>
    refine iff_of_false (by simp) ?_
    rintro ⟨-, hsize, -⟩
    have hn : (if size < left then size else left) < 0 := hn
    split_ifs at hn
    · exact absurd hn (not_lt.mpr hsize)
    · omega
  | case2 body data left c hleft size n hn rt bs c' hr hrt =>
    refine iff_of_true rfl ⟨hleft, ?_, ?_⟩
    · have hn : ¬(if size < left then size else left) < 0 := hn
      show 0 ≤ size
      split_ifs at hn <;> omega
    · rcases Nat.eq_zero_or_pos n.toNat with hzero | hpos
      · left
        show size = 0
        have hzero : (if size < left then size else left) = 0 := show n = 0 by omega
        split_ifs at hzero <;> omega
      · right
        rw [read_nonpos hr hpos hrt]
        exact hleft
  | case3 body data left c hleft size n hn rt bs c' hr hrt ih =>
    obtain ⟨hlen, hbs, hfit, happ⟩ := read_pos hr (not_le.mp hrt)
    have hnsize : n ≤ size := by
      show (if size < left then size else left) ≤ size
      split_ifs <;> omega
    have hsize : size ≤ buffSize data := toInt32_le (Int.natCast_nonneg _)
    have hroom : bs.length ≤ n.toNat := hfit.trans (min_le_left _ _)
    have hbuff : buffSize (splice data 0 bs) = buffSize data := by
      have hb : buffSize data = data.length - 1 := rfl
      rw [buffSize, splice_length_of_le _ _ _ (by omega), hb]
    have hcount : (c.available.length : ℤ) = bs.length + c'.available.length := by
      rw [happ, List.length_append, Nat.cast_add]
    rw [ih, RestFails, RestFails, hbuff, hcount]
    show 0 < left - rt ∧ 0 ≤ size ∧ (size = 0 ∨ (c'.available.length : ℤ) < left - rt) ↔
      0 < left ∧ 0 ≤ size ∧ (size = 0 ∨ (bs.length : ℤ) + c'.available.length < left)
    omega
  | case4 body data left c hleft =>
    refine iff_of_false (by simp) ?_
    rintro ⟨hpos, -⟩
    exact hleft hpos

/-- a chunk ends the response with `nullptr` iff more of it is to come and the peer stops inside that -/
theorem takeChunk_null_iff {contentLen : ℤ} {data : Bytes} {len : ℕ} {body : Bytes} {c : Conn} :
    (takeChunk contentLen data len body c).1 = .error .null ↔
      contentLen + 2 ≤ 2147483647 ∧ RestFails data (contentLen + 2 - len) c := by
  have hleft := readLeft_null_iff (body ++ data.take len) data (contentLen - len + 2) c
  have hcast : contentLen + 2 - len = contentLen - len + 2 := by omega
  unfold takeChunk
  by_cases hbig : 2147483647 < contentLen + 2
  · rw [if_pos hbig]
    exact iff_of_false (by simp) (fun h => absurd h.1 (not_le.mpr hbig))
  rw [if_neg hbig]
  by_cases hin : contentLen + 2 ≤ len
  · rw [if_pos hin]
    refine iff_of_false (by split_ifs <;> simp) ?_
    rintro ⟨-, hpos, -⟩
    omega
  rw [if_neg hin, hcast]
  rcases hr : readLeft (body ++ data.take len) data (contentLen - len + 2) c with ⟨x, c'⟩
  rw [hr] at hleft
  cases x with
  | error e =>
    have hnull : ∀ {β : Type}, (Except.error e : Except Stop β) = .error .null ↔ e = .null := by simp
    rw [hnull] at hleft
    rw [hnull, hleft]
    exact ⟨fun h => ⟨not_lt.mp hbig, h⟩, fun h => h.2⟩
  | ok y =>
    refine iff_of_false ?_ ?_
    · dsimp only
      split_ifs <;> simp
    · intro h
      cases hleft.mpr h.2

theorem takeChunk_connected (contentLen : ℤ) (data : Bytes) (len : ℕ) (body : Bytes) (c : Conn) :
    (takeChunk contentLen data len body c).2.connected = c.connected := by
  have hleft := readLeft_connected (body ++ data.take len) data (contentLen - len + 2) c
  unfold takeChunk
  rcases hr : readLeft (body ++ data.take len) data (contentLen - len + 2) c with ⟨x, c'⟩
  rw [hr] at hleft
  cases x with
  | error e => split_ifs <;> first | rfl | exact hleft
  | ok y =>
    dsimp only
    split_ifs <;> first | rfl | exact hleft

/-! ## The loop over the chunks -/

/-- the loop gives up with the connection open: at a size line, in the rest of a chunk, or behind a whole chunk -/
inductive OpenChunks (contentLen : ℤ) (chunksDone : Bool) : HttpResponseParser → Bytes → ℕ → Bytes → Conn → Prop
  | line {d data len body c} (h : FullLine d data len c) : OpenChunks contentLen chunksDone d data len body c
  | rest {d data len body c d' data' len' c'} (hp : readParse true d data len c = (.ok (d', data', len'), c'))
      (hlen : contentLen + 2 ≤ 2147483647) (h : RestFails data' (contentLen + 2 - len') c') :
      OpenChunks contentLen chunksDone d data len body c
  | chunk {d data len body c d' data' len' c' body' data'' len'' c''}
      (hp : readParse true d data len c = (.ok (d', data', len'), c'))
      (ht : takeChunk contentLen data' len' body c' = (.ok (body', data'', len''), c'')) (hmore : chunksDone = false)
      (h : OpenChunks contentLen chunksDone d' data'' len'' body' c'') : OpenChunks contentLen chunksDone d data len body c

section
variable {contentLen : ℤ} {chunksDone : Bool} {d : HttpResponseParser} {data : Bytes} {len : ℕ} {body : Bytes} {c : Conn}

/-- one turn of the loop -/
theorem recvChunks_turn : recvChunks contentLen chunksDone d data len body c =
    match readParse true d data len c with
    | (.error e, c') => (.error e, c')
    | (.ok (d', data', len'), c') =>
      match takeChunk contentLen data' len' body c' with
      | (.error e, c'') => (.error e, c'')
      | (.ok (body', data'', len''), c'') =>
        if chunksDone then (.ok (d', body'), c'') else recvChunks contentLen chunksDone d' data'' len'' body' c'' := by
  rw [recvChunks]
  split
  · next hp => rw [hp]
  · next hp =>
    rw [hp]
    dsimp only
    split
    · next ht => rw [ht]
    · next ht => rw [ht]

/-- a size line that has been read came over an open connection -/
theorem readParse_connected {chunk : Bool} {c' : Conn} {x : HttpResponseParser × Bytes × ℕ}
    (h : readParse chunk d data len c = (.ok x, c')) : c'.connected = true := by
  induction hw : c.weight using Nat.strong_induction_on generalizing d data len c with
  | _ w ih =>
    subst hw
    obtain ⟨rt, bs, c₁, d₁, data₁, n, hr, hpos, -, hend⟩ := readParse_ok h
    have hweight := (read_weight c (buffSize data - len)).2
    rw [hr] at hweight
    rcases hend with ⟨-, -, rfl⟩ | ⟨-, hrest⟩
    · exact (connected_of_read hr hpos).2
    · exact ih _ (hweight hpos) hrest rfl

/-- at a size line that is not read, only that line decides -/
theorem openChunks_of_error {e : Stop} {c' : Conn} (hp : readParse true d data len c = (.error e, c')) :
    OpenChunks contentLen chunksDone d data len body c ↔ FullLine d data len c := by
  constructor
  · intro h
    cases h with
    | line h => exact h
    | rest hp' => rw [hp] at hp'; cases hp'
    | chunk hp' => rw [hp] at hp'; cases hp'
  · exact .line

/-- behind a size line, the rest of the chunk or the loop behind it decides -/
theorem openChunks_of_ok {d' : HttpResponseParser} {data' : Bytes} {len' : ℕ} {c' : Conn}
    (hp : readParse true d data len c = (.ok (d', data', len'), c')) :
    OpenChunks contentLen chunksDone d data len body c ↔
      (takeChunk contentLen data' len' body c').1 = .error .null ∨
        ∃ body' data'' len'' c'', takeChunk contentLen data' len' body c' = (.ok (body', data'', len''), c'') ∧
          chunksDone = false ∧ OpenChunks contentLen chunksDone d' data'' len'' body' c'' := by
  rw [takeChunk_null_iff]
  constructor
  · intro h
    cases h with
    | line h =>
      have hnull := (fullLine_iff.mpr h).1
      rw [hp] at hnull
      cases hnull
    | rest hp' hbig h =>
      rw [hp] at hp'
      cases hp'
      exact .inl ⟨hbig, h⟩
    | chunk hp' ht hmore h =>
      rw [hp] at hp'
      cases hp'
      exact .inr ⟨_, _, _, _, ht, hmore, h⟩
  · rintro (⟨hbig, h⟩ | ⟨_, _, _, _, ht, hmore, h⟩)
    · exact .rest hp hbig h
    · exact .chunk hp ht hmore h

/-- **The loop over the chunks** gives up with the connection open iff it comes to one of its two ways out. -/
theorem openChunks_iff : ((recvChunks contentLen chunksDone d data len body c).1 = .error .null ∧
    (recvChunks contentLen chunksDone d data len body c).2.connected = true) ↔
      OpenChunks contentLen chunksDone d data len body c := by
  induction hw : c.weight using Nat.strong_induction_on generalizing d data len body c with
  | _ w ih =>
    subst hw
    rw [recvChunks_turn]
    rcases hp : readParse true d data len c with ⟨e | ⟨d', data', len'⟩, c'⟩
    · have hline := @fullLine_iff d data len c
      rw [hp] at hline
      rw [openChunks_of_error hp, ← hline]
      dsimp only
      rw [Except.error.injEq, Except.error.injEq]
    have hc' : c'.connected = true := readParse_connected hp
    have hopen := takeChunk_connected contentLen data' len' body c'
    have hweight : (takeChunk contentLen data' len' body c').2.weight < c.weight :=
      lt_of_le_of_lt (takeChunk_weight contentLen data' len' body c') (readParse_weight hp)
    rw [openChunks_of_ok hp]
    dsimp only
    rcases ht : takeChunk contentLen data' len' body c' with ⟨e | ⟨body', data'', len''⟩, c''⟩
    · rw [ht] at hopen
      constructor
      · rintro ⟨he, -⟩
        exact .inl (congrArg Except.error (Except.error.inj he))
      · rintro (he | ⟨_, _, _, _, hok, -⟩)
        · exact ⟨congrArg Except.error (Except.error.inj he), hopen.trans hc'⟩
        · cases hok
    rw [ht] at hweight
    have hrest := @ih c''.weight hweight d' data'' len'' body' c'' rfl
    have hnext : ((.ok (body', data'', len''), c'') : Except Stop (Bytes × Bytes × ℕ) × Conn).1 ≠ .error .null := by
      intro h
      cases h
    dsimp only
    constructor
    · intro h
      cases hdone : chunksDone with
      | true =>
        rw [hdone, if_pos rfl] at h
        cases h.1
      | false =>
        rw [hdone, if_neg Bool.false_ne_true] at h
        rw [hdone] at hrest
        exact .inr ⟨_, _, _, _, rfl, rfl, hrest.mp h⟩
    · rintro (h | ⟨_, _, _, _, hok, hmore, h⟩)
      · exact absurd h hnext
      · cases hok
        rw [if_neg (Bool.eq_false_iff.mp hmore)]
        exact hrest.mpr h

end

/-! ## The response -/

/-- the loop of the head closes the connection -/
theorem readParse_head_closed {d : HttpResponseParser} {data : Bytes} {offset : ℕ} {c : Conn}
    (h : (readParse false d data offset c).1 = .error .null) :
    (readParse false d data offset c).2.connected = false := by
  induction hw : c.weight using Nat.strong_induction_on generalizing d data offset c with
  | _ w ih =>
    subst hw
    rcases hr : c.read (buffSize data - offset) with ⟨rt, bs, c₁⟩
    have hweight := (read_weight c (buffSize data - offset)).2
    rw [hr] at hweight
    rw [readParse_of_read hr] at h ⊢
    by_cases hrt : rt ≤ 0
    · rw [if_pos hrt]
      rfl
    rw [if_neg hrt] at h ⊢
    cases hx : d.execute ((splice data offset bs).set (bs.length + offset) 0) (bs.length + offset) false with
    | error e =>
      rw [hx] at h
      have he : e = .null := Except.error.inj h
      rw [he] at hx
      exact absurd hx (execute_ne_null d _ _ false)
    | ok y =>
      obtain ⟨d', data', n⟩ := y
      rw [hx] at h
      dsimp only at h ⊢
      by_cases herr : d'.hasError = true
      · rw [if_pos herr]
        rfl
      rw [if_neg herr] at h ⊢
      by_cases hfull : ((bs.length + offset - n : ℕ) : ℤ) = toInt32 (buffSize data)
      · rw [if_pos hfull]
        rfl
      rw [if_neg hfull] at h ⊢
      by_cases hfin : d'.isFinished = true
      · rw [if_pos hfin] at h
        cases h
      rw [if_neg hfin] at h ⊢
      exact ih _ (hweight (not_le.mp hrt)) h rfl

theorem recvFixed_closed {r : HttpResponse} {data : Bytes} {offset : ℕ} {c : Conn}
    (h : (recvFixed r data offset c).result = .error .null) : (recvFixed r data offset c).conn.connected = false := by
  unfold recvFixed at h ⊢
  dsimp only at h ⊢
  split_ifs at h ⊢ <;> rfl

/-- a chunked response is given up with the connection open -/
def GivenUpOpen (data : Bytes) (c : Conn) : Prop :=
  ∃ d data' offset c', readParse false .new data 0 c = (.ok (d, data', offset), c') ∧ d.parser.chunked = true ∧
    OpenChunks d.parser.contentLen d.parser.chunksDone d data' offset [] c'

/-- `nullptr` is returned over an open connection in this case only -/
theorem open_iff (data : Bytes) (c : Conn) :
    ((recvResponse data c).result = .error .null ∧ (recvResponse data c).conn.connected = true) ↔
      GivenUpOpen data c := by
  rcases hp : readParse false .new data 0 c with ⟨x, c'⟩
  have hhead := @readParse_head_closed .new data 0 c
  rw [hp] at hhead
  unfold recvResponse GivenUpOpen
  rw [hp]
  cases x with
  | error e =>
    refine iff_of_false ?_ ?_
    · rintro ⟨hnull, hopen⟩
      have he : e = .null := Except.error.inj hnull
      have hclosed : c'.connected = false := hhead (congrArg Except.error he)
      exact Bool.false_ne_true (hclosed.symm.trans hopen)
    · rintro ⟨_, _, _, _, hx, -⟩
      cases hx
  | ok y =>
    obtain ⟨d, data', offset⟩ := y
    have hchunks := @openChunks_iff d.parser.contentLen d.parser.chunksDone d data' offset [] c'
    have hgiven : (∃ d₁ data₁ offset₁ c₁, ((Except.ok (d, data', offset), c') : Except Stop _ × Conn) =
        (.ok (d₁, data₁, offset₁), c₁) ∧ d₁.parser.chunked = true ∧
          OpenChunks d₁.parser.contentLen d₁.parser.chunksDone d₁ data₁ offset₁ [] c₁) ↔
        d.parser.chunked = true ∧ OpenChunks d.parser.contentLen d.parser.chunksDone d data' offset [] c' := by
      constructor
      · rintro ⟨_, _, _, _, hx, h⟩
        cases hx
        exact h
      · exact fun h => ⟨d, data', offset, c', rfl, h⟩
    rw [hgiven, ← hchunks]
    cases hch : d.parser.chunked with
    | false =>
      dsimp only
      rw [hch, if_neg Bool.false_ne_true]
      refine iff_of_false ?_ (fun h => absurd h.1 Bool.false_ne_true)
      rintro ⟨hnull, hopen⟩
      exact Bool.false_ne_true ((recvFixed_closed hnull).symm.trans hopen)
    | true =>
      dsimp only
      rw [hch, if_pos rfl]
      rcases recvChunks d.parser.contentLen d.parser.chunksDone d data' offset [] c' with ⟨z, c''⟩
      cases z with
      | error e => simp
      | ok z => simp

/-- whenever `nullptr` is returned, the connection is closed, and `ReleasePtr` deletes it -/
def ClosedOnNull (data : Bytes) (c : Conn) : Prop :=
  (recvResponse data c).result = .error .null → (recvResponse data c).conn.connected = false ∧
    ∀ (cfg : ConnPool.PoolConfig) (env : ConnPool.Env) (p : ConnPool.Pool) (ptr : ConnPool.Ptr),
      env.isConnected ptr = (recvResponse data c).conn.connected →
        ((ConnPool.PoolCall.releasing ptr).step cfg env p).2 = some (.dropping ptr)

def chunkedHead : Bytes := ascii "HTTP/1.1 200 OK\r\nTransfer-Encoding: chunked\r\n\r\n"

/-- the parser behind this head, and behind the size line of a chunk of 5 bytes -/
def inChunked : HttpResponseParser where
  parser := { HttpclientParser.init with bodyStart := 47, chunked := true, mark := 36, fieldStart := 17, fieldLen := 17 }
  data := { status := 200, reason := ascii "OK", headers := [(ascii "Transfer-Encoding", ascii "chunked")] }
  error := 0

def inSize : HttpResponseParser :=
  { inChunked with parser := { HttpclientParser.init with bodyStart := 3, chunked := true, contentLen := 5 } }

end Sylar.Http
