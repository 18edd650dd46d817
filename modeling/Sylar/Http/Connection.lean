/-
`HttpConnection::recvResponse` (`http_connection.cpp`).

The buffer has one byte more than `buff_size`, for the NUL that `execute` asks for behind what was read. `readParse` is
the read, `execute`, `memmove` loop; it stands twice in the code, for the head and for a line with a chunk size, where
the parser starts over before every `execute`. `recvChunks` is the loop over the chunks. It takes the length of a chunk
and the end of the chunks from `client_parser`, a copy of the parser made behind the head, so these two values never
change there (`contentLen` and `chunksDone` below).

A length that is negative as an `int` is a huge `size_t`, so `append` throws; so does `resize` when it is to take two
bytes from fewer than two.

- `readParse_ok`: what one turn of the first loop does if the loop ends well.
- `readParse_weight`, `readLeft_weight`: every turn takes something from the peer, so the loops end.
-/
import Mathlib.Tactic
import Sylar.Core.Scan
import Sylar.Core.Splice
import Sylar.Http.Message
import Sylar.Http.Stream
import Sylar.Http.ResponseMachine
import Sylar.Http.ResponseParser

namespace Sylar.Http

open Sylar.Core Sylar.Core.Scan Sylar.Http.ResponseMachine

/-- what `buff_size` is for a buffer -/
def buffSize (data : Bytes) : ℕ := data.length - 1

/-- the loop up to a finished parse, with `offset` unparsed bytes at the start of `data`; a buffer full of unparsed
bytes closes the connection in the loop of the head only -/
def readParse (chunk : Bool) (d : HttpResponseParser) (data : Bytes) (offset : ℕ) (c : Conn) :
    Except Stop (HttpResponseParser × Bytes × ℕ) × Conn :=
  match hr : c.read (buffSize data - offset) with
  | (rt, bs, c') =>
    if hrt : rt ≤ 0 then (.error .null, c'.close)
    else
      let len := bs.length + offset
      match d.execute ((splice data offset bs).set len 0) len chunk with
      | .error e => (.error e, c')
      | .ok (d', data', nparse) =>
        if d'.hasError then (.error .null, c'.close)
        else if ((len - nparse : ℕ) : ℤ) = toInt32 (buffSize data) then (.error .null, if chunk then c' else c'.close)
        else if d'.isFinished then (.ok (d', data', len - nparse), c')
        else readParse chunk d' data' (len - nparse) c'
termination_by c.weight
decreasing_by
  have := (read_weight c (buffSize data - offset)).2
  rw [hr] at this
  exact this (by omega)

/-- one turn of the loop -/
theorem readParse_of_read {chunk : Bool} {d : HttpResponseParser} {data bs : Bytes} {offset : ℕ} {c c' : Conn} {rt : ℤ}
    (hr : c.read (buffSize data - offset) = (rt, bs, c')) :
    readParse chunk d data offset c =
      if rt ≤ 0 then (.error .null, c'.close)
      else
        match d.execute ((splice data offset bs).set (bs.length + offset) 0) (bs.length + offset) chunk with
        | .error e => (.error e, c')
        | .ok (d', data', nparse) =>
          if d'.hasError then (.error .null, c'.close)
          else if ((bs.length + offset - nparse : ℕ) : ℤ) = toInt32 (buffSize data) then
            (.error .null, if chunk then c' else c'.close)
          else if d'.isFinished then (.ok (d', data', bs.length + offset - nparse), c')
          else readParse chunk d' data' (bs.length + offset - nparse) c' := by
  rw [readParse]
  simp only [hr]
  split_ifs <;> rfl

/-- what `execute` is given after a read to the start of the buffer -/
theorem take_loaded (data bs : Bytes) : ((splice data 0 bs).set (bs.length + 0) 0).take (bs.length + 0) = bs := by
  rw [Nat.add_zero, List.take_set_of_le (le_refl _), take_splice_zero]

/-- **One turn of a loop that ends well**: a read, an `execute`, and the end or another turn -/
theorem readParse_ok {chunk : Bool} {d : HttpResponseParser} {data : Bytes} {offset : ℕ} {c c' : Conn}
    {x : HttpResponseParser × Bytes × ℕ} (h : readParse chunk d data offset c = (.ok x, c')) :
    ∃ rt bs c₁ d₁ data₁ n, c.read (buffSize data - offset) = (rt, bs, c₁) ∧ 0 < rt ∧
      d.execute ((splice data offset bs).set (bs.length + offset) 0) (bs.length + offset) chunk = .ok (d₁, data₁, n) ∧
      (d₁.isFinished = true ∧ x = (d₁, data₁, bs.length + offset - n) ∧ c' = c₁ ∨
        d₁.isFinished = false ∧ readParse chunk d₁ data₁ (bs.length + offset - n) c₁ = (.ok x, c')) := by
  rcases hr : c.read (buffSize data - offset) with ⟨rt, bs, c₁⟩
  rw [readParse_of_read hr] at h
  by_cases hrt : rt ≤ 0
  · rw [if_pos hrt] at h; simp at h
  rw [if_neg hrt] at h
  cases hx : d.execute ((splice data offset bs).set (bs.length + offset) 0) (bs.length + offset) chunk with
  | error e => rw [hx] at h; simp at h
  | ok y =>
    obtain ⟨d₁, data₁, n⟩ := y
    rw [hx] at h
    dsimp only at h
    by_cases herr : d₁.hasError = true
    · rw [if_pos herr] at h; simp at h
    rw [if_neg herr] at h
    by_cases hfull : ((bs.length + offset - n : ℕ) : ℤ) = toInt32 (buffSize data)
    · rw [if_pos hfull] at h; simp at h
    rw [if_neg hfull] at h
    refine ⟨rt, bs, c₁, d₁, data₁, n, rfl, by omega, hx, ?_⟩
    cases hfin : d₁.isFinished with
    | true =>
      rw [hfin, if_pos rfl, Prod.mk.injEq] at h
      exact .inl ⟨rfl, (Except.ok.inj h.1).symm, h.2.symm⟩
    | false =>
      rw [hfin, if_neg Bool.false_ne_true] at h
      exact .inr ⟨rfl, h⟩

theorem readParse_weight {chunk : Bool} {d : HttpResponseParser} {data : Bytes} {offset : ℕ} {c c' : Conn}
    {x : HttpResponseParser × Bytes × ℕ} (h : readParse chunk d data offset c = (.ok x, c')) : c'.weight < c.weight := by
  induction hn : c.weight using Nat.strong_induction_on generalizing d data offset c with
  | _ n ih =>
    subst hn
    obtain ⟨rt, bs, c₁, d₁, data₁, n, hr, hpos, -, hend⟩ := readParse_ok h
    have hw := (read_weight c (buffSize data - offset)).2
    rw [hr] at hw
    rcases hend with ⟨-, -, rfl⟩ | ⟨-, hrest⟩
    · exact hw hpos
    · exact (ih _ (hw hpos) hrest rfl).trans (hw hpos)

/-- the rest of a chunk, `left` bytes with the line end, read to the start of the buffer and appended to the body -/
def readLeft (body data : Bytes) (left : ℤ) (c : Conn) : Except Stop (Bytes × Bytes) × Conn :=
  if 0 < left then
    let size := toInt32 (buffSize data)
    let n := if size < left then size else left
    if n < 0 then (.error .undefined, c)
    else
      match hr : c.read n.toNat with
      | (rt, bs, c') =>
        if hrt : rt ≤ 0 then (.error .null, c') else readLeft (body ++ bs) (splice data 0 bs) (left - rt) c'
  else (.ok (body, data), c)
termination_by c.weight
decreasing_by
  have := (read_weight c n.toNat).2
  rw [hr] at this
  exact this (by omega)

theorem readLeft_weight (body data : Bytes) (left : ℤ) (c : Conn) :
    (readLeft body data left c).2.weight ≤ c.weight := by
  fun_induction readLeft body data left c with
  | case1 => exact le_refl _
  | case2 body data left c hleft size n hn rt bs c' hr hrt =>
    have := (read_weight c n.toNat).1
    rwa [hr] at this
  | case3 body data left c hleft size n hn rt bs c' hr hrt ih =>
    have := (read_weight c n.toNat).1
    rw [hr] at this
    exact ih.trans this
  | case4 => exact le_refl _

/-- the chunk behind a parsed size line: from the buffer, or its rest from the peer; the body, the buffer and the bytes
left in it -/
def takeChunk (contentLen : ℤ) (data : Bytes) (len : ℕ) (body : Bytes) (c : Conn) :
    Except Stop (Bytes × Bytes × ℕ) × Conn :=
  if 2147483647 < contentLen + 2 then (.error .undefined, c)
  else if contentLen + 2 ≤ len then
    if contentLen < 0 then (.error .lengthError, c)
    else
      let n := contentLen.toNat
      (.ok (body ++ data.take n, splice data 0 ((data.drop (n + 2)).take (len - (n + 2))), len - (n + 2)), c)
  else
    match readLeft (body ++ data.take len) data (contentLen - len + 2) c with
    | (.error e, c') => (.error e, c')
    | (.ok (body', data'), c') =>
      if body'.length < 2 then (.error .lengthError, c') else (.ok (body'.take (body'.length - 2), data', 0), c')

theorem takeChunk_weight (contentLen : ℤ) (data : Bytes) (len : ℕ) (body : Bytes) (c : Conn) :
    (takeChunk contentLen data len body c).2.weight ≤ c.weight := by
  have hleft := readLeft_weight (body ++ data.take len) data (contentLen - len + 2) c
  unfold takeChunk
  rcases hr : readLeft (body ++ data.take len) data (contentLen - len + 2) c with ⟨x, c'⟩
  rw [hr] at hleft
  cases x with
  | error e => split_ifs <;> first | exact le_refl _ | exact hleft
  | ok y =>
    dsimp only
    split_ifs <;> first | exact le_refl _ | exact hleft

/-- the loop over the chunks: the parser and the body -/
def recvChunks (contentLen : ℤ) (chunksDone : Bool) (d : HttpResponseParser) (data : Bytes) (len : ℕ) (body : Bytes)
    (c : Conn) : Except Stop (HttpResponseParser × Bytes) × Conn :=
  match hp : readParse true d data len c with
  | (.error e, c') => (.error e, c')
  | (.ok (d', data', len'), c') =>
    match ht : takeChunk contentLen data' len' body c' with
    | (.error e, c'') => (.error e, c'')
    | (.ok (body', data'', len''), c'') =>
      if chunksDone then (.ok (d', body'), c'') else recvChunks contentLen chunksDone d' data'' len'' body' c''
termination_by c.weight
decreasing_by
  have h1 := readParse_weight hp
  have h2 := takeChunk_weight contentLen data' len' body c'
  rw [ht] at h2
  exact lt_of_le_of_lt h2 h1

structure Answer where
  result : Except Stop HttpResponse
  conn : Conn
  /-- stores outside the body string -/
  spill : List (ℤ × Bytes)
deriving DecidableEq

/-- a body that is not empty is stored -/
def HttpResponse.withBody (r : HttpResponse) (body : Bytes) : HttpResponse := if body ≠ [] then { r with body } else r

/-- the part for a body with a length, with `offset` unparsed bytes at the start of `data` -/
def recvFixed (r : HttpResponse) (data : Bytes) (offset : ℕ) (c : Conn) : Answer :=
  let length := toInt64 r.getContentLength
  if 0 < length then
    let len := if offset ≤ length then offset else length.toNat
    let body := Body.put { bytes := List.replicate length.toNat 0 } 0 (data.take len)
    let length := length - offset
    if 0 < length then
      match readFixSize c body len length.toNat with
      | (rt, body, c') =>
        if rt ≤ 0 then ⟨.error .null, c'.close, body.spill⟩ else ⟨.ok (r.withBody body.bytes), c', body.spill⟩
    else ⟨.ok (r.withBody body.bytes), c, body.spill⟩
  else ⟨.ok r, c, []⟩

/-- `recvResponse` with the buffer `data` -/
def recvResponse (data : Bytes) (c : Conn) : Answer :=
  match readParse false .new data 0 c with
  | (.error e, c') => ⟨.error e, c', []⟩
  | (.ok (d, data', offset), c') =>
    if d.parser.chunked then
      match recvChunks d.parser.contentLen d.parser.chunksDone d data' offset [] c' with
      | (.error e, c'') => ⟨.error e, c'', []⟩
      | (.ok (d', body), c'') => ⟨.ok (d'.data.withBody body), c'', []⟩
    else recvFixed d.data data' offset c'

end Sylar.Http
