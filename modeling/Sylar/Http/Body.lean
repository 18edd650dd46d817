/-
Bodies with a length: what `HttpConnection::recvResponse` makes of the bytes behind a head.

When the head is complete the buffer holds the first bytes behind it, any number of them, and the peer has the rest.
The body is put together from the two: a copy from the buffer, of at most `Content-Length` bytes, and `readFixSize`
for what is missing.

- `readParse_stream`: the loop of the head loses no byte. What it was given is the head, what is left in the buffer
  and what is still to come.
- `readFixSizeLoop_enough`, `readFixSizeLoop_short`: the loop stores the next bytes of the peer, however they come, or
  fails.
- `identity_body`: the body is the first `n` bytes behind the head, with every store inside it; with fewer than `n`
  bytes the connection is closed and nothing is returned.
-/
import Mathlib.Tactic
import Sylar.Core.Splice
import Sylar.Http.Connection

namespace Sylar.Http

open Sylar.Core Sylar.Http.ResponseMachine

/-! ## The head loses no byte -/

/-- what a read brings stands behind the bytes that were in the buffer -/
theorem take_read {data bs : Bytes} {offset : ℕ} (h : offset + bs.length ≤ data.length) :
    ((splice data offset bs).set (bs.length + offset) 0).take (bs.length + offset) = data.take offset ++ bs := by
  have hpre : (data.take offset ++ bs).length = bs.length + offset := by
    rw [List.length_append, List.length_take]
    omega
  rw [List.take_set_of_le (le_refl _), splice, ← hpre, List.take_left]

/-- the `memmove` of a call brings the unparsed bytes to the start -/
theorem take_moved {b : Bytes} {len n : ℕ} (h : len ≤ b.length) :
    (splice b 0 ((b.drop n).take (len - n))).take (len - n) = (b.take len).drop n := by
  have hlen : ((b.drop n).take (len - n)).length = len - n := by
    rw [List.length_take, List.length_drop]
    omega
  calc (splice b 0 ((b.drop n).take (len - n))).take (len - n)
      = (splice b 0 ((b.drop n).take (len - n))).take ((b.drop n).take (len - n)).length := by rw [hlen]
    _ = (b.drop n).take (len - n) := take_splice_zero _ _
    _ = (b.take len).drop n := List.drop_take.symm

/-- **The bytes of a head.** What was in the buffer and what the peer sends is the head, the bytes left in the buffer
and what the peer still sends. -/
theorem readParse_stream {d d' : HttpResponseParser} {data data' : Bytes} {offset offset' : ℕ} {c c' : Conn}
    (hoff : offset ≤ buffSize data) (h : readParse false d data offset c = (.ok (d', data', offset'), c')) :
    (data'.take offset').length = offset' ∧
      ∃ head, data.take offset ++ c.available = head ++ (data'.take offset' ++ c'.available) := by
  induction hw : c.weight using Nat.strong_induction_on generalizing d data offset c with
  | _ w ih =>
    subst hw
    obtain ⟨rt, bs, c₁, d₁, data₁, n, hr, hpos, hexec, hend⟩ := readParse_ok h
    obtain ⟨-, hbs, hfit, happ⟩ := read_pos hr hpos
    have hroom : bs.length ≤ buffSize data - offset := hfit.trans (min_le_left _ _)
    have hsize : buffSize data = data.length - 1 := rfl
    obtain ⟨hcall, hmove⟩ := HttpResponseParser.execute_ok hexec
    obtain ⟨-, -, -, -, hn⟩ := exec_of_httpclientParserExecute hcall
    generalize hb : (splice data offset bs).set (bs.length + offset) 0 = b at hmove
    have htake : b.take (bs.length + offset) = data.take offset ++ bs := by
      rw [← hb]
      exact take_read (by omega)
    have hblen : b.length = data.length := by
      rw [← hb, List.length_set, splice_length_of_le _ _ _ (by omega)]
    have hmoved : data₁.take (bs.length + offset - n) = (data.take offset ++ bs).drop n := by
      rw [hmove, take_moved (by omega), htake]
    have hlen₁ : data₁.length = data.length := by
      rw [hmove, splice_length_of_le, hblen]
      rw [List.length_take, List.length_drop]
      omega
    have hcut : data.take offset ++ c.available =
        (data.take offset ++ bs).take n ++ (data₁.take (bs.length + offset - n) ++ c₁.available) := by
      rw [hmoved, ← List.append_assoc, List.take_append_drop, happ, List.append_assoc]
    rcases hend with ⟨-, hx, rfl⟩ | ⟨-, hrest⟩
    · injection hx with hd hx
      injection hx with hdata hoffset
      subst hdata hoffset
      refine ⟨?_, _, hcut⟩
      rw [List.length_take]
      omega
    · have hw := (read_weight c (buffSize data - offset)).2
      rw [hr] at hw
      have hoff₁ : bs.length + offset - n ≤ buffSize data₁ := by
        rw [buffSize, hlen₁]
        omega
      obtain ⟨hlen, head, hhead⟩ := ih _ (hw hpos) hoff₁ hrest rfl
      refine ⟨hlen, (data.take offset ++ bs).take n ++ head, ?_⟩
      rw [hcut, hhead, List.append_assoc]

/-! ## `readFixSize` inside a string -/

/-- one turn of the loop that stores inside the string -/
theorem readFixSizeLoop_read {c c₁ : Conn} {b : Body} {pos offset left : ℕ} {len : ℤ} {bs : Bytes} (length : ℕ)
    (hr : c.read left = (len, bs, c₁)) (hlen : 0 < len) (hroom : pos + offset + left ≤ b.bytes.length) :
    bs.length ≤ left ∧ 0 < bs.length ∧ c.available = bs ++ c₁.available ∧
      readFixSizeLoop c b pos length offset left =
        readFixSizeLoop c₁ { b with bytes := splice b.bytes (pos + offset) bs } pos length (offset + bs.length)
          (left - bs.length : ℕ) := by
  obtain ⟨hrt, hbs, hfit, happ⟩ := read_pos hr hlen
  have hbsl : bs.length ≤ left := hfit.trans (min_le_left _ _)
  have hput : b.put ((pos : ℤ) + offset) bs = { b with bytes := splice b.bytes (pos + offset) bs } :=
    @put_inside b (pos + offset) bs (by omega)
  refine ⟨hbsl, hbs, happ, ?_⟩
  rw [readFixSizeLoop, if_pos (by omega)]
  simp only [Int.toNat_natCast, hr]
  rw [if_neg (not_le.mpr hlen), hput, hrt, ← Nat.cast_sub hbsl]

/-- **Enough bytes.** The loop returns the length and leaves the next bytes of the peer in their place. -/
theorem readFixSizeLoop_enough {c : Conn} {b : Body} {pos offset left : ℕ} (length : ℕ)
    (hroom : pos + offset + left ≤ b.bytes.length) (hleft : left ≤ c.available.length) :
    ∃ c', readFixSizeLoop c b pos length offset left =
      (toInt32 length, { b with bytes := splice b.bytes (pos + offset) (c.available.take left) }, c') := by
  induction left using Nat.strong_induction_on generalizing c b offset with
  | _ left ih =>
    rcases Nat.eq_zero_or_pos left with rfl | hpos
    · refine ⟨c, ?_⟩
      rw [readFixSizeLoop, if_neg (by simp), List.take_zero, splice_nil]
    rcases hr : c.read left with ⟨len, bs, c₁⟩
    have hlen : 0 < len := by
      by_contra hle
      rw [read_nonpos hr hpos (not_lt.mp hle), List.length_nil] at hleft
      omega
    obtain ⟨hbsl, hbs, happ, hturn⟩ := readFixSizeLoop_read length hr hlen hroom
    have hrest : left - bs.length ≤ c₁.available.length := by
      rw [happ, List.length_append] at hleft
      omega
    have hroom₁ : pos + (offset + bs.length) + (left - bs.length) ≤ (splice b.bytes (pos + offset) bs).length := by
      rw [splice_length_of_le _ _ _ (by omega)]
      omega
    obtain ⟨c', hc'⟩ := ih (left - bs.length) (by omega) (b := { b with bytes := splice b.bytes (pos + offset) bs })
      hroom₁ hrest
    refine ⟨c', ?_⟩
    rw [hturn, hc', ← Nat.add_assoc, splice_splice _ _ _ _ (by omega), happ, List.take_append,
      List.take_of_length_le hbsl]

/-- **Too few bytes.** The loop ends with a read that fails, every store inside the string. -/
theorem readFixSizeLoop_short {c : Conn} {b : Body} {pos offset left : ℕ} (length : ℕ)
    (hroom : pos + offset + left ≤ b.bytes.length) (hleft : c.available.length < left) :
    (readFixSizeLoop c b pos length offset left).1 ≤ 0 ∧
      (readFixSizeLoop c b pos length offset left).2.1.spill = b.spill := by
  induction left using Nat.strong_induction_on generalizing c b offset with
  | _ left ih =>
    rcases hr : c.read left with ⟨len, bs, c₁⟩
    by_cases hlen : len ≤ 0
    · rw [readFixSizeLoop, if_pos (by omega)]
      simp only [Int.toNat_natCast, hr]
      rw [if_pos hlen]
      exact ⟨hlen, rfl⟩
    obtain ⟨hbsl, hbs, happ, hturn⟩ := readFixSizeLoop_read length hr (not_le.mp hlen) hroom
    have hrest : c₁.available.length < left - bs.length := by
      rw [happ, List.length_append] at hleft
      omega
    rw [hturn]
    apply ih (left - bs.length) (by omega) _ hrest
    rw [splice_length_of_le _ _ _ (by omega)]
    omega

/-! ## The body -/

/-- a whole string overwritten from its start -/
theorem splice_replicate {n : ℕ} {x y : Bytes} (h : x.length + y.length = n) :
    splice (splice (List.replicate n 0) 0 x) x.length y = x ++ y := by
  have hwhole : (x ++ y).length = n := by rw [List.length_append, h]
  calc splice (splice (List.replicate n 0) 0 x) x.length y = splice (List.replicate n 0) 0 (x ++ y) := by
        rw [← splice_splice _ 0 x y (Nat.zero_le _), Nat.zero_add]
    _ = x ++ y := by rw [splice_zero_eq, hwhole, List.drop_of_length_le (by rw [List.length_replicate]), List.append_nil]

/-- the copy from the buffer, with `size` bytes of room -/
theorem put_copied {data : Bytes} {size k : ℕ} (hk : (data.take k).length ≤ size) :
    Body.put { bytes := List.replicate size 0 } 0 (data.take k) =
      { bytes := splice (List.replicate size 0) 0 (data.take k) } :=
  @put_inside _ 0 _ (by rwa [Nat.zero_add, List.length_replicate])

theorem withBody_of_length {resp : HttpResponse} {body : Bytes} (h : 0 < body.length) :
    resp.withBody body = { resp with body } := by
  rw [HttpResponse.withBody, if_pos (List.ne_nil_of_length_pos h)]

section
variable {resp : HttpResponse} {data : Bytes} {offset n : ℕ} {c : Conn}

/-- the whole body is in the buffer -/
theorem recvFixed_buffered (hlen : toInt64 resp.getContentLength = n) (h0 : 0 < n)
    (hoff : (data.take offset).length = offset) (hn : n ≤ offset) :
    recvFixed resp data offset c = ⟨.ok { resp with body := (data.take offset).take n }, c, []⟩ := by
  have hcut : (if (offset : ℤ) ≤ n then offset else ((n : ℕ) : ℤ).toNat) = n := by
    split_ifs <;> omega
  have htake : data.take n = (data.take offset).take n := by rw [List.take_take, min_eq_left hn]
  have hbody : (data.take n).length = n := by rw [htake, List.length_take, hoff, min_eq_left hn]
  have hwhole := splice_replicate (x := data.take n) (y := []) (n := n) (by rw [hbody, List.length_nil, Nat.add_zero])
  rw [splice_nil, List.append_nil] at hwhole
  simp only [recvFixed, hlen, hcut]
  rw [if_pos (by omega), if_neg (by omega), Int.toNat_natCast, put_copied hbody.le, hwhole,
    withBody_of_length (by rwa [hbody]), htake]

/-- the result of the loop decides -/
theorem recvFixed_of_loop (hlen : toInt64 resp.getContentLength = n) (hlt : n < 2 ^ 31)
    (hoff : (data.take offset).length = offset) (hn : offset < n) {rt : ℤ} {body : Body} {c' : Conn}
    (hloop : readFixSizeLoop c { bytes := splice (List.replicate n 0) 0 (data.take offset) } offset (n - offset) 0
      (n - offset : ℕ) = (rt, body, c')) :
    recvFixed resp data offset c = if rt ≤ 0 then ⟨.error .null, c'.close, body.spill⟩
      else ⟨.ok (resp.withBody body.bytes), c', body.spill⟩ := by
  have hleft : ((n : ℤ) - offset).toNat = n - offset := by omega
  have hint : toInt64 (n - offset : ℕ) = (n - offset : ℕ) := toInt64_of_lt (by omega) (by omega)
  have hcut : (if (offset : ℤ) ≤ n then offset else ((n : ℕ) : ℤ).toNat) = offset := if_pos (by omega)
  simp only [recvFixed, hlen, hcut]
  rw [if_pos (by omega), if_pos (by omega), Int.toNat_natCast, put_copied (by omega), hleft, readFixSize, hint, hloop]

/-- a part of the body is still to come -/
theorem recvFixed_short (hlen : toInt64 resp.getContentLength = n) (hlt : n < 2 ^ 31)
    (hoff : (data.take offset).length = offset) (hn : offset < n) :
    (n ≤ (data.take offset ++ c.available).length →
      ∃ c', recvFixed resp data offset c = ⟨.ok { resp with body := (data.take offset ++ c.available).take n }, c', []⟩) ∧
      ((data.take offset ++ c.available).length < n →
        ∃ c', recvFixed resp data offset c = ⟨.error .null, Conn.close c', []⟩) := by
  have hroom : offset + 0 + (n - offset) ≤
      (Body.mk (splice (List.replicate n 0) 0 (data.take offset)) []).bytes.length := by
    rw [splice_length_of_le _ _ _ (by rw [List.length_replicate]; omega), List.length_replicate]
    omega
  rw [List.length_append, hoff]
  constructor
  · intro henough
    have hpos : ¬toInt32 (n - offset : ℕ) ≤ 0 := by
      rw [toInt32_of_lt (by omega) (by omega)]
      omega
    obtain ⟨c', hc'⟩ := readFixSizeLoop_enough (n - offset) hroom (by omega : n - offset ≤ c.available.length)
    have hbody := splice_replicate (x := data.take offset) (y := c.available.take (n - offset)) (n := n)
      (by rw [hoff, List.length_take]; omega)
    rw [hoff] at hbody
    have hall : (data.take offset).take n = data.take offset := List.take_of_length_le (by omega)
    refine ⟨c', ?_⟩
    rw [recvFixed_of_loop hlen hlt hoff hn hc', if_neg hpos, Nat.add_zero, hbody, withBody_of_length]
    · rw [List.take_append, hoff, hall]
    · rw [List.length_append, hoff, List.length_take]
      omega
  · intro hshort
    obtain ⟨hrt, hspill⟩ := readFixSizeLoop_short (n - offset) hroom (by omega : c.available.length < n - offset)
    rcases hloop : readFixSizeLoop c (Body.mk (splice (List.replicate n 0) 0 (data.take offset)) []) offset (n - offset) 0
      (n - offset : ℕ) with ⟨rt, body, c'⟩
    rw [hloop] at hrt hspill
    dsimp only at hrt hspill
    refine ⟨c', ?_⟩
    rw [recvFixed_of_loop hlen hlt hoff hn hloop, if_pos hrt, hspill]

end

/-- **Identity bodies.** For every head with a `Content-Length` of `n`, 0 < n < 2^31, and no chunked coding, however
much of what follows is in the buffer (`r`) and however the rest (`t`) comes: what was received is the head, `r` and
`t`; with `n` bytes behind the head the response has the first `n` of them as its body, and every store is inside it;
with fewer the connection is closed and `nullptr` returned. -/
theorem identity_body (data : Bytes) (c : Conn) {d : HttpResponseParser} {data' : Bytes} {offset : ℕ} {c' : Conn}
    {n : ℕ}
    (hhead : readParse false .new data 0 c = (.ok (d, data', offset), c')) (hchunked : d.parser.chunked = false)
    (hlen : d.data.getContentLength = n) (h0 : 0 < n) (hlt : n < 2 ^ 31) :
    let r := data'.take offset
    let t := c'.available
    (r.length = offset ∧ ∃ head, c.available = head ++ (r ++ t)) ∧
      (n ≤ (r ++ t).length → ∃ c'', recvResponse data c = ⟨.ok { d.data with body := (r ++ t).take n }, c'', []⟩) ∧
      ((r ++ t).length < n → ∃ c'', recvResponse data c = ⟨.error .null, Conn.close c'', []⟩) := by
  intro r t
  obtain ⟨hoff, head, hstream⟩ := readParse_stream (Nat.zero_le _) hhead
  rw [List.take_zero, List.nil_append] at hstream
  refine ⟨⟨hoff, head, hstream⟩, ?_⟩
  have hint : toInt64 d.data.getContentLength = n := by
    rw [hlen]
    exact toInt64_of_lt (by omega) (by omega)
  have hrecv : recvResponse data c = recvFixed d.data data' offset c' := by
    rw [recvResponse, hhead]
    simp only [hchunked, Bool.false_eq_true, if_false]
  rw [hrecv]
  rcases Nat.lt_or_ge offset n with hn | hn
  · exact recvFixed_short hint hlt hoff hn
  · have hin : n ≤ r.length := hoff.symm ▸ hn
    refine ⟨fun _ => ⟨c', ?_⟩, ?_⟩
    · rw [recvFixed_buffered hint h0 hoff hn, List.take_append_of_le_length hin]
    · intro hshort
      rw [List.length_append] at hshort
      omega

/-- a head of 38 bytes, and the parser behind it -/
def lengthHead : Bytes := ascii "HTTP/1.1 200 OK\r\nContent-Length: 5\r\n\r\n"

def inLength : HttpResponseParser where
  parser := { HttpclientParser.init with bodyStart := 38, contentLen := 5, mark := 33, fieldStart := 17, fieldLen := 14 }
  data := { status := 200, reason := ascii "OK", headers := [(ascii "Content-Length", ascii "5")] }
  error := 0

def behindLength : HttpResponseParser := inLength.stopped firstFinal 38

/-- two bytes come with the head, one alone, and more than the body with the last two -/
theorem identity_body_hello :
    ∃ c, recvResponse (List.replicate 64 0)
        ⟨[.data (lengthHead ++ ascii "he"), .data (ascii "l"), .data (ascii "lo!")], true⟩ =
      ⟨.ok { behindLength.data with body := ascii "hello" }, c, []⟩ := by
  have hexec : HttpResponseParser.new.execute ((splice (List.replicate 64 0) 0 (lengthHead ++ ascii "he")).set 40 0) 40
      false = .ok (behindLength, splice (lengthHead ++ ascii "he" ++ List.replicate 24 0) 0 (ascii "he"), 38) := by
    decide +kernel
  have hhead : readParse false .new (List.replicate 64 0) 0
      ⟨[.data (lengthHead ++ ascii "he"), .data (ascii "l"), .data (ascii "lo!")], true⟩ =
        (.ok (behindLength, splice (lengthHead ++ ascii "he" ++ List.replicate 24 0) 0 (ascii "he"), 2),
          ⟨[.data (ascii "l"), .data (ascii "lo!")], true⟩) := by
    have hread : Conn.read ⟨[.data (lengthHead ++ ascii "he"), .data (ascii "l"), .data (ascii "lo!")], true⟩
        (buffSize (List.replicate 64 0) - 0) =
          (40, lengthHead ++ ascii "he", ⟨[.data (ascii "l"), .data (ascii "lo!")], true⟩) := by decide
    have hlen : (lengthHead ++ ascii "he").length = 40 := by decide
    rw [readParse_of_read hread, if_neg (by decide), hlen, Nat.add_zero, hexec]
    rfl
  obtain ⟨-, hok, -⟩ := identity_body _ _ hhead rfl (by decide) (by decide : 0 < 5) (by decide)
  exact hok (by decide)

end Sylar.Http
