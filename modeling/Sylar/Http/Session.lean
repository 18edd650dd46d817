/-
`HttpSession::recvRequest` (`http_session.cpp`).

`recvHead` is the read, `execute`, `memmove` loop: it ends with the parser, the buffer and the number of unparsed
bytes at its start. `recvBody` is what follows it. The buffer is the list `data`, with whatever it holds at first, and
its length is `buff_size`; bytes stored outside the body string are the `spill` of the reply.

The head loop:
- `head_one_read`: a well-formed head that comes in one read is parsed.
- `head_split_read`: if the first read brings only a part of it, the loop never returns a request: the second call of
  `http_parser_execute` adds to the count of the first one, and its assertion on `nread` fails.
- `head_cut_iff`: so a cut of the head gives the result of one read iff there is one read.

The body:
- `recvBody_exact`, `recvBody_long`, `recvBody_short`: the leftover of the head is the body, longer, or shorter.
  Longer: nothing is copied. Shorter: the rest goes to the end of the string, and a complete read counts as a failure.
- `body_iff`: so the body is assembled iff the leftover is the body, or the difference does not show.
-/
import Mathlib.Tactic
import Sylar.Core.Scan
import Sylar.Core.Splice
import Sylar.Http.Message
import Sylar.Http.Stream
import Sylar.Http.RequestMachine
import Sylar.Http.RequestParser

namespace Sylar.Http

open Sylar.Core Sylar.Core.Scan Sylar.Http.RequestMachine

/-- the head loop, with `offset` unparsed bytes at the start of `data` -/
def recvHead (d : HttpRequestParser) (data : Bytes) (offset : ℕ) (c : Conn) :
    Except Stop (HttpRequestParser × Bytes × ℕ) × Conn :=
  match hr : c.read (data.length - offset) with
  | (rt, bs, c') =>
    if rt ≤ 0 then (.error .null, c'.close)
    else
      let len := bs.length + offset
      match d.execute (splice data offset bs) len with
      | .error e => (.error e, c')
      | .ok (d', data', nparse) =>
        if d'.hasError then (.error .null, c'.close)
        else if ((len - nparse : ℕ) : ℤ) = toInt32 data.length then (.error .null, c'.close)
        else if d'.isFinished then (.ok (d', data', len - nparse), c')
        else recvHead d' data' (len - nparse) c'
termination_by c.available.length
decreasing_by
  obtain ⟨-, hbs, -, happ⟩ := read_pos hr (by omega)
  rw [happ, List.length_append]
  omega

/-- one turn of the loop -/
theorem recvHead_of_read {d : HttpRequestParser} {data bs : Bytes} {offset : ℕ} {c c' : Conn} {rt : ℤ}
    (hr : c.read (data.length - offset) = (rt, bs, c')) :
    recvHead d data offset c =
      if rt ≤ 0 then (.error .null, c'.close)
      else
        match d.execute (splice data offset bs) (bs.length + offset) with
        | .error e => (.error e, c')
        | .ok (d', data', nparse) =>
          if d'.hasError then (.error .null, c'.close)
          else if ((bs.length + offset - nparse : ℕ) : ℤ) = toInt32 data.length then (.error .null, c'.close)
          else if d'.isFinished then (.ok (d', data', bs.length + offset - nparse), c')
          else recvHead d' data' (bs.length + offset - nparse) c' := by
  rw [recvHead]
  simp only [hr]

structure Reply where
  result : Except Stop HttpRequest
  conn : Conn
  /-- stores outside the body string -/
  spill : List (ℤ × Bytes)
deriving DecidableEq

/-- the rest of `recvRequest`, with `offset` unparsed bytes at the start of `data` -/
def recvBody (r : HttpRequest) (data : Bytes) (offset : ℕ) (c : Conn) : Reply :=
  let length := toInt64 r.getContentLength
  if 0 < length then
    let body : Body := { bytes := List.replicate length.toNat 0 }
    let (body, len) := if offset ≤ length then (body.put 0 (data.take offset), toInt32 length) else (body, 0)
    let length := length - offset
    if 0 < length then
      match readFixSize c body len length.toNat with
      | (rt, body, c') =>
        if 0 < rt then ⟨.error .null, c'.close, body.spill⟩
        else ⟨.ok { r with body := body.bytes }.init, c', body.spill⟩
    else ⟨.ok { r with body := body.bytes }.init, c, body.spill⟩
  else ⟨.ok r.init, c, []⟩

/-- `recvRequest` with a fresh parser and buffer -/
def recvRequest (queryStart : ℕ) (uriRelaxed : Bool) (data : Bytes) (c : Conn) : Reply :=
  match recvHead (.new queryStart uriRelaxed) data 0 c with
  | (.error e, c') => ⟨.error e, c', []⟩
  | (.ok (d, data', offset), c') => recvBody d.data data' offset c'

/-! ## The head -/

/-- the machine accepts the head, and its method is a known one -/
structure WellFormed (relaxed : Bool) (head : Bytes) : Prop where
  accepted : ∃ f, halts (machine relaxed) isDone start head = some f ∧ firstFinal ≤ f
  method : charsToHttpMethod head ≠ .INVALID_METHOD

theorem execute_ok {d d' : HttpRequestParser} {data data' : Bytes} {len n : ℕ}
    (h : d.execute data len = .ok (d', data', n)) : httpParserExecute d data len = .ok (d', n) := by
  unfold HttpRequestParser.execute at h
  cases hx : httpParserExecute d data len with
  | error e => rw [hx] at h; exact absurd h (by simp)
  | ok r =>
    rw [hx] at h
    simp only [Except.ok.injEq, Prod.mk.injEq] at h
    obtain ⟨h1, -, h2⟩ := h
    rw [← h1, ← h2]

/-- a well-formed head that comes in one read is parsed -/
theorem head_one_read {relaxed : Bool} {head : Bytes} (hw : WellFormed relaxed head) (queryStart : ℕ) {data : Bytes}
    (hfit : head.length ≤ min data.length maxRead) (hsize : toInt32 data.length ≠ 0) :
    ∃ d data', (recvHead (.new queryStart relaxed) data 0 ⟨[.data head], true⟩).1 = .ok (d, data', 0) := by
  obtain ⟨f, hh, hf⟩ := hw.accepted
  have hmax : maxRead ≤ maxSize := by decide
  have hpos : 0 < head.length := by
    rcases head with - | ⟨c, w⟩
    · exact absurd hh (by simp [halts])
    · exact Nat.succ_pos _
  obtain ⟨d, hx, herr, hcs⟩ := httpParserExecute_fresh hh hw.method (by omega) queryStart (data.drop head.length)
  have hread : Conn.read ⟨[.data head], true⟩ (data.length - 0) =
      ((head.length : ℤ), head, (⟨[], true⟩ : Conn)) := by
    simp only [Conn.read, if_true, Nat.sub_zero, hfit]
  have hexec : HttpRequestParser.execute (.new queryStart relaxed) (splice data 0 head) (head.length + 0) =
      .ok (d, splice (splice data 0 head) 0 [], head.length) := by
    rw [HttpRequestParser.execute, splice_zero_eq, Nat.add_zero, hx]
    simp
  have hne : d.hasError = false := by
    simp only [HttpRequestParser.hasError, herr, hcs, decide_eq_false_iff_not, not_or, ne_eq, not_true_eq_false,
      not_false_eq_true, true_and]
    intro h0
    rw [h0] at hf
    exact absurd hf (by decide)
  have hfin : d.isFinished = true := by
    simp only [HttpRequestParser.isFinished, hcs, decide_eq_true_eq]
    exact .inr hf
  rw [recvHead_of_read hread, if_neg (by omega), hexec]
  simp only [hne, hfin, Bool.false_eq_true, if_false, if_true, Nat.add_zero, Nat.sub_self, Nat.cast_zero]
  rw [if_neg (Ne.symm hsize)]
  exact ⟨d, _, rfl⟩

theorem final_rows : checkRows (fun _ => true) (fun r => decide (r.1 < firstFinal) || r.2.any isDone) = true := by
  decide +kernel

/-- before the scan ends the machine is in no final state -/
theorem reads_not_final {relaxed : Bool} {cs cs' : ℕ} {u : Bytes}
    (h : reads (machine relaxed) isDone cs u = some cs') (hu : u ≠ []) : cs' ≠ error ∧ cs' < firstFinal := by
  induction u generalizing cs with
  | nil => exact absurd rfl hu
  | cons c u ih =>
    simp only [reads] at h
    split_ifs at h with hstop
    obtain ⟨hdone, herr⟩ := not_or.mp hstop
    by_cases hnil : u = []
    · subst hnil
      obtain rfl : ((machine relaxed).next cs c).1 = cs' := by simpa [reads] using h
      have hrow := next_checked final_rows relaxed c rfl herr
      rw [Bool.or_eq_true, decide_eq_true_eq] at hrow
      exact ⟨herr, hrow.resolve_right hdone⟩
    · exact ih h hnil

/-- what a read brings of an accepted input is a path of the machine -/
theorem leads_of_halts {relaxed : Bool} {cs f : ℕ} {u v : Bytes}
    (h : halts (machine relaxed) isDone cs (u ++ v) = some f) : ∃ cs', Leads relaxed cs u cs' := by
  by_cases hv : v = []
  · subst hv
    rw [List.append_nil] at h
    exact ⟨f, .inr h⟩
  · obtain ⟨cs', hr, -⟩ := halts_split h hv
    exact ⟨cs', .inl hr⟩

/-- after a call that did not finish no later call returns -/
theorem head_later_read {d : HttpRequestParser} (hn : 0 < d.parser.nread) {c : Conn} {f : ℕ}
    (hh : halts (machine d.parser.uriRelaxed) isDone d.parser.cs c.available = some f) (data : Bytes)
    (r : HttpRequestParser × Bytes × ℕ) : (recvHead d data 0 c).1 ≠ .ok r := by
  rcases hr : c.read (data.length - 0) with ⟨rt, bs, c'⟩
  rw [recvHead_of_read hr]
  split_ifs with hrt
  · simp
  obtain ⟨-, hbs, -, happ⟩ := read_pos hr (by omega)
  rw [happ] at hh
  obtain ⟨cs', hleads⟩ := leads_of_halts hh
  cases hx : d.execute (splice data 0 bs) (bs.length + 0) with
  | error e => simp
  | ok x =>
    obtain ⟨d', data', n⟩ := x
    -- the count of this call would have to start at 0
    have hspec :=
      httpParserExecute_spec hleads (List.ne_nil_of_length_pos hbs) (take_splice_zero data bs) (execute_ok hx)
    omega

/-- if the first read brings a part of the head only, the loop returns no request -/
theorem head_split_read {relaxed : Bool} {head : Bytes} (hw : WellFormed relaxed head) (queryStart : ℕ) {data : Bytes}
    {c : Conn} (hc : c.available = head) (hpart : (c.read data.length).2.1.length < head.length)
    (r : HttpRequestParser × Bytes × ℕ) : (recvHead (.new queryStart relaxed) data 0 c).1 ≠ .ok r := by
  obtain ⟨f, hh, -⟩ := hw.accepted
  rcases hr : c.read (data.length - 0) with ⟨rt, bs, c'⟩
  rw [recvHead_of_read hr]
  split_ifs with hrt
  · simp
  obtain ⟨-, hbs, -, happ⟩ := read_pos hr (by omega)
  rw [Nat.sub_zero] at hr
  rw [hr] at hpart
  have hrest : c'.available ≠ [] := by
    intro h0
    rw [hc, h0, List.append_nil] at happ
    rw [happ] at hpart
    exact absurd hpart (lt_irrefl _)
  rw [← hc, happ] at hh
  obtain ⟨cs', hreads, hhalts⟩ := halts_split hh hrest
  cases hx : (HttpRequestParser.new queryStart relaxed).execute (splice data 0 bs) (bs.length + 0) with
  | error e => simp
  | ok x =>
    obtain ⟨d, data', n⟩ := x
    have hne : bs ≠ [] := List.ne_nil_of_length_pos hbs
    obtain ⟨rfl, -, hframe⟩ := httpParserExecute_spec (d := .new queryStart relaxed) (.inl hreads) hne
      (take_splice_zero data bs) (execute_ok hx)
    simp only [HttpRequestParser.frame, Prod.mk.injEq] at hframe
    obtain ⟨hcs, hnread, hrel⟩ := hframe
    have hrel : d.parser.uriRelaxed = relaxed := hrel
    obtain ⟨herr, hfinal⟩ := reads_not_final hreads hne
    have hfin : d.isFinished = false := by
      simp only [HttpRequestParser.isFinished, hcs, decide_eq_false_iff_not, not_or, not_le]
      exact ⟨herr, hfinal⟩
    simp only [hfin, Bool.false_eq_true, if_false, Nat.add_zero, Nat.sub_self]
    split_ifs
    · simp
    · simp
    · exact head_later_read (by omega) (by rw [hrel, hcs]; exact hhalts) data' r

/-- the cut ends with the request and the number of unparsed bytes of the head in one read -/
def SameAsOneRead (queryStart : ℕ) (relaxed : Bool) (data head : Bytes) (cut : List Bytes) : Prop :=
  ∃ d₁ data₁ d₂ data₂ n, (recvHead (.new queryStart relaxed) data 0 ⟨cut.map .data, true⟩).1 = .ok (d₁, data₁, n) ∧
    (recvHead (.new queryStart relaxed) data 0 ⟨[.data head], true⟩).1 = .ok (d₂, data₂, n) ∧ d₁.data = d₂.data

theorem available_data {cut : List Bytes} (hne : ∀ s ∈ cut, s ≠ []) : available (cut.map .data) = cut.flatten := by
  induction cut with
  | nil => rfl
  | cons s cut ih =>
    rw [List.map_cons, available, if_neg (hne s List.mem_cons_self), List.flatten_cons,
      ih fun x hx => hne x (List.mem_cons_of_mem s hx)]

theorem read_data_length (s : Bytes) (rs : List Recv) (n : ℕ) :
    (Conn.read ⟨.data s :: rs, true⟩ n).2.1.length = min s.length (min n maxRead) := by
  simp only [Conn.read, if_true]
  split_ifs with h
  · exact (min_eq_left h).symm
  · rw [List.length_take]
    omega

/-- a buffer whose size is 0 as an `int` counts as full after the head -/
theorem head_full {relaxed : Bool} {head : Bytes} (hw : WellFormed relaxed head) (queryStart : ℕ) {data : Bytes}
    (hsize : toInt32 data.length = 0) (r : HttpRequestParser × Bytes × ℕ) :
    (recvHead (.new queryStart relaxed) data 0 ⟨[.data head], true⟩).1 ≠ .ok r := by
  obtain ⟨f, hh, -⟩ := hw.accepted
  by_cases hfit : head.length ≤ min data.length maxRead
  · have hne : head ≠ [] := by
      rintro rfl
      exact absurd hh (by simp [halts])
    have hread : Conn.read ⟨[.data head], true⟩ (data.length - 0) =
        ((head.length : ℤ), head, (⟨[], true⟩ : Conn)) := by
      simp only [Conn.read, if_true, Nat.sub_zero, hfit]
    rw [recvHead_of_read hread]
    split_ifs
    · simp
    cases hx : (HttpRequestParser.new queryStart relaxed).execute (splice data 0 head) (head.length + 0) with
    | error e => simp
    | ok x =>
      obtain ⟨d, data', n⟩ := x
      obtain ⟨rfl, -, -⟩ := httpParserExecute_spec (d := .new queryStart relaxed) (.inr hh) hne
        (take_splice_zero data head) (execute_ok hx)
      simp only [Nat.add_zero, Nat.sub_self, Nat.cast_zero, hsize, if_true]
      split_ifs <;> simp
  · have havail : Conn.available ⟨[.data head], true⟩ = head := by
      have hne : head ≠ [] := List.ne_nil_of_length_pos (by omega)
      simp [Conn.available, available, hne]
    refine head_split_read hw queryStart havail ?_ r
    rw [read_data_length]
    omega

/-- **Segmentation of the head.** For every well-formed head, every buffer and every cut into non-empty reads, the
loop ends as with one read iff there is one read: one segment, which fits the buffer and an `int` (and the size of the
buffer is not 0 as an `int`). -/
theorem head_cut_iff (queryStart : ℕ) (relaxed : Bool) (data head : Bytes) (cut : List Bytes)
    (hw : WellFormed relaxed head) (hcut : cut.flatten = head) (hne : ∀ s ∈ cut, s ≠ []) :
    SameAsOneRead queryStart relaxed data head cut ↔
      cut.length = 1 ∧ head.length ≤ min data.length maxRead ∧ toInt32 data.length ≠ 0 := by
  constructor
  · rintro ⟨d₁, data₁, d₂, data₂, n, hcutok, honeok, -⟩
    have hsize : toInt32 data.length ≠ 0 := fun h0 => head_full hw queryStart h0 _ honeok
    have havail : Conn.available ⟨cut.map .data, true⟩ = head := by
      rw [← hcut, ← available_data hne]
      rfl
    -- the first read must have brought the whole head
    have hwhole : ¬((Conn.read ⟨cut.map .data, true⟩ data.length).2.1.length < head.length) :=
      fun hpart => head_split_read hw queryStart havail hpart _ hcutok
    rcases cut with - | ⟨s, rest⟩
    · obtain ⟨f, hh, -⟩ := hw.accepted
      rw [← hcut] at hh
      exact absurd hh (by simp [halts])
    rw [List.map_cons, read_data_length] at hwhole
    have hlen : s.length + rest.flatten.length = head.length := by
      rw [← hcut, List.flatten_cons, List.length_append]
    have hrest : rest = [] := by
      by_contra hr
      obtain ⟨x, xs, rfl⟩ := List.exists_cons_of_ne_nil hr
      have hx : 0 < x.length := List.length_pos_iff.mpr (hne x (by simp))
      rw [List.flatten_cons, List.length_append] at hlen
      omega
    subst hrest
    exact ⟨rfl, by omega, hsize⟩
  · rintro ⟨hone, hfit, hsize⟩
    obtain ⟨s, rfl⟩ := List.length_eq_one_iff.mp hone
    obtain rfl : s = head := by simpa using hcut
    obtain ⟨d, data', hok⟩ := head_one_read hw queryStart hfit hsize
    exact ⟨d, data', d, data', 0, hok, hok, rfl⟩

/-- a smallest request -/
def getRoot : Bytes := ascii "GET / HTTP/1.1\r\n\r\n"

theorem getRoot_wellFormed : WellFormed false getRoot where
  accepted := ⟨348, by decide +kernel, by decide⟩
  method := by decide

theorem size_4096 : toInt32 ((List.replicate 4096 (0 : UInt8)).length) ≠ 0 := by
  rw [List.length_replicate]
  decide

/-- in one read -/
theorem head_cut_iff_getRoot : SameAsOneRead 0 false (List.replicate 4096 0) getRoot [getRoot] :=
  (head_cut_iff 0 false (List.replicate 4096 0) getRoot [getRoot] getRoot_wellFormed (by simp) (by decide)).mpr
    ⟨rfl, by rw [List.length_replicate]; decide, size_4096⟩

/-- in two reads, the first with one byte, the same head is lost -/
theorem head_cut_after_one_byte : getRoot = [[71], getRoot.tail].flatten ∧
    ¬SameAsOneRead 0 false (List.replicate 4096 0) getRoot [[71], getRoot.tail] := by
  refine ⟨by decide, ?_⟩
  rintro ⟨d₁, data₁, d₂, data₂, n, hcutok, -⟩
  refine head_split_read getRoot_wellFormed 0 (by decide) ?_ _ hcutok
  rw [List.map_cons, read_data_length, List.length_replicate]
  decide

/-! ## The body -/

/-- the body of `recvRequest` is right: with enough bytes it is the first `n` of them, it is given up only if there are
too few, and every store goes into the string -/
def BodyRight (r : HttpRequest) (left junk : Bytes) (n : ℕ) (c : Conn) : Prop :=
  (n ≤ left.length + c.available.length →
    ∃ q, (recvBody r (left ++ junk) left.length c).result = .ok q ∧ q.body = (left ++ c.available).take n) ∧
  ((recvBody r (left ++ junk) left.length c).result = .error .null → left.length + c.available.length < n) ∧
  (recvBody r (left ++ junk) left.length c).spill = []

theorem init_body (r : HttpRequest) : r.init.body = r.body := by
  simp only [HttpRequest.init]
  split_ifs <;> rfl

section
variable {r : HttpRequest} {n : ℕ} (hlen : r.getContentLength = n) (h0 : 0 < n) (hn : n < 2147483648)
include hlen h0 hn

/-- the leftover of the head is the body -/
theorem recvBody_exact {left : Bytes} (hl : left.length = n) (junk : Bytes) (c : Conn) :
    recvBody r (left ++ junk) left.length c = ⟨.ok { r with body := left }.init, c, []⟩ := by
  have hL : toInt64 r.getContentLength = (n : ℤ) := by rw [hlen]; exact toInt64_of_lt (by omega) (by omega)
  have hput : Body.put { bytes := List.replicate n 0 } 0 left = { bytes := left } := by
    have := @put_inside { bytes := List.replicate n 0 } 0 left (by simp; omega)
    simpa [splice, hl] using this
  simp only [recvBody, hL, List.take_left', hl, Int.toNat_natCast, le_refl, if_true, hput, sub_self, lt_self_iff_false,
    if_false]
  rw [if_pos (by omega)]

/-- more than the body is left: nothing is copied -/
theorem recvBody_long {left : Bytes} (hl : n < left.length) (junk : Bytes) (c : Conn) :
    recvBody r (left ++ junk) left.length c = ⟨.ok { r with body := List.replicate n 0 }.init, c, []⟩ := by
  have hL : toInt64 r.getContentLength = (n : ℤ) := by rw [hlen]; exact toInt64_of_lt (by omega) (by omega)
  have hno : ¬((left.length : ℤ) ≤ (n : ℤ)) := by omega
  have hneg : ¬((0 : ℤ) < (n : ℤ) - (left.length : ℤ)) := by omega
  simp only [recvBody, hL, Int.toNat_natCast, hno, if_false, hneg]
  rw [if_pos (by omega)]

/-- less than the body is left: what follows is read to the end of the string -/
theorem recvBody_short {left : Bytes} (hl : left.length < n) (junk : Bytes) (c : Conn) :
    ∃ b : Body, b.bytes.length = n ∧ b.spill = [] ∧ recvBody r (left ++ junk) left.length c =
      match readFixSize c b n (n - left.length) with
      | (rt, body, c') =>
        if 0 < rt then ⟨.error .null, c'.close, body.spill⟩
        else ⟨.ok { r with body := body.bytes }.init, c', body.spill⟩ := by
  have hL : toInt64 r.getContentLength = (n : ℤ) := by rw [hlen]; exact toInt64_of_lt (by omega) (by omega)
  have hput := @put_inside { bytes := List.replicate n 0 } 0 left (by rw [List.length_replicate]; omega)
  refine ⟨Body.put { bytes := List.replicate n 0 } 0 left, ?_, ?_, ?_⟩
  · rw [show (0 : ℤ) = ((0 : ℕ) : ℤ) from rfl, hput, splice_length_of_le _ _ _ (by rw [List.length_replicate]; omega),
      List.length_replicate]
  · rw [show (0 : ℤ) = ((0 : ℕ) : ℤ) from rfl, hput]
  · have hle : (left.length : ℤ) ≤ (n : ℤ) := by omega
    have hlt : (0 : ℤ) < (n : ℤ) - (left.length : ℤ) := by omega
    have hcast : ((n : ℤ) - (left.length : ℤ)).toNat = n - left.length := by omega
    have hlen32 : toInt32 (n : ℤ) = (n : ℤ) := toInt32_of_lt (by omega) (by omega)
    simp only [recvBody, hL, List.take_left', Int.toNat_natCast, hle, if_true, hlt, hcast, hlen32]
    rw [if_pos (by omega)]

theorem bodyRight_exact {left : Bytes} (hl : left.length = n) (junk : Bytes) (c : Conn) :
    BodyRight r left junk n c := by
  rw [BodyRight, recvBody_exact hlen h0 hn hl junk c]
  refine ⟨fun _ => ⟨_, rfl, ?_⟩, fun h => absurd h (by simp), rfl⟩
  rw [init_body, ← hl, List.take_left']
  rfl

theorem bodyRight_long {left : Bytes} (hl : n < left.length) (junk : Bytes) (c : Conn) :
    BodyRight r left junk n c ↔ left.take n = List.replicate n 0 := by
  have htake : (left ++ c.available).take n = left.take n := List.take_append_of_le_length (by omega)
  rw [BodyRight, recvBody_long hlen h0 hn hl junk c, htake]
  constructor
  · rintro ⟨h1, -, -⟩
    obtain ⟨q, hq, hbody⟩ := h1 (by omega)
    rw [← hbody, ← Except.ok.inj hq, init_body]
  · intro hzero
    refine ⟨fun _ => ⟨_, rfl, ?_⟩, fun h => absurd h (by simp), rfl⟩
    rw [init_body, hzero]

theorem bodyRight_short {left : Bytes} (hl : left.length < n) (junk : Bytes) (c : Conn) :
    BodyRight r left junk n c ↔ c.available = [] := by
  obtain ⟨b, hb, hspill, heq⟩ := recvBody_short hlen h0 hn hl junk c
  rw [BodyRight, heq]
  constructor
  · rintro ⟨-, -, h3⟩
    by_contra hne
    -- the first byte read is stored behind the string
    have hmiss := @readFixSize_past_end c hne b n (by omega) (n - left.length) (by omega) (by omega)
    rcases hread : readFixSize c b n (n - left.length) with ⟨rt, body, c'⟩
    rw [hread] at h3 hmiss
    dsimp only at h3 hmiss
    split_ifs at h3
    · exact hmiss h3
    · exact hmiss h3
  · intro hnil
    obtain ⟨hrt, hbody⟩ := readFixSize_of_available_nil hnil b n (show 0 < n - left.length by omega) (by omega)
    rcases hread : readFixSize c b n (n - left.length) with ⟨rt, body, c'⟩
    rw [hread] at hrt hbody
    dsimp only at hrt hbody ⊢
    rw [if_neg (by omega)]
    refine ⟨fun henough => ?_, fun h => absurd h (by simp), by rw [hbody, hspill]⟩
    rw [hnil, List.length_nil] at henough
    omega

end

/-- **Assembly of the body.** For every leftover, every content length from 1 to 2^31 - 1 and every behaviour of the
peer, the body is right iff the leftover is the body, or is longer and the body all zeros, or is shorter and the next
read fails. -/
theorem body_iff (r : HttpRequest) (left junk : Bytes) (n : ℕ) (c : Conn) (hlen : r.getContentLength = n) (h0 : 0 < n)
    (hn : n < 2147483648) :
    BodyRight r left junk n c ↔
      left.length = n ∨ (n < left.length ∧ left.take n = List.replicate n 0) ∨ (left.length < n ∧ c.available = []) := by
  rcases lt_trichotomy left.length n with hl | hl | hl
  · rw [bodyRight_short hlen h0 hn hl junk c]
    constructor
    · intro hnil
      exact .inr (.inr ⟨hl, hnil⟩)
    · rintro (h | ⟨h, -⟩ | ⟨-, hnil⟩)
      · omega
      · omega
      · exact hnil
  · exact iff_of_true (bodyRight_exact hlen h0 hn hl junk c) (.inl hl)
  · rw [bodyRight_long hlen h0 hn hl junk c]
    constructor
    · intro hzero
      exact .inr (.inl ⟨hl, hzero⟩)
    · rintro (h | ⟨-, hzero⟩ | ⟨h, -⟩)
      · omega
      · exact hzero
      · omega

/-- a request with a body of two bytes -/
def post2 : HttpRequest := { method := .POST, headers := [(ascii "content-length", ascii "2")] }

theorem body_iff_post2 : post2.getContentLength = 2 ∧ BodyRight post2 (ascii "ab") [] 2 ⟨[], true⟩ := by
  have hlen : post2.getContentLength = 2 := by decide
  exact ⟨hlen, (body_iff post2 (ascii "ab") [] 2 ⟨[], true⟩ hlen (by decide) (by decide)).mpr (.inl rfl)⟩

/-- the same body with one byte left over from the head and one still to come -/
theorem body_split : post2.getContentLength = 2 ∧ ¬BodyRight post2 (ascii "a") [] 2 ⟨[.data (ascii "b")], true⟩ := by
  have hlen : post2.getContentLength = 2 := by decide
  refine ⟨hlen, ?_⟩
  rw [bodyRight_short hlen (by decide) (by decide) (by decide)]
  decide

end Sylar.Http
