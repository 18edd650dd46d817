/-
The response parser: `httpclient_parser_execute` with the callbacks of `HttpResponseParser` (`httpclient_parser.rl`,
from which the build makes the parser, and `http_parser.cpp`).

The actions work on offsets into the buffer of the call, as in the request parser, but each call first sets `nread`,
`mark`, `field_len` and `field_start` to 0, while it goes on from the state `cs` of the call before. So an offset is
never ahead of the scan (`Within`), no length wraps, and a scan raises nothing (`act_eq`); but a text that began in an
earlier call is taken from the start of the buffer.

With `chunk` set, `execute` starts over with a new parser. A call whose last checks fail returns -1, which the caller
takes for a huge count (`Stop.undefined`).
-/
import Mathlib.Tactic
import Sylar.Core.Scan
import Sylar.Core.Splice
import Sylar.Http.Message
import Sylar.Http.Stream
import Sylar.Http.ResponseMachine

namespace Sylar.Http

open Sylar.Core Sylar.Core.Scan Sylar.Http.ResponseMachine

/-! ## Numbers in a buffer -/

def isspace (c : UInt8) : Bool := decide (9 ≤ c.toNat ∧ c.toNat ≤ 13 ∨ c.toNat = 32)

/-- the value of a digit of `strtol` -/
def digitValue (c : UInt8) : Option ℕ :=
  if 48 ≤ c.toNat ∧ c.toNat ≤ 57 then some (c.toNat - 48)
  else if 65 ≤ c.toNat ∧ c.toNat ≤ 90 then some (c.toNat - 55)
  else if 97 ≤ c.toNat ∧ c.toNat ≤ 122 then some (c.toNat - 87)
  else none

def isDigit (base : ℕ) (c : UInt8) : Bool := (digitValue c).any fun v => decide (v < base)

/-- the value of the digits `s` starts with, behind digits of value `acc` -/
def digitsValue (base : ℕ) : ℕ → Bytes → ℕ
  | acc, [] => acc
  | acc, c :: s => if isDigit base c then digitsValue base (acc * base + (digitValue c).getD 0) s else acc

/-- an optional `0x` before the digits of base 16 -/
def skipHexPrefix (base : ℕ) : Bytes → Bytes
  | 48 :: x :: c :: s => if base = 16 ∧ (x = 120 ∨ x = 88) ∧ isDigit 16 c then c :: s else 48 :: x :: c :: s
  | s => s

/-- `strtol(s, NULL, base)` for the bases 10 and 16; out of range it is clamped -/
def strtol (base : ℕ) (s : Bytes) : ℤ :=
  match s.dropWhile isspace with
  | 45 :: s => max (-9223372036854775808) (-(digitsValue base 0 (skipHexPrefix base s) : ℤ))
  | 43 :: s => min 9223372036854775807 (digitsValue base 0 (skipHexPrefix base s))
  | s => min 9223372036854775807 (digitsValue base 0 (skipHexPrefix base s))

/-- `atoi(s)` -/
def atoi (s : Bytes) : ℤ := toInt32 (strtol 10 s)

theorem skipHexPrefix_ten (s : Bytes) : skipHexPrefix 10 s = s := by
  unfold skipHexPrefix
  split
  · simp
  · rfl

theorem strtol_ten_cons {x : UInt8} (hx : isspace x = false) (s : Bytes) :
    strtol 10 (x :: s) =
      if x = 45 then max (-9223372036854775808) (-(digitsValue 10 0 s : ℤ))
      else if x = 43 then min 9223372036854775807 (digitsValue 10 0 s : ℤ)
      else min 9223372036854775807 (digitsValue 10 0 (x :: s) : ℤ) := by
  rw [strtol, List.dropWhile_cons_of_neg (by simp [hx])]
  split
  · next heq => cases heq; simp [skipHexPrefix_ten]
  · next heq => cases heq; simp [skipHexPrefix_ten]
  · next h1 h2 =>
    rw [if_neg (fun h => h1 s (by rw [h])), if_neg (fun h => h2 s (by rw [h])), skipHexPrefix_ten]

theorem isDigit_ten {c : UInt8} : isDigit 10 c = true ↔ 48 ≤ c.toNat ∧ c.toNat ≤ 57 := by
  unfold isDigit digitValue
  split_ifs with h1 h2 h3
  · simp only [Option.any_some, decide_eq_true_eq]
    omega
  · simp only [Option.any_some, decide_eq_true_eq]
    omega
  · simp only [Option.any_some, decide_eq_true_eq]
    omega
  · simp only [Option.any_none, Bool.false_eq_true, false_iff]
    omega

/-- digits end where no digit follows -/
theorem digitsValue_run {base : ℕ} {x rest : Bytes} (hrest : ∀ c ∈ rest.head?, isDigit base c = false) (acc : ℕ) :
    digitsValue base acc (x ++ rest) = digitsValue base acc x := by
  induction x generalizing acc with
  | nil =>
    cases rest with
    | nil => rfl
    | cons c rest => simp [digitsValue, hrest c rfl]
  | cons c x ih =>
    simp only [List.cons_append, digitsValue]
    split_ifs
    · exact ih _
    · rfl

theorem digitsValue_eq_foldl {x : Bytes} (hx : ∀ c ∈ x, isDigit 10 c = true) (acc : ℕ) :
    digitsValue 10 acc x = x.foldl (fun v c => v * 10 + (c.toNat - 48)) acc := by
  induction x generalizing acc with
  | nil => rfl
  | cons c x ih =>
    have hc := hx c List.mem_cons_self
    have hvalue : digitValue c = some (c.toNat - 48) := if_pos (isDigit_ten.mp hc)
    rw [digitsValue, if_pos hc, hvalue, Option.getD_some, ih fun y hy => hx y (List.mem_cons_of_mem _ hy),
      List.foldl_cons]

/-- a number that starts with a digit -/
theorem atoi_cons {c : UInt8} (hc : isDigit 10 c = true) (s : Bytes) :
    atoi (c :: s) = toInt32 (min 9223372036854775807 (digitsValue 10 0 (c :: s) : ℤ)) := by
  have hrange := isDigit_ten.mp hc
  have hspace : isspace c = false := by
    unfold isspace
    rw [decide_eq_false_iff_not]
    omega
  have hminus : c ≠ 45 := by
    intro heq
    rw [heq] at hrange
    exact absurd hrange (by decide)
  have hplus : c ≠ 43 := by
    intro heq
    rw [heq] at hrange
    exact absurd hrange (by decide)
  rw [atoi, strtol_ten_cons hspace, if_neg hminus, if_neg hplus]

theorem atoi_run {x rest : Bytes} (hx : x ≠ []) (hdigits : ∀ c ∈ x, isDigit 10 c = true)
    (hrest : ∀ c ∈ rest.head?, isDigit 10 c = false) : atoi (x ++ rest) = atoi x := by
  cases x with
  | nil => exact absurd rfl hx
  | cons c x =>
    have hc := hdigits c List.mem_cons_self
    rw [List.cons_append, atoi_cons hc, atoi_cons hc, ← List.cons_append, digitsValue_run hrest]

theorem atoi_decimal {n : ℕ} (hn : n < 2147483648) : atoi (decimal n) = n := by
  have hdigits : ∀ c ∈ decimal n, isDigit 10 c = true := fun c hc => isDigit_ten.mpr (decimal_digits hc)
  obtain ⟨c, x, hcons⟩ := List.exists_cons_of_ne_nil (decimal_ne_nil n)
  have hc : isDigit 10 c = true := hdigits c (by rw [hcons]; exact List.mem_cons_self)
  have hvalue : digitsValue 10 0 (c :: x) = n := by
    rw [← hcons, digitsValue_eq_foldl hdigits, decimal_value]
  rw [hcons, atoi_cons hc, hvalue]
  unfold toInt32
  omega

/-! ## The parser object -/

/-- `httpclient_parser`, without the callback pointers and `status`, which is only written -/
structure HttpclientParser where
  cs : ℕ
  bodyStart : ℕ
  contentLen : ℤ
  chunked : Bool
  chunksDone : Bool
  close : Bool
  nread : ℕ
  mark : ℕ
  fieldStart : ℕ
  fieldLen : ℕ
deriving DecidableEq, Repr

/-- `httpclient_parser_init` -/
def HttpclientParser.init : HttpclientParser where
  cs := start
  bodyStart := 0
  contentLen := -1
  chunked := false
  chunksDone := false
  close := false
  nread := 0
  mark := 0
  fieldStart := 0
  fieldLen := 0

structure HttpResponseParser where
  parser : HttpclientParser
  data : HttpResponse
  error : ℕ
deriving DecidableEq, Repr

def HttpResponseParser.new : HttpResponseParser := ⟨.init, {}, 0⟩

/-! ## Callbacks -/

def onResponseReason (buffer : Bytes) (start len : ℕ) (d : HttpResponseParser) : Except Stop HttpResponseParser :=
  (str buffer start len).map fun s => { d with data := { d.data with reason := s } }

/-- the number at `start`, wherever it ends -/
def onResponseStatus (buffer : Bytes) (start : ℕ) (d : HttpResponseParser) : HttpResponseParser :=
  { d with data := { d.data with status := atoi (buffer.drop start) } }

/-- an unknown version is printed and reported -/
def onResponseVersion (buffer : Bytes) (start len : ℕ) (d : HttpResponseParser) : Except Stop HttpResponseParser :=
  if strncmpEq (buffer.drop start) (ascii "HTTP/1.1") len then .ok { d with data := { d.data with version := 0x11 } }
  else if strncmpEq (buffer.drop start) (ascii "HTTP/1.0") len then .ok { d with data := { d.data with version := 0x10 } }
  else (str buffer start len).map fun _ => { d with error := 1001 }

def onResponseHttpField (buffer : Bytes) (field flen value vlen : ℕ) (d : HttpResponseParser) :
    Except Stop HttpResponseParser :=
  if flen = 0 then .ok d
  else
    (str buffer field flen).bind fun k =>
      (str buffer value vlen).map fun v => { d with data := { d.data with headers := d.data.headers.assign k v } }

/-! ## `httpclient_parser_execute` -/

/-- the actions of `httpclient_parser.rl` at `p`; the callbacks of a chunk size and of the last chunk are empty -/
def HttpResponseParser.act (buffer : Bytes) (a : Action) (p : ℕ) (d : HttpResponseParser) :
    Flow Stop HttpResponseParser :=
  let q := d.parser
  match a with
  | .mark => .go { d with parser := { q with mark := p } }
  | .startField => .go { d with parser := { q with fieldStart := p } }
  | .writeField => .go { d with parser := { q with fieldLen := lenFrom q.fieldStart p } }
  | .startValue => .go { d with parser := { q with mark := p } }
  | .writeContentLen => .go { d with parser := { q with contentLen := atoi (buffer.drop q.mark) } }
  | .writeConnectionClose => .go { d with parser := { q with close := true } }
  | .writeValue => .ofExcept (onResponseHttpField buffer q.fieldStart q.fieldLen q.mark (lenFrom q.mark p) d)
  | .reasonPhrase => .ofExcept (onResponseReason buffer q.mark (lenFrom q.mark p) d)
  | .statusCode => .go (onResponseStatus buffer q.mark d)
  | .httpVersion => .ofExcept (onResponseVersion buffer q.mark (lenFrom q.mark p) d)
  | .chunkSize =>
    let n := toInt32 (strtol 16 (buffer.drop q.mark))
    .go { d with parser := { q with chunked := true, contentLen := n, chunksDone := decide (n ≤ 0) } }
  | .transChunked => .go { d with parser := { q with chunked := true } }
  | .done => .fbreak { d with parser := { q with bodyStart := p + 1 } }

/-- what a call sets to 0 first -/
def HttpResponseParser.reset (d : HttpResponseParser) : HttpResponseParser :=
  { d with parser := { d.parser with nread := 0, mark := 0, fieldLen := 0, fieldStart := 0 } }

/-- `httpclient_parser_execute(parser, buffer, len, 0)`: the parser and the count it returns -/
def httpclientParserExecute (d : HttpResponseParser) (buffer : Bytes) (len : ℕ) :
    Except Stop (HttpResponseParser × ℕ) :=
  if buffer[len]? = some 0 ∧ toInt32 len = len then
    match exec machine (HttpResponseParser.act buffer) (buffer.take len) 0 d.parser.cs d.reset with
    | .error e => .error e
    | .ok (p, cs, d) =>
      let q := { d.parser with cs, nread := p }
      if ¬(p ≤ len ∧ q.nread ≤ len ∧ q.bodyStart ≤ len) then .error .assertFailed
      else if q.mark < len ∧ q.fieldLen ≤ len ∧ q.fieldStart < len then .ok ({ d with parser := q }, q.nread)
      else .error .undefined
  else .error .assertFailed

/-- `HttpResponseParser::execute`: the parser, the buffer after the `memmove`, and the count -/
def HttpResponseParser.execute (d : HttpResponseParser) (data : Bytes) (len : ℕ) (chunk : Bool) :
    Except Stop (HttpResponseParser × Bytes × ℕ) :=
  match httpclientParserExecute (if chunk then { d with parser := .init } else d) data len with
  | .error e => .error e
  | .ok (d', offset) => .ok (d', splice data 0 ((data.drop offset).take (len - offset)), offset)

def HttpResponseParser.hasError (d : HttpResponseParser) : Bool :=
  decide (d.error ≠ 0 ∨ d.parser.cs = ResponseMachine.error)

/-- `httpclient_parser_finish` is not 0 -/
def HttpResponseParser.isFinished (d : HttpResponseParser) : Bool :=
  decide (d.parser.cs = ResponseMachine.error ∨ d.parser.cs = firstFinal)

/-! ## One action -/

theorem onResponseReason_ok (buffer : Bytes) (start : ℕ) {len : ℕ} (hl : len ≤ maxSize) (d : HttpResponseParser) :
    onResponseReason buffer start len d = .ok { d with data := { d.data with reason := (buffer.drop start).take len } } := by
  rw [onResponseReason, str_ok buffer start hl]
  rfl

/-- the version in the text at `start`, if it is a known one -/
def versionOf (buffer : Bytes) (start len : ℕ) : Option ℕ :=
  if strncmpEq (buffer.drop start) (ascii "HTTP/1.1") len then some 0x11
  else if strncmpEq (buffer.drop start) (ascii "HTTP/1.0") len then some 0x10
  else none

theorem onResponseVersion_ok (buffer : Bytes) (start : ℕ) {len : ℕ} (hl : len ≤ maxSize) (d : HttpResponseParser) :
    onResponseVersion buffer start len d =
      .ok ((versionOf buffer start len).elim { d with error := 1001 } fun v => { d with data := { d.data with version := v } }) := by
  rw [onResponseVersion, str_ok buffer start hl, versionOf]
  split_ifs <;> rfl

theorem onResponseHttpField_ok (buffer : Bytes) (field value : ℕ) {flen vlen : ℕ} (hf : flen ≤ maxSize)
    (hv : vlen ≤ maxSize) (d : HttpResponseParser) :
    onResponseHttpField buffer field flen value vlen d =
      .ok (if flen = 0 then d
        else
          let headers := d.data.headers.assign ((buffer.drop field).take flen) ((buffer.drop value).take vlen)
          { d with data := { d.data with headers } }) := by
  rw [onResponseHttpField, str_ok buffer field hf, str_ok buffer value hv]
  split_ifs <;> rfl

/-- the offsets of a call are not ahead of `p` -/
structure Within (p : ℕ) (d : HttpResponseParser) : Prop where
  mark : d.parser.mark ≤ p
  fieldStart : d.parser.fieldStart ≤ p
  fieldLen : d.parser.fieldLen ≤ p

theorem Within.mono {p p' : ℕ} {d : HttpResponseParser} (h : Within p d) (hle : p ≤ p') : Within p' d :=
  ⟨h.mark.trans hle, h.fieldStart.trans hle, h.fieldLen.trans hle⟩

theorem Within.of_parser {p : ℕ} {d d' : HttpResponseParser} (h : Within p d) (hp : d'.parser = d.parser) :
    Within p d' :=
  ⟨hp ▸ h.mark, hp ▸ h.fieldStart, hp ▸ h.fieldLen⟩

theorem reset_within (d : HttpResponseParser) : Within 0 d.reset := ⟨le_refl 0, le_refl 0, le_refl 0⟩

/-- what an action does at `p`: it goes on or ends the scan, as it is `done` or not -/
def HttpResponseParser.after (buffer : Bytes) (a : Action) (p : ℕ) (d : HttpResponseParser) : HttpResponseParser :=
  match a with
  | .mark | .startValue => { d with parser := { d.parser with mark := p } }
  | .startField => { d with parser := { d.parser with fieldStart := p } }
  | .writeField => { d with parser := { d.parser with fieldLen := p - d.parser.fieldStart } }
  | .writeContentLen => { d with parser := { d.parser with contentLen := atoi (buffer.drop d.parser.mark) } }
  | .writeConnectionClose => { d with parser := { d.parser with close := true } }
  | .writeValue =>
    if d.parser.fieldLen = 0 then d
    else
      let key := (buffer.drop d.parser.fieldStart).take d.parser.fieldLen
      let val := (buffer.drop d.parser.mark).take (p - d.parser.mark)
      { d with data := { d.data with headers := d.data.headers.assign key val } }
  | .reasonPhrase => { d with data := { d.data with reason := (buffer.drop d.parser.mark).take (p - d.parser.mark) } }
  | .statusCode => { d with data := { d.data with status := atoi (buffer.drop d.parser.mark) } }
  | .httpVersion =>
    (versionOf buffer d.parser.mark (p - d.parser.mark)).elim { d with error := 1001 } fun v =>
      { d with data := { d.data with version := v } }
  | .chunkSize =>
    let n := toInt32 (strtol 16 (buffer.drop d.parser.mark))
    { d with parser := { d.parser with chunked := true, contentLen := n, chunksDone := decide (n ≤ 0) } }
  | .transChunked => { d with parser := { d.parser with chunked := true } }
  | .done => { d with parser := { d.parser with bodyStart := p + 1 } }

/-- **One action.** As long as the offsets are not ahead of the scan, no action raises. -/
theorem act_eq (buffer : Bytes) (a : Action) {p : ℕ} {d : HttpResponseParser} (hp : p ≤ maxSize) (h : Within p d) :
    HttpResponseParser.act buffer a p d = if isDone a then .fbreak (d.after buffer a p) else .go (d.after buffer a p) := by
  have hmark : p - d.parser.mark ≤ maxSize := (Nat.sub_le _ _).trans hp
  have hfield : d.parser.fieldLen ≤ maxSize := h.fieldLen.trans hp
  have hlen : lenFrom d.parser.mark p = p - d.parser.mark := if_pos h.mark
  have hname : lenFrom d.parser.fieldStart p = p - d.parser.fieldStart := if_pos h.fieldStart
  cases a with
  | writeField => simp only [HttpResponseParser.act, HttpResponseParser.after, hname]; rfl
  | writeValue =>
    simp only [HttpResponseParser.act, HttpResponseParser.after, onResponseHttpField_ok buffer _ _ hfield hmark, hlen]
    rfl
  | reasonPhrase =>
    simp only [HttpResponseParser.act, HttpResponseParser.after, onResponseReason_ok buffer _ hmark, hlen]
    rfl
  | httpVersion =>
    simp only [HttpResponseParser.act, HttpResponseParser.after, onResponseVersion_ok buffer _ hmark, hlen]
    rfl
  | _ => rfl

theorem after_parser_data {buffer : Bytes} {a : Action} {p : ℕ} {d : HttpResponseParser}
    (ha : a = .writeValue ∨ a = .reasonPhrase ∨ a = .statusCode ∨ a = .httpVersion) :
    (d.after buffer a p).parser = d.parser := by
  rcases ha with rfl | rfl | rfl | rfl
  · simp only [HttpResponseParser.after]
    split_ifs <;> rfl
  · rfl
  · rfl
  · simp only [HttpResponseParser.after]
    cases versionOf buffer d.parser.mark (p - d.parser.mark) <;> rfl

theorem after_within (buffer : Bytes) (a : Action) {p : ℕ} {d : HttpResponseParser} (h : Within p d) :
    Within p (d.after buffer a p) := by
  cases a with
  | mark => exact ⟨le_refl p, h.fieldStart, h.fieldLen⟩
  | startValue => exact ⟨le_refl p, h.fieldStart, h.fieldLen⟩
  | startField => exact ⟨h.mark, le_refl p, h.fieldLen⟩
  | writeField => exact ⟨h.mark, h.fieldStart, Nat.sub_le _ _⟩
  | writeValue => exact h.of_parser (after_parser_data (by simp))
  | reasonPhrase => exact h.of_parser (after_parser_data (by simp))
  | statusCode => exact h.of_parser (after_parser_data (by simp))
  | httpVersion => exact h.of_parser (after_parser_data (by simp))
  | _ => exact ⟨h.mark, h.fieldStart, h.fieldLen⟩

/-- the offsets are not ahead of `p`, and inside `n` bytes -/
structure Inside (n p : ℕ) (d : HttpResponseParser) : Prop extends Within p d where
  mark_lt : d.parser.mark < n
  start_lt : d.parser.fieldStart < n
  body_le : d.parser.bodyStart ≤ n

theorem Inside.after {n p : ℕ} {d : HttpResponseParser} (h : Inside n p d) (hp : p < n) (buffer : Bytes) (i : Action) :
    Inside n p (d.after buffer i p) := by
  refine ⟨after_within buffer i h.toWithin, ?_, ?_, ?_⟩
  · cases i with
    | mark => exact hp
    | startValue => exact hp
    | writeValue => rw [after_parser_data (by simp)]; exact h.mark_lt
    | httpVersion => rw [after_parser_data (by simp)]; exact h.mark_lt
    | _ => exact h.mark_lt
  · cases i with
    | startField => exact hp
    | writeValue => rw [after_parser_data (by simp)]; exact h.start_lt
    | httpVersion => rw [after_parser_data (by simp)]; exact h.start_lt
    | _ => exact h.start_lt
  · cases i with
    | done => exact hp
    | writeValue => rw [after_parser_data (by simp)]; exact h.body_le
    | httpVersion => rw [after_parser_data (by simp)]; exact h.body_le
    | _ => exact h.body_le

theorem onResponseHttpField_keeps {buffer : Bytes} {field flen value vlen : ℕ} {d d' : HttpResponseParser}
    (h : onResponseHttpField buffer field flen value vlen d = .ok d') :
    d'.parser = d.parser ∧ (d.error ≠ 0 → d'.error ≠ 0) := by
  unfold onResponseHttpField at h
  split_ifs at h
  · rw [← Except.ok.inj h]
    exact ⟨rfl, id⟩
  · cases hk : str buffer field flen <;> cases hv : str buffer value vlen <;> rw [hk, hv] at h <;>
      simp only [Except.bind, Except.map, Except.ok.injEq, reduceCtorEq] at h
    rw [← h]
    exact ⟨rfl, id⟩

theorem onResponseReason_keeps {buffer : Bytes} {start len : ℕ} {d d' : HttpResponseParser}
    (h : onResponseReason buffer start len d = .ok d') : d'.parser = d.parser ∧ (d.error ≠ 0 → d'.error ≠ 0) := by
  unfold onResponseReason at h
  cases hs : str buffer start len <;> rw [hs] at h <;> simp only [Except.map, Except.ok.injEq, reduceCtorEq] at h
  rw [← h]
  exact ⟨rfl, id⟩

theorem onResponseVersion_keeps {buffer : Bytes} {start len : ℕ} {d d' : HttpResponseParser}
    (h : onResponseVersion buffer start len d = .ok d') : d'.parser = d.parser ∧ (d.error ≠ 0 → d'.error ≠ 0) := by
  unfold onResponseVersion at h
  split_ifs at h
  · rw [← Except.ok.inj h]
    exact ⟨rfl, id⟩
  · rw [← Except.ok.inj h]
    exact ⟨rfl, id⟩
  · cases hs : str buffer start len <;> rw [hs] at h <;> simp only [Except.map, Except.ok.injEq, reduceCtorEq] at h
    rw [← h]
    exact ⟨rfl, fun _ => by simp⟩

/-- no action takes an error back -/
theorem act_error {buffer : Bytes} {i : Action} {p : ℕ} {d d' : HttpResponseParser}
    (h : HttpResponseParser.act buffer i p d = .go d' ∨ HttpResponseParser.act buffer i p d = .fbreak d')
    (hd : d.error ≠ 0) : d'.error ≠ 0 := by
  cases i with
  | writeValue => exact (onResponseHttpField_keeps (by simpa [HttpResponseParser.act] using h)).2 hd
  | reasonPhrase => exact (onResponseReason_keeps (by simpa [HttpResponseParser.act] using h)).2 hd
  | httpVersion => exact (onResponseVersion_keeps (by simpa [HttpResponseParser.act] using h)).2 hd
  | done =>
    simp only [HttpResponseParser.act, reduceCtorEq, Flow.fbreak.injEq, false_or] at h
    rw [← h]
    exact hd
  | _ =>
    simp only [HttpResponseParser.act, Flow.go.injEq, reduceCtorEq, or_false] at h
    rw [← h]
    exact hd

theorem response_act_ends (buffer : Bytes) : Ends (HttpResponseParser.act buffer) isDone where
  go := by
    intro i p d d' h
    cases i <;> first | rfl | simp [HttpResponseParser.act] at h
  fbreak := by
    intro i p d d' h
    cases i <;> first | rfl | simp [HttpResponseParser.act] at h

/-! ## One call -/

/-- the parser behind a call whose scan stopped at `p` in state `cs` -/
def HttpResponseParser.stopped (d : HttpResponseParser) (cs p : ℕ) : HttpResponseParser :=
  { d with parser := { d.parser with cs, nread := p } }

/-- a call whose scan keeps its offsets inside the buffer returns where the scan stopped -/
theorem httpclientParserExecute_of_exec {d d' : HttpResponseParser} {buffer : Bytes} {len p cs : ℕ}
    (hnul : buffer[len]? = some 0) (hlen : len ≤ maxRead)
    (hx : exec machine (HttpResponseParser.act buffer) (buffer.take len) 0 d.parser.cs d.reset = .ok (p, cs, d'))
    (hp : p ≤ len) (hin : Inside len len d') :
    httpclientParserExecute d buffer len = .ok (d'.stopped cs p, p) := by
  have hmax : maxRead = 2147483647 := rfl
  have hint : toInt32 len = len := toInt32_of_lt (by omega) (by omega)
  obtain ⟨⟨-, -, h1⟩, h2, h3, h4⟩ := hin
  rw [httpclientParserExecute, if_pos ⟨hnul, hint⟩, hx]
  dsimp only
  rw [if_neg (by omega), if_pos (by omega)]
  rfl

/-- a call that returns has stopped where the scan did -/
theorem exec_of_httpclientParserExecute {d d' : HttpResponseParser} {buffer : Bytes} {len n : ℕ}
    (h : httpclientParserExecute d buffer len = .ok (d', n)) :
    ∃ cs d₁, exec machine (HttpResponseParser.act buffer) (buffer.take len) 0 d.parser.cs d.reset = .ok (n, cs, d₁) ∧
      d' = d₁.stopped cs n ∧ n ≤ len := by
  unfold httpclientParserExecute at h
  split_ifs at h with hassert
  cases hx : exec machine (HttpResponseParser.act buffer) (buffer.take len) 0 d.parser.cs d.reset with
  | error e => rw [hx] at h; exact absurd h (by simp)
  | ok r =>
    obtain ⟨p, cs, d₁⟩ := r
    rw [hx] at h
    dsimp only at h
    split_ifs at h with h1 h2
    simp only [Except.ok.injEq, Prod.mk.injEq] at h
    obtain ⟨rfl, rfl⟩ := h
    exact ⟨cs, d₁, rfl, rfl, h1.1⟩

theorem HttpResponseParser.execute_ok {d d' : HttpResponseParser} {data data' : Bytes} {len n : ℕ}
    (h : d.execute data len false = .ok (d', data', n)) :
    httpclientParserExecute d data len = .ok (d', n) ∧ data' = splice data 0 ((data.drop n).take (len - n)) := by
  unfold HttpResponseParser.execute at h
  rw [if_neg Bool.false_ne_true] at h
  cases hx : httpclientParserExecute d data len with
  | error e => rw [hx] at h; exact absurd h (by simp)
  | ok r =>
    obtain ⟨d₁, n₁⟩ := r
    rw [hx] at h
    simp only [Except.ok.injEq, Prod.mk.injEq] at h
    obtain ⟨rfl, rfl, rfl⟩ := h
    exact ⟨rfl, rfl⟩

end Sylar.Http
