/-
The request parser: `http_parser_execute` with the callbacks of `HttpRequestParser` (`http11_parser.rl`,
`http_parser.cpp`).

The actions of the machine work on offsets into the buffer of the call: `mark`, `field_start` and `query_start` are `p
- buffer` at the time they are set, and a length is `p - buffer` minus one of them, as a `size_t` (`lenFrom`). A call
starts at offset 0 of its buffer, but the parser object keeps its offsets and its count `nread` from the calls before.
`std::string(at, n)` throws if `n` is a wrapped length. `query_start` and `uri_relaxed` are never initialised, so a
fresh parser has any values there.

`parserLabels` labels the states with what the transitions guarantee: how much of the method has been read, and
whether `query_start` has been set. With it a call that starts fresh and reads an accepted head raises nothing
(`httpParserExecute_fresh`).
-/
import Mathlib.Tactic
import Sylar.Core.Scan
import Sylar.Core.Splice
import Sylar.Http.Message
import Sylar.Http.Stream
import Sylar.Http.RequestMachine

namespace Sylar.Http

open Sylar.Core Sylar.Core.Scan Sylar.Http.RequestMachine

/-- `http_parser`, without the callback pointers -/
structure HttpParser where
  cs : ℕ
  bodyStart : ℕ
  contentLen : ℤ
  nread : ℕ
  mark : ℕ
  fieldStart : ℕ
  fieldLen : ℕ
  queryStart : ℕ
  xmlSent : Bool
  jsonSent : Bool
  uriRelaxed : Bool
deriving DecidableEq, Repr

/-- `http_parser_init` on memory that holds `queryStart` and `uriRelaxed` -/
def HttpParser.init (queryStart : ℕ) (uriRelaxed : Bool) : HttpParser where
  cs := start
  bodyStart := 0
  contentLen := 0
  nread := 0
  mark := 0
  fieldStart := 0
  fieldLen := 0
  queryStart
  xmlSent := false
  jsonSent := false
  uriRelaxed

structure HttpRequestParser where
  parser : HttpParser
  data : HttpRequest
  error : ℕ
deriving DecidableEq, Repr

def HttpRequestParser.new (queryStart : ℕ) (uriRelaxed : Bool) : HttpRequestParser :=
  ⟨.init queryStart uriRelaxed, {}, 0⟩

/-! ## Callbacks -/

/-- a callback that only stores the text it is given -/
def store (set : HttpRequest → Bytes → HttpRequest) (buffer : Bytes) (start len : ℕ) (d : HttpRequestParser) :
    Except Stop HttpRequestParser :=
  (str buffer start len).map fun s => { d with data := set d.data s }

def onRequestFragment := store fun r s => { r with fragment := s }

def onRequestPath := store fun r s => { r with path := s }

def onRequestQuery := store fun r s => { r with query := s }

/-- an unknown method is printed and reported -/
def onRequestMethod (buffer : Bytes) (start len : ℕ) (d : HttpRequestParser) : Except Stop HttpRequestParser :=
  let m := charsToHttpMethod (buffer.drop start)
  if m = .INVALID_METHOD then (str buffer start len).map fun _ => { d with error := 1000 }
  else .ok { d with data := { d.data with method := m } }

/-- an unknown version is printed and nothing else -/
def onRequestVersion (buffer : Bytes) (start len : ℕ) (d : HttpRequestParser) : Except Stop HttpRequestParser :=
  if strncmpEq (buffer.drop start) (ascii "HTTP/1.1") len then .ok { d with data := { d.data with version := 0x11 } }
  else if strncmpEq (buffer.drop start) (ascii "HTTP/1.0") len then .ok { d with data := { d.data with version := 0x10 } }
  else (str buffer start len).map fun _ => d

def onRequestHttpField (buffer : Bytes) (field flen value vlen : ℕ) (d : HttpRequestParser) :
    Except Stop HttpRequestParser :=
  if flen = 0 then .ok d
  else
    (str buffer field flen).bind fun k =>
      (str buffer value vlen).map fun v => { d with data := { d.data with headers := d.data.headers.assign k v } }

/-! ## `http_parser_execute` -/

/-- the actions of `http11_parser.rl` at `p` -/
def act (buffer : Bytes) (a : Action) (p : ℕ) (d : HttpRequestParser) : Flow Stop HttpRequestParser :=
  let q := d.parser
  match a with
  | .mark => .go { d with parser := { q with mark := p } }
  | .startField => .go { d with parser := { q with fieldStart := p } }
  | .writeField => .go { d with parser := { q with fieldLen := lenFrom q.fieldStart p } }
  | .startValue => .go { d with parser := { q with mark := p } }
  | .writeValue => .ofExcept (onRequestHttpField buffer q.fieldStart q.fieldLen q.mark (lenFrom q.mark p) d)
  | .requestMethod => .ofExcept (onRequestMethod buffer q.mark (lenFrom q.mark p) d)
  | .requestUri => .go d
  | .fragment => .ofExcept (onRequestFragment buffer q.mark (lenFrom q.mark p) d)
  | .startQuery => .go { d with parser := { q with queryStart := p } }
  | .queryString => .ofExcept (onRequestQuery buffer q.queryStart (lenFrom q.queryStart p) d)
  | .httpVersion => .ofExcept (onRequestVersion buffer q.mark (lenFrom q.mark p) d)
  | .requestPath => .ofExcept (onRequestPath buffer q.mark (lenFrom q.mark p) d)
  | .done =>
    if q.xmlSent || q.jsonSent then
      .fbreak { d with parser := { q with bodyStart := q.mark, contentLen := toInt32 (p - q.mark + 1) } }
    else .fbreak { d with parser := { q with bodyStart := p + 1 } }
  | .xml => .go { d with parser := { q with xmlSent := true } }
  | .json => .go { d with parser := { q with jsonSent := true } }

/-- `http_parser_execute(parser, buffer, len, 0)`: the parser and the count it returns -/
def httpParserExecute (d : HttpRequestParser) (buffer : Bytes) (len : ℕ) : Except Stop (HttpRequestParser × ℕ) :=
  if len = 0 then .ok (d, 0)
  else
    let scanned :=
      if d.parser.cs = error then .ok (0, error, d)
      else exec (machine d.parser.uriRelaxed) (act buffer) (buffer.take len) 0 d.parser.cs d
    match scanned with
    | .error e => .error e
    | .ok (p, cs, d) =>
      let cs' := if d.parser.cs = error then d.parser.cs else cs
      let q := { d.parser with cs := cs', nread := d.parser.nread + p }
      if p ≤ len ∧ q.nread ≤ len ∧ q.bodyStart ≤ len ∧ q.mark < len ∧ q.fieldLen ≤ len ∧ q.fieldStart < len then
        .ok ({ d with parser := q }, q.nread)
      else .error .assertFailed

/-- `HttpRequestParser::execute`: the parser, the buffer after the `memmove`, and the count -/
def HttpRequestParser.execute (d : HttpRequestParser) (data : Bytes) (len : ℕ) :
    Except Stop (HttpRequestParser × Bytes × ℕ) :=
  match httpParserExecute d data len with
  | .error e => .error e
  | .ok (d', offset) => .ok (d', splice data 0 ((data.drop offset).take (len - offset)), offset)

def HttpRequestParser.hasError (d : HttpRequestParser) : Bool :=
  decide (d.error ≠ 0 ∨ d.parser.cs = RequestMachine.error)

/-- `http_parser_finish` is not 0 -/
def HttpRequestParser.isFinished (d : HttpRequestParser) : Bool :=
  decide (d.parser.cs = RequestMachine.error ∨ firstFinal ≤ d.parser.cs)

/-! ## What the transitions guarantee -/

/-- how far the request line is: nothing read, in the method, behind it (or in a socket message, which has none) -/
inductive Phase where
  | fresh
  | method
  | other
deriving DecidableEq, Repr

structure Label where
  phase : Phase
  /-- `query_start` is set -/
  query : Bool
deriving DecidableEq, Repr

def label (cs : ℕ) : Label where
  phase := if cs = start then .fresh else if cs = 2 ∨ 175 ≤ cs ∧ cs ≤ 193 then .method else .other
  query := decide (30 ≤ cs ∧ cs ≤ 32)

/-- the method is marked once, at its first byte, and reported while the mark is there; the query is marked before it
is reported -/
def Label.tr : Action → Label → Option Label
  | .mark, ⟨.fresh, q⟩ => some ⟨.method, q⟩
  | .mark, ⟨.method, _⟩ => none
  | .startValue, ⟨.other, q⟩ => some ⟨.other, q⟩
  | .startValue, _ => none
  | .requestMethod, ⟨.method, q⟩ => some ⟨.other, q⟩
  | .requestMethod, _ => none
  | .startQuery, ⟨ph, _⟩ => some ⟨ph, true⟩
  | .queryString, ⟨ph, q⟩ => if q then some ⟨ph, q⟩ else none
  | _, a => some a

def Label.le (a b : Label) : Bool :=
  decide (b.phase = .other ∨ a.phase = .method ∧ b.phase = .method) && (a.query || !b.query)

/-- what a label says at `p`: all offsets lie before `p` -/
structure Holds (a : Label) (p : ℕ) (d : HttpRequestParser) : Prop where
  mark : d.parser.mark ≤ p
  fieldStart : d.parser.fieldStart ≤ p
  fieldLen : d.parser.fieldLen ≤ p
  bodyStart : d.parser.bodyStart ≤ p + 1
  query : a.query = true → d.parser.queryStart ≤ p
  fresh : a.phase = .fresh → p = 0
  method : a.phase = .method → d.parser.mark = 0
  error : d.error = 0

/-- the row of a transition agrees with the labels -/
def rowOk (a : Label) (r : ℕ × List Action) : Bool := (track isDone Label.tr r.2 a).elim false (Label.le · (label r.1))

theorem rows_ok : ∀ a ∈ [⟨.fresh, false⟩, ⟨.method, false⟩, ⟨.other, true⟩, (⟨.other, false⟩ : Label)],
    checkRows (fun cs => decide (label cs = a)) (rowOk a) = true := by
  decide +kernel

theorem label_mem (cs : ℕ) :
    label cs ∈ [⟨.fresh, false⟩, ⟨.method, false⟩, ⟨.other, true⟩, (⟨.other, false⟩ : Label)] := by
  by_cases h1 : cs = start
  · subst h1; decide
  by_cases h2 : cs = 2 ∨ 175 ≤ cs ∧ cs ≤ 193
  · have hq : ¬(30 ≤ cs ∧ cs ≤ 32) := by omega
    simp [label, h1, h2, hq]
  by_cases hq : 30 ≤ cs ∧ cs ≤ 32 <;> simp [label, h1, h2, hq]

theorem next_labels (relaxed : Bool) (cs : ℕ) (c : UInt8) (herr : (next relaxed cs c).1 ≠ error) :
    ∃ a, track isDone Label.tr (next relaxed cs c).2 (label cs) = some a ∧ a.le (label (next relaxed cs c).1) = true := by
  have hrow := next_checked (rows_ok _ (label_mem cs)) relaxed c (decide_eq_true rfl) herr
  unfold rowOk at hrow
  cases ht : track isDone Label.tr (next relaxed cs c).2 (label cs) with
  | none => rw [ht] at hrow; exact absurd hrow Bool.false_ne_true
  | some a => rw [ht] at hrow; exact ⟨a, rfl, hrow⟩

theorem Holds.of_same {a : Label} {p : ℕ} {d d' : HttpRequestParser} (h : Holds a p d) (hp : d'.parser = d.parser)
    (he : d'.error = 0) : Holds a p d' where
  mark := hp ▸ h.mark
  fieldStart := hp ▸ h.fieldStart
  fieldLen := hp ▸ h.fieldLen
  bodyStart := hp ▸ h.bodyStart
  query := hp ▸ h.query
  fresh := h.fresh
  method := hp ▸ h.method
  error := he

/-- a text of at most `max_size` bytes is stored, and the parser is not touched -/
theorem store_ok (set : HttpRequest → Bytes → HttpRequest) (buffer : Bytes) (start : ℕ) {len : ℕ} (hl : len ≤ maxSize)
    (d : HttpRequestParser) :
    ∃ d', store set buffer start len d = .ok d' ∧ d'.parser = d.parser ∧ d'.error = d.error := by
  rw [store, str_ok buffer start hl]
  exact ⟨_, rfl, rfl, rfl⟩

theorem onRequestMethod_ok {buffer : Bytes} {start : ℕ} (hm : charsToHttpMethod (buffer.drop start) ≠ .INVALID_METHOD)
    (len : ℕ) (d : HttpRequestParser) :
    ∃ d', onRequestMethod buffer start len d = .ok d' ∧ d'.parser = d.parser ∧ d'.error = d.error := by
  rw [onRequestMethod, if_neg hm]
  exact ⟨_, rfl, rfl, rfl⟩

theorem onRequestVersion_ok (buffer : Bytes) (start : ℕ) {len : ℕ} (hl : len ≤ maxSize) (d : HttpRequestParser) :
    ∃ d', onRequestVersion buffer start len d = .ok d' ∧ d'.parser = d.parser ∧ d'.error = d.error := by
  rw [onRequestVersion, str_ok buffer start hl]
  split_ifs
  · exact ⟨_, rfl, rfl, rfl⟩
  · exact ⟨_, rfl, rfl, rfl⟩
  · exact ⟨_, rfl, rfl, rfl⟩

theorem onRequestHttpField_ok (buffer : Bytes) (field value : ℕ) {flen vlen : ℕ} (hf : flen ≤ maxSize)
    (hv : vlen ≤ maxSize) (d : HttpRequestParser) :
    ∃ d', onRequestHttpField buffer field flen value vlen d = .ok d' ∧ d'.parser = d.parser ∧ d'.error = d.error := by
  rw [onRequestHttpField, str_ok buffer field hf, str_ok buffer value hv]
  split_ifs
  · exact ⟨_, rfl, rfl, rfl⟩
  · exact ⟨_, rfl, rfl, rfl⟩

theorem act_ends (buffer : Bytes) : Ends (act buffer) isDone where
  go := by
    intro i p d d' h
    cases i <;> first | rfl | skip
    simp only [act] at h
    split_ifs at h
  fbreak := by
    intro i p d d' h
    cases i <;> first | rfl | simp [act] at h

/-- a callback that goes through and leaves the parser alone keeps what the label says -/
theorem Holds.of_callback {a : Label} {p : ℕ} {d : HttpRequestParser} {x : Except Stop HttpRequestParser}
    (h : Holds a p d) (hx : ∃ d', x = .ok d' ∧ d'.parser = d.parser ∧ d'.error = d.error) :
    ∃ d', (Flow.ofExcept x = .go d' ∨ Flow.ofExcept x = .fbreak d') ∧ Holds a p d' := by
  obtain ⟨d', rfl, hp, he⟩ := hx
  exact ⟨d', .inl rfl, h.of_same hp (he.trans h.error)⟩

/-- one action keeps what the label says -/
theorem act_holds {buffer : Bytes} (hm : charsToHttpMethod buffer ≠ .INVALID_METHOD) {i : Action} {a a' : Label} {p : ℕ}
    {d : HttpRequestParser} (hp : p ≤ maxSize) (h : Holds a p d) (ht : Label.tr i a = some a') :
    ∃ d', (act buffer i p d = .go d' ∨ act buffer i p d = .fbreak d') ∧ Holds a' p d' := by
  have hmark : lenFrom d.parser.mark p ≤ maxSize := (lenFrom_le h.mark).trans hp
  have hfield : d.parser.fieldLen ≤ maxSize := h.fieldLen.trans hp
  obtain ⟨ph, q⟩ := a
  cases i with
  | mark =>
    refine ⟨_, .inl rfl, ?_⟩
    cases ph with
    | fresh =>
      obtain rfl := Option.some.inj ht
      exact { h with mark := le_refl p, fresh := fun hc => absurd hc (by simp), method := fun _ => h.fresh rfl }
    | method => exact absurd ht (by simp [Label.tr])
    | other =>
      obtain rfl := Option.some.inj ht
      exact { h with mark := le_refl p, method := fun hc => absurd hc (by simp) }
  | startField =>
    obtain rfl := Option.some.inj ht
    exact ⟨_, .inl rfl, { h with fieldStart := le_refl p }⟩
  | writeField =>
    obtain rfl := Option.some.inj ht
    exact ⟨_, .inl rfl, { h with fieldLen := lenFrom_le h.fieldStart }⟩
  | startValue =>
    cases ph with
    | fresh => exact absurd ht (by simp [Label.tr])
    | method => exact absurd ht (by simp [Label.tr])
    | other =>
      obtain rfl := Option.some.inj ht
      exact ⟨_, .inl rfl, { h with mark := le_refl p, method := fun hc => absurd hc (by simp) }⟩
  | writeValue =>
    obtain rfl := Option.some.inj ht
    exact h.of_callback (onRequestHttpField_ok buffer _ _ hfield hmark d)
  | requestMethod =>
    cases ph with
    | fresh => exact absurd ht (by simp [Label.tr])
    | other => exact absurd ht (by simp [Label.tr])
    | method =>
      obtain rfl := Option.some.inj ht
      have hother : Holds ⟨.other, q⟩ p d :=
        { h with fresh := fun hc => absurd hc (by simp), method := fun hc => absurd hc (by simp) }
      -- the mark is still at the first byte of the buffer
      have hzero : d.parser.mark = 0 := h.method rfl
      exact hother.of_callback (onRequestMethod_ok (by rw [hzero]; exact hm) _ d)
  | requestUri =>
    obtain rfl := Option.some.inj ht
    exact ⟨d, .inl rfl, h⟩
  | fragment =>
    obtain rfl := Option.some.inj ht
    exact h.of_callback (store_ok _ buffer _ hmark d)
  | startQuery =>
    obtain rfl := Option.some.inj ht
    exact ⟨_, .inl rfl, { h with query := fun _ => le_refl p }⟩
  | queryString =>
    simp only [Label.tr] at ht
    split_ifs at ht with hq
    obtain rfl := Option.some.inj ht
    exact h.of_callback (store_ok _ buffer _ ((lenFrom_le (h.query hq)).trans hp) d)
  | httpVersion =>
    obtain rfl := Option.some.inj ht
    exact h.of_callback (onRequestVersion_ok buffer _ hmark d)
  | requestPath =>
    obtain rfl := Option.some.inj ht
    exact h.of_callback (store_ok _ buffer _ hmark d)
  | done =>
    obtain rfl := Option.some.inj ht
    simp only [act]
    split_ifs
    · exact ⟨_, .inr rfl, { h with bodyStart := h.mark.trans (Nat.le_succ p) }⟩
    · exact ⟨_, .inr rfl, { h with bodyStart := le_refl (p + 1) }⟩
  | xml =>
    obtain rfl := Option.some.inj ht
    exact ⟨_, .inl rfl, { h with }⟩
  | json =>
    obtain rfl := Option.some.inj ht
    exact ⟨_, .inl rfl, { h with }⟩

theorem Holds.advance {a b : Label} {p : ℕ} {d : HttpRequestParser} (h : Holds a p d) (hle : a.le b = true) :
    Holds b (p + 1) d := by
  simp only [Label.le, Bool.and_eq_true, decide_eq_true_eq, Bool.or_eq_true, Bool.not_eq_true'] at hle
  obtain ⟨hphase, hquery⟩ := hle
  refine ⟨h.mark.trans (Nat.le_succ p), h.fieldStart.trans (Nat.le_succ p), h.fieldLen.trans (Nat.le_succ p),
    h.bodyStart.trans (Nat.le_succ _), fun hb => ?_, fun hb => ?_, fun hb => ?_, h.error⟩
  · rcases hquery with ha | hn
    · exact (h.query ha).trans (Nat.le_succ p)
    · rw [hb] at hn; exact absurd hn (by simp)
  · rcases hphase with ho | ⟨-, ho⟩ <;> rw [hb] at ho <;> exact absurd ho (by simp)
  · rcases hphase with ho | ⟨ha, -⟩
    · rw [hb] at ho; exact absurd ho (by simp)
    · exact h.method ha

/-- the labels of the request machine, for a buffer that starts with a known method -/
def parserLabels (relaxed : Bool) {buffer : Bytes} (hm : charsToHttpMethod buffer ≠ .INVALID_METHOD) :
    Labels (machine relaxed) (act buffer) isDone Label where
  label := label
  tr := fun _ => Label.tr
  le := fun _ => Label.le
  holds := Holds
  sym := fun p => if p ≤ maxSize then buffer[p]? else none
  ends := act_ends buffer
  checked := next_labels relaxed
  sound := fun _ _ _ _ _ _ hp h ht => act_holds hm (by by_contra hc; rw [if_neg hc] at hp; exact absurd hp (by simp)) h ht
  advance := fun _ _ _ _ _ _ h hle => h.advance hle

/-! ## One call of `http_parser_execute` -/

theorem parser_of_map_ok {x : Except Stop Bytes} {f : Bytes → HttpRequestParser} {d d' : HttpRequestParser}
    (h : x.map f = .ok d') (hf : ∀ s, (f s).parser = d.parser) : d'.parser = d.parser := by
  cases x with
  | error e => exact absurd h (by simp [Except.map])
  | ok s => rw [← Except.ok.inj h]; exact hf s

theorem store_keeps {set : HttpRequest → Bytes → HttpRequest} {buffer : Bytes} {start len : ℕ}
    {d d' : HttpRequestParser}
    (h : store set buffer start len d = .ok d') : d'.parser = d.parser := parser_of_map_ok h fun _ => rfl

theorem onRequestMethod_keeps {buffer : Bytes} {start len : ℕ} {d d' : HttpRequestParser}
    (h : onRequestMethod buffer start len d = .ok d') : d'.parser = d.parser := by
  unfold onRequestMethod at h
  dsimp only at h
  split_ifs at h
  · exact parser_of_map_ok h fun _ => rfl
  · rw [← Except.ok.inj h]

theorem onRequestVersion_keeps {buffer : Bytes} {start len : ℕ} {d d' : HttpRequestParser}
    (h : onRequestVersion buffer start len d = .ok d') : d'.parser = d.parser := by
  unfold onRequestVersion at h
  split_ifs at h
  · rw [← Except.ok.inj h]
  · rw [← Except.ok.inj h]
  · exact parser_of_map_ok h fun _ => rfl

theorem onRequestHttpField_keeps {buffer : Bytes} {field flen value vlen : ℕ} {d d' : HttpRequestParser}
    (h : onRequestHttpField buffer field flen value vlen d = .ok d') : d'.parser = d.parser := by
  unfold onRequestHttpField at h
  split_ifs at h
  · rw [← Except.ok.inj h]
  · cases hk : str buffer field flen with
    | error e => rw [hk] at h; exact absurd h (by simp [Except.bind])
    | ok k =>
      rw [hk] at h
      exact parser_of_map_ok h fun _ => rfl

/-- what no action changes -/
def HttpRequestParser.frame (d : HttpRequestParser) : ℕ × ℕ × Bool := (d.parser.cs, d.parser.nread, d.parser.uriRelaxed)

theorem frame_of_same {d d' : HttpRequestParser} (h : d'.parser = d.parser) : d'.frame = d.frame := by
  rw [HttpRequestParser.frame, h, HttpRequestParser.frame]

theorem act_frame (buffer : Bytes) (i : Action) (p : ℕ) (d d' : HttpRequestParser)
    (h : act buffer i p d = .go d' ∨ act buffer i p d = .fbreak d') : d'.frame = d.frame := by
  cases i with
  | writeValue => exact frame_of_same (onRequestHttpField_keeps (by simpa [act] using h))
  | requestMethod => exact frame_of_same (onRequestMethod_keeps (by simpa [act] using h))
  | fragment => exact frame_of_same (store_keeps (by simpa [act, onRequestFragment] using h))
  | queryString => exact frame_of_same (store_keeps (by simpa [act, onRequestQuery] using h))
  | httpVersion => exact frame_of_same (onRequestVersion_keeps (by simpa [act] using h))
  | requestPath => exact frame_of_same (store_keeps (by simpa [act, onRequestPath] using h))
  | done =>
    simp only [act] at h
    split_ifs at h
    · rw [← Flow.fbreak.inj (h.resolve_left (by simp))]; rfl
    · rw [← Flow.fbreak.inj (h.resolve_left (by simp))]; rfl
  | _ =>
    simp only [act, Flow.go.injEq, reduceCtorEq, or_false] at h
    subst h
    rfl

/-- a path from a state that reads or accepts something starts outside the error state -/
theorem next_error (relaxed : Bool) (c : UInt8) : next relaxed error c = (error, []) := by
  rw [next, if_pos (.inl rfl)]

/-- the input `u` leads from `cs` to `cs'`, and ends the scan at most with its last byte -/
def Leads (relaxed : Bool) (cs : ℕ) (u : Bytes) (cs' : ℕ) : Prop :=
  reads (machine relaxed) isDone cs u = some cs' ∨ halts (machine relaxed) isDone cs u = some cs'

theorem Leads.ne_error {relaxed : Bool} {cs cs' : ℕ} {u : Bytes} (h : Leads relaxed cs u cs') (hu : u ≠ []) :
    cs ≠ error := by
  rintro rfl
  obtain ⟨c, w, rfl⟩ := List.exists_cons_of_ne_nil hu
  have herr : ((machine relaxed).next error c).1 = (machine relaxed).error := by
    show (next relaxed error c).1 = error
    rw [next_error]
  rcases h with h | h
  · rw [reads, if_pos (.inr herr)] at h; exact absurd h (by simp)
  · rw [halts, if_pos herr] at h; exact absurd h (by simp)

/-- **One call.** A call that returns has read its whole input, and no call before it had read anything. -/
theorem httpParserExecute_spec {d d' : HttpRequestParser} {buffer u : Bytes} {cs' n : ℕ}
    (hl : Leads d.parser.uriRelaxed d.parser.cs u cs') (hu : u ≠ []) (hbuf : buffer.take u.length = u)
    (h : httpParserExecute d buffer u.length = .ok (d', n)) :
    n = u.length ∧ d.parser.nread = 0 ∧ d'.frame = (cs', u.length, d.parser.uriRelaxed) := by
  have hcs := hl.ne_error hu
  have hlen : u.length ≠ 0 := by simpa using hu
  rw [httpParserExecute, if_neg hlen] at h
  simp only [hcs, if_false, hbuf] at h
  cases hx : exec (machine d.parser.uriRelaxed) (act buffer) u 0 d.parser.cs d with
  | error e => rw [hx] at h; exact absurd h (by simp)
  | ok r =>
    obtain ⟨p, cs, d1⟩ := r
    have hx' : exec (machine d.parser.uriRelaxed) (act buffer) (u ++ []) 0 d.parser.cs d = .ok (p, cs, d1) := by
      rw [List.append_nil, hx]
    have hpos : p = u.length ∧ cs = cs' := by
      rcases hl with hr | hh
      · obtain ⟨d2, h1, -⟩ := exec_of_reads (act_ends buffer) hr hx'
        rw [hx] at h1
        simp only [Except.ok.injEq, Prod.mk.injEq] at h1
        omega
      · obtain ⟨h1, h2, -⟩ := exec_of_halts (act_ends buffer) hh hx'
        exact ⟨by simpa using h1, h2⟩
    have hframe := exec_frame (act_frame buffer) hx
    simp only [HttpRequestParser.frame, Prod.mk.injEq] at hframe
    obtain ⟨hf1, hf2, hf3⟩ := hframe
    rw [hx] at h
    simp only [hf1, hcs, if_false] at h
    split_ifs at h with hassert
    simp only [Except.ok.injEq, Prod.mk.injEq] at h
    obtain ⟨rfl, rfl⟩ := h
    simp only [HttpRequestParser.frame, hf3, Prod.mk.injEq, and_true]
    omega

theorem new_holds (queryStart : ℕ) (relaxed : Bool) : Holds (label start) 0 (.new queryStart relaxed) where
  mark := le_refl 0
  fieldStart := le_refl 0
  fieldLen := le_refl 0
  bodyStart := Nat.zero_le 1
  query := fun h => absurd h (by decide)
  fresh := fun _ => rfl
  method := fun h => absurd h (by decide)
  error := rfl

theorem length_of_halts {cs f : ℕ} {relaxed : Bool} {head : Bytes}
    (hh : halts (machine relaxed) isDone cs head = some f) : head.length ≠ 0 := by
  intro h0
  rw [List.eq_nil_of_length_eq_zero h0] at hh
  exact absurd hh (by simp [halts])

/-- the end of a call whose scan stopped behind a head at the start of `len` bytes -/
theorem httpParserExecute_of_exec (d₀ : HttpRequestParser) {d : HttpRequestParser} {buffer : Bytes} (len : ℕ)
    {p f : ℕ} {a : Label}
    (hcs : d₀.parser.cs ≠ error) (hnread : d₀.parser.nread = 0) (hp : 0 < p) (hle : p ≤ len)
    (hx : exec (machine d₀.parser.uriRelaxed) (act buffer) (buffer.take len) 0 d₀.parser.cs d₀ = .ok (p, f, d))
    (hold : Holds a (p - 1) d) :
    httpParserExecute d₀ buffer len = .ok ({ d with parser := { d.parser with cs := f, nread := p } }, p) := by
  have hframe := exec_frame (act_frame buffer) hx
  simp only [HttpRequestParser.frame, Prod.mk.injEq] at hframe
  obtain ⟨hf1, hf2, -⟩ := hframe
  obtain ⟨h1, h2, h3, h4⟩ := And.intro hold.mark (And.intro hold.fieldStart (And.intro hold.fieldLen hold.bodyStart))
  rw [httpParserExecute, if_neg (by omega)]
  simp only [hcs, if_false, hx, hf1, hf2, hnread, Nat.zero_add]
  rw [if_pos (by omega)]

/-- **A fresh call on an accepted head** goes through, with every assertion, and reads all of it. -/
theorem httpParserExecute_fresh {relaxed : Bool} {head : Bytes} {f : ℕ}
    (hh : halts (machine relaxed) isDone start head = some f) (hm : charsToHttpMethod head ≠ .INVALID_METHOD)
    (hlen : head.length ≤ maxSize) (queryStart : ℕ) (rest : Bytes) :
    ∃ d', httpParserExecute (.new queryStart relaxed) (head ++ rest) head.length = .ok (d', head.length) ∧
      d'.error = 0 ∧ d'.parser.cs = f := by
  have hm' : charsToHttpMethod (head ++ rest) ≠ .INVALID_METHOD := by rwa [charsToHttpMethod_append hm rest]
  have hsym : ∀ k c, head[k]? = some c → (parserLabels relaxed hm').sym (0 + k) = some c := by
    intro k c hk
    have hlt : k < head.length := (List.getElem?_eq_some_iff.mp hk).1
    show (if 0 + k ≤ maxSize then (head ++ rest)[0 + k]? else none) = some c
    rw [Nat.zero_add, if_pos (by omega), List.getElem?_append_left hlt, hk]
  obtain ⟨a, d', hx, hold⟩ := exec_labels (parserLabels relaxed hm') hh
    (d := .new queryStart relaxed) hsym (new_holds queryStart relaxed)
  rw [Nat.zero_add] at hx hold
  have hold : Holds a (head.length - 1) d' := hold
  have hx' : exec (machine relaxed) (act (head ++ rest)) ((head ++ rest).take head.length) 0 start (.new queryStart relaxed) =
      .ok (head.length, f, d') := by
    rw [List.take_left' rfl]
    exact hx
  have hpos : 0 < head.length := Nat.pos_of_ne_zero (length_of_halts hh)
  have hcs : (start : ℕ) ≠ error := by decide
  exact ⟨_, httpParserExecute_of_exec (.new queryStart relaxed) head.length hcs rfl hpos (le_refl _) hx' hold,
    hold.error, rfl⟩

end Sylar.Http
