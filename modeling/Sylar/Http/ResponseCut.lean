/-
The head of a response in several reads.

Each call of `httpclient_parser_execute` starts with its offsets at 0, so it knows only the texts that began in its
own read. `Known` says which offsets a call has set; `Known.tr` lets an action use an offset only if it is known
there. A cut is `Whole` if every read is such a path: no call uses an offset that it has not set.

`Shifted` relates the parser of a call to the parser of one scan over the whole head: the same response, and the known
offsets of the call are those of the scan, counted from the start of the read. `cut_sound` takes it through all reads,
and `response_cut_whole` compares the cut with one read.

The converse fails by coincidence: a header that is lost may stand in the head twice, the digits that are lost of a
status may be zeros.
-/
import Mathlib.Tactic
import Sylar.Core.Scan
import Sylar.Core.Splice
import Sylar.Http.Message
import Sylar.Http.Stream
import Sylar.Http.ResponseMachine
import Sylar.Http.ResponseParser
import Sylar.Http.Connection
import Sylar.Http.Chunked

namespace Sylar.Http

open Sylar.Core Sylar.Core.Scan Sylar.Http.ResponseMachine

/-! ## Numbers in two buffers -/

theorem digitsValue_append {base : ℕ} {c : UInt8} (hc : isDigit base c = false) (acc : ℕ) (u t t' : Bytes) :
    digitsValue base acc (u ++ c :: t) = digitsValue base acc (u ++ c :: t') := by
  induction u generalizing acc with
  | nil => simp [digitsValue, hc]
  | cons x u ih =>
    simp only [List.cons_append, digitsValue]
    split_ifs
    · exact ih _
    · rfl

/-- a number that starts with no white space and ends at white space is inside these bytes -/
theorem atoi_append {x c : UInt8} (hx : isspace x = false) (hc : isspace c = true) (u t t' : Bytes) :
    atoi (x :: u ++ c :: t) = atoi (x :: u ++ c :: t') := by
  have hdigit : isDigit 10 c = false := by
    simp only [isspace, decide_eq_true_eq] at hc
    have hv : digitValue c = none := by
      unfold digitValue
      split_ifs <;> first | rfl | omega
    simp [isDigit, hv]
  have hcons := digitsValue_append hdigit 0 (x :: u) t t'
  simp only [List.cons_append] at hcons ⊢
  rw [atoi, atoi, strtol_ten_cons hx, strtol_ten_cons hx, digitsValue_append hdigit 0 u t t', hcons]

/-! ## Offsets a call has set -/

structure Known where
  mark : Bool
  /-- the byte at `mark` is no white space -/
  text : Bool
  start : Bool
  /-- `field_len` is the length of the name at `field_start` -/
  name : Bool
deriving DecidableEq, Repr

/-- at the start of a call -/
def Known.nothing : Known := ⟨false, false, false, false⟩

/-- what an action at `c` sets, if what it uses is known; a number starts at a digit and ends at a space -/
def Known.tr (c : UInt8) : Action → Known → Option Known
  | .mark, a => some { a with mark := true, text := !isspace c }
  | .startValue, a => some { a with mark := true, text := !isspace c }
  | .startField, a => some { a with start := true, name := false }
  | .writeField, a => if a.start then some { a with name := true } else none
  | .writeValue, a => if a.mark && a.name then some a else none
  | .reasonPhrase, a => if a.mark then some a else none
  | .httpVersion, a => if a.mark then some a else none
  | .statusCode, a => if a.mark && a.text && isspace c then some a else none
  | .chunkSize, _ => none
  | _, a => some a

/-- no call uses an offset that it has not set, in reads that start in state `cs` -/
def Whole : ℕ → List Bytes → Bool
  | _, [] => true
  | cs, s :: rest =>
    (follow machine isDone Known.tr cs s Known.nothing).isSome && Whole (s.foldl (fun cs c => (next cs c).1) cs) rest

theorem foldl_of_reads {cs cs' : ℕ} {u : Bytes} (h : reads machine isDone cs u = some cs') :
    u.foldl (fun cs c => (next cs c).1) cs = cs' := by
  induction u generalizing cs with
  | nil => simpa [reads] using h
  | cons c u ih =>
    simp only [reads] at h
    split_ifs at h
    exact ih h

/-! ## A call and the scan of the whole head -/

/-- the parser of a call on the `n` bytes `b`, and the parser of a scan over all `m` bytes, `k` bytes ahead -/
structure Shifted (b : Bytes) (n m k : ℕ) (a : Known) (p : ℕ) (d : HttpResponseParser × HttpResponseParser) : Prop where
  call : Inside n p d.1
  scan : Inside m (p + k) d.2
  data : d.2.data = d.1.data
  error : d.2.error = d.1.error
  mark : a.mark = true → d.2.parser.mark = d.1.parser.mark + k
  text : a.text = true → ∃ x, b[d.1.parser.mark]? = some x ∧ isspace x = false
  start : a.start = true → d.2.parser.fieldStart = d.1.parser.fieldStart + k
  name : a.name = true → d.2.parser.fieldStart = d.1.parser.fieldStart + k ∧ d.2.parser.fieldLen = d.1.parser.fieldLen ∧
    d.1.parser.fieldStart + d.1.parser.fieldLen ≤ p

section
variable {b₁ b₂ : Bytes} {n m k : ℕ} (hb : b₁.take n = (b₂.drop k).take n)
include hb

theorem versionOf_same {start len : ℕ} (h : start + len ≤ n) :
    versionOf b₁ start len = versionOf b₂ (start + k) len := by
  simp only [versionOf, strncmpEq_same hb h]

/-- a number from `start` on that ends at `p` -/
theorem atoi_same {start p : ℕ} {x c : UInt8} (hs : b₁[start]? = some x) (hx : isspace x = false) (hp : b₁[p]? = some c)
    (hc : isspace c = true) (hle : start ≤ p) (hn : p < n) : atoi (b₁.drop start) = atoi (b₂.drop (start + k)) := by
  have hlt : start < p := by
    rcases Nat.lt_or_eq_of_le hle with hlt | rfl
    · exact hlt
    · rw [hs] at hp
      obtain rfl := Option.some.inj hp
      rw [hx] at hc
      cases hc
  obtain ⟨hs', hxs⟩ := List.getElem?_eq_some_iff.mp hs
  obtain ⟨hp', hcp⟩ := List.getElem?_eq_some_iff.mp hp
  set u := (b₁.drop (start + 1)).take (p - (start + 1)) with hu
  have hulen : u.length = p - (start + 1) := by
    rw [hu, List.length_take, List.length_drop]
    omega
  have hsplit : b₁.drop start = x :: u ++ c :: b₁.drop (p + 1) := by
    have hmid : b₁.drop (start + 1) = u ++ b₁.drop p := by
      have := (List.take_append_drop (p - (start + 1)) (b₁.drop (start + 1))).symm
      rwa [List.drop_drop, show start + 1 + (p - (start + 1)) = p by omega] at this
    rw [List.drop_eq_getElem_cons hs', hxs, hmid, List.drop_eq_getElem_cons hp', hcp, List.cons_append]
  -- both buffers hold the same bytes up to `p`
  have hsame : (b₂.drop (start + k)).take (p + 1 - start) = x :: u ++ [c] := by
    rw [← take_drop_same hb (by omega), hsplit, List.append_cons]
    apply List.take_left'
    simp only [List.length_append, List.length_cons, List.length_nil, hulen]
    omega
  have hsplit₂ : b₂.drop (start + k) = x :: u ++ c :: (b₂.drop (start + k)).drop (p + 1 - start) := by
    conv_lhs => rw [← List.take_append_drop (p + 1 - start) (b₂.drop (start + k)), hsame]
    rw [List.append_assoc, List.singleton_append]
  rw [hsplit, hsplit₂]
  exact atoi_append hx hc u _ _

omit hb in
/-- an action that changes no member of the parser keeps the relation if it keeps the responses the same -/
theorem Shifted.of_data {i : Action} {a : Known} {p : ℕ} {d : HttpResponseParser × HttpResponseParser}
    (h : Shifted b₁ n m k a p d) (hi : i = .writeValue ∨ i = .reasonPhrase ∨ i = .statusCode ∨ i = .httpVersion)
    (hcall : Inside n p (d.1.after b₁ i p)) (hscan : Inside m (p + k) (d.2.after b₂ i (p + k)))
    (hdata : (d.2.after b₂ i (p + k)).data = (d.1.after b₁ i p).data)
    (herror : (d.2.after b₂ i (p + k)).error = (d.1.after b₁ i p).error) :
    Shifted b₁ n m k a p (d.1.after b₁ i p, d.2.after b₂ i (p + k)) := by
  have h₁ : (d.1.after b₁ i p).parser = d.1.parser := after_parser_data hi
  have h₂ : (d.2.after b₂ i (p + k)).parser = d.2.parser := after_parser_data hi
  refine ⟨hcall, hscan, hdata, herror, ?_, ?_, ?_, ?_⟩
  · rw [h₁, h₂]
    exact h.mark
  · rw [h₁]
    exact h.text
  · rw [h₁, h₂]
    exact h.start
  · rw [h₁, h₂]
    exact h.name

/-- one action keeps the relation -/
theorem Shifted.after {i : Action} {a a' : Known} {p : ℕ} {c : UInt8} {d : HttpResponseParser × HttpResponseParser}
    (hp : p < n) (hpm : p + k < m) (hc : b₁[p]? = some c) (h : Shifted b₁ n m k a p d) (ht : Known.tr c i a = some a') :
    Shifted b₁ n m k a' p (d.1.after b₁ i p, d.2.after b₂ i (p + k)) := by
  have hcall := h.call.after hp b₁ i
  have hscan := h.scan.after hpm b₂ i
  have hmark_le := h.call.mark
  cases i with
  | mark =>
    obtain rfl := Option.some.inj ht
    exact ⟨hcall, hscan, h.data, h.error, fun _ => rfl, fun hx => ⟨c, hc, by simpa using hx⟩, h.start, h.name⟩
  | startValue =>
    obtain rfl := Option.some.inj ht
    exact ⟨hcall, hscan, h.data, h.error, fun _ => rfl, fun hx => ⟨c, hc, by simpa using hx⟩, h.start, h.name⟩
  | startField =>
    obtain rfl := Option.some.inj ht
    exact ⟨hcall, hscan, h.data, h.error, h.mark, h.text, fun _ => rfl, fun hx => absurd hx (by simp)⟩
  | writeField =>
    simp only [Known.tr] at ht
    split_ifs at ht with hstart
    obtain rfl := Option.some.inj ht
    have hs := h.start hstart
    have hle := h.call.fieldStart
    refine ⟨hcall, hscan, h.data, h.error, h.mark, h.text, h.start, fun _ => ⟨hs, ?_, ?_⟩⟩
    · show p + k - d.2.parser.fieldStart = p - d.1.parser.fieldStart
      omega
    · show d.1.parser.fieldStart + (p - d.1.parser.fieldStart) ≤ p
      omega
  | writeValue =>
    simp only [Known.tr, Bool.and_eq_true] at ht
    split_ifs at ht with hknown
    obtain rfl := Option.some.inj ht
    have hm := h.mark hknown.1
    obtain ⟨hs, hl, hle⟩ := h.name hknown.2
    have hval : p + k - (d.1.parser.mark + k) = p - d.1.parser.mark := by omega
    apply h.of_data (.inl rfl) hcall hscan
    · simp only [HttpResponseParser.after, hs, hl, hm, hval]
      rw [← take_drop_same hb (show d.1.parser.fieldStart + d.1.parser.fieldLen ≤ n by omega),
        ← take_drop_same hb (show d.1.parser.mark + (p - d.1.parser.mark) ≤ n by omega)]
      split_ifs
      · exact h.data
      · simp only [h.data]
    · simp only [HttpResponseParser.after, hl]
      split_ifs
      · exact h.error
      · exact h.error
  | reasonPhrase =>
    simp only [Known.tr] at ht
    split_ifs at ht with hknown
    obtain rfl := Option.some.inj ht
    have hm := h.mark hknown
    have hval : p + k - (d.1.parser.mark + k) = p - d.1.parser.mark := by omega
    refine ⟨hcall, hscan, ?_, h.error, h.mark, h.text, h.start, h.name⟩
    simp only [HttpResponseParser.after, hm, hval, h.data]
    rw [← take_drop_same hb (show d.1.parser.mark + (p - d.1.parser.mark) ≤ n by omega)]
  | statusCode =>
    simp only [Known.tr, Bool.and_eq_true] at ht
    split_ifs at ht with hknown
    obtain rfl := Option.some.inj ht
    obtain ⟨x, hx, hsp⟩ := h.text hknown.1.2
    refine ⟨hcall, hscan, ?_, h.error, h.mark, h.text, h.start, h.name⟩
    simp only [HttpResponseParser.after, h.mark hknown.1.1, h.data]
    rw [atoi_same hb hx hsp hc hknown.2 hmark_le hp]
  | httpVersion =>
    simp only [Known.tr] at ht
    split_ifs at ht with hknown
    obtain rfl := Option.some.inj ht
    have hm := h.mark hknown
    have hval : p + k - (d.1.parser.mark + k) = p - d.1.parser.mark := by omega
    have hversion := versionOf_same hb (show d.1.parser.mark + (p - d.1.parser.mark) ≤ n by omega)
    apply h.of_data (.inr (.inr (.inr rfl))) hcall hscan
    · simp only [HttpResponseParser.after, hm, hval, hversion]
      cases versionOf b₂ (d.1.parser.mark + k) (p - d.1.parser.mark) with
      | none => exact h.data
      | some v => simp only [Option.elim_some, h.data]
    · simp only [HttpResponseParser.after, hm, hval, hversion]
      cases versionOf b₂ (d.1.parser.mark + k) (p - d.1.parser.mark) with
      | none => rfl
      | some v => exact h.error
  | chunkSize => exact absurd ht (by simp [Known.tr])
  | _ =>
    obtain rfl := Option.some.inj ht
    exact ⟨hcall, hscan, h.data, h.error, h.mark, h.text, h.start, h.name⟩

end

theorem Shifted.advance {b : Bytes} {n m k : ℕ} {a : Known} {p : ℕ} {d : HttpResponseParser × HttpResponseParser}
    (h : Shifted b n m k a p d) : Shifted b n m k a (p + 1) d := by
  refine ⟨⟨h.call.toWithin.mono (Nat.le_succ p), h.call.mark_lt, h.call.start_lt, h.call.body_le⟩,
    ⟨h.scan.toWithin.mono (by omega), h.scan.mark_lt, h.scan.start_lt, h.scan.body_le⟩, h.data, h.error, h.mark, h.text,
    h.start, fun ha => ?_⟩
  obtain ⟨h1, h2, h3⟩ := h.name ha
  exact ⟨h1, h2, h3.trans (Nat.le_succ p)⟩

def cutTracking {b₁ b₂ : Bytes} {n m k : ℕ} (hb : b₁.take n = (b₂.drop k).take n) (hm : k + n ≤ m)
    (hmax : m ≤ maxSize) :
    Tracking (pair (HttpResponseParser.act b₁) (HttpResponseParser.act b₂) k) isDone UInt8 Known where
  tr := Known.tr
  holds := Shifted b₁ n m k
  sym := fun p => if p < n then b₁[p]? else none
  ends := pair_ends (response_act_ends b₁)
  sound := by
    intro i a a' p c d hsym h ht
    have hp : p < n := by
      by_contra hc
      rw [if_neg hc] at hsym
      cases hsym
    rw [if_pos hp] at hsym
    refine ⟨_, ?_, h.after hb hp (by omega) hsym ht⟩
    have h₁ := act_eq b₁ i (by omega) h.call.toWithin
    have h₂ := act_eq b₂ i (by omega) h.scan.toWithin
    cases hdone : isDone i with
    | true =>
      simp only [hdone, if_true] at h₁ h₂
      exact .inr (pair_fbreak.mpr ⟨h₁, h₂⟩)
    | false =>
      simp only [hdone, Bool.false_eq_true, if_false] at h₁ h₂
      exact .inl (pair_go.mpr ⟨h₁, h₂⟩)

/-! ## One read -/

/-- the buffer after a read of `s` to its start -/
def loaded (data s : Bytes) : Bytes := (splice data 0 s).set s.length 0

theorem loaded_length {data s : Bytes} (hs : s.length < data.length) : (loaded data s).length = data.length := by
  rw [loaded, List.length_set, splice_length_of_le data 0 s (by omega)]

theorem loaded_nul {data s : Bytes} (hs : s.length < data.length) : (loaded data s)[s.length]? = some 0 := by
  rw [loaded, List.getElem?_set_self]
  rwa [splice_length_of_le data 0 s (by omega)]

theorem loaded_take (data s : Bytes) : (loaded data s).take s.length = s := by
  rw [loaded, List.take_set_of_le (le_refl _), take_splice_zero]

theorem loaded_getElem {data s : Bytes} {k : ℕ} {c : UInt8} (h : s[k]? = some c) : (loaded data s)[k]? = some c := by
  have hlt : k < s.length := (List.getElem?_eq_some_iff.mp h).1
  rw [← List.getElem?_take_of_lt hlt, loaded_take, h]

/-- a call on `s`, whose scan stops behind it -/
theorem execute_of_exec {d e : HttpResponseParser} {data s : Bytes} {cs : ℕ} (hs : s.length < data.length)
    (hmax : s.length ≤ maxRead)
    (hx : exec machine (HttpResponseParser.act (loaded data s)) s 0 d.parser.cs d.reset = .ok (s.length, cs, e))
    (he : Inside s.length s.length e) : d.execute (loaded data s) s.length false = .ok (e.stopped cs s.length, loaded data s, s.length) := by
  rw [HttpResponseParser.execute, if_neg Bool.false_ne_true,
    httpclientParserExecute_of_exec (loaded_nul hs) hmax (by rw [loaded_take]; exact hx) (le_refl _) he]
  simp

/-- the call on one read and the scan of the whole head go on together -/
theorem segment_sound {s B data : Bytes} {m k cs cs' : ℕ} {d₁ d₂ : HttpResponseParser} (hs : s.length < data.length)
    (hmax : s.length ≤ maxRead) (hpos : 0 < s.length) (hB : (B.drop k).take s.length = s) (hm : k + s.length ≤ m)
    (hm' : m ≤ maxSize) (hpath : reads machine isDone cs s = some cs' ∨ halts machine isDone cs s = some cs')
    (hfollow : (follow machine isDone Known.tr cs s Known.nothing).isSome = true) (hcs : d₁.parser.cs = cs)
    (hdata : d₂.data = d₁.data) (herror : d₂.error = d₁.error) (hscan : Inside m k d₂) (hbody : d₁.parser.bodyStart = 0) :
    ∃ e₁ e₂, exec machine (HttpResponseParser.act (loaded data s)) s 0 cs d₁.reset = .ok (s.length, cs', e₁) ∧
      d₁.execute (loaded data s) s.length false = .ok (e₁.stopped cs' s.length, loaded data s, s.length) ∧
      exec machine (HttpResponseParser.act B) s k cs d₂ = .ok (k + s.length, cs', e₂) ∧
      e₂.data = e₁.data ∧ e₂.error = e₁.error ∧ Inside m (k + s.length) e₂ := by
  have hb : (loaded data s).take s.length = (B.drop k).take s.length := by rw [loaded_take, hB]
  obtain ⟨a, ha⟩ := Option.isSome_iff_exists.mp hfollow
  have hsym : ∀ j c, s[j]? = some c → (cutTracking hb hm hm').sym (0 + j) = some c := by
    intro j c hj
    have hlt : j < s.length := (List.getElem?_eq_some_iff.mp hj).1
    show (if 0 + j < s.length then (loaded data s)[0 + j]? else none) = some c
    rw [Nat.zero_add, if_pos hlt, loaded_getElem hj]
  have hcall : Inside s.length 0 d₁.reset :=
    ⟨reset_within d₁, hpos, hpos, by rw [show d₁.reset.parser.bodyStart = 0 from hbody]; exact Nat.zero_le _⟩
  have hstart : Shifted (loaded data s) s.length m k Known.nothing 0 (d₁.reset, d₂) :=
    ⟨hcall, by rw [Nat.zero_add]; exact hscan, hdata, herror, fun h => absurd h (by decide), fun h => absurd h (by decide),
      fun h => absurd h (by decide), fun h => absurd h (by decide)⟩
  obtain ⟨⟨e₁, e₂⟩, hx, hold⟩ :=
    exec_follow (cutTracking hb hm hm') (fun _ _ _ _ _ h => h.advance) hpath ha hsym hstart
  have hold : Shifted (loaded data s) s.length m k a (0 + s.length) (e₁, e₂) := hold
  rw [Nat.zero_add] at hx hold
  obtain ⟨h1, h2⟩ := exec_pair hx
  rw [Nat.zero_add, Nat.add_comm] at h2
  refine ⟨e₁, e₂, h1, execute_of_exec hs hmax (by rw [hcs]; exact h1) hold.call, h2, hold.data, hold.error, ?_⟩
  rw [Nat.add_comm]
  exact hold.scan

/-- a turn of the loop of the head on a read that is parsed to its end -/
theorem readParse_whole {d e : HttpResponseParser} {data s : Bytes} {rs : List Recv} {cs : ℕ}
    (hfit : s.length ≤ min (buffSize data) maxRead) (hpos : 0 < s.length)
    (hx : d.execute (loaded data s) s.length false = .ok (e.stopped cs s.length, loaded data s, s.length)) :
    (readParse false d data 0 ⟨.data s :: rs, true⟩).1 =
      if e.error ≠ 0 ∨ cs = error ∨ toInt32 (buffSize data) = 0 then .error .null
      else if cs = firstFinal then .ok (e.stopped cs s.length, loaded data s, 0)
      else (readParse false (e.stopped cs s.length) (loaded data s) 0 ⟨rs, true⟩).1 := by
  have hread : Conn.read ⟨.data s :: rs, true⟩ (buffSize data - 0) = ((s.length : ℤ), s, (⟨rs, true⟩ : Conn)) := by
    simp only [Conn.read, if_true, Nat.sub_zero, hfit]
  have hx' : d.execute ((splice data 0 s).set (s.length + 0) 0) (s.length + 0) false =
      .ok (e.stopped cs s.length, loaded data s, s.length) := hx
  rw [readParse_of_read hread, if_neg (by omega), hx']
  have herr : (e.stopped cs s.length).hasError = true ↔ e.error ≠ 0 ∨ cs = error := decide_eq_true_iff
  have hfin : (e.stopped cs s.length).isFinished = true ↔ cs = error ∨ cs = firstFinal := decide_eq_true_iff
  simp only [herr, hfin, Nat.add_zero, Nat.sub_self, Nat.cast_zero, Bool.false_eq_true, if_false]
  by_cases h1 : e.error ≠ 0 ∨ cs = error
  · rw [if_pos h1, if_pos (by tauto)]
  rw [if_neg h1]
  by_cases h2 : toInt32 (buffSize data) = 0
  · rw [if_pos h2.symm, if_pos (by tauto)]
  have h4 : ¬(e.error ≠ 0 ∨ cs = error ∨ toInt32 (buffSize data) = 0) := by tauto
  rw [if_neg (Ne.symm h2), if_neg h4]
  by_cases h3 : cs = firstFinal
  · rw [if_pos (show cs = error ∨ cs = firstFinal from .inr h3), if_pos h3]
  · rw [if_neg (show ¬(cs = error ∨ cs = firstFinal) by tauto), if_neg h3]

/-- the response and the number of unparsed bytes behind the head -/
def outcome (x : Except Stop (HttpResponseParser × Bytes × ℕ)) : Except Stop (HttpResponse × ℕ) :=
  x.map fun y => (y.1.data, y.2.2)

/-- what is made of a head whose scan ended with `e` in state `f` -/
def expected (size f : ℕ) (e : HttpResponseParser) : Except Stop (HttpResponse × ℕ) :=
  if e.error ≠ 0 ∨ f = error ∨ toInt32 size = 0 ∨ f ≠ firstFinal then .error .null else .ok (e.data, 0)

/-- the last read of a head -/
theorem readParse_last {d e : HttpResponseParser} {data s : Bytes} {f : ℕ}
    (hfit : s.length ≤ min (buffSize data) maxRead) (hpos : 0 < s.length)
    (hx : d.execute (loaded data s) s.length false = .ok (e.stopped f s.length, loaded data s, s.length)) :
    outcome (readParse false d data 0 ⟨[.data s], true⟩).1 = expected (buffSize data) f e := by
  have heof : (readParse false (e.stopped f s.length) (loaded data s) 0 ⟨[], true⟩).1 = .error .null := by
    rw [readParse_of_read rfl]
    rfl
  rw [readParse_whole hfit hpos hx, heof, expected]
  by_cases herr : e.error ≠ 0 ∨ f = error ∨ toInt32 (buffSize data) = 0
  · rw [if_pos herr, if_pos (by tauto)]
    rfl
  · rw [if_neg herr]
    by_cases hf : f = firstFinal
    · rw [if_pos hf, if_neg (by tauto)]
      rfl
    · rw [if_neg hf, if_pos (by tauto)]
      rfl

/-! ## All reads -/

theorem exec_error {buffer w : Bytes} {p cs : ℕ} {d : HttpResponseParser} {r : ℕ × ℕ × HttpResponseParser}
    (h : exec machine (HttpResponseParser.act buffer) w p cs d = .ok r) (hd : d.error ≠ 0) : r.2.2.error ≠ 0 :=
  (exec_invariant (S := fun _ => true) (P := fun _ => true) (I := fun d : HttpResponseParser => d.error ≠ 0)
    (fun _ _ _ => ⟨rfl, by simp⟩) (fun _ _ _ _ _ h hd => act_error h hd) h rfl hd).2

theorem act_bodyStart {buffer : Bytes} (i : Action) (p : ℕ) (d d' : HttpResponseParser)
    (h : HttpResponseParser.act buffer i p d = .go d') : d'.parser.bodyStart = d.parser.bodyStart := by
  cases i with
  | writeValue => rw [(onResponseHttpField_keeps (by simpa [HttpResponseParser.act] using h)).1]
  | reasonPhrase => rw [(onResponseReason_keeps (by simpa [HttpResponseParser.act] using h)).1]
  | httpVersion => rw [(onResponseVersion_keeps (by simpa [HttpResponseParser.act] using h)).1]
  | done => exact absurd h (by simp [HttpResponseParser.act])
  | _ =>
    simp only [HttpResponseParser.act, onResponseStatus, Flow.go.injEq] at h
    rw [← h]

/-- **A whole cut.** The loop of the head on the reads `cut`, and one scan over all of their bytes, which stand in `B`
from `k` on: the loop makes of the head what the scan found. -/
theorem cut_sound {B : Bytes} {m : ℕ} (hm' : m ≤ maxSize) {cut : List Bytes} {data : Bytes} {k cs f : ℕ}
    {d₁ d₂ : HttpResponseParser} (hne : ∀ s ∈ cut, s ≠ []) (hfit : ∀ s ∈ cut, s.length ≤ min (buffSize data) maxRead)
    (hB : (B.drop k).take cut.flatten.length = cut.flatten) (hm : k + cut.flatten.length ≤ m)
    (hh : halts machine isDone cs cut.flatten = some f) (hwhole : Whole cs cut = true) (hcs : d₁.parser.cs = cs)
    (hdata : d₂.data = d₁.data) (herror : d₂.error = d₁.error) (hscan : Inside m k d₂) (hbody : d₁.parser.bodyStart = 0) :
    ∃ e, exec machine (HttpResponseParser.act B) cut.flatten k cs d₂ = .ok (k + cut.flatten.length, f, e) ∧
      Inside m (k + cut.flatten.length) e ∧
      outcome (readParse false d₁ data 0 ⟨cut.map .data, true⟩).1 = expected (buffSize data) f e := by
  induction cut generalizing data k cs d₁ d₂ with
  | nil => exact absurd hh (by simp [halts])
  | cons s cut ih =>
    have hpos : 0 < s.length := List.length_pos_iff.mpr (hne s List.mem_cons_self)
    have hsfit := hfit s List.mem_cons_self
    have hsdata : s.length < data.length := by
      have := hsfit.trans (min_le_left _ _)
      rw [buffSize] at this
      omega
    have hsmax : s.length ≤ maxRead := hsfit.trans (min_le_right _ _)
    rw [Whole, Bool.and_eq_true] at hwhole
    rw [List.flatten_cons, List.length_append] at hB hm
    rw [List.flatten_cons] at hh
    have hBs : (B.drop k).take s.length = s := by
      have := congrArg (List.take s.length) hB
      rwa [List.take_take, min_eq_left (by omega), List.take_left' rfl] at this
    by_cases hlast : cut = []
    · subst hlast
      rw [List.flatten_nil, List.append_nil] at hh
      rw [List.flatten_nil, List.length_nil, Nat.add_zero] at hm
      obtain ⟨e₁, e₂, -, hexec, hx, hd, he, hin⟩ := segment_sound hsdata hsmax hpos hBs hm hm' (.inr hh) hwhole.1 hcs hdata
        herror hscan hbody
      simp only [List.flatten_cons, List.flatten_nil, List.append_nil, List.map_cons, List.map_nil]
      refine ⟨e₂, hx, hin, ?_⟩
      rw [readParse_last hsfit hpos hexec, expected, expected, hd, he]
    · have hrest : cut.flatten ≠ [] := by
        obtain ⟨x, xs, rfl⟩ := List.exists_cons_of_ne_nil hlast
        intro hnil
        exact hne x (by simp) (List.append_eq_nil_iff.mp (by rwa [List.flatten_cons] at hnil)).1
      obtain ⟨cs', hreads, hhalts⟩ := halts_split hh hrest
      obtain ⟨e₁, e₂, hx₁, hexec, hx₂, hd, he, hin⟩ := segment_sound hsdata hsmax hpos hBs (by omega) hm' (.inl hreads)
        hwhole.1 hcs hdata herror hscan hbody
      have hBrest : (B.drop (k + s.length)).take cut.flatten.length = cut.flatten := by
        have := congrArg (List.drop s.length) hB
        rwa [List.drop_take, List.drop_drop, Nat.add_sub_cancel_left, List.drop_left' rfl] at this
      have hbody₁ : e₁.parser.bodyStart = 0 :=
        (exec_reads_frame (response_act_ends _) (f := fun d => d.parser.bodyStart) act_bodyStart hreads hx₁).trans hbody
      have hsize : buffSize (loaded data s) = buffSize data := by rw [buffSize, loaded_length hsdata, buffSize]
      rw [foldl_of_reads hreads] at hwhole
      have hfit' : ∀ x ∈ cut, x.length ≤ min (buffSize (loaded data s)) maxRead := by
        rw [hsize]
        exact fun x hx => hfit x (List.mem_cons_of_mem s hx)
      obtain ⟨e, hx, hin', hout⟩ := ih (fun x hx => hne x (List.mem_cons_of_mem s hx)) hfit' hBrest (by omega) hhalts
        hwhole.2 (show (e₁.stopped cs' s.length).parser.cs = cs' from rfl) hd he hin hbody₁
      obtain ⟨hne', hnf⟩ := response_reads_not_final hreads (List.ne_nil_of_length_pos hpos)
      rw [hsize] at hout
      simp only [List.flatten_cons, List.length_append, List.map_cons, ← Nat.add_assoc]
      refine ⟨e, by rw [exec_append_of_reads (response_act_ends B) hreads hx₂]; exact hx, hin', ?_⟩
      rw [readParse_whole hsfit hpos hexec]
      by_cases hstop : e₁.error ≠ 0 ∨ cs' = error ∨ toInt32 (buffSize data) = 0
      · rw [if_pos hstop, expected, if_pos]
        · rfl
        · rcases hstop with h1 | h1 | h1
          · exact .inl (exec_error hx (by rw [he]; exact h1))
          · exact absurd h1 hne'
          · exact .inr (.inr (.inl h1))
      · rw [if_neg hstop, if_neg hnf, hout]

/-- the machine accepts the bytes, and they are a head and no chunk size -/
structure ResponseHead where
  bytes : Bytes
  final : ℕ
  accepted : halts machine isDone start bytes = some final
  isHead : bytes.head? = some 72

/-- what the loop of the head makes of these reads -/
def headOutcome (data : Bytes) (cut : List Bytes) : Except Stop (HttpResponse × ℕ) :=
  outcome (readParse false .new data 0 ⟨cut.map .data, true⟩).1

/-- **Segmentation of the head.** For every well-formed head that fits the buffer, in every cut into reads in which no
call uses an offset that it has not set (or there is one read), the loop ends with the response and the number of
unparsed bytes of one read. -/
theorem response_cut_whole (data : Bytes) (head : ResponseHead) (cut : List Bytes) (hcut : cut.flatten = head.bytes)
    (hne : ∀ s ∈ cut, s ≠ []) (hfit : head.bytes.length ≤ min (buffSize data) maxRead)
    (hwhole : Whole start cut = true ∨ cut = [head.bytes]) : headOutcome data cut = headOutcome data [head.bytes] := by
  rcases hwhole with hwhole | rfl
  swap
  · rfl
  have hpos : 0 < head.bytes.length := by
    have := head.isHead
    rcases hb : head.bytes with - | ⟨c, w⟩
    · rw [hb] at this; cases this
    · exact Nat.succ_pos _
  have hlt : head.bytes.length < data.length := by
    have := hfit.trans (min_le_left _ _)
    rw [buffSize] at this
    omega
  have hmax : head.bytes.length ≤ maxSize := hfit.trans ((min_le_right _ _).trans (by decide))
  -- the scan of all bytes is the scan of one read
  have hB : ((loaded data head.bytes).drop 0).take cut.flatten.length = cut.flatten := by
    rw [hcut, List.drop_zero, loaded_take]
  have hsfit : ∀ s ∈ cut, s.length ≤ min (buffSize data) maxRead := by
    intro s hs
    refine le_trans ?_ hfit
    rw [← hcut]
    exact (List.sublist_flatten_of_mem hs).length_le
  have hin : Inside head.bytes.length 0 (HttpResponseParser.new.reset) := ⟨reset_within _, hpos, hpos, Nat.zero_le _⟩
  obtain ⟨e, hx, hin', hout⟩ := cut_sound hmax hne hsfit hB (by rw [hcut, Nat.zero_add]) (by rw [hcut]; exact head.accepted)
    hwhole rfl rfl rfl hin rfl
  rw [hcut, Nat.zero_add] at hx hin'
  have hone := readParse_last hfit hpos (execute_of_exec (d := .new) hlt (hfit.trans (min_le_right _ _)) hx hin')
  exact hout.trans hone.symm

def okHead : ResponseHead where
  bytes := ascii "HTTP/1.1 200 OK\r\nServer: sylar\r\n\r\n"
  final := firstFinal
  accepted := by decide +kernel
  isHead := by decide

/-- a buffer of the default size -/
def buffer4096 : Bytes := List.replicate (4 * 1024 + 1) 0

theorem buffSize_4096 : buffSize buffer4096 = 4096 := by rw [buffSize, buffer4096, List.length_replicate]

/-- cut between two lines -/
theorem response_cut_whole_lines :
    headOutcome buffer4096 [ascii "HTTP/1.1 200 OK\r\n", ascii "Server: sylar\r\n\r\n"] =
      headOutcome buffer4096 [okHead.bytes] :=
  response_cut_whole buffer4096 okHead _ (by decide) (by decide) (by rw [buffSize_4096]; decide)
    (.inl (by decide +kernel))

/-- the parser in the middle of the reason, and behind the rest of the head -/
def inReason : HttpResponseParser where
  parser := { HttpclientParser.init with mark := 13 }
  data := { status := 200 }
  error := 0

def behindK : HttpResponseParser where
  parser := { HttpclientParser.init with cs := 19, bodyStart := 20, mark := 11, fieldStart := 3, fieldLen := 6 }
  data := { status := 200, reason := ascii "K", headers := [(ascii "Server", ascii "sylar")] }
  error := 0

/-- the parser behind the whole head -/
def behindOK : HttpResponseParser where
  parser := { HttpclientParser.init with bodyStart := 34, mark := 25, fieldStart := 17, fieldLen := 6 }
  data := { status := 200, reason := ascii "OK", headers := [(ascii "Server", ascii "sylar")] }
  error := 0

def upToO : Bytes := ascii "HTTP/1.1 200 O"

def fromK : Bytes := ascii "K\r\nServer: sylar\r\n\r\n"

/-- cut inside the reason: its first byte is lost -/
theorem reason_cut : [upToO, fromK].flatten = okHead.bytes ∧
    headOutcome buffer4096 [upToO, fromK] ≠ headOutcome buffer4096 [okHead.bytes] := by
  refine ⟨by decide, ?_⟩
  have hlen : buffer4096.length = 4097 := List.length_replicate
  have hlt : upToO.length < buffer4096.length := by rw [hlen]; decide
  have hsize : buffSize (loaded buffer4096 upToO) = 4096 := by rw [buffSize, loaded_length hlt, hlen]
  have hfirst : HttpResponseParser.new.execute (loaded buffer4096 upToO) upToO.length false =
      .ok (inReason.stopped 19 upToO.length, loaded buffer4096 upToO, upToO.length) :=
    execute_of_exec hlt (by decide) (by decide +kernel) ⟨⟨by decide, by decide, by decide⟩, by decide, by decide, by decide⟩
  have hsecond : (inReason.stopped 19 upToO.length).execute (loaded (loaded buffer4096 upToO) fromK) fromK.length false =
      .ok (behindK.stopped firstFinal fromK.length, loaded (loaded buffer4096 upToO) fromK, fromK.length) :=
    execute_of_exec (by rw [loaded_length hlt, hlen]; decide) (by decide) (by decide +kernel)
      ⟨⟨by decide, by decide, by decide⟩, by decide, by decide, by decide⟩
  have hwhole : HttpResponseParser.new.execute (loaded buffer4096 okHead.bytes) okHead.bytes.length false =
      .ok (behindOK.stopped firstFinal okHead.bytes.length, loaded buffer4096 okHead.bytes, okHead.bytes.length) :=
    execute_of_exec (by rw [hlen]; decide) (by decide) (by decide +kernel)
      ⟨⟨by decide, by decide, by decide⟩, by decide, by decide, by decide⟩
  have hcut : headOutcome buffer4096 [upToO, fromK] = expected 4096 firstFinal behindK := by
    rw [headOutcome, List.map_cons, readParse_whole (by rw [buffSize_4096]; decide) (by decide) hfirst, buffSize_4096,
      if_neg (by decide), if_neg (by decide), ← hsize]
    exact readParse_last (by rw [hsize]; decide) (by decide) hsecond
  have hone : headOutcome buffer4096 [okHead.bytes] = expected 4096 firstFinal behindOK := by
    rw [← buffSize_4096]
    exact readParse_last (by rw [buffSize_4096]; decide) (by decide) hwhole
  rw [hcut, hone]
  decide

end Sylar.Http
