/-
What a request head says does not depend on the memory it is parsed in.

A call of `http_parser_execute` runs in memory the program has never written: the buffer behind the bytes read, and
the fields `query_start` and `uri_relaxed` of the parser. `parseRequest` is the request of a head alone in its buffer,
parsed with zeros there. A fresh call that finds a well-formed head at the start of what it has read ends behind the
head with this request, whatever follows and whatever the memory holds (`execute_head`).

The proof runs both parsers at once. `Same` relates their data: equal up to the two fields, with all texts inside what
has been read; `headLabels` adds to the labels of the parser that the length of a field name is known where a header
is reported.
-/
import Mathlib.Tactic
import Sylar.Core.Scan
import Sylar.Http.Message
import Sylar.Http.Stream
import Sylar.Http.RequestMachine
import Sylar.Http.RequestParser

namespace Sylar.Http

open Sylar.Core Sylar.Core.Scan Sylar.Http.RequestMachine

/-- the request of a head, before `init()` -/
def parseRequest (head : Bytes) : Except Stop HttpRequest :=
  (httpParserExecute (.new 0 false) head head.length).map fun r => r.1.data

/-! ## The labels -/

/-- the second part: `field_len` is the length of the name at `field_start` -/
def headLabel (cs : ℕ) : Label × Bool := (label cs, decide (cs = 15 ∨ cs = 16))

def headTr : Action → Label × Bool → Option (Label × Bool)
  | .startField, (a, _) => some (a, false)
  | .writeField, (a, _) => some (a, true)
  | .writeValue, (a, f) => if f then some (a, f) else none
  | i, (a, f) => (Label.tr i a).map (·, f)

def headLe (a b : Label × Bool) : Bool := a.1.le b.1 && (a.2 || !b.2)

def headRowOk (a : Label × Bool) (r : ℕ × List Action) : Bool :=
  (track isDone headTr r.2 a).elim false (headLe · (headLabel r.1))

def headClasses : List (Label × Bool) :=
  [(⟨.fresh, false⟩, false), (⟨.method, false⟩, false), (⟨.other, true⟩, false), (⟨.other, false⟩, false),
    (⟨.other, false⟩, true)]

theorem headRows_ok : ∀ a ∈ headClasses, checkRows (fun cs => decide (headLabel cs = a)) (headRowOk a) = true := by
  decide +kernel

theorem headLabel_mem (cs : ℕ) : headLabel cs ∈ headClasses := by
  by_cases h : cs = 15 ∨ cs = 16
  · rcases h with rfl | rfl <;> decide
  · have := label_mem cs
    simp only [List.mem_cons, List.not_mem_nil, or_false] at this
    rcases this with h1 | h1 | h1 | h1 <;> simp [headLabel, headClasses, h1, h]

theorem next_headLabels (relaxed : Bool) (cs : ℕ) (c : UInt8) (herr : (next relaxed cs c).1 ≠ error) :
    ∃ a, track isDone headTr (next relaxed cs c).2 (headLabel cs) = some a ∧
      headLe a (headLabel (next relaxed cs c).1) = true := by
  have hrow := next_checked (headRows_ok _ (headLabel_mem cs)) relaxed c (decide_eq_true rfl) herr
  unfold headRowOk at hrow
  cases ht : track isDone headTr (next relaxed cs c).2 (headLabel cs) with
  | none => rw [ht] at hrow; exact absurd hrow Bool.false_ne_true
  | some a => rw [ht] at hrow; exact ⟨a, rfl, hrow⟩

/-! ## Two parsers at once -/

/-- the parser in other memory -/
def HttpRequestParser.inMemory (d : HttpRequestParser) (queryStart : ℕ) (uriRelaxed : Bool) : HttpRequestParser :=
  { d with parser := { d.parser with queryStart, uriRelaxed } }

/-- what the label says of both parsers at `p` -/
structure Same (a : Label × Bool) (p : ℕ) (d : HttpRequestParser × HttpRequestParser) : Prop where
  holds : Holds a.1 p d.1
  field : a.2 = true → d.1.parser.fieldStart + d.1.parser.fieldLen ≤ p
  eq : d.2 = d.1.inMemory d.2.parser.queryStart d.2.parser.uriRelaxed
  query : a.1.query = true → d.2.parser.queryStart = d.1.parser.queryStart

/-- both callbacks go through and leave the parsers alone -/
theorem Same.of_callback {a : Label × Bool} {p : ℕ} {d : HttpRequestParser × HttpRequestParser}
    {x₁ x₂ : Except Stop HttpRequestParser} (h : Same a p d)
    (h₁ : ∃ d', x₁ = .ok d' ∧ d'.parser = d.1.parser ∧ d'.error = d.1.error)
    (h₂ : x₂ = x₁.map (·.inMemory d.2.parser.queryStart d.2.parser.uriRelaxed)) :
    ∃ e : HttpRequestParser × HttpRequestParser,
      Flow.ofExcept x₁ = .go e.1 ∧ Flow.ofExcept x₂ = .go e.2 ∧ Same a p e := by
  obtain ⟨d', rfl, hp, he⟩ := h₁
  subst h₂
  refine ⟨(d', d'.inMemory d.2.parser.queryStart d.2.parser.uriRelaxed), rfl, rfl, ?_⟩
  exact ⟨h.holds.of_same hp (he.trans h.holds.error), by rw [hp]; exact h.field, rfl, by rw [hp]; exact h.query⟩

section
variable {n : ℕ} {b₁ b₂ : Bytes} (hb : b₁.take n = b₂.take n) (queryStart : ℕ) (relaxed : Bool)
include hb

theorem store_same (set : HttpRequest → Bytes → HttpRequest) {start len : ℕ} (h : start + len ≤ n)
    (d : HttpRequestParser) :
    store set b₂ start len (d.inMemory queryStart relaxed) =
      (store set b₁ start len d).map (·.inMemory queryStart relaxed) := by
  rw [store, store, str_same (k := 0) hb h, Nat.add_zero]
  cases str b₂ start len <;> rfl

theorem onRequestVersion_same {start len : ℕ} (h : start + len ≤ n) (d : HttpRequestParser) :
    onRequestVersion b₂ start len (d.inMemory queryStart relaxed) =
      (onRequestVersion b₁ start len d).map (·.inMemory queryStart relaxed) := by
  simp only [onRequestVersion, strncmpEq_same (k := 0) hb h, str_same (k := 0) hb h, Nat.add_zero]
  split_ifs
  · rfl
  · rfl
  · cases str b₂ start len <;> rfl

theorem onRequestHttpField_same {field flen value vlen : ℕ} (hf : field + flen ≤ n) (hv : value + vlen ≤ n)
    (d : HttpRequestParser) :
    onRequestHttpField b₂ field flen value vlen (d.inMemory queryStart relaxed) =
      (onRequestHttpField b₁ field flen value vlen d).map (·.inMemory queryStart relaxed) := by
  simp only [onRequestHttpField, str_same (k := 0) hb hf, str_same (k := 0) hb hv, Nat.add_zero]
  split_ifs
  · rfl
  · cases str b₂ field flen <;> cases str b₂ value vlen <;> rfl

omit hb in
theorem onRequestMethod_same {start len : ℕ}
    (hm : charsToHttpMethod (b₁.drop start) = charsToHttpMethod (b₂.drop start))
    (hknown : charsToHttpMethod (b₁.drop start) ≠ .INVALID_METHOD) (d : HttpRequestParser) :
    onRequestMethod b₂ start len (d.inMemory queryStart relaxed) =
      (onRequestMethod b₁ start len d).map (·.inMemory queryStart relaxed) := by
  rw [onRequestMethod, onRequestMethod, ← hm, if_neg hknown, if_neg hknown]
  rfl

omit hb in
/-- a callback of both parsers with the same arguments -/
theorem callback_same {i : Action} {p q : ℕ} {r : Bool} {d : HttpRequestParser} {a' : Label × Bool}
    {x₁ x₂ : Except Stop HttpRequestParser} (h1 : act b₁ i p d = .ofExcept x₁)
    (h2 : act b₂ i p (d.inMemory q r) = .ofExcept x₂) (h : Same a' p (d, d.inMemory q r))
    (hx : ∃ d', x₁ = .ok d' ∧ d'.parser = d.parser ∧ d'.error = d.error) (hx' : x₂ = x₁.map (·.inMemory q r)) :
    ∃ e, (pair (act b₁) (act b₂) 0 i p (d, d.inMemory q r) = .go e ∨
      pair (act b₁) (act b₂) 0 i p (d, d.inMemory q r) = .fbreak e) ∧ Same a' p e := by
  obtain ⟨e, he1, he2, hs⟩ := h.of_callback hx hx'
  exact ⟨e, .inl (pair_go.mpr ⟨h1.trans he1, h2.trans he2⟩), hs⟩

omit hb in
/-- a change of both parsers -/
theorem change_same {i : Action} {p q : ℕ} {r : Bool} {d : HttpRequestParser} (d' : HttpRequestParser) (q' : ℕ)
    {a' : Label × Bool} (h1 : act b₁ i p d = .go d') (h2 : act b₂ i p (d.inMemory q r) = .go (d'.inMemory q' r))
    (h3 : Holds a'.1 p d') (h4 : a'.2 = true → d'.parser.fieldStart + d'.parser.fieldLen ≤ p)
    (h5 : a'.1.query = true → q' = d'.parser.queryStart) :
    ∃ e, (pair (act b₁) (act b₂) 0 i p (d, d.inMemory q r) = .go e ∨
      pair (act b₁) (act b₂) 0 i p (d, d.inMemory q r) = .fbreak e) ∧ Same a' p e :=
  ⟨(d', d'.inMemory q' r), .inl (pair_go.mpr ⟨h1, h2⟩), h3, h4, rfl, h5⟩

/-- one action keeps what the label says of both parsers -/
theorem act_same (hm : charsToHttpMethod b₁ = charsToHttpMethod b₂) (hknown : charsToHttpMethod b₁ ≠ .INVALID_METHOD)
    {i : Action} {a a' : Label × Bool} {p : ℕ} {d : HttpRequestParser × HttpRequestParser} (hp : p ≤ n) (hn : n ≤ maxSize)
    (h : Same a p d) (ht : headTr i a = some a') :
    ∃ e, (pair (act b₁) (act b₂) 0 i p d = .go e ∨ pair (act b₁) (act b₂) 0 i p d = .fbreak e) ∧ Same a' p e := by
  obtain ⟨d, d₂⟩ := d
  obtain ⟨⟨ph, qs⟩, f⟩ := a
  obtain ⟨hold, hfield, heq, hquery⟩ := h
  dsimp only at hold hfield heq hquery
  generalize d₂.parser.queryStart = q at heq hquery
  generalize d₂.parser.uriRelaxed = r at heq
  subst heq
  have h : Same (⟨ph, qs⟩, f) p (d, d.inMemory q r) := ⟨hold, hfield, rfl, hquery⟩
  have hlen : lenFrom d.parser.mark p = p - d.parser.mark := if_pos hold.mark
  have hmark : d.parser.mark + lenFrom d.parser.mark p ≤ n := by have := hold.mark; omega
  have hmax : lenFrom d.parser.mark p ≤ maxSize := by omega
  cases i with
  | mark =>
    cases ph with
    | fresh =>
      obtain rfl := Option.some.inj ht
      refine change_same { d with parser := { d.parser with mark := p } } q rfl rfl ?_ hfield hquery
      exact { hold with mark := le_refl p, fresh := fun hc => absurd hc (by simp), method := fun _ => hold.fresh rfl }
    | method => exact absurd ht (by simp [headTr, Label.tr])
    | other =>
      obtain rfl := Option.some.inj ht
      refine change_same { d with parser := { d.parser with mark := p } } q rfl rfl ?_ hfield hquery
      exact { hold with mark := le_refl p, method := fun hc => absurd hc (by simp) }
  | startField =>
    obtain rfl := Option.some.inj ht
    refine change_same { d with parser := { d.parser with fieldStart := p } } q rfl rfl ?_ (fun hc => absurd hc (by simp)) hquery
    exact { hold with fieldStart := le_refl p }
  | writeField =>
    obtain rfl := Option.some.inj ht
    have hfs := hold.fieldStart
    refine change_same { d with parser := { d.parser with fieldLen := lenFrom d.parser.fieldStart p } } q rfl rfl ?_ (fun _ => ?_)
      hquery
    · exact { hold with fieldLen := lenFrom_le hfs }
    · show d.parser.fieldStart + lenFrom d.parser.fieldStart p ≤ p
      rw [lenFrom, if_pos hfs]
      omega
  | startValue =>
    cases ph with
    | fresh => exact absurd ht (by simp [headTr, Label.tr])
    | method => exact absurd ht (by simp [headTr, Label.tr])
    | other =>
      obtain rfl := Option.some.inj ht
      refine change_same { d with parser := { d.parser with mark := p } } q rfl rfl ?_ hfield hquery
      exact { hold with mark := le_refl p, method := fun hc => absurd hc (by simp) }
  | writeValue =>
    simp only [headTr] at ht
    split_ifs at ht with hf
    obtain rfl := Option.some.inj ht
    have hle : d.parser.fieldStart + d.parser.fieldLen ≤ n := (hfield hf).trans hp
    exact callback_same rfl rfl h (onRequestHttpField_ok b₁ _ _ (by omega) hmax d)
      (onRequestHttpField_same hb q r hle hmark d)
  | requestMethod =>
    cases ph with
    | fresh => exact absurd ht (by simp [headTr, Label.tr])
    | other => exact absurd ht (by simp [headTr, Label.tr])
    | method =>
      obtain rfl := Option.some.inj ht
      have hzero : d.parser.mark = 0 := hold.method rfl
      have hother : Same (⟨.other, qs⟩, f) p (d, d.inMemory q r) :=
        ⟨{ hold with fresh := fun hc => absurd hc (by simp), method := fun hc => absurd hc (by simp) }, hfield, rfl, hquery⟩
      have hdrop : ∀ b : Bytes, b.drop d.parser.mark = b := fun b => by rw [hzero, List.drop_zero]
      have hk : charsToHttpMethod (b₁.drop d.parser.mark) ≠ .INVALID_METHOD := by rwa [hdrop]
      have hs : charsToHttpMethod (b₁.drop d.parser.mark) = charsToHttpMethod (b₂.drop d.parser.mark) := by
        rwa [hdrop, hdrop]
      exact callback_same rfl rfl hother (onRequestMethod_ok hk _ d) (onRequestMethod_same q r hs hk d)
  | requestUri =>
    obtain rfl := Option.some.inj ht
    exact change_same d q rfl rfl hold hfield hquery
  | fragment =>
    obtain rfl := Option.some.inj ht
    exact callback_same rfl rfl h (store_ok _ b₁ _ hmax d) (store_same hb q r _ hmark d)
  | startQuery =>
    obtain rfl := Option.some.inj ht
    refine change_same { d with parser := { d.parser with queryStart := p } } p rfl rfl ?_ hfield (fun _ => rfl)
    exact { hold with query := fun _ => le_refl p }
  | queryString =>
    simp only [headTr, Label.tr] at ht
    split_ifs at ht with hq
    · obtain rfl := Option.some.inj ht
      obtain rfl : q = d.parser.queryStart := hquery hq
      have hle := hold.query hq
      have hqlen : lenFrom d.parser.queryStart p = p - d.parser.queryStart := if_pos hle
      have hqn : d.parser.queryStart + lenFrom d.parser.queryStart p ≤ n := by omega
      exact callback_same rfl rfl h (store_ok _ b₁ _ (by omega) d) (store_same hb _ r _ hqn d)
    · exact absurd ht (by simp)
  | httpVersion =>
    obtain rfl := Option.some.inj ht
    exact callback_same rfl rfl h (onRequestVersion_ok b₁ _ hmax d) (onRequestVersion_same hb q r hmark d)
  | requestPath =>
    obtain rfl := Option.some.inj ht
    exact callback_same rfl rfl h (store_ok _ b₁ _ hmax d) (store_same hb q r _ hmark d)
  | done =>
    obtain rfl := Option.some.inj ht
    by_cases hsent : (d.parser.xmlSent || d.parser.jsonSent) = true
    · refine ⟨(_, _), .inr (pair_fbreak.mpr ⟨if_pos hsent, if_pos hsent⟩), ?_, hfield, rfl, hquery⟩
      exact { hold with bodyStart := hold.mark.trans (Nat.le_succ p) }
    · refine ⟨(_, _), .inr (pair_fbreak.mpr ⟨if_neg hsent, if_neg hsent⟩), ?_, hfield, rfl, hquery⟩
      exact { hold with bodyStart := le_refl (p + 1) }
  | xml =>
    obtain rfl := Option.some.inj ht
    exact change_same { d with parser := { d.parser with xmlSent := true } } q rfl rfl { hold with } hfield hquery
  | json =>
    obtain rfl := Option.some.inj ht
    exact change_same { d with parser := { d.parser with jsonSent := true } } q rfl rfl { hold with } hfield hquery

end

theorem Same.advance {a b : Label × Bool} {p : ℕ} {d : HttpRequestParser × HttpRequestParser} (h : Same a p d)
    (hle : headLe a b = true) : Same b (p + 1) d := by
  simp only [headLe, Bool.and_eq_true, Bool.or_eq_true, Bool.not_eq_true'] at hle
  obtain ⟨h1, h2⟩ := hle
  refine ⟨h.holds.advance h1, fun hb => ?_, h.eq, fun hb => h.query ?_⟩
  · rcases h2 with ha | hn
    · exact (h.field ha).trans (Nat.le_succ p)
    · rw [hb] at hn; exact absurd hn (by simp)
  · simp only [Label.le, Bool.and_eq_true, Bool.or_eq_true, Bool.not_eq_true'] at h1
    rcases h1.2 with ha | hn
    · exact ha
    · rw [hb] at hn; exact absurd hn (by simp)

/-- the labels of the request machine for two buffers that start with the same `n` bytes -/
def headLabels {n : ℕ} {b₁ b₂ : Bytes} (hb : b₁.take n = b₂.take n) (hm : charsToHttpMethod b₁ = charsToHttpMethod b₂)
    (hknown : charsToHttpMethod b₁ ≠ .INVALID_METHOD) (hn : n ≤ maxSize) :
    Labels (machine false) (pair (act b₁) (act b₂) 0) isDone (Label × Bool) where
  label := headLabel
  tr := fun _ => headTr
  le := fun _ => headLe
  holds := Same
  sym := fun p => if p ≤ n then b₁[p]? else none
  ends := pair_ends (act_ends b₁)
  checked := next_headLabels false
  sound := fun _ _ _ _ _ _ hp h ht =>
    act_same hb hm hknown (by by_contra hc; rw [if_neg hc] at hp; exact absurd hp (by simp)) hn h ht
  advance := fun _ _ _ _ _ _ h hle => h.advance hle

/-! ## A call that starts with a head -/

/-- the scan of a head, alone with zeros and at the start of any memory -/
theorem exec_head {head : Bytes} {f : ℕ} (hh : halts (machine false) isDone start head = some f)
    (hm : charsToHttpMethod head ≠ .INVALID_METHOD) (hlen : head.length ≤ maxSize) (queryStart : ℕ) (relaxed : Bool)
    (more junk : Bytes) :
    ∃ a d q r, exec (machine false) (act head) head 0 start (.new 0 false) = .ok (head.length, f, d) ∧
      exec (machine relaxed) (act (head ++ more ++ junk)) (head ++ more) 0 start (.new queryStart relaxed) =
        .ok (head.length, f, d.inMemory q r) ∧ Holds a (head.length - 1) d := by
  have hbuf : head.take head.length = (head ++ more ++ junk).take head.length := by
    rw [List.append_assoc, List.take_left', List.take_length]
    rfl
  have hsame : charsToHttpMethod head = charsToHttpMethod (head ++ more ++ junk) := by
    rw [List.append_assoc, charsToHttpMethod_append hm]
  have hsym : ∀ k c, head[k]? = some c → (headLabels hbuf hsame hm hlen).sym (0 + k) = some c := by
    intro k c hk
    have hlt : k < head.length := (List.getElem?_eq_some_iff.mp hk).1
    show (if 0 + k ≤ head.length then head[0 + k]? else none) = some c
    rw [Nat.zero_add, if_pos (by omega), hk]
  have hstart : Same (headLabel start) 0 (.new 0 false, .new queryStart relaxed) :=
    ⟨new_holds 0 false, fun h => absurd h (by decide), rfl, fun h => absurd h (by decide)⟩
  obtain ⟨a, ⟨d, d₂⟩, hx, hold⟩ := exec_labels (headLabels hbuf hsame hm hlen) hh hsym hstart
  rw [Nat.zero_add] at hx hold
  have hold : Same a (head.length - 1) (d, d₂) := hold
  obtain ⟨h1, h2⟩ := exec_pair hx
  rw [Nat.add_zero, Nat.add_zero] at h2
  obtain ⟨hhalts, hagree⟩ : halts (machine relaxed) isDone start head = some f ∧ ∀ p d,
      exec (machine relaxed) (act (head ++ more ++ junk)) head p start d =
        exec (machine false) (act (head ++ more ++ junk)) head p start d :=
    exec_agree (machine relaxed) (show (machine relaxed).error = (machine false).error from rfl)
      (fun cs c herr => next_relaxed relaxed cs c herr) hh
  refine ⟨a.1, d, d₂.parser.queryStart, d₂.parser.uriRelaxed, h1, ?_, hold.holds⟩
  rw [exec_append_of_halts (act_ends _) hhalts, hagree, h2, ← hold.eq]

/-- **A head at the start.** A fresh call that finds a well-formed head at the start of what it has read stops behind
it with the request of the head, whatever follows and whatever the memory holds. -/
theorem execute_head {head : Bytes} {f : ℕ} (hh : halts (machine false) isDone start head = some f)
    (hm : charsToHttpMethod head ≠ .INVALID_METHOD) (hlen : head.length ≤ maxSize) (queryStart : ℕ) (relaxed : Bool)
    (more junk : Bytes) :
    ∃ d, httpParserExecute (.new queryStart relaxed) (head ++ more ++ junk) (head ++ more).length = .ok (d, head.length) ∧
      d.error = 0 ∧ d.parser.cs = f ∧ parseRequest head = .ok d.data := by
  obtain ⟨a, d, q, r, h1, h2, hold⟩ := exec_head hh hm hlen queryStart relaxed more junk
  have hpos : 0 < head.length := Nat.pos_of_ne_zero (length_of_halts hh)
  have hcs : (start : ℕ) ≠ error := by decide
  have htake : (head ++ more ++ junk).take (head ++ more).length = head ++ more := List.take_left' rfl
  have hold₂ : Holds ⟨a.phase, false⟩ (head.length - 1) (d.inMemory q r) :=
    { hold with query := fun h => absurd h (by simp) }
  have hcall := httpParserExecute_of_exec (.new queryStart relaxed) (head ++ more).length hcs rfl hpos
    (by rw [List.length_append]; omega) (by rw [htake]; exact h2) hold₂
  have halone := httpParserExecute_of_exec (.new 0 false) head.length hcs rfl hpos (le_refl _)
    (by rw [List.take_length]; exact h1) hold
  refine ⟨_, hcall, hold.error, rfl, ?_⟩
  rw [parseRequest, halone]
  rfl

end Sylar.Http
