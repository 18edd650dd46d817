/-
The request machine along a head as a printer writes it: a request line, lines `name: value`, and an empty line.

The head is put together from `Walks`, and most of them from `Walks.piece`: an action marks the first byte of a part,
and the byte behind the part reports it. `Along r` is what holds between two parts: no error, all offsets lie before
the place, and the request so far is `r`. The characters of a URI are those of the grammar, with the three that
`uri_relaxed` adds; `HTTP_CTL` is `(0 - 31) | 127` there, which is a difference and leaves the bytes 0 and 127.
- `method_walk`, `path_walk`, `query_walk`, `fragment_walk`, `version_walk`: the parts of the request line, each with
  the separator behind it.
- `lines_walk`: the header lines store their headers one after the other.
-/
import Mathlib.Tactic
import Sylar.Core.Scan
import Sylar.Core.OrdSet
import Sylar.Http.Message
import Sylar.Http.Stream
import Sylar.Http.RequestMachine
import Sylar.Http.RequestParser
import Sylar.Http.HeadWalk

namespace Sylar.Http.RequestWalk

open Sylar.Core Sylar.Core.Scan Sylar.Http Sylar.Http.RequestMachine

/-! ## The characters of a URI -/

def xdigit (c : UInt8) : Bool :=
  decide (48 ≤ c.toNat ∧ c.toNat ≤ 57 ∨ 65 ≤ c.toNat ∧ c.toNat ≤ 70 ∨ 97 ≤ c.toNat ∧ c.toNat ≤ 102)

def unreserved (c : UInt8) : Bool :=
  decide (48 ≤ c.toNat ∧ c.toNat ≤ 57 ∨ 65 ≤ c.toNat ∧ c.toNat ≤ 90 ∨ 97 ≤ c.toNat ∧ c.toNat ≤ 122) ||
    (ascii "-._~").contains c

/-- `sub_delims`, with `more_delims` when `uri_relaxed` is set -/
def subDelims (relaxed : Bool) (c : UInt8) : Bool :=
  (ascii "!$&'()*+,;=").contains c || relaxed && (ascii "\x7b\x7d^").contains c

/-- a byte of `pchar` that is not part of an escape -/
def pchar (relaxed : Bool) (c : UInt8) : Bool := unreserved c || subDelims relaxed c || (ascii ":@").contains c

def segmentChar (relaxed : Bool) (c : UInt8) : Bool := pchar relaxed c || c = 47

/-- a byte of `query` and `fragment` -/
def queryChar (relaxed : Bool) (c : UInt8) : Bool := pchar relaxed c || c = 47 || c = 63

/-- `( ok | pct_encoded )*` -/
inductive UriText (ok : UInt8 → Bool) : Bytes → Prop where
  | nil : UriText ok []
  | char {c : UInt8} {s : Bytes} : ok c = true → UriText ok s → UriText ok (c :: s)
  | escape {a b : UInt8} {s : Bytes} : xdigit a = true → xdigit b = true → UriText ok s → UriText ok (37 :: a :: b :: s)

/-- `path_absolute`: begins with "/" but not "//" -/
def PathAbsolute (relaxed : Bool) (path : Bytes) : Prop :=
  ∃ s, path = 47 :: s ∧ UriText (segmentChar relaxed) s ∧ s.head? ≠ some 47

/-! ## Transitions -/

/-- all bytes -/
def bytes : List UInt8 := (List.range 256).map Nat.toUInt8

theorem mem_bytes (c : UInt8) : c ∈ bytes :=
  List.mem_map.mpr ⟨c.toNat, List.mem_range.mpr c.toNat_lt, UInt8.ofNat_toNat⟩

theorem next_lift {relaxed : Bool} {cs cs' : ℕ} {c : UInt8} {is : List Action} (h : next false cs c = (cs', is))
    (herr : cs' ≠ error) : next relaxed cs c = (cs', is) := by
  rw [next_relaxed relaxed cs c (by rw [h]; exact herr), h]

theorem quiet_lift {relaxed : Bool} {cs cs' : ℕ} {u : Bytes} (h : quiet (machine false) cs u = some cs') :
    quiet (machine relaxed) cs u = some cs' := by
  induction u generalizing cs with
  | nil => exact h
  | cons c u ih =>
    simp only [quiet] at h
    split_ifs at h with hc
    have hsame : (machine relaxed).next cs c = (machine false).next cs c := next_relaxed relaxed cs c hc.2
    have hc' : ((machine false).next cs c).2.isEmpty ∧ ((machine false).next cs c).1 ≠ (machine relaxed).error := hc
    rw [quiet, hsame, if_pos hc']
    exact ih h

/-- where the bytes of a path, of a query and of a fragment lead -/
def charEdges : List (ℕ × ℕ × List Action) :=
  [(33, 26, []), (26, 26, []), (29, 30, [.startQuery]), (30, 30, []), (20, 21, [.mark]), (21, 21, [])]

theorem charEdges_valid : ∀ e ∈ charEdges, e.2.1 ≠ error := by decide

theorem strict_next : ∀ c ∈ bytes, pchar false c = true → ∀ e ∈ charEdges, next false e.1 c = e.2 := by
  decide +kernel

theorem more_next : ∀ c ∈ ascii "\x7b\x7d^", ∀ e ∈ charEdges, next true e.1 c = e.2 := by
  decide +kernel

theorem pchar_next {relaxed : Bool} {c : UInt8} (hc : pchar relaxed c = true) :
    ∀ e ∈ charEdges, next relaxed e.1 c = e.2 := by
  intro e he
  by_cases hstrict : pchar false c = true
  · exact next_lift (strict_next c (mem_bytes c) hstrict e he) (charEdges_valid e he)
  · cases relaxed with
    | false => exact absurd hc hstrict
    | true =>
      refine more_next c ?_ e he
      simp only [pchar, subDelims, Bool.or_eq_true, List.contains_iff_mem, Bool.false_and, Bool.true_and, Bool.or_false,
        not_or] at hc hstrict
      tauto

theorem slash_next : ∀ c ∈ [(47 : UInt8), 63],
    ∀ e ∈ [(29, 30, [.startQuery]), (30, 30, []), (20, 21, [.mark]), (21, 21, [])], next false e.1 c = e.2 := by
  decide +kernel

theorem percent_next :
    ∀ e ∈ [(33, 27, []), (26, 27, []), (29, 31, [.startQuery]), (30, 31, []), (20, 22, [.mark]), (21, 22, [])],
      next false e.1 37 = e.2 := by
  decide +kernel

theorem xdigit_next : ∀ c ∈ bytes, xdigit c = true →
    ∀ e ∈ [(27, 28), (28, 26), (31, 32), (32, 30), (22, 23), (23, 21)], next false e.1 c = (e.2, []) := by
  decide +kernel

/-- the bytes `ok` stay in a state, and so do escapes, through two others -/
structure Loops (relaxed : Bool) (ok : UInt8 → Bool) (k k₁ k₂ : ℕ) : Prop where
  valid : k ≠ error ∧ k₁ ≠ error ∧ k₂ ≠ error
  char : ∀ c, ok c = true → next relaxed k c = (k, [])
  percent : next relaxed k 37 = (k₁, [])
  first : ∀ c, xdigit c = true → next relaxed k₁ c = (k₂, [])
  second : ∀ c, xdigit c = true → next relaxed k₂ c = (k, [])

section
variable {relaxed : Bool} {ok : UInt8 → Bool} {k k₁ k₂ : ℕ}

theorem quiet_cons {cs cs' : ℕ} {c : UInt8} (hnext : next relaxed cs c = (cs', [])) (herr : cs' ≠ error) (u : Bytes) :
    quiet (machine relaxed) cs (c :: u) = quiet (machine relaxed) cs' u := by
  have hnext' : (machine relaxed).next cs c = (cs', []) := hnext
  rw [quiet, hnext', if_pos ⟨rfl, herr⟩]

/-- bytes that stay in a state -/
theorem quiet_stay {cs : ℕ} (herr : cs ≠ error) {u : Bytes} (h : ∀ c ∈ u, next relaxed cs c = (cs, [])) :
    quiet (machine relaxed) cs u = some cs := by
  induction u with
  | nil => rfl
  | cons c u ih =>
    rw [quiet_cons (h c List.mem_cons_self) herr]
    exact ih fun x hx => h x (List.mem_cons_of_mem c hx)

theorem Loops.quiet (h : Loops relaxed ok k k₁ k₂) {s : Bytes} (hs : UriText ok s) :
    Scan.quiet (machine relaxed) k s = some k := by
  induction hs with
  | nil => rfl
  | char hc _ ih => rw [quiet_cons (h.char _ hc) h.valid.1, ih]
  | escape ha hb _ ih =>
    rw [quiet_cons h.percent h.valid.2.1, quiet_cons (h.first _ ha) h.valid.2.2, quiet_cons (h.second _ hb) h.valid.1,
      ih]

/-- a text that is entered from another state -/
theorem Loops.enter (h : Loops relaxed ok k k₁ k₂) {e : ℕ} {is : List Action} {c : UInt8} {u : Bytes}
    (hs : UriText ok (c :: u)) (hchar : ok c = true → next relaxed e c = (k, is)) (hpercent : next relaxed e 37 = (k₁, is)) :
    ∃ s₁, s₁ ≠ error ∧ next relaxed e c = (s₁, is) ∧ Scan.quiet (machine relaxed) s₁ u = some k := by
  cases hs with
  | char hc hu => exact ⟨k, h.valid.1, hchar hc, h.quiet hu⟩
  | escape ha hb hu =>
    refine ⟨k₁, h.valid.2.1, hpercent, ?_⟩
    rw [quiet_cons (h.first _ ha) h.valid.2.2, quiet_cons (h.second _ hb) h.valid.1, h.quiet hu]

end

theorem path_loops (relaxed : Bool) : Loops relaxed (segmentChar relaxed) 26 27 28 where
  valid := by decide
  char := by
    intro c hc
    rcases Bool.or_eq_true_iff.mp hc with hc | hc
    · exact pchar_next hc (26, 26, []) (by decide)
    · rw [of_decide_eq_true hc]
      exact next_lift (by decide +kernel) (by decide)
  percent := next_lift (percent_next (26, 27, []) (by simp)) (by decide)
  first := fun c hc => next_lift (xdigit_next c (mem_bytes c) hc (27, 28) (by simp)) (by decide)
  second := fun c hc => next_lift (xdigit_next c (mem_bytes c) hc (28, 26) (by simp)) (by decide)

/-- the bytes of a query and of a fragment -/
theorem queryChar_next {relaxed : Bool} {c : UInt8} (hc : queryChar relaxed c = true) :
    ∀ e ∈ [(29, 30, [.startQuery]), (30, 30, []), (20, 21, [.mark]), (21, 21, [])], next relaxed e.1 c = e.2 := by
  intro e he
  have hedge : e ∈ charEdges := List.mem_cons_of_mem _ (List.mem_cons_of_mem _ he)
  rw [queryChar, Bool.or_eq_true, Bool.or_eq_true, decide_eq_true_eq, decide_eq_true_eq] at hc
  rcases hc with (hc | rfl) | rfl
  · exact pchar_next hc e hedge
  · exact next_lift (slash_next 47 (by decide) e he) (charEdges_valid e hedge)
  · exact next_lift (slash_next 63 (by decide) e he) (charEdges_valid e hedge)

theorem query_loops (relaxed : Bool) : Loops relaxed (queryChar relaxed) 30 31 32 where
  valid := by decide
  char := fun c hc => queryChar_next hc (30, 30, []) (by simp)
  percent := next_lift (percent_next (30, 31, []) (by simp)) (by decide)
  first := fun c hc => next_lift (xdigit_next c (mem_bytes c) hc (31, 32) (by simp)) (by decide)
  second := fun c hc => next_lift (xdigit_next c (mem_bytes c) hc (32, 30) (by simp)) (by decide)

theorem fragment_loops (relaxed : Bool) : Loops relaxed (queryChar relaxed) 21 22 23 where
  valid := by decide
  char := fun c hc => queryChar_next hc (21, 21, []) (by simp)
  percent := next_lift (percent_next (21, 22, []) (by simp)) (by decide)
  first := fun c hc => next_lift (xdigit_next c (mem_bytes c) hc (22, 23) (by simp)) (by decide)
  second := fun c hc => next_lift (xdigit_next c (mem_bytes c) hc (23, 21) (by simp)) (by decide)

/-- the separators behind the parts of the request line: the state, the byte, and where it leads -/
def separators : List (ℕ × UInt8 × ℕ × List Action) :=
  [(33, 32, 4, [.requestPath, .requestUri]), (33, 63, 29, [.requestPath]), (33, 35, 20, [.requestPath, .requestUri]),
    (26, 32, 4, [.requestPath, .requestUri]), (26, 63, 29, [.requestPath]), (26, 35, 20, [.requestPath, .requestUri]),
    (30, 32, 4, [.queryString, .requestUri]), (30, 35, 20, [.queryString, .requestUri]), (21, 32, 4, [.fragment])]

theorem separator_next {relaxed : Bool} : ∀ e ∈ separators, next relaxed e.1 e.2.1 = e.2.2 := by
  have htable : ∀ e ∈ separators, next false e.1 e.2.1 = e.2.2 ∧ e.2.2.1 ≠ error := by decide +kernel
  intro e he
  exact next_lift (htable e he).1 (htable e he).2

/-- the names of the table that are made of letters -/
theorem method_path : ∀ e ∈ httpMethodMap, e.1 ≠ .MSEARCH →
    e.2.head?.map (next false start) = some (2, [.mark]) ∧
      (quiet (machine false) 2 e.2.tail).map (next false · 32) = some (3, [.requestMethod]) := by
  decide +kernel

theorem version_path : ∀ v ∈ versions, v = 72 :: v.tail ∧ v.length = 8 ∧ quiet (machine false) 5 v.tail = some 12 := by
  decide +kernel

theorem token_next : ∀ c ∈ bytes, ResponseMachine.token.has c = true → next false 13 c = (14, [.startField]) ∧
    next false 14 c = (14, []) := by
  decide +kernel

/-- a byte of a value that is no control character -/
def valueByte (c : UInt8) : Bool := decide (32 ≤ c.toNat ∧ c.toNat ≠ 127)

theorem value_next : ∀ c ∈ bytes, valueByte c = true → next false 16 c = (16, []) ∧
    (c ≠ 32 → next false 15 c = (16, [.startValue])) := by
  decide +kernel

/-! ## Between two parts -/

/-- the parser at `p`, with the request so far -/
structure Along (r : HttpRequest) (p : ℕ) (d : HttpRequestParser) : Prop extends Holds ⟨.other, false⟩ p d where
  plain : (d.parser.xmlSent || d.parser.jsonSent) = false
  data : d.data = r

section
variable {r : HttpRequest} {p p' : ℕ} {d : HttpRequestParser}

theorem Along.mono (h : Along r p d) (hle : p ≤ p') : Along r p' d :=
  { h with
    mark := h.mark.trans hle
    fieldStart := h.fieldStart.trans hle
    fieldLen := h.fieldLen.trans hle
    bodyStart := h.bodyStart.trans (Nat.succ_le_succ hle)
    query := fun hq => absurd hq Bool.false_ne_true
    fresh := fun hf => absurd hf (by decide) }

theorem Along.setData (h : Along r p d) (r' : HttpRequest) : Along r' p { d with data := r' } := { h with data := rfl }

/-- `mark` and `start_value` -/
theorem Along.setMark (h : Along r p d) : Along r p { d with parser := { d.parser with mark := p } } :=
  { h with mark := le_refl p, method := fun hm => absurd hm (by decide) }

theorem Along.setQueryStart (h : Along r p d) : Along r p { d with parser := { d.parser with queryStart := p } } :=
  { h with query := fun _ => le_refl p }

theorem Along.setFieldStart (h : Along r p d) : Along r p { d with parser := { d.parser with fieldStart := p } } :=
  { h with fieldStart := le_refl p }

theorem Along.setFieldLen (h : Along r p d) {n : ℕ} (hn : n ≤ p) :
    Along r p { d with parser := { d.parser with fieldLen := n } } :=
  { h with fieldLen := hn }

end

/-- behind a name and its colon -/
structure Named (buffer : Bytes) (r : HttpRequest) (name : Bytes) (p : ℕ) (d : HttpRequestParser) : Prop
    extends Along r p d where
  length : d.parser.fieldLen = name.length
  name : (buffer.drop d.parser.fieldStart).take name.length = name

/-- the number of a printed version -/
def versionNumber (v : Bytes) : ℕ := if v = ascii "HTTP/1.1" then 0x11 else 0x10

theorem onRequestVersion_eq {buffer v : Bytes} (hv : v ∈ versions) {p : ℕ} (htext : (buffer.drop p).take 8 = v)
    (d : HttpRequestParser) :
    onRequestVersion buffer p 8 d = .ok { d with data := { d.data with version := versionNumber v } } := by
  have hcmp : ∀ x, strncmpEq (buffer.drop p) x 8 = strncmpEq v x 8 := by
    intro x
    rw [strncmpEq, cstr_take (buffer.drop p), htext]
    have hlen : v.take 8 = v := by rw [← htext, List.take_take, min_self]
    rw [strncmpEq, cstr_take v, hlen]
  have htable : ∀ v ∈ versions, (v = ascii "HTTP/1.1" ∧ strncmpEq v (ascii "HTTP/1.1") 8 = true) ∨
      (v ≠ ascii "HTTP/1.1" ∧ strncmpEq v (ascii "HTTP/1.1") 8 = false ∧ strncmpEq v (ascii "HTTP/1.0") 8 = true) := by
    decide
  rw [onRequestVersion, hcmp, hcmp]
  rcases htable v hv with ⟨he, h1⟩ | ⟨hne, h1, h2⟩
  · rw [versionNumber, if_pos he, if_pos h1]
  · rw [versionNumber, if_neg hne, h1, if_neg Bool.false_ne_true, if_pos h2]

theorem lenFrom_add (p n : ℕ) : lenFrom p (p + n) = n := by
  rw [lenFrom, if_pos (Nat.le_add_right p n)]
  omega

section
variable {relaxed : Bool} {buffer text z : Bytes} (hbuffer : buffer = text ++ z) (hmax : text.length ≤ maxSize)
  {r r' : HttpRequest} {cs s₁ s₂ s₃ : ℕ} {c x : UInt8} {u : Bytes}

/-- one byte -/
theorem walk_one {I J : ℕ → HttpRequestParser → Prop} {is : List Action} (hnext : next relaxed cs c = (s₁, is))
    (h1 : s₁ ≠ error)
    (h : ∀ p d, p < text.length → I p d → ∃ d', perform (fun i => act buffer i p) is d = .go d' ∧ J (p + 1) d') :
    Walks (machine relaxed) (act buffer) text cs I [c] s₁ J := Walks.one hnext h1 h

/-- the byte that ends the scan -/
theorem exec_done {i : Action} (hnext : next relaxed cs c = (s₁, [i])) {p : ℕ} {d d' : HttpRequestParser}
    (hact : act buffer i p d = .fbreak d') (w : Bytes) :
    exec (machine relaxed) (act buffer) (c :: w) p cs d = .ok (p + 1, s₁, d') := by
  have hnext' : (machine relaxed).next cs c = (s₁, [i]) := hnext
  simp only [exec, hnext', perform, hact]

/-- a part that is opened at its first byte and closed at the byte behind it -/
theorem walk_piece {I J : ℕ → HttpRequestParser → Prop} (K : ℕ → HttpRequestParser → Prop) {o : Action}
    {is : List Action}
    (hopen : next relaxed cs c = (s₁, [o])) (hquiet : quiet (machine relaxed) s₁ u = some s₂)
    (hclose : next relaxed s₂ x = (s₃, is)) (h1 : s₁ ≠ error) (h3 : s₃ ≠ error)
    (hI : ∀ p d, I p d → ∃ d', act buffer o p d = .go d' ∧ K p d')
    (hJ : ∀ p d w, text.drop p = c :: u ++ x :: w → p + (c :: u).length < text.length → K p d →
      ∃ d', perform (fun i => act buffer i (p + (c :: u).length)) is d = .go d' ∧ J (p + (c :: u).length + 1) d') :
    Walks (machine relaxed) (act buffer) text cs I (c :: u ++ [x]) s₃ J :=
  Walks.piece hopen hquiet hclose h1 h3 (fun p d _ h => hI p d h) hJ

/-- a part that is reported at the byte behind it; `place` is where the parser keeps its start -/
theorem report_walk {o i : Action} {is : List Action} (place : HttpParser → ℕ) (hopen : next relaxed cs c = (s₁, [o]))
    (hquiet : quiet (machine relaxed) s₁ u = some s₂) (hclose : next relaxed s₂ x = (s₃, i :: is))
    (his : is = [] ∨ is = [.requestUri]) (h1 : s₁ ≠ error) (h3 : s₃ ≠ error)
    (hset : ∀ p d, Along r p d → ∃ d', act buffer o p d = .go d' ∧ Along r p d' ∧ place d'.parser = p)
    (hcall : ∀ p d w, text.drop p = c :: u ++ x :: w → p + (c :: u).length < text.length → d.data = r →
      place d.parser = p → act buffer i (p + (c :: u).length) d = .go { d with data := r' }) :
    Walks (machine relaxed) (act buffer) text cs (Along r) (c :: u ++ [x]) s₃ (Along r') := by
  refine walk_piece (fun p d => Along r p d ∧ place d.parser = p) hopen hquiet hclose h1 h3 hset ?_
  intro p d w hw hlt h
  have hreport := hcall p d w hw hlt h.1.data h.2
  refine ⟨{ d with data := r' }, ?_, (h.1.mono (by omega)).setData r'⟩
  rcases his with rfl | rfl
  · simp only [perform, hreport]
  · simp only [perform, hreport]
    rfl

theorem quiet_walk (hquiet : quiet (machine relaxed) cs u = some s₂) :
    Walks (machine relaxed) (act buffer) text cs (Along r) u s₂ (Along r) := by
  refine (Walks.quiet hquiet).imp (fun _ _ => id) ?_
  intro q d hq
  obtain ⟨p, rfl, hp⟩ := hq
  exact hp.mono (Nat.le_add_right p _)

theorem mark_set (p : ℕ) (d : HttpRequestParser) (h : Along r p d) :
    ∃ d', act buffer .mark p d = .go d' ∧ Along r p d' ∧ d'.parser.mark = p := ⟨_, rfl, h.setMark, rfl⟩

include hbuffer hmax

/-- a part that is stored as it stands in the text -/
theorem stored_walk {o i : Action} {is : List Action} (place : HttpParser → ℕ) (set : HttpRequest → Bytes → HttpRequest)
    (hopen : next relaxed cs c = (s₁, [o])) (hquiet : quiet (machine relaxed) s₁ u = some s₂)
    (hclose : next relaxed s₂ x = (s₃, i :: is)) (his : is = [] ∨ is = [.requestUri]) (h1 : s₁ ≠ error) (h3 : s₃ ≠ error)
    (hset : ∀ p d, Along r p d → ∃ d', act buffer o p d = .go d' ∧ Along r p d' ∧ place d'.parser = p)
    (hstore : ∀ p d, act buffer i p d = .ofExcept (store set buffer (place d.parser) (lenFrom (place d.parser) p) d)) :
    Walks (machine relaxed) (act buffer) text cs (Along r) (c :: u ++ [x]) s₃ (Along (set r (c :: u))) := by
  refine report_walk place hopen hquiet hclose his h1 h3 hset ?_
  intro p d w hw hlt hdata hplace
  rw [hstore, hplace, lenFrom_add, store, str_ok buffer p (by omega), drop_buffer hbuffer (List.cons_ne_nil c u) hw,
    ← hdata]
  rfl

/-! ## The request line -/

omit hmax in
theorem method_walk {e : HttpMethod × Bytes} (he : e ∈ httpMethodMap) (hne : e.1 ≠ .MSEARCH) :
    Walks (machine relaxed) (act buffer) text start (Along r) (e.2 ++ [32]) 3 (Along { r with method := e.1 }) := by
  obtain ⟨hfirst, hlast⟩ := method_path e he hne
  obtain ⟨c, hc, hopen⟩ := Option.map_eq_some_iff.mp hfirst
  obtain ⟨s₂, hquiet, hclose⟩ := Option.map_eq_some_iff.mp hlast
  have hcons : e.2 = c :: e.2.tail := (List.cons_head?_tail hc).symm
  have hcall : ∀ p d w, text.drop p = c :: e.2.tail ++ 32 :: w → p + (c :: e.2.tail).length < text.length → d.data = r →
      d.parser.mark = p → act buffer .requestMethod (p + (c :: e.2.tail).length) d =
        .go { d with data := { r with method := e.1 } } := by
    intro p d w hw _ hdata hmark
    -- the name stands at the mark
    have hpre : e.2 <+: buffer.drop p := by
      rw [hcons, ← drop_buffer hbuffer (List.cons_ne_nil c e.2.tail) hw]
      exact List.take_prefix _ _
    have hknown : e.1 ≠ .INVALID_METHOD := (show ∀ e ∈ httpMethodMap, e.1 ≠ .INVALID_METHOD by decide) e he
    rw [act, hmark, onRequestMethod, charsToHttpMethod_eq he hpre, if_neg hknown, ← hdata]
    rfl
  rw [hcons]
  exact report_walk (·.mark) (next_lift hopen (by decide)) (quiet_lift hquiet) (next_lift hclose (by decide)) (.inl rfl)
    (by decide) (by decide) mark_set hcall

/-- the separators behind a path -/
theorem path_walk {path : Bytes} (hpath : PathAbsolute relaxed path) (x : UInt8) (s₃ : ℕ) (is : List Action)
    (hsep : (x, s₃, is) ∈ [(32, 4, [.requestUri]), (63, 29, []), (35, 20, [.requestUri])]) :
    Walks (machine relaxed) (act buffer) text 3 (Along r) (path ++ [x]) s₃ (Along { r with path }) := by
  obtain ⟨s, rfl, hs, hhead⟩ := hpath
  have hopen : next relaxed 3 47 = (33, [.mark]) := next_lift (by decide +kernel) (by decide)
  obtain ⟨s₂, hs₂, hquiet⟩ : ∃ s₂, s₂ ∈ [33, 26] ∧ quiet (machine relaxed) 33 s = some s₂ := by
    cases s with
    | nil => exact ⟨33, by decide, rfl⟩
    | cons a s =>
      have hchar : segmentChar relaxed a = true → next relaxed 33 a = (26, []) := by
        intro ha
        rcases Bool.or_eq_true_iff.mp ha with ha | ha
        · exact pchar_next ha (33, 26, []) (by decide)
        · exact absurd (congrArg some (of_decide_eq_true ha)) hhead
      obtain ⟨s₁, h1, hnext, hquiet⟩ := (path_loops relaxed).enter hs hchar (next_lift (percent_next (33, 27, []) (by simp)) (by decide))
      exact ⟨26, by decide, by rw [quiet_cons hnext h1, hquiet]⟩
  have hclose : next relaxed s₂ x = (s₃, .requestPath :: is) ∧ (is = [] ∨ is = [.requestUri]) ∧ s₃ ≠ error := by
    have htable : ∀ s₂ ∈ [33, 26], ∀ e ∈ [((32 : UInt8), 4, [Action.requestUri]), (63, 29, []), (35, 20, [.requestUri])],
        (s₂, e.1, e.2.1, .requestPath :: e.2.2) ∈ separators ∧ (e.2.2 = [] ∨ e.2.2 = [.requestUri]) ∧ e.2.1 ≠ error := by
      decide
    obtain ⟨hmem, his, h3⟩ := htable s₂ hs₂ _ hsep
    exact ⟨separator_next (s₂, x, s₃, .requestPath :: is) hmem, his, h3⟩
  exact stored_walk hbuffer hmax (·.mark) (fun r s => { r with path := s }) hopen hquiet hclose.1 hclose.2.1 (by decide)
    hclose.2.2 mark_set fun _ _ => rfl

theorem query_walk {query : Bytes} (hne : query ≠ []) (hquery : UriText (queryChar relaxed) query) (x : UInt8) (s₃ : ℕ)
    (hsep : (x, s₃) ∈ [(32, 4), (35, 20)]) :
    Walks (machine relaxed) (act buffer) text 29 (Along r) (query ++ [x]) s₃ (Along { r with query }) := by
  obtain ⟨c, u, rfl⟩ := List.exists_cons_of_ne_nil hne
  obtain ⟨s₁, h1, hopen, hquiet⟩ := (query_loops relaxed).enter hquery
    (fun hc => queryChar_next hc (29, 30, [.startQuery]) (by simp)) (next_lift (percent_next (29, 31, [.startQuery]) (by simp)) (by decide))
  have hclose : next relaxed 30 x = (s₃, [.queryString, .requestUri]) ∧ s₃ ≠ error := by
    have htable : ∀ e ∈ [((32 : UInt8), 4), (35, 20)],
        (30, e.1, e.2, [Action.queryString, .requestUri]) ∈ separators ∧ e.2 ≠ error := by decide
    obtain ⟨hmem, h3⟩ := htable _ hsep
    exact ⟨separator_next (30, x, s₃, [.queryString, .requestUri]) hmem, h3⟩
  exact stored_walk hbuffer hmax (·.queryStart) (fun r s => { r with query := s }) hopen hquiet hclose.1 (.inr rfl) h1
    hclose.2 (fun _ _ h => ⟨_, rfl, h.setQueryStart, rfl⟩) fun _ _ => rfl

theorem fragment_walk {fragment : Bytes} (hne : fragment ≠ []) (hfragment : UriText (queryChar relaxed) fragment) :
    Walks (machine relaxed) (act buffer) text 20 (Along r) (fragment ++ [32]) 4 (Along { r with fragment }) := by
  obtain ⟨c, u, rfl⟩ := List.exists_cons_of_ne_nil hne
  obtain ⟨s₁, h1, hopen, hquiet⟩ := (fragment_loops relaxed).enter hfragment
    (fun hc => queryChar_next hc (20, 21, [.mark]) (by simp)) (next_lift (percent_next (20, 22, [.mark]) (by simp)) (by decide))
  have hclose : next relaxed 21 32 = (4, [.fragment]) := separator_next (21, 32, 4, [.fragment]) (by decide)
  exact stored_walk hbuffer hmax (·.mark) (fun r s => { r with fragment := s }) hopen hquiet hclose (.inl rfl) h1
    (by decide) mark_set fun _ _ => rfl

/-- an optional part with its separator, as it is printed -/
def optPart (sep : UInt8) (s : Bytes) : Bytes := if s = [] then [] else sep :: s

/-- **The target.** The path, the query and the fragment, and the blank behind them. -/
theorem target_walk {path query fragment : Bytes} (hpath : PathAbsolute relaxed path)
    (hquery : UriText (queryChar relaxed) query) (hfragment : UriText (queryChar relaxed) fragment) (hq : r.query = [])
    (hf : r.fragment = []) :
    Walks (machine relaxed) (act buffer) text 3 (Along r) (path ++ optPart 63 query ++ optPart 35 fragment ++ [32]) 4
      (Along { r with path, query, fragment }) := by
  have hblank := path_walk (r := r) hbuffer hmax hpath 32 4 [.requestUri] (by decide)
  have hmark := path_walk (r := r) hbuffer hmax hpath 63 29 [] (by decide)
  have hhash := path_walk (r := r) hbuffer hmax hpath 35 20 [.requestUri] (by decide)
  by_cases hq0 : query = []
  · by_cases hf0 : fragment = []
    · have hrec : ({ r with path } : HttpRequest) = { r with path, query, fragment } := by rw [hq0, hf0, hq, hf]
      rw [hrec] at hblank
      simpa only [optPart, hq0, hf0, if_true, List.append_nil] using hblank
    · have hrec : ({ r with path, fragment } : HttpRequest) = { r with path, query, fragment } := by rw [hq0, hq]
      have hwalk := hhash.append (fragment_walk hbuffer hmax hf0 hfragment)
      rw [hrec] at hwalk
      simpa only [optPart, hq0, hf0, if_true, if_false, List.append_nil, List.append_assoc, List.cons_append,
        List.nil_append] using hwalk
  · by_cases hf0 : fragment = []
    · have hrec : ({ r with path, query } : HttpRequest) = { r with path, query, fragment } := by rw [hf0, hf]
      have hwalk := hmark.append (query_walk hbuffer hmax hq0 hquery 32 4 (by decide))
      rw [hrec] at hwalk
      simpa only [optPart, hq0, hf0, if_true, if_false, List.append_nil, List.append_assoc, List.cons_append,
        List.nil_append] using hwalk
    · have hwalk := (hmark.append (query_walk hbuffer hmax hq0 hquery 35 20 (by decide))).append
        (fragment_walk hbuffer hmax hf0 hfragment)
      simpa only [optPart, hq0, hf0, if_false, List.append_assoc, List.cons_append, List.nil_append] using hwalk

omit hmax in
/-- the version and the end of the line -/
theorem version_walk {v : Bytes} (hv : v ∈ versions) :
    Walks (machine relaxed) (act buffer) text 4 (Along r) (v ++ crlf) 13 (Along { r with version := versionNumber v }) := by
  obtain ⟨hcons, hlen, hquiet⟩ := version_path v hv
  generalize v.tail = u at hcons hquiet
  subst hcons
  have hopen : next relaxed 4 72 = (5, [.mark]) := next_lift (by decide +kernel) (by decide)
  have hclose : next relaxed 12 13 = (17, [.httpVersion]) := next_lift (by decide +kernel) (by decide)
  have hlf : quiet (machine relaxed) 17 [10] = some 13 := quiet_lift (by decide +kernel)
  have hcall : ∀ p d w, text.drop p = 72 :: u ++ 13 :: w → p + (72 :: u).length < text.length → d.data = r →
      d.parser.mark = p → act buffer .httpVersion (p + (72 :: u).length) d =
        .go { d with data := { r with version := versionNumber (72 :: u) } } := by
    intro p d w hw _ hdata hmark
    have htext := drop_buffer hbuffer (List.cons_ne_nil 72 u) hw
    rw [hlen] at htext
    rw [act, hmark, lenFrom_add, hlen, onRequestVersion_eq hv htext, ← hdata]
    rfl
  have hline := (report_walk (·.mark) hopen (quiet_lift hquiet) hclose (.inl rfl) (by decide) (by decide) mark_set
    hcall).append (quiet_walk hlf)
  simpa only [crlf, List.append_assoc, List.cons_append, List.nil_append] using hline

/-! ## Header lines -/

omit hmax in
theorem field_walk {name : Bytes} (hname : IsToken name) :
    Walks (machine relaxed) (act buffer) text 13 (Along r) (name ++ [58]) 15 (Named buffer r name) := by
  obtain ⟨hne, htoken⟩ := hname
  obtain ⟨c, u, rfl⟩ := List.exists_cons_of_ne_nil hne
  have hopen : next relaxed 13 c = (14, [.startField]) :=
    next_lift (token_next c (mem_bytes c) (htoken c List.mem_cons_self)).1 (by decide)
  have hclose : next relaxed 14 58 = (15, [.writeField]) := next_lift (by decide +kernel) (by decide)
  have hquiet : quiet (machine relaxed) 14 u = some 14 :=
    quiet_stay (by decide) fun x hx => next_lift (token_next x (mem_bytes x) (htoken x (List.mem_cons_of_mem c hx))).2 (by decide)
  refine walk_piece (fun p d => Along r p d ∧ d.parser.fieldStart = p) hopen hquiet hclose (by decide) (by decide) ?_ ?_
  · intro p d h
    exact ⟨_, rfl, h.setFieldStart, rfl⟩
  · intro p d w hw hlt h
    obtain ⟨h, hstart⟩ := h
    refine ⟨_, rfl, ((h.mono (by omega)).setFieldLen (lenFrom_le (by omega))).mono (Nat.le_succ _), ?_, ?_⟩
    · show lenFrom d.parser.fieldStart (p + (c :: u).length) = (c :: u).length
      rw [hstart, lenFrom_add]
    · show (buffer.drop d.parser.fieldStart).take (c :: u).length = c :: u
      rw [hstart]
      exact drop_buffer hbuffer (List.cons_ne_nil c u) hw

omit hbuffer in
/-- a value from `mark` on is stored under the name -/
theorem writeValue_eq {name v : Bytes} (hne : name ≠ []) {p q : ℕ} {d : HttpRequestParser} (h : Named buffer r name p d)
    (hp : p ≤ text.length) (hmark : d.parser.mark + v.length = q) (hq : q ≤ text.length)
    (htext : (buffer.drop d.parser.mark).take v.length = v) :
    act buffer .writeValue q d = .go { d with data := { r with headers := r.headers.assign name v } } := by
  have hlen : lenFrom d.parser.mark q = v.length := by rw [← hmark, lenFrom_add]
  have hfield : name.length ≤ maxSize := by
    have := h.fieldLen
    rw [h.length] at this
    omega
  rw [act, hlen, onRequestHttpField, h.length, if_neg (by simpa using hne), str_ok buffer _ hfield,
    str_ok buffer _ (by omega), htext, h.name, ← h.data]
  rfl

/-- the value of a header, with a blank before it or none -/
theorem value_walk {name v : Bytes} (hne : name ≠ []) (hv : ∀ c ∈ v, valueByte c = true) (hhead : v.head? ≠ some 32) :
    Walks (machine relaxed) (act buffer) text 15 (Named buffer r name) (v ++ [13]) 17
      (Along { r with headers := r.headers.assign name v }) := by
  cases v with
  | nil =>
    have hcr : next relaxed 15 13 = (17, [.startValue, .writeValue]) := next_lift (by decide +kernel) (by decide)
    refine walk_one hcr (by decide) ?_
    intro p d hp h
    have hnamed : Named buffer r name p { d with parser := { d.parser with mark := p } } :=
      ⟨h.toAlong.setMark, h.length, h.name⟩
    have hwrite := writeValue_eq (v := []) hmax hne hnamed hp.le (Nat.add_zero p) hp.le rfl
    refine ⟨_, ?_, (hnamed.toAlong.mono (Nat.le_succ p)).setData _⟩
    have hstart : act buffer .startValue p d = .go { d with parser := { d.parser with mark := p } } := rfl
    simp only [perform, hstart, hwrite]
  | cons c u =>
    have hc : c ≠ 32 := fun he => hhead (congrArg some he)
    have hopen : next relaxed 15 c = (16, [.startValue]) :=
      next_lift ((value_next c (mem_bytes c) (hv c List.mem_cons_self)).2 hc) (by decide)
    have hclose : next relaxed 16 13 = (17, [.writeValue]) := next_lift (by decide +kernel) (by decide)
    have hquiet : quiet (machine relaxed) 16 u = some 16 :=
      quiet_stay (by decide) fun x hx => next_lift (value_next x (mem_bytes x) (hv x (List.mem_cons_of_mem c hx))).1 (by decide)
    refine walk_piece (fun p d => Named buffer r name p d ∧ d.parser.mark = p) hopen hquiet hclose (by decide)
      (by decide) ?_ ?_
    · intro p d h
      exact ⟨_, rfl, ⟨h.toAlong.setMark, h.length, h.name⟩, rfl⟩
    · intro p d w hw hlt h
      obtain ⟨h, hmark⟩ := h
      have htext : (buffer.drop d.parser.mark).take (c :: u).length = c :: u := by
        rw [hmark]
        exact drop_buffer hbuffer (List.cons_ne_nil c u) hw
      have hwrite := writeValue_eq hmax hne h (by omega) (by rw [hmark]) hlt.le htext
      refine ⟨_, ?_, (h.toAlong.mono (by omega)).setData _⟩
      simp only [perform, hwrite]

/-- a header whose line is read back -/
structure Readable (l : Bytes × Bytes) : Prop where
  token : IsToken l.1
  value : ∀ c ∈ l.2, valueByte c = true
  head : l.2.head? ≠ some 32

/-- the line of a header, with `gap` blanks behind the colon -/
theorem line_walk {l : Bytes × Bytes} (hl : Readable l) (gap : Bytes) (hgap : gap ∈ [[], [32]]) :
    Walks (machine relaxed) (act buffer) text 13 (Along r) (l.1 ++ [58] ++ gap ++ l.2 ++ crlf) 13
      (Along { r with headers := r.headers.assign l.1 l.2 }) := by
  have hblanks : Walks (machine relaxed) (act buffer) text 15 (Named buffer r l.1) gap 15 (Named buffer r l.1) := by
    rcases List.mem_cons.mp hgap with rfl | hgap
    · exact Walks.nil 15 fun _ _ => id
    · rw [List.mem_singleton.mp hgap]
      have hblank : next relaxed 15 32 = (15, [.startValue]) := next_lift (by decide +kernel) (by decide)
      refine walk_one hblank (by decide) ?_
      intro p d _ h
      exact ⟨_, rfl, h.toAlong.setMark.mono (Nat.le_succ p), h.length, h.name⟩
  have hlf : quiet (machine relaxed) 17 [10] = some 13 := quiet_lift (by decide +kernel)
  have hline := (((field_walk hbuffer hl.token).append hblanks).append
    (value_walk hbuffer hmax hl.token.1 hl.value hl.head)).append (quiet_walk hlf)
  simpa only [crlf, List.append_assoc, List.cons_append, List.nil_append] using hline

/-- one header after the other -/
def assignAll (m : MapType) (ls : List (Bytes × Bytes)) : MapType := ls.foldl (fun m l => MapType.assign m l.1 l.2) m

/-- **Header lines.** They store their headers one after the other. -/
theorem lines_walk {ls : List (Bytes × Bytes)} (hls : ∀ l ∈ ls, Readable l) :
    Walks (machine relaxed) (act buffer) text 13 (Along r) (ls.map fun l => l.1 ++ [58] ++ [32] ++ l.2 ++ crlf).flatten 13
      (Along { r with headers := assignAll r.headers ls }) := by
  induction ls generalizing r with
  | nil => exact Walks.nil 13 fun _ _ => id
  | cons l ls ih =>
    rw [List.map_cons, List.flatten_cons]
    exact (line_walk hbuffer hmax (hls l List.mem_cons_self) [32] (by decide)).append
      (ih fun x hx => hls x (List.mem_cons_of_mem l hx))

end

end Sylar.Http.RequestWalk
