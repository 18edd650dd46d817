/-
The method of a request (`http.cpp`, `StringToHttpMethod` and `CharsToHttpMethod`; `http_parser.cpp`,
`on_request_method`).

The callback gets a pointer into the buffer and a length, and hands on the pointer alone. `CharsToHttpMethod` then
takes the first method whose name the buffer starts with there, whatever stands behind the name: it knows nothing of
the end of the token. `StringToHttpMethod` compares whole strings.
- `token_walk`: the machine reads a token of up to 20 upper-case letters and digits, and reports it at the blank.
- `act_keeps_error`: an error stays, so an unknown method is rejected by `recvRequest` (`unknown_rejected`).
- `method_iff`: a token is recognised as what it is exactly if no other name of the table stands at its front.
-/
import Mathlib.Tactic
import Sylar.Core.Scan
import Sylar.Core.Words
import Sylar.Http.Message
import Sylar.Http.Stream
import Sylar.Http.RequestMachine
import Sylar.Http.RequestParser
import Sylar.Http.Session
import Sylar.Http.RequestWalk

namespace Sylar.Http

open Sylar.Core Sylar.Core.Scan Sylar.Http.RequestMachine Sylar.Http.RequestWalk

/-- `strcmp(a, b) == 0` -/
def strcmpEq (a b : Bytes) : Bool := decide (cstr a = cstr b)

/-- the method of that name -/
def stringToHttpMethod (m : Bytes) : HttpMethod :=
  (httpMethodMap.find? fun e => strcmpEq e.2 m).elim .INVALID_METHOD (·.1)

/-- `upper | digit` -/
def upperDigit (c : UInt8) : Bool := decide (65 ≤ c.toNat ∧ c.toNat ≤ 90 ∨ 48 ≤ c.toNat ∧ c.toNat ≤ 57)

/-- `( upper | digit ){1,20}` -/
structure MethodToken where
  name : Bytes
  nonempty : name ≠ []
  short : name.length ≤ 20
  chars : ∀ c ∈ name, upperDigit c = true

/-! ## The names of the table -/

/-- no name has a blank or a NUL -/
theorem httpMethodMap_names : ∀ e ∈ httpMethodMap, 32 ∉ e.2 ∧ 0 ∉ e.2 ∧ e.1 ≠ .INVALID_METHOD := by decide +kernel

theorem cstr_inj {a b : Bytes} (ha : 0 ∉ a) (hb : 0 ∉ b) (h : cstr a = cstr b) : a = b := by
  rw [cstr_of_noNul ha, cstr_of_noNul hb] at h
  exact List.append_cancel_right h

theorem MethodToken.no_blank (m : MethodToken) : 32 ∉ m.name ∧ 0 ∉ m.name := by
  refine ⟨fun h => ?_, fun h => ?_⟩
  · have := m.chars 32 h
    revert this
    decide
  · have := m.chars 0 h
    revert this
    decide

theorem stringToHttpMethod_named {e : HttpMethod × Bytes} (he : e ∈ httpMethodMap) : stringToHttpMethod e.2 = e.1 := by
  revert e
  decide +kernel

theorem stringToHttpMethod_unknown {m : Bytes} (hm : 0 ∉ m) (h : ∀ e ∈ httpMethodMap, e.2 ≠ m) :
    stringToHttpMethod m = .INVALID_METHOD := by
  have hnone : httpMethodMap.find? (fun e => strcmpEq e.2 m) = none := by
    rw [List.find?_eq_none]
    intro e he hsame
    exact h e he (cstr_inj (httpMethodMap_names e he).2.1 hm (of_decide_eq_true hsame))
  rw [stringToHttpMethod, hnone]
  rfl

/-- a name at the front of a token and its blank is at the front of the token -/
theorem prefix_of_blank {name m rest : Bytes} (hname : 32 ∉ name) (h : name <+: m ++ 32 :: rest) : name <+: m := by
  rcases List.prefix_or_prefix_of_prefix h (List.prefix_append m (32 :: rest)) with hpre | hpre
  · exact hpre
  · obtain ⟨t, rfl⟩ := hpre
    cases t with
    | nil => rw [List.append_nil]
    | cons c t =>
      have hc := (List.prefix_append_right_inj m).mp h
      have hblank : c = 32 := (List.cons_prefix_cons.mp hc).1
      rw [hblank] at hname
      exact absurd (List.mem_append_right m List.mem_cons_self) hname

theorem charsToHttpMethod_unknown {m rest : Bytes} (h : ∀ e ∈ httpMethodMap, ¬e.2 <+: m) :
    charsToHttpMethod (m ++ 32 :: rest) = .INVALID_METHOD := by
  by_contra hne
  obtain ⟨e, he, hpre⟩ := (charsToHttpMethod_ne_invalid _).mp hne
  exact h e he (prefix_of_blank (httpMethodMap_names e he).1 hpre)

/-! ## The callback -/

section

variable {buffer rest : Bytes} {start : ℕ}

theorem onRequestMethod_named {e : HttpMethod × Bytes} (he : e ∈ httpMethodMap)
    (h : buffer.drop start = e.2 ++ 32 :: rest)
    (len : ℕ) (d : HttpRequestParser) :
    onRequestMethod buffer start len d = .ok { d with data := { d.data with method := e.1 } } := by
  have hpre : e.2 <+: buffer.drop start := by
    rw [h]
    exact List.prefix_append _ _
  rw [onRequestMethod, charsToHttpMethod_eq he hpre]
  exact if_neg (httpMethodMap_names e he).2.2

theorem onRequestMethod_unknown {m : Bytes} (hno : ∀ e ∈ httpMethodMap, ¬e.2 <+: m)
    (h : buffer.drop start = m ++ 32 :: rest)
    {len : ℕ} (hlen : len ≤ maxSize) (d : HttpRequestParser) :
    onRequestMethod buffer start len d = .ok { d with error := 1000 } := by
  rw [onRequestMethod, h, charsToHttpMethod_unknown hno, str_ok buffer start hlen]
  rfl

end

/-! ## Errors stay -/

theorem error_of_map_ok {x : Except Stop Bytes} {f : Bytes → HttpRequestParser} {d' : HttpRequestParser}
    (h : x.map f = .ok d') (hf : ∀ s, (f s).error = 1000) : d'.error = 1000 := by
  cases x with
  | error e => cases h
  | ok s =>
    rw [← Except.ok.inj h]
    exact hf s

theorem store_keeps_error {set : HttpRequest → Bytes → HttpRequest} {buffer : Bytes} {start len : ℕ}
    {d d' : HttpRequestParser} (h : store set buffer start len d = .ok d') (hd : d.error = 1000) : d'.error = 1000 :=
  error_of_map_ok h fun _ => hd

theorem onRequestMethod_keeps_error {buffer : Bytes} {start len : ℕ} {d d' : HttpRequestParser}
    (h : onRequestMethod buffer start len d = .ok d') (hd : d.error = 1000) : d'.error = 1000 := by
  unfold onRequestMethod at h
  dsimp only at h
  split_ifs at h
  · exact error_of_map_ok h fun _ => rfl
  · rw [← Except.ok.inj h]
    exact hd

theorem onRequestVersion_keeps_error {buffer : Bytes} {start len : ℕ} {d d' : HttpRequestParser}
    (h : onRequestVersion buffer start len d = .ok d') (hd : d.error = 1000) : d'.error = 1000 := by
  unfold onRequestVersion at h
  split_ifs at h
  · rw [← Except.ok.inj h]
    exact hd
  · rw [← Except.ok.inj h]
    exact hd
  · exact error_of_map_ok h fun _ => hd

theorem onRequestHttpField_keeps_error {buffer : Bytes} {field flen value vlen : ℕ} {d d' : HttpRequestParser}
    (h : onRequestHttpField buffer field flen value vlen d = .ok d') (hd : d.error = 1000) : d'.error = 1000 := by
  unfold onRequestHttpField at h
  split_ifs at h
  · rw [← Except.ok.inj h]
    exact hd
  · cases hk : str buffer field flen with
    | error e =>
      rw [hk] at h
      cases h
    | ok k =>
      rw [hk] at h
      exact error_of_map_ok h fun _ => hd

theorem act_keeps_error (buffer : Bytes) (i : Action) (p : ℕ) (d d' : HttpRequestParser)
    (h : act buffer i p d = .go d' ∨ act buffer i p d = .fbreak d') (hd : d.error = 1000) : d'.error = 1000 := by
  cases i with
  | writeValue => exact onRequestHttpField_keeps_error (by simpa [act] using h) hd
  | requestMethod => exact onRequestMethod_keeps_error (by simpa [act] using h) hd
  | fragment => exact store_keeps_error (by simpa [act, onRequestFragment] using h) hd
  | queryString => exact store_keeps_error (by simpa [act, onRequestQuery] using h) hd
  | httpVersion => exact onRequestVersion_keeps_error (by simpa [act] using h) hd
  | requestPath => exact store_keeps_error (by simpa [act, onRequestPath] using h) hd
  | done =>
    simp only [act] at h
    split_ifs at h
    · rw [← Flow.fbreak.inj (h.resolve_left (by simp))]
      exact hd
    · rw [← Flow.fbreak.inj (h.resolve_left (by simp))]
      exact hd
  | _ =>
    simp only [act, Flow.go.injEq, reduceCtorEq, or_false] at h
    subst h
    exact hd

/-! ## The token in the machine -/

/-- the state behind `k` bytes of a token -/
def methodState (k : ℕ) : ℕ := if k = 1 then 2 else 173 + k

theorem method_next : ∀ c ∈ bytes, upperDigit c = true → next false start c = (methodState 1, [.mark]) ∧
    ∀ k < 20, 1 ≤ k → next false (methodState k) c = (methodState (k + 1), []) ∧ methodState (k + 1) ≠ error := by
  decide +kernel

theorem method_blank : ∀ k < 21, 1 ≤ k → next false (methodState k) 32 = (3, [.requestMethod]) := by decide +kernel

theorem method_quiet {u : Bytes} (hu : ∀ c ∈ u, upperDigit c = true) {k : ℕ} (hk : 1 ≤ k) (hlen : k + u.length ≤ 20) :
    quiet (machine false) (methodState k) u = some (methodState (k + u.length)) := by
  induction u generalizing k with
  | nil => rfl
  | cons c u ih =>
    rw [List.length_cons] at hlen ⊢
    obtain ⟨hnext, herr⟩ := (method_next c (mem_bytes c) (hu c List.mem_cons_self)).2 k (by omega) hk
    rw [quiet_cons hnext herr, ih (fun x hx => hu x (List.mem_cons_of_mem c hx)) (by omega) (by omega)]
    congr 2
    omega

/-- **Token.** The machine reads a token from its start on and reports it at the blank behind it. -/
theorem token_walk {relaxed : Bool} {buffer text z : Bytes} (hbuffer : buffer = text ++ z) (m : MethodToken)
    (hno : ∀ e ∈ httpMethodMap, ¬e.2 <+: m.name) :
    Walks (machine relaxed) (act buffer) text start (fun _ _ => True) (m.name ++ [32]) 3 fun _ d => d.error = 1000 := by
  obtain ⟨c, u, hcons⟩ := List.exists_cons_of_ne_nil m.nonempty
  have hchars := m.chars
  have hshort := m.short
  rw [hcons] at hchars hshort hno
  rw [List.length_cons] at hshort
  have hu : ∀ x ∈ u, upperDigit x = true := fun x hx => hchars x (List.mem_cons_of_mem c hx)
  have hopen := (method_next c (mem_bytes c) (hchars c List.mem_cons_self)).1
  have hquiet := method_quiet hu (le_refl 1) (by omega)
  have hclose := method_blank (1 + u.length) (by omega) (by omega)
  rw [hcons]
  refine RequestWalk.walk_piece (fun p d => d.parser.mark = p) (next_lift hopen (by decide)) (quiet_lift hquiet)
    (next_lift hclose (by decide)) (by decide) (by decide) (fun p d _ => ⟨_, rfl, rfl⟩) ?_
  intro p d w hw hlt hmark
  -- the blank stands behind the token in the buffer, too
  have hdrop : buffer.drop p = (c :: u) ++ 32 :: (w ++ z) := by
    rw [hbuffer, List.drop_append_of_le_length (by omega), hw, List.append_assoc]
    rfl
  have hlen : (c :: u).length ≤ maxSize := by
    rw [List.length_cons, maxSize]
    omega
  have hcall := onRequestMethod_unknown hno hdrop hlen d
  refine ⟨{ d with error := 1000 }, ?_, rfl⟩
  simp only [perform, act, hmark, lenFrom_add, hcall, Flow.ofExcept]

/-! ## The rejection -/

/-- a scan that reads an unknown method ends with the error -/
theorem exec_unknown {m : MethodToken} (hno : ∀ e ∈ httpMethodMap, ¬e.2 <+: m.name) {relaxed : Bool}
    {buffer rest z : Bytes} (hbuffer : buffer = (m.name ++ 32 :: rest) ++ z) {d : HttpRequestParser}
    {r : ℕ × ℕ × HttpRequestParser}
    (h : exec (machine relaxed) (act buffer) (m.name ++ 32 :: rest) 0 start d = .ok r) : r.2.2.error = 1000 := by
  have htext : m.name ++ 32 :: rest = (m.name ++ [32]) ++ rest := by rw [List.append_assoc, List.singleton_append]
  obtain ⟨d', hexec, herr⟩ := token_walk hbuffer m hno 0 d rest htext trivial
  rw [htext, hexec] at h
  exact (exec_invariant (S := fun _ => true) (P := fun _ => true) (I := fun d => d.error = 1000)
    (fun _ _ _ => ⟨rfl, List.all_eq_true.mpr fun _ _ => rfl⟩)
    (fun i p d d' _ hact hd => act_keeps_error buffer i p d d' hact hd) h rfl herr).2

theorem execute_unknown {m : MethodToken} (hno : ∀ e ∈ httpMethodMap, ¬e.2 <+: m.name) (queryStart : ℕ) (relaxed : Bool)
    (data : Bytes) {rest : Bytes} {d : HttpRequestParser} {data' : Bytes} {n : ℕ}
    (h : HttpRequestParser.execute (.new queryStart relaxed) (splice data 0 (m.name ++ 32 :: rest))
      (m.name ++ 32 :: rest).length = .ok (d, data', n)) : d.hasError = true := by
  have hx := execute_ok h
  have hne : (m.name ++ 32 :: rest).length ≠ 0 := by
    rw [List.length_append, List.length_cons]
    omega
  have hvalid : start ≠ RequestMachine.error := by decide
  have hstart : (HttpRequestParser.new queryStart relaxed).parser.cs ≠ RequestMachine.error := hvalid
  rw [httpParserExecute, if_neg hne, take_splice_zero] at hx
  simp only [hstart, if_false] at hx
  split at hx
  · cases hx
  · next p cs d₁ hexec =>
    have herr : d₁.error = 1000 := exec_unknown hno (splice_zero_eq data _) hexec
    generalize (if d₁.parser.cs = RequestMachine.error then d₁.parser.cs else cs) = cs' at hx
    split_ifs at hx
    · rw [← (Prod.mk.inj (Except.ok.inj hx)).1, HttpRequestParser.hasError, decide_eq_true_eq]
      exact Or.inl (by rw [herr]; decide)

theorem unknown_rejected {m : MethodToken} (hno : ∀ e ∈ httpMethodMap, ¬e.2 <+: m.name) (queryStart : ℕ)
    (relaxed : Bool)
    (data : Bytes) (c : Conn) {rest : Bytes} (hread : (c.read data.length).2.1 = m.name ++ 32 :: rest) :
    ∃ e, (recvRequest queryStart relaxed data c).result = .error e := by
  rcases hr : c.read (data.length - 0) with ⟨rt, bs, c'⟩
  have hbs : bs = m.name ++ 32 :: rest := by
    rw [← hread, ← Nat.sub_zero data.length, hr]
  subst hbs
  have hhead : ∃ e c', recvHead (.new queryStart relaxed) data 0 c = (.error e, c') := by
    rw [recvHead_of_read hr, Nat.add_zero]
    split_ifs with hrt
    · exact ⟨_, _, rfl⟩
    · cases hx : HttpRequestParser.execute (.new queryStart relaxed) (splice data 0 (m.name ++ 32 :: rest))
        (m.name ++ 32 :: rest).length with
      | error e => exact ⟨_, _, rfl⟩
      | ok r =>
        obtain ⟨d, data', n⟩ := r
        have herr := execute_unknown hno queryStart relaxed data hx
        simp only [herr, if_true]
        exact ⟨_, _, rfl⟩
  obtain ⟨e, c', hhead⟩ := hhead
  rw [recvRequest, hhead]
  exact ⟨e, rfl⟩

/-! ## Tokens and names -/

/-- **Exact.** What is claimed of a token: the callback sets the method of that name, or else the error, which makes
`recvRequest` reject the request; and both matchers agree on it. -/
structure MethodExact (m : MethodToken) : Prop where
  named : ∀ e ∈ httpMethodMap, e.2 = m.name → ∀ buffer start rest d, buffer.drop start = m.name ++ 32 :: rest →
    onRequestMethod buffer start m.name.length d = .ok { d with data := { d.data with method := e.1 } }
  unknown : (∀ e ∈ httpMethodMap, e.2 ≠ m.name) → ∀ buffer start rest d, buffer.drop start = m.name ++ 32 :: rest →
    onRequestMethod buffer start m.name.length d = .ok { d with error := 1000 }
  rejected : (∀ e ∈ httpMethodMap, e.2 ≠ m.name) → ∀ queryStart relaxed data c rest,
    (Conn.read c data.length).2.1 = m.name ++ 32 :: rest →
    ∃ e, (recvRequest queryStart relaxed data c).result = .error e
  agree : ∀ rest, charsToHttpMethod (m.name ++ 32 :: rest) = stringToHttpMethod m.name

/-- **Method recognition.** A token is recognised as the method of that name, or rejected if there is none, exactly if
no name of the table is a proper prefix of it: the matcher of the parser stops at the end of the name. -/
theorem method_iff (m : MethodToken) : MethodExact m ↔ ∀ e ∈ httpMethodMap, e.2 <+: m.name → e.2 = m.name := by
  constructor
  · intro h e he hpre
    by_contra hne
    have hchars : charsToHttpMethod (m.name ++ [32]) = e.1 :=
      charsToHttpMethod_eq he (hpre.trans (List.prefix_append m.name [32]))
    -- the token is no name itself, as no name starts with another one
    have hunknown : ∀ e' ∈ httpMethodMap, e'.2 ≠ m.name := by
      intro e' he' hname
      rw [← hname] at hpre hne
      exact hne (congrArg Prod.snd (httpMethodMap_apart e he e' he' hpre))
    have hagree := h.agree []
    rw [hchars, stringToHttpMethod_unknown m.no_blank.2 hunknown] at hagree
    exact (httpMethodMap_names e he).2.2 hagree
  · intro h
    have hno : (∀ e ∈ httpMethodMap, e.2 ≠ m.name) → ∀ e ∈ httpMethodMap, ¬e.2 <+: m.name :=
      fun hunknown e he hpre => hunknown e he (h e he hpre)
    have hlen : m.name.length ≤ maxSize := m.short.trans (by decide)
    refine ⟨fun e he hname buffer start rest d hdrop => ?_, fun hunknown buffer start rest d hdrop => ?_,
      fun hunknown queryStart relaxed data c rest hread => ?_, fun rest => ?_⟩
    · rw [← hname] at hdrop ⊢
      exact onRequestMethod_named he hdrop _ d
    · exact onRequestMethod_unknown (hno hunknown) hdrop hlen d
    · exact unknown_rejected (hno hunknown) queryStart relaxed data c hread
    · by_cases hknown : ∃ e ∈ httpMethodMap, e.2 = m.name
      · obtain ⟨e, he, hname⟩ := hknown
        rw [← hname, stringToHttpMethod_named he]
        exact charsToHttpMethod_eq he (List.prefix_append e.2 _)
      · have hunknown : ∀ e ∈ httpMethodMap, e.2 ≠ m.name := fun e he hname => hknown ⟨e, he, hname⟩
        rw [charsToHttpMethod_unknown (hno hunknown), stringToHttpMethod_unknown m.no_blank.2 hunknown]

def getX : MethodToken := ⟨ascii "GETX", by decide, by decide, by decide⟩

/-- a request with the method `GETX` is one with the method `GET` -/
theorem getX_get : charsToHttpMethod (ascii "GETX / HTTP/1.1\r\n\r\n") = .GET ∧
    stringToHttpMethod getX.name = .INVALID_METHOD ∧ ¬MethodExact getX := by
  have hchars : charsToHttpMethod (ascii "GETX / HTTP/1.1\r\n\r\n") = .GET := by decide
  have hstring : stringToHttpMethod getX.name = .INVALID_METHOD := by decide
  refine ⟨hchars, hstring, fun h => ?_⟩
  have hagree := h.agree (ascii "/ HTTP/1.1\r\n\r\n")
  rw [hstring] at hagree
  revert hagree
  decide

end Sylar.Http
