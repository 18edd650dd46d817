/-
The response machine along a head as a printer writes it: a status line, lines `name: value`, a line `connection`, and
an empty line.

The head is put together from `Walks`. Along all of them the parser is `Good`: no error, no chunks, no field
`content-length`. A name takes the machine through states that spell the three words it knows (`spelling`), so at the
colon behind any other name it is in none of their last states (`name_colon`).
-/
import Mathlib.Tactic
import Sylar.Core.Scan
import Sylar.Core.OrdSet
import Sylar.Http.Message
import Sylar.Http.Stream
import Sylar.Http.ResponseMachine
import Sylar.Http.ResponseParser
import Sylar.Http.Connection
import Sylar.Http.ResponseCut

namespace Sylar.Http

open Sylar.Core Sylar.Core.Scan Sylar.Http.ResponseMachine

/-! ## Headers without a length -/

/-- the field `content-length` is not there -/
def NoLength (m : MapType) : Prop := ∀ e ∈ m, strcasecmpEq e.1 (ascii "content-length") = false

theorem NoLength.assign {m : MapType} (h : NoLength m) {key : Bytes}
    (hkey : strcasecmpEq key (ascii "content-length") = false)
    (val : Bytes) : NoLength (m.assign key val) := by
  have hsplit := OrdSet.lowerBound_append (entryLess · (key, [])) m
  unfold MapType.assign
  rcases hlb : OrdSet.lowerBound (entryLess · (key, [])) m with ⟨a, b⟩
  rw [hlb] at hsplit
  have ha : ∀ e ∈ a, strcasecmpEq e.1 (ascii "content-length") = false := by
    intro e he
    exact h e (by rw [← hsplit]; exact List.mem_append_left b he)
  have hb : ∀ e ∈ b, strcasecmpEq e.1 (ascii "content-length") = false := by
    intro e he
    exact h e (by rw [← hsplit]; exact List.mem_append_right a he)
  match b with
  | [] =>
    intro e he
    rcases List.mem_append.mp he with he | he
    · exact ha e he
    · rw [List.mem_singleton.mp he]
      exact hkey
  | (k, v) :: b =>
    intro e he
    dsimp only at he
    split_ifs at he
    · rcases List.mem_append.mp he with he | he
      · exact ha e he
      · rcases List.mem_cons.mp he with rfl | he
        · exact hkey
        · exact hb e he
    · rcases List.mem_append.mp he with he | he
      · exact ha e he
      · rcases List.mem_cons.mp he with rfl | he
        · exact hb (k, v) List.mem_cons_self
        · exact hb e (List.mem_cons_of_mem _ he)

theorem NoLength.getU64 {m : MapType} (h : NoLength m) : m.getU64 (ascii "content-length") = 0 := by
  have hfind : OrdSet.find entryLess (ascii "content-length", []) m = none := by
    have hsplit := OrdSet.lowerBound_append (entryLess · (ascii "content-length", [])) m
    unfold OrdSet.find
    cases hb : (OrdSet.lowerBound (entryLess · (ascii "content-length", [])) m).2 with
    | nil => rfl
    | cons y b =>
      have hmem : y ∈ m := by
        rw [← hsplit, hb]
        exact List.mem_append_right _ List.mem_cons_self
      have hlow : entryLess y (ascii "content-length", []) = false := by
        have := List.head?_dropWhile_not (entryLess · (ascii "content-length", [])) m
        rw [show m.dropWhile (entryLess · (ascii "content-length", [])) = y :: b from hb] at this
        simpa using this
      have hne := h y hmem
      dsimp only
      split_ifs with hless
      · rfl
      · -- neither is before the other
        simp only [entryLess, caseInsensitiveLess, decide_eq_false_iff_not] at hlow hless
        simp only [strcasecmpEq, decide_eq_false_iff_not] at hne
        exact absurd (List.le_antisymm (by simpa using hless) hlow) hne
  simp [MapType.getU64, MapType.find, hfind]

/-! ## Transitions -/

theorem has_iff {r : Ranges} {c : UInt8} : r.has c = true ↔ ∃ x ∈ r, x.1 ≤ c.toNat ∧ c.toNat ≤ x.2 := by
  simp [Ranges.has]

theorem byte_has {n : ℕ} {c : UInt8} : (byte n).has c = true ↔ c.toNat = n := by
  simp only [has_iff, byte, List.mem_singleton, exists_eq_left]
  omega

theorem any_has (c : UInt8) : ResponseMachine.any.has c = true := by
  have := c.toNat_lt
  simp only [has_iff, ResponseMachine.any, List.mem_singleton, exists_eq_left]
  omega

/-- the bytes of a text that stays in its line -/
def Clean (s : Bytes) : Prop := ∀ c ∈ s, c ≠ 13 ∧ c ≠ 10

instance (s : Bytes) : Decidable (Clean s) := inferInstanceAs (Decidable (∀ c ∈ s, c ≠ 13 ∧ c ≠ 10))

theorem lf_has {c : UInt8} (h : c ≠ 10) : lf.has c = false := by
  rw [Bool.eq_false_iff, ne_eq, lf, byte_has]
  exact fun hc => h (UInt8.toNat_inj.mp hc)

theorem cr_has {c : UInt8} (h : c ≠ 13) : cr.has c = false := by
  rw [Bool.eq_false_iff, ne_eq, cr, byte_has]
  exact fun hc => h (UInt8.toNat_inj.mp hc)

/-- a state inside a text: an edge for LF, one for CR, and one for all other bytes -/
theorem next_inside {cs t t₁ t₂ : ℕ} {is is₁ is₂ : List Action}
    (hedges : states.getD cs [] = [⟨lf, t₁, is₁⟩, ⟨cr, t₂, is₂⟩, ⟨any, t, is⟩]) {c : UInt8} (hc : c ≠ 13 ∧ c ≠ 10) :
    next cs c = (t, is) := by
  have hes : ∀ x ∈ [(⟨lf, t₁, is₁⟩ : Edge), ⟨cr, t₂, is₂⟩], x.on.has c = false := by
    simp [lf_has hc.2, cr_has hc.1]
  exact next_eq _ ⟨any, t, is⟩ hedges hes (any_has c)

theorem quiet_inside {cs t₁ t₂ : ℕ} {is₁ is₂ : List Action}
    (hedges : states.getD cs [] = [⟨lf, t₁, is₁⟩, ⟨cr, t₂, is₂⟩, ⟨any, cs, []⟩]) (hcs : cs ≠ error) {s : Bytes} (hs : Clean s) :
    quiet machine cs s = some cs := by
  induction s with
  | nil => rfl
  | cons c s ih =>
    have hnext : machine.next cs c = (cs, []) := next_inside hedges (hs c List.mem_cons_self)
    rw [quiet, hnext, if_pos ⟨rfl, hcs⟩]
    exact ih fun x hx => hs x (List.mem_cons_of_mem c hx)

theorem next_reason {c : UInt8} (hc : c ≠ 10) : next 18 c = (19, [.mark]) := by
  have hlt := c.toNat_lt
  have hne : c.toNat ≠ 10 := fun h => hc (UInt8.toNat_inj.mp h)
  refine next_eq [] ⟨[(0, 9), (11, 255)], 19, [.mark]⟩ rfl (by simp) ?_
  rw [has_iff]
  by_cases h9 : c.toNat ≤ 9
  · exact ⟨(0, 9), by simp, by omega⟩
  · exact ⟨(11, 255), by simp, by omega⟩

/-- behind the colon, white space leaves the value empty -/
theorem next_value {c : UInt8} (hc : c ≠ 13 ∧ c ≠ 10) :
    next 22 c = (if space.has c then 22 else 23, [.startValue]) := by
  have hlf := lf_has hc.2
  have hcr := cr_has hc.1
  cases hsp : space.has c with
  | true =>
    exact next_eq [⟨lf, 20, [.startValue, .writeValue]⟩, ⟨cr, 24, [.startValue, .writeValue]⟩]
      ⟨space, 22, [.startValue]⟩ rfl
      (by simp [hlf, hcr]) hsp
  | false =>
    exact next_eq [⟨lf, 20, [.startValue, .writeValue]⟩, ⟨cr, 24, [.startValue, .writeValue]⟩,
      ⟨space, 22, [.startValue]⟩]
      ⟨any, 23, [.startValue]⟩ rfl (by simp [hlf, hcr, hsp]) (any_has c)

/-! ## Names -/

def IsToken (s : Bytes) : Prop := s ≠ [] ∧ ∀ c ∈ s, token.has c = true

instance (s : Bytes) : Decidable (IsToken s) := inferInstanceAs (Decidable (s ≠ [] ∧ ∀ c ∈ s, token.has c = true))

/-- the names the machine looks for -/
def knownNames : List Bytes := [ascii "content-length", ascii "connection", ascii "transfer-encoding"]

/-- the states inside a name -/
def nameStates : List ℕ := 21 :: (List.range' 25 10 ++ List.range' 44 17 ++ List.range' 101 11)

/-- what has been read of a known name in a state -/
def spelling (cs : ℕ) : Option Bytes :=
  if 25 ≤ cs ∧ cs ≤ 34 then some ((ascii "connection").take (cs - 24))
  else if 44 ≤ cs ∧ cs ≤ 60 then some ((ascii "transfer-encoding").take (cs - 43))
  else if 101 ≤ cs ∧ cs ≤ 111 then some ((ascii "content-length").take (cs - 97))
  else none

/-- the letter of an edge in a known name -/
def letterOf : Ranges → Option UInt8
  | [(n, _)] => some n.toUInt8
  | [(n, _), (_, _)] => some (n + 32).toUInt8
  | _ => none

/-- an edge on from a name `known` with this letter, if it goes on in a known name -/
def spells (known : Option Bytes) (e : Edge) : Bool :=
  decide ((e.on = byte 45 ∨ e.on ∈ (List.range' 65 26).map letter) ∧
    spelling e.target = known.bind fun s => (letterOf e.on).map fun x => s ++ [x])

theorem letterOf_tolower {r : Ranges} {c : UInt8} (hr : r = byte 45 ∨ r ∈ (List.range' 65 26).map letter)
    (hc : r.has c = true) : letterOf r = some (tolower c) := by
  rcases hr with rfl | hr
  · rw [byte_has] at hc
    obtain rfl : c = 45 := UInt8.toNat_inj.mp hc
    rfl
  · obtain ⟨n, hn, rfl⟩ := List.mem_map.mp hr
    rw [List.mem_range'_1] at hn
    rw [has_iff] at hc
    simp only [letter, List.mem_cons, List.not_mem_nil, or_false, exists_eq_or_imp, exists_eq_left] at hc
    have hval : (n + 32).toUInt8.toNat = n + 32 := by
      rw [Nat.toUInt8_eq, UInt8.toNat_ofNat']
      omega
    rw [letter, letterOf, tolower, Option.some.injEq, ← UInt8.toNat_inj, hval]
    split_ifs with hcase
    · rw [UInt8.toNat_add]
      have : (32 : UInt8).toNat = 32 := rfl
      omega
    · omega

/-- the edges inside a name -/
theorem name_edges : ∀ cs ∈ nameStates, (⟨token, 21, []⟩ : Edge) ∈ states.getD cs [] ∧
    ∀ e ∈ states.getD cs [], e.on = colon ∨ e.actions = [] ∧ e.target ∈ nameStates ∧
      (spelling e.target = none ∨ spells (spelling cs) e = true) := by
  decide +kernel

/-- the edges at the start of a line -/
theorem line_edges : (⟨token, 21, [.startField]⟩ : Edge) ∈ states.getD 20 [] ∧
    ∀ e ∈ states.getD 20 [], e.on = lf ∨ e.on = cr ∨ e.actions = [.startField] ∧ e.target ∈ nameStates ∧
      (spelling e.target = none ∨ spells (some []) e = true) := by
  decide +kernel

/-- in a state that is in a known name, the name so far is its start -/
def Spelled (cs : ℕ) (name : Bytes) : Prop := spelling cs = none ∨ spelling cs = some (name.map tolower)

theorem Spelled.of_edge {known : Option Bytes} {e : Edge} {c : UInt8} {name : Bytes}
    (hknown : known = none ∨ known = some (name.map tolower)) (he : spelling e.target = none ∨ spells known e = true)
    (hc : e.on.has c = true) : Spelled e.target (name ++ [c]) := by
  rcases he with he | he
  · exact .inl he
  · obtain ⟨hon, htarget⟩ := of_decide_eq_true he
    rw [letterOf_tolower hon hc] at htarget
    rcases hknown with rfl | rfl
    · exact .inl htarget
    · refine .inr (htarget.trans ?_)
      simp

theorem token_has_not {c : UInt8} (hc : token.has c = true) {n : ℕ} (hn : n = 10 ∨ n = 13 ∨ n = 58) :
    (byte n).has c = false := by
  rw [Bool.eq_false_iff, ne_eq, byte_has]
  intro heq
  rw [has_iff] at hc
  obtain ⟨x, hx, h1, h2⟩ := hc
  have htable : ∀ x ∈ token, ∀ n ∈ [10, 13, 58], ¬(x.1 ≤ n ∧ n ≤ x.2) := by decide
  exact htable x hx n (by simpa using hn) (heq ▸ ⟨h1, h2⟩)

theorem name_step {cs : ℕ} {c : UInt8} {name : Bytes} (hcs : cs ∈ nameStates) (hname : Spelled cs name)
    (hc : token.has c = true) :
    ∃ cs' ∈ nameStates, next cs c = (cs', []) ∧ Spelled cs' (name ++ [c]) := by
  obtain ⟨htoken, hedges⟩ := name_edges cs hcs
  obtain ⟨e, he, hon, hnext⟩ := next_of_mem htoken hc
  rcases hedges e he with hcolon | ⟨hacts, htarget, hspell⟩
  · rw [hcolon, colon, token_has_not hc (by simp)] at hon
    cases hon
  · rw [hacts] at hnext
    exact ⟨e.target, htarget, hnext, Spelled.of_edge hname hspell hon⟩

theorem line_step {c : UInt8} (hc : token.has c = true) :
    ∃ cs' ∈ nameStates, next 20 c = (cs', [.startField]) ∧ Spelled cs' [c] := by
  obtain ⟨htoken, hedges⟩ := line_edges
  obtain ⟨e, he, hon, hnext⟩ := next_of_mem htoken hc
  rcases hedges e he with hlf | hcr | ⟨hacts, htarget, hspell⟩
  · rw [hlf, lf, token_has_not hc (by simp)] at hon
    cases hon
  · rw [hcr, cr, token_has_not hc (by simp)] at hon
    cases hon
  · rw [hacts] at hnext
    have hname : Spelled e.target ([] ++ [c]) := Spelled.of_edge (.inr rfl) hspell hon
    exact ⟨e.target, htarget, hnext, hname⟩

theorem name_ne_error : ∀ cs ∈ nameStates, cs ≠ error := by decide

theorem name_quiet {cs : ℕ} {name u : Bytes} (hcs : cs ∈ nameStates) (hname : Spelled cs name)
    (hu : ∀ c ∈ u, token.has c = true) :
    ∃ cs' ∈ nameStates, quiet machine cs u = some cs' ∧ Spelled cs' (name ++ u) := by
  induction u generalizing cs name with
  | nil => exact ⟨cs, hcs, rfl, by rwa [List.append_nil]⟩
  | cons c u ih =>
    obtain ⟨cs₁, h1, hnext, hname₁⟩ := name_step hcs hname (hu c List.mem_cons_self)
    obtain ⟨cs₂, h2, hquiet, hname₂⟩ := ih h1 hname₁ fun x hx => hu x (List.mem_cons_of_mem c hx)
    have hnext' : machine.next cs c = (cs₁, []) := hnext
    refine ⟨cs₂, h2, ?_, by rwa [List.append_assoc] at hname₂⟩
    rw [quiet, hnext', if_pos ⟨rfl, name_ne_error cs₁ h1⟩, hquiet]

/-- the colon behind a name -/
theorem name_colon : ∀ cs ∈ nameStates, (spelling cs).getD [] ∉ knownNames → next cs 58 = (22, [.writeField]) := by
  decide +kernel

theorem strcasecmpEq_of_token {name x : Bytes} (hname : IsToken name) (hx : x ∈ knownNames) (h : name.map tolower = x) :
    strcasecmpEq name x = true := by
  have hnul : ∀ c ∈ name, c ≠ 0 := by
    intro c hc h0
    have := hname.2 c hc
    rw [h0] at this
    exact absurd this (by decide)
  have hknown : ∀ x ∈ knownNames, (cstr x).map tolower = x ++ [0] := by decide
  have hcstr : cstr name = name ++ [0] := by
    rw [cstr, List.takeWhile_eq_self_iff.mpr]
    intro c hc
    simpa using hnul c hc
  rw [strcasecmpEq, decide_eq_true_eq, hknown x hx, hcstr, List.map_append, h]
  rfl

/-- a name the machine does not look for -/
structure Ordinary (name : Bytes) : Prop where
  token : IsToken name
  unknown : ∀ x ∈ knownNames, strcasecmpEq name x = false

theorem Ordinary.next_colon {name : Bytes} (h : Ordinary name) {cs : ℕ} (hcs : cs ∈ nameStates)
    (hname : Spelled cs name) :
    next cs 58 = (22, [.writeField]) := by
  refine name_colon cs hcs ?_
  rcases hname with hname | hname
  · rw [hname]
    decide
  · rw [hname, Option.getD_some]
    intro hknown
    have := h.unknown _ hknown
    rw [strcasecmpEq_of_token h.token hknown rfl] at this
    cases this

/-! ## What holds along a head -/

/-- the parser at `p` in a head of `n` bytes -/
structure Good (n p : ℕ) (d : HttpResponseParser) : Prop extends Inside n p d where
  error : d.error = 0
  chunked : d.parser.chunked = false
  body : d.data.body = []
  headers : NoLength d.data.headers

theorem Good.mono {n p p' : ℕ} {d : HttpResponseParser} (h : Good n p d) (hle : p ≤ p') : Good n p' d :=
  { h with toWithin := h.toWithin.mono hle }

theorem Good.of_data {n p : ℕ} {d d' : HttpResponseParser} (h : Good n p d) (hin : Inside n p d')
    (hp : d'.parser.chunked = d.parser.chunked) (he : d'.error = d.error) (hd : d'.data.body = d.data.body)
    (hh : d'.data.headers = d.data.headers) : Good n p d' :=
  ⟨hin, he.trans h.error, hp.trans h.chunked, hd.trans h.body, hh ▸ h.headers⟩

/-- the actions that neither store a header, nor read a version, nor see chunks -/
def isPlain : Action → Bool
  | .writeValue | .httpVersion | .chunkSize | .transChunked => false
  | _ => true

theorem Good.after {n p : ℕ} {d : HttpResponseParser} (h : Good n p d) (hp : p < n) (buffer : Bytes) {i : Action}
    (hi : isPlain i = true) : Good n p (d.after buffer i p) := by
  have hin := h.toInside.after hp buffer i
  cases i with
  | writeValue => cases hi
  | httpVersion => cases hi
  | chunkSize => cases hi
  | transChunked => cases hi
  | _ => exact h.of_data hin rfl rfl rfl rfl

/-- a header with another name is stored -/
theorem Good.after_writeValue {n p : ℕ} {d : HttpResponseParser} (h : Good n p d) (hp : p < n) {buffer : Bytes}
    (hname : strcasecmpEq ((buffer.drop d.parser.fieldStart).take d.parser.fieldLen) (ascii "content-length") = false) :
    Good n p (d.after buffer .writeValue p) := by
  have hin := h.toInside.after hp buffer .writeValue
  simp only [HttpResponseParser.after] at hin ⊢
  split_ifs at hin ⊢ with hlen
  · exact h
  · exact ⟨hin, h.error, h.chunked, h.body, h.headers.assign hname _⟩

theorem Good.after_httpVersion {n p : ℕ} {d : HttpResponseParser} (h : Good n p d) (hp : p < n) {buffer : Bytes}
    (hversion : (versionOf buffer d.parser.mark (p - d.parser.mark)).isSome = true) :
    Good n p (d.after buffer .httpVersion p) := by
  have hin := h.toInside.after hp buffer .httpVersion
  obtain ⟨v, hv⟩ := Option.isSome_iff_exists.mp hversion
  simp only [HttpResponseParser.after, hv, Option.elim_some] at hin ⊢
  exact h.of_data hin rfl rfl rfl rfl

section
variable (buffer : Bytes) {text z : Bytes}

theorem perform_after {is : List Action} (his : ∀ i ∈ is, isDone i = false) {p : ℕ} (hp : p ≤ maxSize)
    {d : HttpResponseParser}
    (h : Within p d) :
    perform (fun i => HttpResponseParser.act buffer i p) is d = .go (is.foldl (fun d i => d.after buffer i p) d) := by
  induction is generalizing d with
  | nil => rfl
  | cons i is ih =>
    rw [perform, act_eq buffer i hp h, his i List.mem_cons_self]
    exact ih (fun x hx => his x (List.mem_cons_of_mem i hx)) (after_within buffer i h)

/-- one symbol -/
theorem walk_one {cs cs' : ℕ} {c : UInt8} {is : List Action} {I J : ℕ → HttpResponseParser → Prop}
    (hmax : text.length ≤ maxSize) (hnext : next cs c = (cs', is)) (herr : cs' ≠ error) (his : ∀ i ∈ is, isDone i = false)
    (hI : ∀ p d, I p d → Within p d)
    (hJ : ∀ p d, p < text.length → I p d → J (p + 1) (is.foldl (fun d i => d.after buffer i p) d)) :
    Walks machine (HttpResponseParser.act buffer) text cs I [c] cs' J := by
  refine Walks.one hnext herr ?_
  intro p d hp h
  exact ⟨_, perform_after buffer his (hp.le.trans hmax) (hI p d h), hJ p d hp h⟩

/-- one symbol with an action that keeps the parser good -/
theorem walk_plain {cs cs' : ℕ} {c : UInt8} {i : Action} (hmax : text.length ≤ maxSize) (hnext : next cs c = (cs', [i]))
    (herr : cs' ≠ error) (hi : isDone i = false) (hplain : isPlain i = true) :
    Walks machine (HttpResponseParser.act buffer) text cs (Good text.length) [c] cs' (Good text.length) := by
  refine walk_one buffer hmax hnext herr (by simpa using hi) (fun _ _ h => h.toWithin) ?_
  intro p d hp h
  exact (h.after hp buffer hplain).mono (Nat.le_succ p)

theorem walk_quiet {cs cs' : ℕ} {u : Bytes} (h : quiet machine cs u = some cs') :
    Walks machine (HttpResponseParser.act buffer) text cs (Good text.length) u cs' (Good text.length) := by
  refine (Walks.quiet h).imp (fun _ _ => id) ?_
  intro q d hq
  obtain ⟨p, rfl, hp⟩ := hq
  exact hp.mono (Nat.le_add_right p _)

/-- a part that is opened at its first byte and closed at the byte behind it; `K` is about the place of the first -/
theorem walk_piece {cs s₁ s₂ s₃ : ℕ} {c x : UInt8} {u : Bytes} {o : Action} {is : List Action}
    {I J : ℕ → HttpResponseParser → Prop} (K : ℕ → HttpResponseParser → Prop) (hmax : text.length ≤ maxSize)
    (hopen : next cs c = (s₁, [o])) (hquiet : quiet machine s₁ u = some s₂) (hclose : next s₂ x = (s₃, is))
    (h1 : s₁ ≠ error) (h3 : s₃ ≠ error) (ho : isDone o = false) (his : ∀ i ∈ is, isDone i = false)
    (hI : ∀ p d, p < text.length → I p d → Within p d ∧ K p (d.after buffer o p))
    (hJ : ∀ p d w, text.drop p = c :: u ++ x :: w → p + (c :: u).length < text.length → K p d →
      Within (p + (c :: u).length) d ∧
        J (p + (c :: u).length + 1) (is.foldl (fun d i => d.after buffer i (p + (c :: u).length)) d)) :
    Walks machine (HttpResponseParser.act buffer) text cs I (c :: u ++ [x]) s₃ J := by
  refine Walks.piece (K := K) hopen hquiet hclose h1 h3 ?_ ?_
  · intro p d hp h
    obtain ⟨hin, hk⟩ := hI p d hp h
    exact ⟨_, by rw [act_eq buffer o (hp.le.trans hmax) hin, ho]; rfl, hk⟩
  · intro p d w hw hlt hk
    obtain ⟨hin, hj⟩ := hJ p d w hw hlt hk
    exact ⟨_, perform_after buffer his (hlt.le.trans hmax) hin, hj⟩

/-! ## The status line -/

/-- the versions a printer may write -/
def versions : List Bytes := [ascii "HTTP/1.0", ascii "HTTP/1.1"]

theorem version_path : ∀ v ∈ versions, v = 72 :: v.tail ∧ v.tail.length = 7 ∧ quiet machine 8 v.tail = some 15 ∧
    (versionOf v 0 8).isSome = true := by
  decide +kernel

/-- the bytes of `text` at a place are those of the buffer -/
theorem drop_buffer {buffer : Bytes} (hbuffer : buffer = text ++ z) {u w : Bytes} {p : ℕ} (hu : u ≠ [])
    (h : text.drop p = u ++ w) :
    (buffer.drop p).take u.length = u := by
  have hp : p ≤ text.length := by
    by_contra hlt
    rw [List.drop_eq_nil_of_le (not_le.mp hlt).le] at h
    exact hu (List.append_eq_nil_iff.mp h.symm).1
  rw [hbuffer, List.drop_append_of_le_length hp, h, List.append_assoc, List.take_left]

theorem version_walk {buffer : Bytes} (hbuffer : buffer = text ++ z) (hmax : text.length ≤ maxSize) {v : Bytes}
    (hv : v ∈ versions) :
    Walks machine (HttpResponseParser.act buffer) text start (fun p d => p = 0 ∧ Good text.length p d) (v ++ [32]) 16
      (Good text.length) := by
  obtain ⟨hcons, hlen, hquiet, hversion⟩ := version_path v hv
  generalize v.tail = u at hcons hlen hquiet
  subst hcons
  have hopen : next start 72 = (8, [.mark]) := by decide +kernel
  have hclose : next 15 32 = (16, [.httpVersion]) := by decide +kernel
  refine walk_piece buffer (fun p d => p = 0 ∧ Good text.length p d ∧ d.parser.mark = 0) hmax hopen hquiet hclose (by decide)
    (by decide) rfl (by simp [isDone]) ?_ ?_
  · intro p d hp h
    obtain ⟨rfl, hgood⟩ := h
    exact ⟨hgood.toWithin, rfl, hgood.after hp buffer (i := .mark) rfl, rfl⟩
  · intro p d w hw hlt h
    obtain ⟨rfl, hgood, hzero⟩ := h
    have hgood := hgood.mono (Nat.le_add_right 0 (72 :: u).length)
    refine ⟨hgood.toWithin, (hgood.after_httpVersion hlt ?_).mono (Nat.le_succ _)⟩
    -- the text from the mark on is the version
    have hsame : (72 :: u).take 8 = (buffer.drop 0).take 8 := by
      have hdrop := drop_buffer hbuffer (List.cons_ne_nil 72 u) hw
      rw [List.length_cons, hlen] at hdrop
      rw [hdrop, List.take_of_length_le (by simp [hlen])]
    rw [hzero, List.length_cons, hlen, ← versionOf_same hsame (le_refl _)]
    exact hversion

def IsDigits (s : Bytes) : Prop := s ≠ [] ∧ ∀ c ∈ s, digit.has c = true

instance (s : Bytes) : Decidable (IsDigits s) := inferInstanceAs (Decidable (s ≠ [] ∧ ∀ c ∈ s, digit.has c = true))

theorem digits_quiet {s : Bytes} (hs : ∀ c ∈ s, digit.has c = true) : quiet machine 17 s = some 17 := by
  induction s with
  | nil => rfl
  | cons c s ih =>
    have hc := hs c List.mem_cons_self
    have hsp : sp.has c = false := by
      rw [Bool.eq_false_iff, ne_eq, sp, byte_has]
      rw [has_iff, digit] at hc
      simp only [List.mem_singleton, exists_eq_left] at hc
      omega
    have hnext : machine.next 17 c = (17, []) :=
      next_eq [⟨sp, 18, [.statusCode]⟩] ⟨digit, 17, []⟩ rfl (by simp [hsp]) hc
    rw [quiet, hnext, if_pos ⟨rfl, by decide⟩]
    exact ih fun x hx => hs x (List.mem_cons_of_mem c hx)

theorem status_walk (hmax : text.length ≤ maxSize) {code : Bytes} (hcode : IsDigits code) :
    Walks machine (HttpResponseParser.act buffer) text 16 (Good text.length) (code ++ [32]) 18 (Good text.length) := by
  obtain ⟨hne, hdigits⟩ := hcode
  obtain ⟨c, s, rfl⟩ := List.exists_cons_of_ne_nil hne
  have hnext : next 16 c = (17, [.mark]) :=
    next_eq [] ⟨digit, 17, [.mark]⟩ rfl (by simp) (hdigits c List.mem_cons_self)
  have hspace : next 17 32 = (18, [.statusCode]) := by decide +kernel
  have hquiet : quiet machine 17 s = some 17 := digits_quiet fun x hx => hdigits x (List.mem_cons_of_mem c hx)
  have hcode := (walk_plain buffer hmax hnext (by decide) rfl rfl).cons (walk_quiet buffer hquiet)
  exact hcode.append (walk_plain buffer hmax hspace (by decide) rfl rfl)

theorem reason_walk (hmax : text.length ≤ maxSize) {reason : Bytes} (hne : reason ≠ []) (hclean : Clean reason) :
    Walks machine (HttpResponseParser.act buffer) text 18 (Good text.length) (reason ++ crlf) 20 (Good text.length) := by
  obtain ⟨c, s, rfl⟩ := List.exists_cons_of_ne_nil hne
  have hnext : next 18 c = (19, [.mark]) := next_reason (hclean c List.mem_cons_self).2
  have hquiet : quiet machine 19 s = some 19 :=
    quiet_inside rfl (by decide) fun x hx => hclean x (List.mem_cons_of_mem c hx)
  have hcr : next 19 13 = (24, [.reasonPhrase]) := by decide +kernel
  have hlf : quiet machine 24 [10] = some 20 := by decide +kernel
  have htext := (walk_plain buffer hmax hnext (by decide) rfl rfl).cons (walk_quiet buffer hquiet)
  exact htext.append ((walk_plain buffer hmax hcr (by decide) rfl rfl).cons (walk_quiet buffer hlf))

/-! ## Header lines -/

/-- behind a name and its colon -/
structure Held (n : ℕ) (name : Bytes) (p : ℕ) (d : HttpResponseParser) : Prop extends Good n p d where
  name : (buffer.drop d.parser.fieldStart).take d.parser.fieldLen = name

/-- a name and its colon, along a path of the machine -/
theorem field_walk {buffer : Bytes} (hbuffer : buffer = text ++ z) (hmax : text.length ≤ maxSize) {c : UInt8}
    {u : Bytes}
    {s₁ s₂ s₃ : ℕ} (hfirst : next 20 c = (s₁, [.startField])) (hquiet : quiet machine s₁ u = some s₂)
    (hcolon : next s₂ 58 = (s₃, [.writeField])) (h1 : s₁ ≠ error) (h3 : s₃ ≠ error) :
    Walks machine (HttpResponseParser.act buffer) text 20 (Good text.length) (c :: u ++ [58]) s₃
      (Held buffer text.length (c :: u)) := by
  refine walk_piece buffer (fun p d => Good text.length p d ∧ d.parser.fieldStart = p) hmax hfirst hquiet hcolon h1 h3 rfl
    (by simp [isDone]) ?_ ?_
  · intro p d hp h
    exact ⟨h.toWithin, h.after hp buffer (i := .startField) rfl, rfl⟩
  · intro p d w hw hlt h
    obtain ⟨hgood, hstart⟩ := h
    have hgood := hgood.mono (Nat.le_add_right p (c :: u).length)
    refine ⟨hgood.toWithin, (hgood.after hlt buffer (i := .writeField) rfl).mono (Nat.le_succ _), ?_⟩
    -- the length of the field is that of the name
    show (buffer.drop d.parser.fieldStart).take (p + (c :: u).length - d.parser.fieldStart) = c :: u
    rw [hstart, Nat.add_sub_cancel_left]
    exact drop_buffer hbuffer (List.cons_ne_nil c u) hw

theorem Held.mono {n p p' : ℕ} {name : Bytes} {d : HttpResponseParser} (h : Held buffer n name p d) (hle : p ≤ p') :
    Held buffer n name p' d := ⟨h.toGood.mono hle, h.name⟩

theorem Held.startValue {n p : ℕ} {name : Bytes} {d : HttpResponseParser} (h : Held buffer n name p d) (hp : p < n) :
    Held buffer n name p (d.after buffer .startValue p) := ⟨h.toGood.after hp buffer rfl, h.name⟩

/-- a byte that a value may start with -/
theorem walk_startValue {cs cs' : ℕ} {c : UInt8} {name : Bytes} (hmax : text.length ≤ maxSize)
    (hnext : next cs c = (cs', [.startValue])) (herr : cs' ≠ error) :
    Walks machine (HttpResponseParser.act buffer) text cs (Held buffer text.length name) [c] cs'
      (Held buffer text.length name) := by
  refine walk_one buffer hmax hnext herr (by simp [isDone]) (fun _ _ h => h.toWithin) ?_
  intro p d hp h
  exact (h.startValue buffer hp).mono buffer (Nat.le_succ p)

/-- a quiet piece of a value, and the end of its line -/
theorem walk_writeValue {cs cs₁ cs₂ : ℕ} {u : Bytes} {name : Bytes}
    (hname : strcasecmpEq name (ascii "content-length") = false) (hmax : text.length ≤ maxSize)
    (hquiet : quiet machine cs u = some cs₁) (hnext : next cs₁ 13 = (cs₂, [.writeValue])) (herr : cs₂ ≠ error) :
    Walks machine (HttpResponseParser.act buffer) text cs (Held buffer text.length name) (u ++ [13]) cs₂
      (Good text.length) := by
  refine (Walks.quiet hquiet).append (walk_one buffer hmax hnext herr (by simp [isDone]) ?_ ?_)
  · intro q d h
    obtain ⟨p, rfl, hheld⟩ := h
    exact hheld.toWithin.mono (Nat.le_add_right p _)
  · intro q d hq h
    obtain ⟨p, rfl, hheld⟩ := h
    have hheld := hheld.mono buffer (Nat.le_add_right p u.length)
    exact (hheld.toGood.after_writeValue hq (by rw [hheld.name]; exact hname)).mono (Nat.le_succ _)

theorem value_walk {name v : Bytes} (hname : strcasecmpEq name (ascii "content-length") = false)
    (hmax : text.length ≤ maxSize) (hclean : Clean v) :
    Walks machine (HttpResponseParser.act buffer) text 22 (Held buffer text.length name) (v ++ [13]) 24
      (Good text.length) := by
  induction v with
  | nil =>
    have hcr : next 22 13 = (24, [.startValue, .writeValue]) := by decide +kernel
    refine walk_one buffer hmax hcr (by decide) (by simp [isDone]) (fun _ _ h => h.toWithin) ?_
    intro p d hp h
    have hheld := h.startValue buffer hp
    exact (hheld.toGood.after_writeValue hp (by rw [hheld.name]; exact hname)).mono (Nat.le_succ p)
  | cons c v ih =>
    have hnext := next_value (hclean c List.mem_cons_self)
    have hrest : Clean v := fun x hx => hclean x (List.mem_cons_of_mem c hx)
    split_ifs at hnext
    · exact (walk_startValue buffer hmax hnext (by decide)).cons (ih hrest)
    · have hquiet : quiet machine 23 v = some 23 := quiet_inside rfl (by decide) hrest
      have hcr : next 23 13 = (24, [.writeValue]) := by decide +kernel
      exact (walk_startValue buffer hmax hnext (by decide)).cons
        (walk_writeValue buffer hname hmax hquiet hcr (by decide))

/-- the text of a header line -/
def fieldLine (l : Bytes × Bytes) : Bytes := l.1 ++ [58] ++ l.2 ++ crlf

theorem line_walk {buffer : Bytes} (hbuffer : buffer = text ++ z) (hmax : text.length ≤ maxSize) {l : Bytes × Bytes}
    (hname : Ordinary l.1) (hclean : Clean l.2) :
    Walks machine (HttpResponseParser.act buffer) text 20 (Good text.length) (fieldLine l) 20 (Good text.length) := by
  obtain ⟨name, v⟩ := l
  obtain ⟨c, u, rfl⟩ := List.exists_cons_of_ne_nil hname.token.1
  obtain ⟨s₁, h1, hfirst, hspell₁⟩ := line_step (hname.token.2 c List.mem_cons_self)
  obtain ⟨s₂, h2, hquiet, hspell₂⟩ := name_quiet h1 hspell₁ fun x hx => hname.token.2 x (List.mem_cons_of_mem c hx)
  have hfield := field_walk hbuffer hmax hfirst hquiet (hname.next_colon h2 hspell₂) (name_ne_error s₁ h1) (by decide)
  have hvalue := value_walk buffer (hname.unknown _ List.mem_cons_self) hmax hclean
  have hlf : quiet machine 24 [10] = some 20 := by decide +kernel
  have hline := (hfield.append hvalue).append (walk_quiet buffer hlf)
  rw [fieldLine, crlf]
  simpa only [List.append_assoc, List.cons_append, List.nil_append] using hline

theorem lines_walk {buffer : Bytes} (hbuffer : buffer = text ++ z) (hmax : text.length ≤ maxSize)
    {ls : List (Bytes × Bytes)}
    (hls : ∀ l ∈ ls, Ordinary l.1 ∧ Clean l.2) :
    Walks machine (HttpResponseParser.act buffer) text 20 (Good text.length) (ls.map fieldLine).flatten 20
      (Good text.length) := by
  induction ls with
  | nil => exact Walks.nil 20 fun _ _ => id
  | cons l ls ih =>
    rw [List.map_cons, List.flatten_cons]
    have hl := hls l List.mem_cons_self
    exact (line_walk hbuffer hmax hl.1 hl.2).append (ih fun x hx => hls x (List.mem_cons_of_mem l hx))

/-! ## The end of the head -/

/-- the values of `connection` a printer may write -/
def connectionValue (close : Bool) : Bytes := ascii (if close then " close" else " keep-alive")

theorem connection_walk {buffer : Bytes} (hbuffer : buffer = text ++ z) (hmax : text.length ≤ maxSize) (close : Bool) :
    Walks machine (HttpResponseParser.act buffer) text 20 (Good text.length)
      (fieldLine (ascii "connection", connectionValue close) ++ [13]) 3 (Good text.length) := by
  have hfield := field_walk hbuffer hmax (show next 20 99 = (25, [.startField]) by decide +kernel)
    (show quiet machine 25 (ascii "onnection") = some 34 by decide +kernel)
    (show next 34 58 = (35, [.writeField]) by decide +kernel) (by decide) (by decide)
  have hblank : next 35 32 = (35, [.startValue]) := by decide +kernel
  have hname : strcasecmpEq (99 :: ascii "onnection") (ascii "content-length") = false := by decide
  have hstart := hfield.append (walk_startValue buffer hmax hblank (by decide))
  cases close with
  | true =>
    have hc : next 35 99 = (96, [.startValue]) := by decide +kernel
    have hlose : quiet machine 96 (ascii "lose") = some 100 := by decide +kernel
    have hcr : next 100 13 = (88, [.writeValue]) := by decide +kernel
    have hlf : quiet machine 88 [10] = some 43 := by decide +kernel
    have hend : next 43 13 = (3, [.writeConnectionClose]) := by decide +kernel
    have hvalue := (walk_startValue buffer hmax hc (by decide)).cons
      (walk_writeValue buffer hname hmax hlose hcr (by decide))
    exact ((hstart.append hvalue).append (walk_quiet buffer hlf)).append (walk_plain buffer hmax hend (by decide) rfl rfl)
  | false =>
    have hk : next 35 107 = (23, [.startValue]) := by decide +kernel
    have heep : quiet machine 23 (ascii "eep-alive") = some 23 := by decide +kernel
    have hcr : next 23 13 = (24, [.writeValue]) := by decide +kernel
    have hend : quiet machine 24 [10, 13] = some 3 := by decide +kernel
    have hvalue := (walk_startValue buffer hmax hk (by decide)).cons
      (walk_writeValue buffer hname hmax heep hcr (by decide))
    exact (hstart.append hvalue).append (walk_quiet buffer hend)

/-- a head: its version, code and reason, its lines, and what its last line says -/
structure HeadText where
  version : Bytes
  code : Bytes
  reason : Bytes
  lines : List (Bytes × Bytes)
  close : Bool
  known : version ∈ versions
  digits : IsDigits code
  reason_ne : reason ≠ []
  reason_clean : Clean reason
  ordinary : ∀ l ∈ lines, Ordinary l.1 ∧ Clean l.2

def HeadText.bytes (h : HeadText) : Bytes :=
  (h.version ++ [32]) ++ (h.code ++ [32]) ++ (h.reason ++ crlf) ++ (h.lines.map fieldLine).flatten ++
    (fieldLine (ascii "connection", connectionValue h.close) ++ [13]) ++ [10]

theorem HeadText.bytes_pos (h : HeadText) : 0 < h.bytes.length := by
  rw [HeadText.bytes, List.length_append]
  exact Nat.lt_add_left _ Nat.one_pos

/-- **A head is read.** The scan of a head ends behind its last byte, with a good parser. -/
theorem HeadText.exec_bytes (h : HeadText) (hmax : h.bytes.length ≤ maxSize) (z : Bytes) :
    ∃ e, exec machine (HttpResponseParser.act (h.bytes ++ z)) h.bytes 0 start HttpResponseParser.new.reset =
      .ok (h.bytes.length, firstFinal, e) ∧ Good h.bytes.length h.bytes.length e := by
  have hbuffer : h.bytes ++ z = h.bytes ++ z := rfl
  have hwalk := ((((version_walk hbuffer hmax h.known).append (status_walk _ hmax h.digits)).append
    (reason_walk _ hmax h.reason_ne h.reason_clean)).append (lines_walk hbuffer hmax h.ordinary)).append
    (connection_walk hbuffer hmax h.close)
  have hnew : Good h.bytes.length 0 HttpResponseParser.new.reset :=
    ⟨⟨reset_within _, h.bytes_pos, h.bytes_pos, Nat.zero_le _⟩, rfl, rfl, rfl, fun e he => absurd he List.not_mem_nil⟩
  obtain ⟨d, hd, hgood⟩ := hwalk 0 _ [10] rfl ⟨rfl, hnew⟩
  set u := (h.version ++ [32]) ++ (h.code ++ [32]) ++ (h.reason ++ crlf) ++ (h.lines.map fieldLine).flatten ++
    (fieldLine (ascii "connection", connectionValue h.close) ++ [13]) with hu
  have hbytes : h.bytes = u ++ [10] := rfl
  have hlen : h.bytes.length = u.length + 1 := by rw [hbytes, List.length_append, List.length_singleton]
  have hp : u.length < h.bytes.length := by omega
  rw [Nat.zero_add] at hd hgood
  refine ⟨d.after (h.bytes ++ z) .done u.length, ?_, ?_⟩
  · have hlast : next 3 10 = (firstFinal, [.done]) := by decide +kernel
    have hact := act_eq (h.bytes ++ z) .done (hp.le.trans hmax) hgood.toWithin
    have hexec : exec machine (HttpResponseParser.act (h.bytes ++ z)) [10] u.length 3 d =
        .ok (u.length + 1, firstFinal, d.after (h.bytes ++ z) .done u.length) := by
      have hnext : machine.next 3 10 = (firstFinal, [.done]) := hlast
      simp only [exec, hnext, perform, hact]
      rfl
    rw [hlen, ← hexec, ← hd, ← hbytes]
  · exact (hgood.after hp (h.bytes ++ z) rfl).mono hp.le

end

end Sylar.Http
