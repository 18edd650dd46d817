/-
What the request parser accepts (`http_parser_execute` with the callbacks of `HttpRequestParser`), whatever bytes it is
given.

A head that ends the scan in the state behind its empty line is taken apart by the actions: method, target, version and
header lines, each from where an action opens it to the byte at which another one reports it. Nothing else is known of
the bytes. `Received` is what then holds of the request:
- the path is a text the machine reads as a path, from the start of the target or behind a scheme; query and fragment
  are texts of the grammar;
- a value has none of NUL, CR, LF and DEL in it, and does not begin with a blank or a tab;
- but the name of a header is any text without NUL, DEL and separators that does not begin with an end of line: the
  control characters are not taken out of `token`, so a line without a colon is part of the name on the next line.

`received` says so of every run of the parser.
-/
import Mathlib.Tactic
import Sylar.Core.Scan
import Sylar.Core.Parts
import Sylar.Core.OrdSet
import Sylar.Http.Message
import Sylar.Http.Stream
import Sylar.Http.Map
import Sylar.Http.RequestMachine
import Sylar.Http.RequestParser
import Sylar.Http.HeadWalk
import Sylar.Http.RequestWalk
import Sylar.Http.HeadRows

namespace Sylar.Http.Received

open Sylar.Core Sylar.Core.Scan Sylar.Http.RequestMachine Sylar.Http.RequestWalk Sylar.Http.HeadRows

/-! ## Places -/

section
variable {relaxed : Bool} {buffer text z : Bytes} {r : ℕ × ℕ × HttpRequestParser} {cs p : ℕ} {d : HttpRequestParser}

theorem machine_next (relaxed : Bool) (cs : ℕ) (c : UInt8) : (machine relaxed).next cs c = next relaxed cs c := rfl

/-- a state in which every byte has an action -/
theorem at_row {S : ℕ → Bool} {rows : List (ℕ × List Action)} (h : At (machine relaxed) (act buffer) text r cs p d)
    (hrows : Rows S nowhere rows) (hS : S cs = true) (hfin : r.2.1 ≠ cs) :
    ∃ c w, text.drop p = c :: w ∧ next relaxed cs c ∈ rows ∧
      After (machine relaxed) (act buffer) text r p d (next relaxed cs c) := by
  rcases h.step with ⟨-, hr⟩ | ⟨c, w, htext, herr, hafter⟩
  · exact absurd (by rw [hr]) hfin
  · rcases hrows.next hS herr with ⟨-, hnowhere⟩ | hmem
    · exact absurd hnowhere Bool.false_ne_true
    · exact ⟨c, w, htext, hmem, hafter⟩

/-- states that a quiet part stays in -/
theorem quiet_in {S : ℕ → Bool} {rows : List (ℕ × List Action)} (hrows : Rows S S rows) (hacts : ∀ e ∈ rows, e.2 ≠ [])
    {u : Bytes} {s : ℕ} (hS : S cs = true) (hq : quiet (machine relaxed) cs u = some s) : S s = true := by
  refine quiet_mem (S := fun s => S s = true) ?_ hS hq
  intro s c hs hquiet herr
  rcases hrows.next hs herr with ⟨-, hin⟩ | hmem
  · exact hin
  · exact absurd hquiet (hacts _ hmem)

/-- up to the byte at which they are left -/
theorem at_cut {S : ℕ → Bool} {rows : List (ℕ × List Action)} (h : At (machine relaxed) (act buffer) text r cs p d)
    (hrows : Rows S S rows) (hacts : ∀ e ∈ rows, e.2 ≠ []) (hS : S cs = true) (hfin : S r.2.1 = false) :
    ∃ u w c s, text.drop p = u ++ c :: w ∧ quiet (machine relaxed) cs u = some s ∧ S s = true ∧
      At (machine relaxed) (act buffer) text r s (p + u.length) d ∧ next relaxed s c ∈ rows ∧
      (next relaxed s c).1 ≠ error ∧ After (machine relaxed) (act buffer) text r (p + u.length) d (next relaxed s c) := by
  cases h.part with
  | ends hq => exact absurd (hfin.symm.trans (quiet_in hrows hacts hS hq)) Bool.false_ne_true
  | cut u w c s htext hq hplace hne herr hafter =>
    have hs := quiet_in hrows hacts hS hq
    rcases hrows.next hs herr with ⟨hquiet, -⟩ | hmem
    · exact absurd hquiet hne
    · exact ⟨u, w, c, s, htext, hq, hs, hplace, hmem, herr, hafter⟩

/-- actions without `done` -/
theorem after_go {e : ℕ × List Action} (h : After (machine relaxed) (act buffer) text r p d e)
    (hdone : e.2.any isDone = false) :
    ∃ d', perform (fun i => act buffer i p) e.2 d = .go d' ∧ At (machine relaxed) (act buffer) text r e.1 (p + 1) d' := by
  cases h with
  | go d' hp hrest => exact ⟨d', hp, hrest⟩
  | done d' hp => exact absurd (hdone.symm.trans (perform_fbreak (act_ends buffer) hp)) Bool.false_ne_true

theorem perform_one {i : Action} {d' : HttpRequestParser} (h : perform (fun i => act buffer i p) [i] d = .go d') :
    act buffer i p d = .go d' := by
  cases hact : act buffer i p d with
  | go d₁ =>
    simp only [perform, hact] at h
    rw [Flow.go.inj h]
  | fbreak d₁ =>
    simp only [perform, hact] at h
    cases h
  | raise e =>
    simp only [perform, hact] at h
    cases h

theorem store_eq {set : HttpRequest → Bytes → HttpRequest} {q n : ℕ} {d' : HttpRequestParser}
    (h : store set buffer q n d = .ok d') : d' = { d with data := set d.data ((buffer.drop q).take n) } := by
  rw [store, str] at h
  split_ifs at h
  · cases h
  · exact (Except.ok.inj h).symm

/-- a part that is stored, at its end -/
theorem perform_store (set : HttpRequest → Bytes → HttpRequest) {i : Action} {is : List Action} {q n : ℕ}
    {d' : HttpRequestParser} (hact : act buffer i p d = .ofExcept (store set buffer q n d))
    (his : is = [] ∨ is = [.requestUri]) (h : perform (fun i => act buffer i p) (i :: is) d = .go d') :
    d' = { d with data := set d.data ((buffer.drop q).take n) } := by
  cases hstore : store set buffer q n d with
  | error e =>
    simp only [perform, hact, hstore, Flow.ofExcept] at h
    cases h
  | ok d₁ =>
    simp only [perform, hact, hstore, Flow.ofExcept] at h
    have hd : d' = d₁ := by
      rcases his with rfl | rfl
      · exact (Flow.go.inj h).symm
      · exact (Flow.go.inj h).symm
    rw [hd, store_eq hstore]

end

/-! ## The target -/

/-- a text that the machine reads as a path from a state on -/
def PathFrom (relaxed : Bool) (s : ℕ) (path : Bytes) : Prop :=
  path = [] ∨ ∃ c u s₁ s₂, path = c :: u ∧ next relaxed s c = (s₁, [.mark]) ∧ s₁ ≠ error ∧
    quiet (machine relaxed) s₁ u = some s₂ ∧ s₂ ∈ pathEnds

/-- a path, from the start of the target or behind a scheme -/
def PathText (relaxed : Bool) (path : Bytes) : Prop := ∃ s ∈ [3, behindScheme], PathFrom relaxed s path

/-- the scan comes by one of the states, with data that `Q` holds of -/
def Comes (relaxed : Bool) (buffer text : Bytes) (r : ℕ × ℕ × HttpRequestParser) (states : List ℕ)
    (Q : HttpRequest → Prop) : Prop :=
  ∃ s ∈ states, ∃ p d, At (machine relaxed) (act buffer) text r s p d ∧ Q d.data

section
variable {relaxed : Bool} {buffer text z : Bytes} {r : ℕ × ℕ × HttpRequestParser} {cs p : ℕ} {d : HttpRequestParser}
  {Q : HttpRequest → Prop}

theorem Comes.imp {states states' : List ℕ} {Q' : HttpRequest → Prop} (h : Comes relaxed buffer text r states Q)
    (hstates : ∀ s ∈ states, s ∈ states') (hQ : ∀ x, Q x → Q' x) : Comes relaxed buffer text r states' Q' := by
  obtain ⟨s, hs, p, d, hat, hd⟩ := h
  exact ⟨s, hstates s hs, p, d, hat, hQ d.data hd⟩

theorem lenFrom_self (p : ℕ) : lenFrom p p = 0 := by simp [lenFrom]

theorem pathRows_spec : ∀ e ∈ pathRows, e.1 ∈ [4, 20, 29] ∧ e.2.any isDone = false ∧
    ∃ is, e.2 = .requestPath :: is ∧ (is = [] ∨ is = [.requestUri]) := by
  intro e he
  fin_cases he
  · exact ⟨by decide, rfl, _, rfl, .inr rfl⟩
  · exact ⟨by decide, rfl, _, rfl, .inr rfl⟩
  · exact ⟨by decide, rfl, _, rfl, .inl rfl⟩

/-- a path begins, or is empty -/
theorem open_path {starts : List ℕ} (h : At (machine relaxed) (act buffer) text r cs p d) (hfin : r.2.1 ≠ cs)
    (hrows : Rows (only cs) nowhere (starts.map (·, [.mark]) ++ emptyPathRows)) :
    Comes relaxed buffer text r [4, 20, 29] (· = { d.data with path := [] }) ∨
      ∃ c w, ∃ s₁ ∈ starts, text.drop p = c :: w ∧ next relaxed cs c = (s₁, [.mark]) ∧
        At (machine relaxed) (act buffer) text r s₁ (p + 1) { d with parser := { d.parser with mark := p } } := by
  obtain ⟨c, w, htext, hmem, hafter⟩ := at_row h hrows (decide_eq_true rfl) hfin
  rcases List.mem_append.mp hmem with hstart | hempty
  · obtain ⟨s₁, hs₁, hnext⟩ := List.mem_map.mp hstart
    rw [← hnext] at hafter
    obtain ⟨d', hd', hrest⟩ := after_go hafter rfl
    obtain rfl := Flow.go.inj hd'
    exact .inr ⟨c, w, s₁, hs₁, htext, hnext.symm, hrest⟩
  · refine .inl ?_
    obtain ⟨e, he, hnext⟩ := List.mem_map.mp hempty
    obtain ⟨hstate, hdone, is, his, huri⟩ := pathRows_spec e he
    rw [← hnext] at hafter
    obtain ⟨d', hd', hrest⟩ := after_go hafter (by rw [List.any_cons, hdone]; rfl)
    rw [his] at hd'
    have hstore := perform_store (d := { d with parser := { d.parser with mark := p } })
      (fun r s => { r with path := s }) rfl huri hd'
    refine ⟨e.1, hstate, p + 1, d', hrest, ?_⟩
    rw [hstore]
    simp only [lenFrom_self, List.take_zero]

/-- a path ends, or was a scheme -/
theorem close_path (hbuffer : buffer = text ++ z) {c : UInt8} {w : Bytes} {s s₁ : ℕ} (hs : s ∈ [3, behindScheme])
    (htext : text.drop p = c :: w) (hopen : next relaxed s c = (s₁, [.mark])) (hin : inPath s₁ = true)
    (h : At (machine relaxed) (act buffer) text r s₁ (p + 1) { d with parser := { d.parser with mark := p } })
    (hfin : inPath r.2.1 = false) :
    Comes relaxed buffer text r [4, 20, 29] (fun x => ∃ path, PathText relaxed path ∧ x = { d.data with path }) ∨
      inHier s₁ = false ∧ Comes relaxed buffer text r [behindScheme] (· = d.data) := by
  have hacts : ∀ e ∈ pathRows ++ ([26, 27, 33].map (·, [.mark]) ++ emptyPathRows), e.2 ≠ [] := by decide
  obtain ⟨u, v, x, s₂, hrest, hquiet, hin₂, hplace, hmem, herr, hafter⟩ := at_cut h parts.anyPath hacts hin hfin
  by_cases hscheme : s₂ = behindScheme
  · refine .inr ⟨?_, s₂, List.mem_singleton.mpr hscheme, _, _, hplace, rfl⟩
    -- a part that begins behind a scheme does not come back there
    by_contra hhier
    have hstay := quiet_in parts.hier (by decide) (Bool.not_eq_false _ ▸ hhier) hquiet
    rw [hscheme] at hstay
    exact absurd hstay (by decide)
  · refine .inl ?_
    have hplain : (inPath s₂ && !only behindScheme s₂) = true := by simp [hin₂, only, hscheme]
    have hrow : next relaxed s₂ x ∈ pathRows := by
      rcases parts.path.next hplain herr with ⟨hnone, -⟩ | hrow
      · exact absurd hnone (hacts _ hmem)
      · exact hrow
    have hend : s₂ ∈ pathEnds := by
      by_contra hend
      rcases parts.openPath.next (c := x) (by rw [hplain]; simpa using hend) herr with ⟨hnone, -⟩ | hrow
      · exact absurd hnone (hacts _ hmem)
      · cases hrow
    have htail : w = u ++ x :: v := by rw [← hrest, ← List.tail_drop, htext, List.tail_cons]
    have hpart : text.drop p = (c :: u) ++ x :: v := by rw [htext, htail, List.cons_append]
    obtain ⟨hstate, hdone, is, his, huri⟩ := pathRows_spec _ hrow
    obtain ⟨d', hd', hgo⟩ := after_go hafter hdone
    rw [his] at hd'
    refine ⟨_, hstate, _, d', hgo, c :: u, ⟨s, hs, .inr ⟨c, u, s₁, s₂, rfl, hopen, ?_, hquiet, hend⟩⟩, ?_⟩
    · rintro rfl
      exact absurd hin (by decide)
    · have hlen : p + 1 + u.length = p + (c :: u).length := by
        rw [List.length_cons, Nat.add_comm u.length, ← Nat.add_assoc]
      rw [perform_store (fun r s => { r with path := s }) rfl huri hd']
      show ({ d.data with path := (buffer.drop p).take (lenFrom p (p + 1 + u.length)) } : HttpRequest) = _
      rw [hlen, lenFrom_add, drop_buffer hbuffer (List.cons_ne_nil c u) hpart]

/-- **The path.** -/
theorem path_stage (hbuffer : buffer = text ++ z) (h : At (machine relaxed) (act buffer) text r 3 p d)
    (hfin : r.2.1 = firstFinal) :
    Comes relaxed buffer text r [4, 20, 29] fun x => ∃ path, PathText relaxed path ∧ x = { d.data with path } := by
  have hend : inPath r.2.1 = false := by rw [hfin]; decide
  rcases open_path h (by rw [hfin]; decide) parts.target with hempty | ⟨c, w, s₁, hs₁, htext, hopen, hat⟩
  · exact hempty.imp (fun _ => id) fun x hx => ⟨[], ⟨3, by decide, .inl rfl⟩, hx⟩
  have hin : ∀ s ∈ [19, 24, 33, 173], inPath s = true := by decide
  rcases close_path hbuffer (by decide) htext hopen (hin s₁ hs₁) hat hend with hpath | ⟨-, s, hs, q, d₁, hat₁, hd₁⟩
  · exact hpath
  -- behind a scheme the path begins again
  obtain rfl := List.mem_singleton.mp hs
  have hstart : Rows (only behindScheme) nowhere ([26, 27, 33].map (·, [.mark]) ++ emptyPathRows) := parts.scheme
  rcases open_path hat₁ (by rw [hfin]; decide) hstart with hempty | ⟨c, w, s₁, hs₁, htext, hopen, hat⟩
  · refine hempty.imp (fun _ => id) fun x hx => ⟨[], ⟨3, by decide, .inl rfl⟩, ?_⟩
    rw [hx, hd₁]
  have hhier : ∀ s ∈ [26, 27, 33], inPath s = true ∧ inHier s = true := by decide
  rcases close_path hbuffer (by decide) htext hopen (hhier s₁ hs₁).1 hat hend with hpath | ⟨hno, -⟩
  · refine hpath.imp (fun _ => id) ?_
    rintro x ⟨path, hpath, rfl⟩
    exact ⟨path, hpath, by rw [hd₁]⟩
  · exact absurd ((hhier s₁ hs₁).2.symm.trans hno) (by decide)

/-- the states of a text with escapes: what a byte of it is, and where it leads -/
structure Spells (relaxed : Bool) (e k k₁ k₂ : ℕ) (is : List Action) : Prop where
  char : ∀ c, next relaxed e c = (k, is) → queryChar relaxed c = true
  percent : ∀ c, next relaxed e c = (k₁, is) → c = 37
  inner : ∀ c, next relaxed k c = (k, []) → queryChar relaxed c = true
  innerPercent : ∀ c, next relaxed k c = (k₁, []) → c = 37
  stay : ∀ c, (next relaxed k c).2 = [] → (next relaxed k c).1 ∈ [error, k, k₁]
  first : ∀ c, (next relaxed k₁ c).1 ≠ error → xdigit c = true ∧ next relaxed k₁ c = (k₂, [])
  second : ∀ c, (next relaxed k₂ c).1 ≠ error → xdigit c = true ∧ next relaxed k₂ c = (k, [])

theorem query_spells (relaxed : Bool) : Spells relaxed 29 30 31 32 [.startQuery] := by
  have hr : relaxed ∈ [false, true] := by cases relaxed <;> decide
  refine ⟨fun c => ?_, fun c => ?_, fun c => ?_, fun c => ?_, fun c => ?_, fun c => ?_, fun c => ?_⟩
  · exact ((query_next relaxed hr c (mem_bytes c)).1 (29, 30, 31, [.startQuery]) (by simp)).1
  · exact ((query_next relaxed hr c (mem_bytes c)).1 (29, 30, 31, [.startQuery]) (by simp)).2
  · exact ((query_next relaxed hr c (mem_bytes c)).1 (30, 30, 31, []) (by simp)).1
  · exact ((query_next relaxed hr c (mem_bytes c)).1 (30, 30, 31, []) (by simp)).2
  · exact (query_next relaxed hr c (mem_bytes c)).2 (30, 30, 31) (by simp)
  · exact escape_next relaxed hr c (mem_bytes c) (31, 32) (by simp)
  · exact escape_next relaxed hr c (mem_bytes c) (32, 30) (by simp)

theorem fragment_spells (relaxed : Bool) : Spells relaxed 20 21 22 23 [.mark] := by
  have hr : relaxed ∈ [false, true] := by cases relaxed <;> decide
  refine ⟨fun c => ?_, fun c => ?_, fun c => ?_, fun c => ?_, fun c => ?_, fun c => ?_, fun c => ?_⟩
  · exact ((query_next relaxed hr c (mem_bytes c)).1 (20, 21, 22, [.mark]) (by simp)).1
  · exact ((query_next relaxed hr c (mem_bytes c)).1 (20, 21, 22, [.mark]) (by simp)).2
  · exact ((query_next relaxed hr c (mem_bytes c)).1 (21, 21, 22, []) (by simp)).1
  · exact ((query_next relaxed hr c (mem_bytes c)).1 (21, 21, 22, []) (by simp)).2
  · exact (query_next relaxed hr c (mem_bytes c)).2 (21, 21, 22) (by simp)
  · exact escape_next relaxed hr c (mem_bytes c) (22, 23) (by simp)
  · exact escape_next relaxed hr c (mem_bytes c) (23, 21) (by simp)

theorem quiet_cons_eq {c : UInt8} {u : Bytes} {s : ℕ} (h : quiet (machine relaxed) cs (c :: u) = some s) :
    (next relaxed cs c).2 = [] ∧ (next relaxed cs c).1 ≠ error ∧ quiet (machine relaxed) (next relaxed cs c).1 u = some s := by
  rw [quiet] at h
  split_ifs at h with hc
  exact ⟨List.isEmpty_iff.mp hc.1, hc.2, h⟩

/-- an escape, from behind its percent sign -/
theorem Spells.escape {e k k₁ k₂ : ℕ} {is : List Action} (hs : Spells relaxed e k k₁ k₂ is) (hk : k₁ ≠ k ∧ k₂ ≠ k)
    {u : Bytes} (h : quiet (machine relaxed) k₁ u = some k) :
    ∃ a b v, u = a :: b :: v ∧ xdigit a = true ∧ xdigit b = true ∧ quiet (machine relaxed) k v = some k := by
  cases u with
  | nil => exact absurd (Option.some.inj h) hk.1
  | cons a u =>
    obtain ⟨-, herr, hrest⟩ := quiet_cons_eq h
    obtain ⟨ha, hnext⟩ := hs.first a herr
    rw [hnext] at hrest
    cases u with
    | nil => exact absurd (Option.some.inj hrest) hk.2
    | cons b v =>
      obtain ⟨-, herr, hrest⟩ := quiet_cons_eq hrest
      obtain ⟨hb, hnext⟩ := hs.second b herr
      rw [hnext] at hrest
      exact ⟨a, b, v, rfl, ha, hb, hrest⟩

/-- a quiet part in these states is a text of the grammar -/
theorem Spells.rest {e k k₁ k₂ : ℕ} {is : List Action} (hs : Spells relaxed e k k₁ k₂ is) (hk : k₁ ≠ k ∧ k₂ ≠ k)
    {u : Bytes} (h : quiet (machine relaxed) k u = some k) : UriText (queryChar relaxed) u := by
  induction hn : u.length using Nat.strong_induction_on generalizing u with
  | _ n ih =>
    cases u with
    | nil => exact .nil
    | cons c u =>
      obtain ⟨hacts, herr, hrest⟩ := quiet_cons_eq h
      have hnext : ∀ t, (next relaxed k c).1 = t → next relaxed k c = (t, []) := fun t ht => Prod.ext ht hacts
      rcases List.mem_cons.mp (hs.stay c hacts) with hzero | hmem
      · exact absurd hzero herr
      rcases List.mem_cons.mp hmem with hstay | hpercent
      · rw [hstay] at hrest
        exact .char (hs.inner c (hnext k hstay)) (ih u.length (by rw [← hn]; simp) hrest rfl)
      · have hpercent := List.mem_singleton.mp hpercent
        rw [hpercent] at hrest
        obtain rfl := hs.innerPercent c (hnext k₁ hpercent)
        obtain ⟨a, b, v, rfl, ha, hb, hv⟩ := hs.escape hk hrest
        exact .escape ha hb (ih v.length (by rw [← hn]; simp; omega) hv rfl)

/-- with the byte at which the text begins -/
theorem Spells.whole {e k k₁ k₂ : ℕ} {is : List Action} (hs : Spells relaxed e k k₁ k₂ is) (hk : k₁ ≠ k ∧ k₂ ≠ k)
    {c : UInt8} {u : Bytes} {s₁ : ℕ} (hs₁ : s₁ ∈ [k, k₁]) (hopen : next relaxed e c = (s₁, is))
    (h : quiet (machine relaxed) s₁ u = some k) : UriText (queryChar relaxed) (c :: u) := by
  rcases List.mem_cons.mp hs₁ with rfl | hs₁
  · exact .char (hs.char c hopen) (hs.rest hk h)
  · obtain rfl := List.mem_singleton.mp hs₁
    obtain rfl := hs.percent c hopen
    obtain ⟨a, b, v, rfl, ha, hb, hv⟩ := hs.escape hk h
    exact .escape ha hb (hs.rest hk hv)

/-- a text from the byte at which `o` opens it to the one at which `i` stores it, or an empty one -/
theorem text_stage (hbuffer : buffer = text ++ z) {e k k₁ k₂ : ℕ} {o i : Action} {is : List Action} {targets : List ℕ}
    {S : ℕ → Bool} (set : HttpRequest → Bytes → HttpRequest) (place : HttpParser → ℕ)
    (opened : ℕ → HttpParser → HttpParser) (hspells : Spells relaxed e k k₁ k₂ [o]) (hk : k₁ ≠ k ∧ k₂ ≠ k)
    (hS : ∀ s, S s = true ↔ s = k ∨ s = k₁ ∨ s = k₂) (his : is = [] ∨ is = [.requestUri])
    (hopen : ∀ p d, act buffer o p d = .go { d with parser := opened p d.parser })
    (hplace : ∀ p q, place (opened p q) = p)
    (hstore : ∀ p d, act buffer i p d = .ofExcept (store set buffer (place d.parser) (lenFrom (place d.parser) p) d))
    (hstart : Rows (only e) nowhere ([k, k₁].map (·, [o]) ++ targets.map (·, o :: i :: is)))
    (hrows : Rows S S (targets.map (·, i :: is))) (hdone : ∀ x ∈ [o, i], isDone x = false)
    (h : At (machine relaxed) (act buffer) text r e p d) (hfin : r.2.1 ≠ e ∧ S r.2.1 = false) :
    Comes relaxed buffer text r targets fun x => ∃ t, UriText (queryChar relaxed) t ∧ x = set d.data t := by
  have hsilent : is.any isDone = false := by
    rcases his with rfl | rfl
    · rfl
    · rfl
  have ho : isDone o = false := hdone o (by simp)
  have hi : isDone i = false := hdone i (by simp)
  obtain ⟨c, w, htext, hmem, hafter⟩ := at_row h hstart (decide_eq_true rfl) hfin.1
  rcases List.mem_append.mp hmem with hlong | hempty
  · obtain ⟨s₁, hs₁, hnext⟩ := List.mem_map.mp hlong
    have hin : S s₁ = true := by
      rw [hS]
      rcases List.mem_cons.mp hs₁ with rfl | hs₁
      · exact .inl rfl
      · exact .inr (.inl (List.mem_singleton.mp hs₁))
    rw [← hnext] at hafter
    obtain ⟨d₁, hd₁, hat⟩ := after_go hafter (by rw [List.any_cons, ho]; rfl)
    simp only [perform, hopen] at hd₁
    obtain rfl := Flow.go.inj hd₁
    have hacts : ∀ e ∈ targets.map (·, i :: is), e.2 ≠ [] := by
      intro e he
      obtain ⟨t, -, rfl⟩ := List.mem_map.mp he
      exact List.cons_ne_nil i is
    obtain ⟨u, v, x, s₂, hrest, hquiet, hin₂, -, hrow, herr, hafter₂⟩ := at_cut hat hrows hacts hin hfin.2
    -- an escape is not left in the middle
    have hend : s₂ = k := by
      rcases (hS s₂).mp hin₂ with rfl | rfl | rfl
      · rfl
      · exact absurd (congrArg Prod.snd (hspells.first x herr).2) (hacts _ hrow)
      · exact absurd (congrArg Prod.snd (hspells.second x herr).2) (hacts _ hrow)
    rw [hend] at hquiet hrow hafter₂
    obtain ⟨t, ht, hclose⟩ := List.mem_map.mp hrow
    rw [← hclose] at hafter₂
    obtain ⟨d', hd', hgo⟩ := after_go hafter₂ (by rw [List.any_cons, hi, hsilent]; rfl)
    have htail : w = u ++ x :: v := by rw [← hrest, ← List.tail_drop, htext, List.tail_cons]
    have hpart : text.drop p = (c :: u) ++ x :: v := by rw [htext, htail, List.cons_append]
    have hlen : p + 1 + u.length = p + (c :: u).length := by
      rw [List.length_cons, Nat.add_comm u.length, ← Nat.add_assoc]
    refine ⟨t, ht, _, d', hgo, c :: u, hspells.whole hk hs₁ hnext.symm hquiet, ?_⟩
    rw [perform_store set (hstore _ _) his hd']
    show set d.data ((buffer.drop (place (opened p d.parser))).take (lenFrom (place (opened p d.parser)) (p + 1 + u.length))) = _
    rw [hplace, hlen, lenFrom_add, drop_buffer hbuffer (List.cons_ne_nil c u) hpart]
  · obtain ⟨t, ht, hnext⟩ := List.mem_map.mp hempty
    rw [← hnext] at hafter
    obtain ⟨d', hd', hgo⟩ := after_go hafter (by rw [List.any_cons, List.any_cons, ho, hi, hsilent]; rfl)
    refine ⟨t, ht, p + 1, d', hgo, [], .nil, ?_⟩
    rw [perform, hopen] at hd'
    rw [perform_store set (hstore _ _) his hd']
    show set d.data ((buffer.drop (place (opened p d.parser))).take (lenFrom (place (opened p d.parser)) p)) = _
    rw [hplace, lenFrom_self, List.take_zero]

theorem query_stage (hbuffer : buffer = text ++ z) (h : At (machine relaxed) (act buffer) text r 29 p d)
    (hfin : r.2.1 = firstFinal) :
    Comes relaxed buffer text r [4, 20] fun x => ∃ query, UriText (queryChar relaxed) query ∧ x = { d.data with query } := by
  refine text_stage hbuffer (fun r s => { r with query := s }) (·.queryStart)
    (fun p q => { q with queryStart := p }) (query_spells relaxed) (by decide) ?_ (.inr rfl) (fun _ _ => rfl)
    (fun _ _ => rfl) (fun _ _ => rfl) parts.queryStart parts.query (by decide) h (by rw [hfin]; decide)
  intro s
  rw [inQuery, decide_eq_true_iff]
  omega

theorem fragment_stage (hbuffer : buffer = text ++ z) (h : At (machine relaxed) (act buffer) text r 20 p d)
    (hfin : r.2.1 = firstFinal) :
    Comes relaxed buffer text r [4] fun x =>
      ∃ fragment, UriText (queryChar relaxed) fragment ∧ x = { d.data with fragment } := by
  refine text_stage hbuffer (fun r s => { r with fragment := s }) (·.mark)
    (fun p q => { q with mark := p }) (fragment_spells relaxed) (by decide) ?_ (.inl rfl)
    (fun _ _ => rfl) (fun _ _ => rfl) (fun _ _ => rfl) parts.fragmentStart parts.fragment (by decide) h
    (by rw [hfin]; decide)
  intro s
  rw [inFragment, decide_eq_true_iff]
  omega

/-- what a target leaves in a request -/
structure Target (relaxed : Bool) (r₀ r : HttpRequest) : Prop where
  path : PathText relaxed r.path
  query : UriText (queryChar relaxed) r.query
  fragment : UriText (queryChar relaxed) r.fragment
  rest : r = { r₀ with path := r.path, query := r.query, fragment := r.fragment }

/-- **The target.** -/
theorem target_stage (hbuffer : buffer = text ++ z) (h : At (machine relaxed) (act buffer) text r 3 p d)
    (hfin : r.2.1 = firstFinal) (hq : d.data.query = []) (hf : d.data.fragment = []) :
    Comes relaxed buffer text r [4] (Target relaxed d.data) := by
  obtain ⟨s, hs, p₁, d₁, h₁, path, hpath, hd₁⟩ := path_stage hbuffer h hfin
  -- a fragment, or none
  have hlast : ∀ {s p} {d₂ : HttpRequestParser} {query : Bytes}, s ∈ [4, 20] →
      At (machine relaxed) (act buffer) text r s p d₂ → UriText (queryChar relaxed) query →
      d₂.data = { d.data with path, query } → Comes relaxed buffer text r [4] (Target relaxed d.data) := by
    intro s p d₂ query hs h₂ hquery hd₂
    rcases List.mem_cons.mp hs with rfl | hs
    · refine ⟨4, by decide, p, d₂, h₂, ?_⟩
      rw [hd₂]
      exact ⟨hpath, hquery, by rw [hf]; exact .nil, rfl⟩
    · obtain rfl := List.mem_singleton.mp hs
      refine (fragment_stage hbuffer h₂ hfin).imp (fun _ => id) ?_
      rintro x ⟨fragment, hfragment, rfl⟩
      rw [hd₂]
      exact ⟨hpath, hquery, hfragment, rfl⟩
  have hnone : d₁.data = { d.data with path, query := [] } := by rw [hd₁, ← hq]
  rcases List.mem_cons.mp hs with rfl | hs
  · exact hlast (by decide) h₁ .nil hnone
  rcases List.mem_cons.mp hs with rfl | hs
  · exact hlast (by decide) h₁ .nil hnone
  · obtain rfl := List.mem_singleton.mp hs
    obtain ⟨s, hs, p₂, d₂, h₂, query, hquery, hd₂⟩ := query_stage hbuffer h₁ hfin
    exact hlast hs h₂ hquery (by rw [hd₂, hd₁])

end

/-! ## The method and the version -/

section
variable {relaxed : Bool} {buffer text z : Bytes} {r : ℕ × ℕ × HttpRequestParser} {cs p : ℕ} {d : HttpRequestParser}

/-- a message on a socket is no head -/
theorem message_ends (h : At (machine relaxed) (act buffer) text r cs p d) (hcs : inMessage cs = true) :
    r.2.1 ≠ firstFinal := by
  have hstay : ∀ s c, (decide (s = error) || inMessage s) = true →
      (decide ((next relaxed s c).1 = error) || inMessage (next relaxed s c).1) = true ∧
        (next relaxed s c).2.all (fun _ => true) = true := by
    intro s c hs
    refine ⟨?_, by simp⟩
    by_cases herr : (next relaxed s c).1 = error
    · rw [herr]
      rfl
    · rcases Bool.or_eq_true_iff.mp hs with hzero | hin
      · exact absurd (by rw [of_decide_eq_true hzero]; rfl) herr
      · have hrow := next_checked parts.message relaxed c hin herr
        simpa [herr] using hrow
  have hend := (exec_invariant (M := machine relaxed) (I := fun _ => True) hstay (fun _ _ _ _ _ _ _ => trivial) h.rest
    (by rw [hcs, Bool.or_true]) trivial).1
  intro hfin
  rw [hfin] at hend
  exact absurd hend (by decide)

/-- an error is not taken back -/
theorem request_act_error {i : Action} {d' : HttpRequestParser} (h : act buffer i p d = .go d' ∨ act buffer i p d = .fbreak d') :
    d'.error = d.error ∨ d'.error = 1000 := by
  have hstore : ∀ set q n, Flow.ofExcept (store set buffer q n d) = .go d' ∨
      Flow.ofExcept (store set buffer q n d) = .fbreak d' → d'.error = d.error := by
    intro set q n h
    rcases h with h | h
    · rw [store_eq (Flow.ofExcept_eq_go.mp h)]
    · exact absurd h Flow.ofExcept_ne_fbreak
  cases i with
  | mark | startField | writeField | startValue | startQuery | requestUri | xml | json =>
    rcases h with h | h
    · obtain rfl := Flow.go.inj h
      exact .inl rfl
    · cases h
  | fragment => exact .inl (hstore _ _ _ h)
  | queryString => exact .inl (hstore _ _ _ h)
  | requestPath => exact .inl (hstore _ _ _ h)
  | done =>
    simp only [act] at h
    split_ifs at h
    · rcases h with h | h
      · cases h
      · obtain rfl := Flow.fbreak.inj h
        exact .inl rfl
    · rcases h with h | h
      · cases h
      · obtain rfl := Flow.fbreak.inj h
        exact .inl rfl
  | writeValue =>
    rcases h with h | h
    · have hok := Flow.ofExcept_eq_go.mp h
      rw [onRequestHttpField, str, str] at hok
      split_ifs at hok
      · exact .inl (by rw [Except.ok.inj hok])
      · cases hok
      · cases hok
      · cases hok
      · exact .inl (by rw [← Except.ok.inj hok])
    · exact absurd h Flow.ofExcept_ne_fbreak
  | requestMethod =>
    rcases h with h | h
    · have hok := Flow.ofExcept_eq_go.mp h
      rw [onRequestMethod, str] at hok
      dsimp only at hok
      split_ifs at hok
      · cases hok
      · exact .inr (by rw [← Except.ok.inj hok])
      · exact .inl (by rw [← Except.ok.inj hok])
    · exact absurd h Flow.ofExcept_ne_fbreak
  | httpVersion =>
    rcases h with h | h
    · have hok := Flow.ofExcept_eq_go.mp h
      rw [onRequestVersion, str] at hok
      split_ifs at hok
      · exact .inl (by rw [← Except.ok.inj hok])
      · exact .inl (by rw [← Except.ok.inj hok])
      · cases hok
      · exact .inl (by rw [← Except.ok.inj hok])
    · exact absurd h Flow.ofExcept_ne_fbreak

theorem error_kept (h : At (machine relaxed) (act buffer) text r cs p d) (hzero : r.2.2.error = 0) : d.error = 0 := by
  by_contra hne
  have hkeep : ∀ (i : Action) p (d d' : HttpRequestParser), (fun _ => true) i = true →
      (act buffer i p d = .go d' ∨ act buffer i p d = .fbreak d') → d.error ≠ 0 → d'.error ≠ 0 := by
    intro i p d d' _ h hd
    rcases request_act_error h with he | he
    · rw [he]
      exact hd
    · rw [he]
      decide
  exact (exec_invariant (S := fun _ => true) (P := fun _ => true) (I := fun d => d.error ≠ 0)
    (fun _ _ _ => ⟨rfl, by simp⟩) hkeep h.rest rfl hne).2 hzero

/-- **The method.** A method with a name in the table, of letters. -/
theorem method_stage {queryStart : ℕ} (hbuffer : buffer = text ++ z)
    (h : At (machine relaxed) (act buffer) text r start 0 (.new queryStart relaxed)) (hfin : r.2.1 = firstFinal)
    (hzero : r.2.2.error = 0) :
    Comes relaxed buffer text r [3] fun x => ∃ e ∈ httpMethodMap, e.1 ≠ .MSEARCH ∧ x = { method := e.1 } := by
  obtain ⟨c, w, htext, hmem, hafter⟩ := at_row h parts.start (by decide) (by rw [hfin]; decide)
  have hmark : ∀ s, next relaxed start c = (s, [.mark]) → At (machine relaxed) (act buffer) text r s 1
      (.new queryStart relaxed) := by
    intro s hs
    rw [hs] at hafter
    obtain ⟨d', hd', hat⟩ := after_go hafter rfl
    obtain rfl := Flow.go.inj hd'
    exact hat
  rcases List.mem_cons.mp hmem with hmethod | hmessage
  · have hat := hmark 2 hmethod
    obtain ⟨u, v, x, s₂, hrest, -, -, -, hrow, -, hafter₂⟩ := at_cut hat parts.method (by decide) rfl (by rw [hfin]; decide)
    rw [List.mem_singleton.mp hrow] at hafter₂
    obtain ⟨d', hd', hgo⟩ := after_go hafter₂ rfl
    have herr := error_kept hgo hzero
    refine ⟨3, by decide, _, d', hgo, ?_⟩
    cases hcall : onRequestMethod buffer 0 (lenFrom 0 (1 + u.length)) (.new queryStart relaxed) with
    | error e =>
      have hact : act buffer .requestMethod (1 + u.length) (.new queryStart relaxed) = .raise e := congrArg Flow.ofExcept hcall
      simp only [perform, hact] at hd'
      cases hd'
    | ok d₁ =>
      have hact : act buffer .requestMethod (1 + u.length) (.new queryStart relaxed) = .go d₁ := congrArg Flow.ofExcept hcall
      simp only [perform, hact] at hd'
      obtain rfl := Flow.go.inj hd'
      rw [onRequestMethod, str, List.drop_zero] at hcall
      dsimp only at hcall
      split_ifs at hcall with hinvalid
      · cases hcall
      · rw [← Except.ok.inj hcall] at herr
        cases herr
      · obtain ⟨e, he, hpre⟩ := (charsToHttpMethod_ne_invalid buffer).mp hinvalid
        refine ⟨e, he, ?_, ?_⟩
        · intro hsearch
          -- the second byte would be a dash
          have hname : e.2 = 77 :: 45 :: e.2.drop 2 :=
            (show ∀ e ∈ httpMethodMap, e.1 = .MSEARCH → e.2 = 77 :: 45 :: e.2.drop 2 by decide) e he hsearch
          rw [hname] at hpre
          obtain ⟨tail, htail⟩ := hpre
          have hsecond : (buffer.drop 1).head? = some 45 := by rw [← htail]; rfl
          have htext1 : text.drop 1 ≠ [] := by rw [hrest]; simp
          rcases hat.step with ⟨hnil, -⟩ | ⟨b, w', hcons, hne, -⟩
          · exact htext1 hnil
          · have hbyte : b = 45 := by
              have hlen : 1 ≤ text.length := by
                by_contra hshort
                exact htext1 (List.drop_eq_nil_of_le (by omega))
              rw [hbuffer, List.drop_append_of_le_length hlen, hcons] at hsecond
              exact Option.some.inj hsecond
            rw [hbyte] at hne
            exact hne (dash_error relaxed (by cases relaxed <;> decide))
        · rw [← Except.ok.inj hcall, charsToHttpMethod_eq he hpre]
          rfl
  · refine absurd hfin ?_
    rcases List.mem_cons.mp hmessage with hs | hs
    · exact message_ends (hmark 194 hs) (by decide)
    · exact message_ends (hmark 198 (List.mem_singleton.mp hs)) (by decide)

/-- **The version.** -/
theorem version_stage (h : At (machine relaxed) (act buffer) text r 4 p d) (hfin : r.2.1 = firstFinal) :
    Comes relaxed buffer text r [13, 17] fun x =>
      ∃ v, (v = 0x10 ∨ v = 0x11 ∨ v = d.data.version) ∧ x = { d.data with version := v } := by
  obtain ⟨c, w, -, hmem, hafter⟩ := at_row h parts.versionStart (by decide) (by rw [hfin]; decide)
  rw [List.mem_singleton.mp hmem] at hafter
  obtain ⟨d₁, hd₁, hat⟩ := after_go hafter rfl
  obtain rfl := Flow.go.inj hd₁
  obtain ⟨u, v, x, s₂, -, -, -, -, hrow, -, hafter₂⟩ := at_cut hat parts.version (by decide) rfl (by rw [hfin]; decide)
  obtain ⟨t, ht, hclose⟩ := List.mem_map.mp hrow
  rw [← hclose] at hafter₂
  obtain ⟨d', hd', hgo⟩ := after_go hafter₂ rfl
  refine ⟨t, ht, _, d', hgo, ?_⟩
  have hok := Flow.ofExcept_eq_go.mp (perform_one hd')
  rw [onRequestVersion, str] at hok
  split_ifs at hok
  · exact ⟨0x11, .inr (.inl rfl), by rw [← Except.ok.inj hok]⟩
  · exact ⟨0x10, .inl rfl, by rw [← Except.ok.inj hok]⟩
  · cases hok
  · exact ⟨d.data.version, .inr (.inr rfl), by rw [← Except.ok.inj hok]⟩

end

/-! ## Header lines -/

/-- a name the parser can store: no line begins with an end of line, but one may follow in a name -/
structure NameText (name : Bytes) : Prop where
  nonempty : name ≠ []
  bytes : ∀ c ∈ name, nameByte c = true
  first : ¬[10] <+: name ∧ ¬crlf <+: name

/-- a value the parser can store -/
structure ValueText (value : Bytes) : Prop where
  bytes : ∀ c ∈ value, fieldByte c = true
  first : ∀ c ∈ value.head?, isBlank c = false

def Storable (l : Bytes × Bytes) : Prop := NameText l.1 ∧ ValueText l.2

/-- headers as the parser leaves them -/
structure HeadersOk (m : MapType) : Prop where
  sorted : OrdSet.Sorted entryLess m
  storable : ∀ e ∈ m, Storable e

/-- a header that is stored again keeps the spelling of its name -/
theorem HeadersOk.assign {m : MapType} (h : HeadersOk m) {l : Bytes × Bytes} (hl : Storable l) :
    HeadersOk (MapType.assign m l.1 l.2) := by
  refine ⟨MapType.sorted_assign h.sorted l.1 l.2, ?_⟩
  intro e he
  by_cases hnew : ∀ e ∈ m, strcasecmpEq e.1 l.1 = false
  · rcases ((MapType.assign_new h.sorted hnew l.2).2 e).mp he with rfl | he
    · exact hl
    · exact h.storable e he
  · simp only [not_forall, Bool.not_eq_false] at hnew
    obtain ⟨⟨k, v⟩, hk, hsame⟩ := hnew
    obtain ⟨a, b, hm, hassign⟩ := MapType.assign_old h.sorted hk hsame l.2
    rw [hassign] at he
    have hold : ∀ e ∈ a ++ b, Storable e := by
      intro e he
      refine h.storable e ?_
      rw [hm]
      exact List.mem_append.mpr ((List.mem_append.mp he).imp_right (List.mem_cons_of_mem _))
    rcases List.mem_append.mp he with he | he
    · exact hold e (List.mem_append_left b he)
    · rcases List.mem_cons.mp he with rfl | he
      · exact ⟨(h.storable _ hk).1, hl.2⟩
      · exact hold e (List.mem_append_right a he)

section
variable {relaxed : Bool} {buffer text z : Bytes} {r : ℕ × ℕ × HttpRequestParser} {cs p : ℕ} {d : HttpRequestParser}

theorem line_plain : ∀ cs ∈ [13, 14, 15, 16, 18], cs ∉ condStates := by decide

theorem quiet_name {u : Bytes} {s : ℕ} (h : quiet (machine relaxed) 14 u = some s) : ∀ c ∈ u, nameByte c = true := by
  induction u with
  | nil => simp
  | cons c u ih =>
    obtain ⟨hacts, herr, hrest⟩ := quiet_cons_eq h
    rw [next_plain (line_plain 14 (by decide))] at hacts herr hrest
    have hin : inName (next false 14 c).1 = true := by
      rcases (parts.name.next (by decide) herr) with ⟨-, hin⟩ | hrow
      · exact hin
      · rw [List.mem_cons, List.mem_singleton] at hrow
        rcases hrow with hrow | hrow <;> · rw [hrow] at hacts; cases hacts
    have hstate : (next false 14 c).1 = 14 := by
      rcases of_decide_eq_true hin with hstate | hstate
      · exact hstate
      · exact absurd hstate (name_next c (mem_bytes c)).2.2.2.2.1
    rw [hstate] at hrest
    rw [List.forall_mem_cons]
    exact ⟨(name_next c (mem_bytes c)).1.mp (Prod.ext hstate hacts), ih hrest⟩

/-- a name from its first byte to the colon -/
theorem name_text {c : UInt8} {u : Bytes} {s₁ s₂ : ℕ} (hs₁ : s₁ = 14 ∨ s₁ = 18)
    (hopen : next relaxed 13 c = (s₁, [.startField])) (h : quiet (machine relaxed) s₁ u = some s₂) : NameText (c :: u) := by
  rw [next_plain (line_plain 13 (by decide))] at hopen
  rcases hs₁ with rfl | rfl
  · obtain ⟨hc, hlf, hcr⟩ := (name_next c (mem_bytes c)).2.1.mp hopen
    refine ⟨List.cons_ne_nil c u, List.forall_mem_cons.mpr ⟨hc, quiet_name h⟩, ?_, ?_⟩
    · intro hpre
      exact hlf (List.cons_prefix_cons.mp hpre).1.symm
    · intro hpre
      exact hcr (List.cons_prefix_cons.mp hpre).1.symm
  · obtain rfl := (name_next c (mem_bytes c)).2.2.1.mp hopen
    have hcr : nameByte 13 = true := by decide
    cases u with
    | nil => exact ⟨by simp, by simpa using hcr, by decide, by decide⟩
    | cons b u =>
      obtain ⟨hacts, herr, hrest⟩ := quiet_cons_eq h
      rw [next_plain (line_plain 18 (by decide))] at hacts herr hrest
      have hstate : (next false 18 b).1 = 14 := by
        rcases (parts.name.next (by decide) herr) with ⟨-, hin⟩ | hrow
        · rcases of_decide_eq_true hin with hstate | hstate
          · exact hstate
          · exact absurd hstate (name_next b (mem_bytes b)).2.2.2.2.2
        · rw [List.mem_cons, List.mem_singleton] at hrow
          rcases hrow with hrow | hrow <;> · rw [hrow] at hacts; cases hacts
      rw [hstate] at hrest
      obtain ⟨hb, hlf⟩ := (name_next b (mem_bytes b)).2.2.2.1.mp (Prod.ext hstate hacts)
      refine ⟨by simp, List.forall_mem_cons.mpr ⟨hcr, List.forall_mem_cons.mpr ⟨hb, quiet_name hrest⟩⟩, ?_, ?_⟩
      · intro hpre
        exact absurd (List.cons_prefix_cons.mp hpre).1 (by decide)
      · intro hpre
        exact hlf (List.cons_prefix_cons.mp (List.cons_prefix_cons.mp hpre).2).1.symm

theorem quiet_value {u : Bytes} {s : ℕ} (h : quiet (machine relaxed) 16 u = some s) : ∀ c ∈ u, fieldByte c = true := by
  induction u with
  | nil => simp
  | cons c u ih =>
    obtain ⟨hacts, herr, hrest⟩ := quiet_cons_eq h
    rw [next_plain (line_plain 16 (by decide))] at hacts herr hrest
    have hstate : (next false 16 c).1 = 16 := by
      rcases (parts.value.next (by decide) herr) with ⟨-, hin⟩ | hrow
      · exact of_decide_eq_true hin
      · obtain ⟨t, -, ht⟩ := List.mem_map.mp hrow
        rw [← ht] at hacts
        cases hacts
    rw [hstate] at hrest
    rw [List.forall_mem_cons]
    exact ⟨(field_next c (mem_bytes c)).1.mp (Prod.ext hstate hacts), ih hrest⟩

/-- behind a name and its colon -/
structure Behind (buffer name : Bytes) (d : HttpRequestParser) : Prop where
  length : d.parser.fieldLen = name.length
  name : (buffer.drop d.parser.fieldStart).take name.length = name

theorem Behind.setMark {name : Bytes} (h : Behind buffer name d) (q : ℕ) :
    Behind buffer name { d with parser := { d.parser with mark := q } } := ⟨h.length, h.name⟩

/-- a header that is stored -/
theorem perform_value {name : Bytes} {d' : HttpRequestParser} (hname : name ≠ []) (hbehind : Behind buffer name d)
    (h : perform (fun i => act buffer i p) [.writeValue] d = .go d') :
    d'.data = { d.data with
      headers := d.data.headers.assign name ((buffer.drop d.parser.mark).take (lenFrom d.parser.mark p)) } := by
  have hok := Flow.ofExcept_eq_go.mp (perform_one h)
  rw [onRequestHttpField, hbehind.length, if_neg (by simpa using hname), str, str, hbehind.name] at hok
  split_ifs at hok
  · cases hok
  · cases hok
  · cases hok
  · rw [← Except.ok.inj hok]

theorem at_le (h : At (machine relaxed) (act buffer) text r cs p d) : p ≤ r.1 := exec_le h.rest

/-- the scan comes by the end of a line, later -/
def LineEnds (relaxed : Bool) (buffer text : Bytes) (r : ℕ × ℕ × HttpRequestParser) (p : ℕ) (Q : HttpRequest → Prop) : Prop :=
  ∃ s ∈ [13, 17], ∃ q d, p < q ∧ At (machine relaxed) (act buffer) text r s q d ∧ Q d.data

/-- **A value.** Blanks before it are not part of it. -/
theorem value_stage (hbuffer : buffer = text ++ z) {name : Bytes} (hname : name ≠ []) (hfin : r.2.1 = firstFinal)
    (h : At (machine relaxed) (act buffer) text r 15 p d) (hbehind : Behind buffer name d) :
    LineEnds relaxed buffer text r p fun x =>
      ∃ value, ValueText value ∧ x = { d.data with headers := d.data.headers.assign name value } := by
  induction hn : r.1 - p using Nat.strong_induction_on generalizing p d with
  | _ n ih =>
    obtain ⟨c, w, htext, hmem, hafter⟩ := at_row h parts.valueStart (by decide) (by rw [hfin]; decide)
    rcases List.mem_append.mp hmem with hstart | hempty
    · obtain ⟨s₁, hs₁, hnext⟩ := List.mem_map.mp hstart
      rw [← hnext] at hafter
      obtain ⟨d₁, hd₁, hat⟩ := after_go hafter rfl
      obtain rfl := Flow.go.inj hd₁
      rcases List.mem_cons.mp hs₁ with rfl | hs₁
      · -- a blank
        have hlt := at_le hat
        obtain ⟨s, hs, q, d', hq, hat', hd'⟩ := ih (r.1 - (p + 1)) (by omega) hat (hbehind.setMark p) rfl
        exact ⟨s, hs, q, d', by omega, hat', hd'⟩
      · obtain rfl := List.mem_singleton.mp hs₁
        obtain ⟨u, v, x, s₂, hrest, hquiet, -, -, hrow, -, hafter₂⟩ := at_cut hat parts.value (by decide) rfl
          (by rw [hfin]; decide)
        obtain ⟨t, ht, hclose⟩ := List.mem_map.mp hrow
        rw [← hclose] at hafter₂
        obtain ⟨d', hd', hgo⟩ := after_go hafter₂ rfl
        have htail : w = u ++ x :: v := by rw [← hrest, ← List.tail_drop, htext, List.tail_cons]
        have hpart : text.drop p = (c :: u) ++ x :: v := by rw [htext, htail, List.cons_append]
        have hlen : p + 1 + u.length = p + (c :: u).length := by
          rw [List.length_cons, Nat.add_comm u.length, ← Nat.add_assoc]
        have hopen : next false 15 c = (16, [.startValue]) := by
          rw [← next_plain (line_plain 15 (by decide)) relaxed, ← hnext]
        obtain ⟨hc, hblank⟩ := (field_next c (mem_bytes c)).2.mp hopen
        refine ⟨t, ht, _, d', ?_, hgo, c :: u, ⟨?_, ?_⟩, ?_⟩
        · omega
        · exact List.forall_mem_cons.mpr ⟨hc, quiet_value hquiet⟩
        · intro b hb
          rw [← Option.some.inj hb]
          exact hblank
        · rw [perform_value hname (hbehind.setMark p) hd']
          show ({ d.data with
            headers := d.data.headers.assign name ((buffer.drop p).take (lenFrom p (p + 1 + u.length))) } : HttpRequest) = _
          rw [hlen, lenFrom_add, drop_buffer hbuffer (List.cons_ne_nil c u) hpart]
    · obtain ⟨t, ht, hnext⟩ := List.mem_map.mp hempty
      rw [← hnext] at hafter
      obtain ⟨d', hd', hgo⟩ := after_go hafter rfl
      have hwrite : perform (fun i => act buffer i p) [.writeValue] { d with parser := { d.parser with mark := p } } =
        .go d' := hd'
      refine ⟨t, ht, p + 1, d', Nat.lt_succ_self p, hgo, [], ⟨by simp, by simp⟩, ?_⟩
      rw [perform_value hname (hbehind.setMark p) hwrite]
      show ({ d.data with headers := d.data.headers.assign name ((buffer.drop p).take (lenFrom p p)) } : HttpRequest) = _
      rw [lenFrom_self, List.take_zero]

/-- the last action leaves the request alone -/
theorem act_done {d' : HttpRequestParser} (h : act buffer .done p d = .fbreak d') : d'.data = d.data := by
  rw [act] at h
  split_ifs at h
  · rw [← Flow.fbreak.inj h]
  · rw [← Flow.fbreak.inj h]

theorem after_done {e : ℕ × List Action} (d₁ : HttpRequestParser) (h : After (machine relaxed) (act buffer) text r p d e)
    (he : perform (fun i => act buffer i p) e.2 d = perform (fun i => act buffer i p) [.done] d₁) :
    r.2.2.data = d₁.data := by
  have hone : ∀ {x}, perform (fun i => act buffer i p) [.done] d₁ = x → act buffer .done p d₁ = x := by
    intro x hx
    rw [← hx]
    cases hact : act buffer .done p d₁ <;> simp only [perform, hact]
  cases h with
  | go d' hp =>
    have hact := hone (he.symm.trans hp)
    rw [act] at hact
    split_ifs at hact
  | done d' hp hr =>
    rw [hr]
    exact act_done (hone (he.symm.trans hp))

/-- **A line.** Either the head ends here, or a header is stored. -/
theorem line_stage (hbuffer : buffer = text ++ z) (h : At (machine relaxed) (act buffer) text r 13 p d)
    (hfin : r.2.1 = firstFinal) :
    r.2.2.data = d.data ∨ LineEnds relaxed buffer text r p fun x =>
      ∃ l, Storable l ∧ x = { d.data with headers := d.data.headers.assign l.1 l.2 } := by
  obtain ⟨c, w, htext, hmem, hafter⟩ := at_row h parts.line (by decide) (by rw [hfin]; decide)
  -- a name begins
  have hname : ∀ s₁, s₁ = 14 ∨ s₁ = 18 → next relaxed 13 c = (s₁, [.startField]) →
      r.2.2.data = d.data ∨ LineEnds relaxed buffer text r p fun x =>
        ∃ l, Storable l ∧ x = { d.data with headers := d.data.headers.assign l.1 l.2 } := by
    intro s₁ hs₁ hopen
    rw [hopen] at hafter
    obtain ⟨d₁, hd₁, hat⟩ := after_go hafter rfl
    obtain rfl := Flow.go.inj hd₁
    have hin : inName s₁ = true := decide_eq_true hs₁
    obtain ⟨u, v, x, s₂, hrest, hquiet, -, -, hrow, -, hafter₂⟩ := at_cut hat parts.name (by decide) hin
      (by rw [hfin]; decide)
    rw [List.mem_cons, List.mem_singleton] at hrow
    rcases hrow with hrow | hrow
    · rw [hrow] at hafter₂
      obtain ⟨d₂, hd₂, hat₂⟩ := after_go hafter₂ rfl
      obtain rfl := Flow.go.inj hd₂
      have htail : w = u ++ x :: v := by rw [← hrest, ← List.tail_drop, htext, List.tail_cons]
      have hpart : text.drop p = (c :: u) ++ x :: v := by rw [htext, htail, List.cons_append]
      have hlen : p + 1 + u.length = p + (c :: u).length := by
        rw [List.length_cons, Nat.add_comm u.length, ← Nat.add_assoc]
      have hbehind : Behind buffer (c :: u) { d with parser := { d.parser with
          fieldStart := p, fieldLen := lenFrom p (p + 1 + u.length) } } := by
        refine ⟨?_, drop_buffer hbuffer (List.cons_ne_nil c u) hpart⟩
        show lenFrom p (p + 1 + u.length) = (c :: u).length
        rw [hlen, lenFrom_add]
      obtain ⟨s, hs, q, d', hq, hat', value, hvalue, hd'⟩ :=
        value_stage hbuffer (List.cons_ne_nil c u) hfin hat₂ hbehind
      exact .inr ⟨s, hs, q, d', by omega, hat', (c :: u, value), ⟨name_text hs₁ hopen hquiet, hvalue⟩, hd'⟩
    · rw [hrow] at hafter₂
      exact .inl (after_done { d with parser := { d.parser with fieldStart := p } } hafter₂ rfl)
  rw [List.mem_cons, List.mem_cons, List.mem_singleton] at hmem
  rcases hmem with hopen | hopen | hend
  · exact hname 14 (.inl rfl) hopen
  · exact hname 18 (.inr rfl) hopen
  · rw [hend] at hafter
    exact .inl (after_done { d with parser := { d.parser with fieldStart := p } } hafter rfl)

/-- **Header lines.** -/
theorem lines_stage (hbuffer : buffer = text ++ z) (hfin : r.2.1 = firstFinal) (hcs : cs ∈ [13, 17])
    (h : At (machine relaxed) (act buffer) text r cs p d) (hok : HeadersOk d.data.headers) :
    HeadersOk r.2.2.data.headers ∧ r.2.2.data = { d.data with headers := r.2.2.data.headers } := by
  induction hn : r.1 - p using Nat.strong_induction_on generalizing cs p d with
  | _ n ih =>
    rcases List.mem_cons.mp hcs with rfl | hcs
    · rcases line_stage hbuffer h hfin with hend | ⟨s, hs, q, d', hq, hat, l, hl, hd'⟩
      · rw [hend]
        exact ⟨hok, rfl⟩
      · have hle := at_le hat
        have hstored : HeadersOk d'.data.headers := by
          rw [hd']
          exact hok.assign hl
        obtain ⟨hlast, hdata⟩ := ih (r.1 - q) (by omega) hs hat hstored rfl
        refine ⟨hlast, ?_⟩
        rw [hdata, hd']
    · obtain rfl := List.mem_singleton.mp hcs
      rcases h.step with ⟨-, hr⟩ | ⟨c, w, -, herr, hafter⟩
      · rw [hr] at hfin
        exact absurd hfin (show ¬(17 : ℕ) = firstFinal by decide)
      · rw [machine_next] at herr hafter
        rcases parts.lineEnd.next (decide_eq_true rfl) herr with ⟨hacts, hstate⟩ | hrow
        · rw [only, decide_eq_true_iff] at hstate
          have hnext : next relaxed 17 c = (13, []) := by rw [← hstate, ← hacts]
          rw [hnext] at hafter
          obtain ⟨d', hd', hat⟩ := after_go hafter rfl
          obtain rfl := Flow.go.inj hd'
          have hle := at_le hat
          exact ih (r.1 - (p + 1)) (by omega) (by decide) hat hok rfl
        · cases hrow

end

/-! ## The head -/

/-- what is known of a request that the parser has accepted -/
structure Accepted (relaxed : Bool) (r : HttpRequest) : Prop where
  method : ∃ e ∈ httpMethodMap, e.1 ≠ .MSEARCH ∧ r.method = e.1
  version : r.version = 0x10 ∨ r.version = 0x11
  path : PathText relaxed r.path
  query : UriText (queryChar relaxed) r.query
  fragment : UriText (queryChar relaxed) r.fragment
  headers : HeadersOk r.headers
  rest : r.websocket = false ∧ r.body = [] ∧ r.close = true

/-- **What a scan of a head has stored.** -/
theorem head_stage {relaxed : Bool} {buffer text z : Bytes} {r : ℕ × ℕ × HttpRequestParser} {queryStart : ℕ}
    (hbuffer : buffer = text ++ z)
    (h : At (machine relaxed) (act buffer) text r start 0 (.new queryStart relaxed)) (hfin : r.2.1 = firstFinal)
    (hzero : r.2.2.error = 0) : Accepted relaxed r.2.2.data := by
  obtain ⟨s, hs, p₁, d₁, h₁, e, he, hne, hd₁⟩ := method_stage hbuffer h hfin hzero
  obtain rfl := List.mem_singleton.mp hs
  obtain ⟨s, hs, p₂, d₂, h₂, htarget⟩ := target_stage hbuffer h₁ hfin (by rw [hd₁]) (by rw [hd₁])
  obtain rfl := List.mem_singleton.mp hs
  obtain ⟨s, hs, p₃, d₃, h₃, v, hv, hd₃⟩ := version_stage h₂ hfin
  have hd₂ := htarget.rest
  rw [hd₁] at hd₂
  have hnone : HeadersOk d₃.data.headers := by
    rw [hd₃, hd₂]
    exact ⟨List.Pairwise.nil, by simp⟩
  obtain ⟨hheaders, hlast⟩ := lines_stage hbuffer hfin hs h₃ hnone
  have hversion : d₂.data.version = 0x11 := by rw [hd₂]
  rw [hd₃] at hlast
  refine ⟨⟨e, he, hne, ?_⟩, ?_, ?_, ?_, ?_, hheaders, ?_⟩
  · rw [hlast, hd₂]
  · rw [hlast]
    rcases hv with rfl | rfl | rfl
    · exact .inl rfl
    · exact .inr rfl
    · exact .inr hversion
  · rw [hlast]
    exact htarget.path
  · rw [hlast]
    exact htarget.query
  · rw [hlast]
    exact htarget.fragment
  · rw [hlast, hd₂]
    exact ⟨rfl, rfl, rfl⟩

/-- the scan that a call has made -/
theorem scan_of_execute {queryStart : ℕ} {relaxed : Bool} {buffer : Bytes} {len n : ℕ} {d : HttpRequestParser}
    (h : httpParserExecute (.new queryStart relaxed) buffer len = .ok (d, n)) (hlen : len ≠ 0) :
    ∃ d', exec (machine relaxed) (act buffer) (buffer.take len) 0 start (.new queryStart relaxed) = .ok (n, d.parser.cs, d') ∧
      d.data = d'.data ∧ d.error = d'.error := by
  rw [httpParserExecute, if_neg hlen] at h
  have hcs : (HttpRequestParser.new queryStart relaxed).parser.cs ≠ error := by
    show start ≠ error
    decide
  simp only [hcs, if_false] at h
  cases hx : exec (machine relaxed) (act buffer) (buffer.take len) 0 start (.new queryStart relaxed) with
  | error e =>
    have hx' : exec (machine (HttpRequestParser.new queryStart relaxed).parser.uriRelaxed) (act buffer) (buffer.take len) 0
      (HttpRequestParser.new queryStart relaxed).parser.cs (.new queryStart relaxed) = .error e := hx
    rw [hx'] at h
    cases h
  | ok t =>
    obtain ⟨p, cs, d'⟩ := t
    have hx' : exec (machine (HttpRequestParser.new queryStart relaxed).parser.uriRelaxed) (act buffer) (buffer.take len) 0
      (HttpRequestParser.new queryStart relaxed).parser.cs (.new queryStart relaxed) = .ok (p, cs, d') := hx
    rw [hx'] at h
    have hframe := exec_frame (act_frame buffer) hx
    simp only [HttpRequestParser.frame, Prod.mk.injEq] at hframe
    obtain ⟨hf1, hf2, -⟩ := hframe
    have hnread : d'.parser.nread = 0 := hf2
    have hcs' : d'.parser.cs ≠ error := by
      rw [hf1]
      exact hcs
    simp only [hcs', if_false, hnread, Nat.zero_add] at h
    split_ifs at h with hassert
    obtain ⟨hd, hn⟩ := Prod.mk.inj (Except.ok.inj h)
    rw [← hd, ← hn]
    exact ⟨d', rfl, rfl, rfl⟩

/-- **What is accepted.** For all bytes, in any memory: a request whose head the parser has gone through without an
error is one of the grammar, up to the names of its headers. -/
theorem received {queryStart : ℕ} {relaxed : Bool} {buffer : Bytes} {len n : ℕ} {d : HttpRequestParser}
    (h : httpParserExecute (.new queryStart relaxed) buffer len = .ok (d, n)) (herror : d.hasError = false)
    (hhead : d.parser.cs = firstFinal) : Accepted relaxed d.data := by
  have hlen : len ≠ 0 := by
    rintro rfl
    rw [httpParserExecute, if_pos rfl] at h
    rw [← (Prod.mk.inj (Except.ok.inj h)).1] at hhead
    exact absurd hhead (show ¬start = firstFinal by decide)
  obtain ⟨d', hx, hdata, herr⟩ := scan_of_execute h hlen
  rw [hhead] at hx
  rw [hdata]
  refine head_stage (r := (n, firstFinal, d')) (List.take_append_drop len buffer).symm ⟨hx, ?_⟩ rfl ?_
  · show firstFinal ≠ error
    decide
  · rw [HttpRequestParser.hasError, decide_eq_false_iff_not, not_or, not_not] at herror
    rw [← herror.1, herr]

/-- a head with a line without a colon -/
def foldedHead : Bytes := ascii "GET /x HTTP/1.0\r\nfoo\r\nbar: 1\r\n\r\n"

def foldedParser : HttpRequestParser where
  parser := { HttpParser.init 0 false with
    cs := firstFinal, bodyStart := 32, nread := 32, mark := 27, fieldStart := 30, fieldLen := 8 }
  data := { version := 0x10, path := ascii "/x", headers := [(ascii "foo\r\nbar", ascii "1")] }
  error := 0

theorem folded_read : httpParserExecute (.new 0 false) foldedHead foldedHead.length = .ok (foldedParser, 32) := by
  decide +kernel

theorem received_folded : Accepted false foldedParser.data := received folded_read (by decide) rfl

end Sylar.Http.Received
