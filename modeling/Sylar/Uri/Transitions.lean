/-
`Uri::Create` byte by byte: every transition keeps `Reads`.

`Goes` is what one transition has to give; there is one lemma for each region, and one for each way out of a part
(`goes_toPath`, `goes_toQuery`, `goes_toFragment`). `reads_next` puts them together, and `create_parts` is the whole
run: an accepted text is that of parts, and the fields are `extract` of them.
-/
import Mathlib.Tactic
import Sylar.Core.Scan
import Sylar.Core.Text
import Sylar.Uri.Machine
import Sylar.Uri.Parts
import Sylar.Uri.Reading

namespace Sylar.Uri

open Sylar.Core Sylar.Core.Scan Sylar.Http

/-! ## Reading on -/

section Move

variable {ok : UInt8 → Bool} {st st' : State} {acts acts' : List Action} {c : UInt8}

theorem orElse_some {a b : Option Move} {m : Move} (h : (a <|> b) = some m) : a = some m ∨ (a = none ∧ b = some m) := by
  cases a with
  | none => exact Or.inr ⟨rfl, h⟩
  | some x => exact Or.inl h

theorem one_some (h : one ok st acts c = some (st', acts')) : ok c = true ∧ st' = st ∧ acts' = acts := by
  unfold one at h
  split_ifs at h with hc
  simp only [Option.some.injEq, Prod.mk.injEq] at h
  exact ⟨hc, h.1.symm, h.2.symm⟩

theorem take_some (h : take ok st acts c = some (st', acts')) :
    (ok c = true ∨ c = byte '%') ∧ (∃ k, st' = { st with pct := k }) ∧ acts' = acts := by
  unfold take at h
  split_ifs at h with hc
  · simp only [Option.some.injEq, Prod.mk.injEq] at h
    exact ⟨Or.inr hc, ⟨2, h.1.symm⟩, h.2.symm⟩
  · obtain ⟨hok, hst, hacts⟩ := one_some h
    exact ⟨Or.inl hok, ⟨st.pct, hst⟩, hacts⟩

end Move

/-- the regions an escape is in, and the bytes that stay in them -/
def Region.Grows (c : UInt8) : Region → Prop
  | .segment => c ≠ byte ':' ∧ c ≠ byte '/' ∧ c ≠ byte '?' ∧ c ≠ byte '#'
  | .path => c ≠ byte '?' ∧ c ≠ byte '#'
  | .userOrHost _ => NameOk [c]
  | .regName _ => NameOk [c]
  | .user => UserOk [c]
  | .pathAbempty => c ≠ byte '?' ∧ c ≠ byte '#'
  | .query => c ≠ byte '#'
  | .fragment => True
  | _ => False

theorem UserOk.append {x y : Bytes} (hx : UserOk x) (hy : UserOk y) : UserOk (x ++ y) := by
  intro c hc
  rcases List.mem_append.mp hc with hc | hc
  · exact hx c hc
  · exact hy c hc

theorem NameOk.append {x y : Bytes} (hx : NameOk x) (hy : NameOk y) : NameOk (x ++ y) := by
  refine ⟨hx.1.append hy.1, ?_⟩
  intro c hc
  rcases List.mem_append.mp hc with hc | hc
  · exact hx.2 c hc
  · exact hy.2 c hc

theorem AtHost.snoc {sch who : Option Bytes} {old h text : Bytes} {d : Data} (hat : AtHost sch who old h text d)
    (c : UInt8) :
    AtHost sch who old (h ++ [c]) (text ++ [c]) d := by
  obtain ⟨rfl, rfl⟩ := hat
  exact ⟨by rw [List.append_assoc], rfl⟩

theorem text_snoc {p : Parts} (hq : p.query = none) (hf : p.fragment = none) (c : UInt8) :
    p.text ++ [c] = ({ p with path := p.path ++ [c] } : Parts).text := by
  simp [Parts.text, hq, hf, after]

theorem OpenPath.snoc {p : Parts} (h : OpenPath p) {c : UInt8} (hc : c ≠ byte '?' ∧ c ≠ byte '#') :
    OpenPath { p with path := p.path ++ [c] } := by
  refine ⟨h.scheme, h.authority, h.digits, ?_, ?_, ?_, ?_, h.query, h.fragment⟩
  · intro x hx
    rcases List.mem_append.mp hx with hx | hx
    · exact h.free x hx
    · rw [List.mem_singleton.mp hx]
      exact hc
  · intro ha
    obtain ⟨t, ht⟩ := List.head?_eq_some_iff.mp (h.rooted ha)
    show (p.path ++ [c]).head? = _
    rw [ht]
    rfl
  · intro ha
    obtain ⟨hne, hone, hdouble⟩ := h.single ha
    show p.path ++ [c] ≠ [] ∧ p.path ++ [c] ≠ [byte '/'] ∧ ¬ ascii "//" <+: p.path ++ [c]
    -- what is there already has one byte that is no slash, or two that are not both
    rcases hpath : p.path with _ | ⟨x, _ | ⟨y, t⟩⟩
    · exact absurd hpath hne
    · have hx : x ≠ byte '/' := fun heq => hone (by rw [hpath, heq])
      refine ⟨by simp, by simp, ?_⟩
      intro hpre
      exact hx (List.cons_prefix_cons.mp hpre).1.symm
    · refine ⟨by simp, by simp, ?_⟩
      intro hpre
      apply hdouble
      rw [hpath]
      obtain ⟨hx, hpre⟩ := List.cons_prefix_cons.mp hpre
      obtain ⟨hy, -⟩ := List.cons_prefix_cons.mp hpre
      exact List.cons_prefix_cons.mpr ⟨hx, List.cons_prefix_cons.mpr ⟨hy, List.nil_prefix⟩⟩
  · intro hs ha
    obtain ⟨hin, hcolon⟩ := h.relative hs ha
    refine ⟨List.mem_append_left _ hin, ?_⟩
    show byte ':' ∉ (p.path ++ [c]).takeWhile (· ≠ byte '/')
    have hshort : ((p.path.takeWhile (· ≠ byte '/')).length = p.path.length) = False := by
      rw [eq_iff_iff, iff_false]
      intro hlen
      have hall := (List.takeWhile_prefix _).eq_of_length hlen
      rw [← hall] at hin
      exact absurd (List.mem_takeWhile_imp hin) (by simp)
    rw [List.takeWhile_append, if_neg (by rw [hshort]; exact id)]
    exact hcolon

theorem reads_grow {text : Bytes} {st : State} {d : Data} (h : Reads text st d) {c : UInt8} (hc : st.region.Grows c)
    (k : ℕ) : Reads (text ++ [c]) { st with pct := k } d := by
  obtain ⟨r, given, pct⟩ := st
  cases r with
  | segment =>
    obtain ⟨hgiven, hne, hchars, huri⟩ := h
    refine ⟨hgiven, by simp, ?_, huri⟩
    intro x hx
    rcases List.mem_append.mp hx with hx | hx
    · exact hchars x hx
    · rw [List.mem_singleton.mp hx]
      exact hc
  | path =>
    obtain ⟨p, hopen, hgiven, hboth, rfl, huri⟩ := h
    refine ⟨{ p with path := p.path ++ [c] }, hopen.snoc hc, hgiven, hboth, text_snoc hopen.query hopen.fragment c, ?_⟩
    rw [huri]
    simp only [extract, if_neg hboth]
  | userOrHost t =>
    obtain ⟨sch, h, hf, hh, hat⟩ := h
    exact ⟨sch, h ++ [c], hf, hh.append hc, hat.snoc c⟩
  | regName t =>
    obtain ⟨sch, who, old, h, hf, hh, hat⟩ := h
    exact ⟨sch, who, old, h ++ [c], hf, hh.append hc, hat.snoc c⟩
  | user =>
    obtain ⟨sch, h, b, x, old, hf, hh, hx, rfl, hd⟩ := h
    refine ⟨sch, h, b, x ++ [c], old, hf, hh, ?_, by simp, hd⟩
    rw [← List.cons_append]
    exact hx.append hc
  | pathAbempty =>
    obtain ⟨p, hgood, hsch, ha, hq, hf, hgiven, hhead, rfl, huri, hmark⟩ := h
    obtain ⟨t, ht⟩ := List.head?_eq_some_iff.mp hhead
    have hhead' : (p.path ++ [c]).head? = some (byte '/') := by
      rw [ht]
      rfl
    refine ⟨{ p with path := p.path ++ [c] }, ⟨⟨hgood.scheme, hgood.authority, ?_, fun _ => Or.inr hhead', ?_, ?_,
      hgood.query⟩, hgood.digits⟩, hsch, ha, hq, hf, hgiven, hhead', text_snoc hq hf c, huri, hmark⟩
    · intro x hx
      rcases List.mem_append.mp hx with hx | hx
      · exact hgood.path x hx
      · rw [List.mem_singleton.mp hx]
        exact hc
    · intro hnone
      have hnone : p.authority = none := hnone
      rw [hnone] at ha
      cases ha
    · intro hnone
      have hnone : p.scheme = none := hnone
      rw [hnone] at hsch
      cases hsch
  | query =>
    obtain ⟨p, x, hgood, hq, hf, hx, rfl, hd⟩ := h
    refine ⟨p, x ++ [c], hgood, hq, hf, ?_, by simp, hd⟩
    intro hin
    rcases List.mem_append.mp hin with hin | hin
    · exact hx hin
    · exact hc (List.mem_singleton.mp hin).symm
  | fragment =>
    obtain ⟨p, x, hgood, hf, rfl, hd⟩ := h
    exact ⟨p, x ++ [c], hgood, hf, by simp, hd⟩
  | _ => exact absurd hc id

/-! ## Bytes that stay in their part -/

theorem pcharNc_free {c : UInt8} (hc : pcharNc c = true ∨ c = byte '%') :
    c ≠ byte ':' ∧ c ≠ byte '/' ∧ c ≠ byte '?' ∧ c ≠ byte '#' := by
  rcases hc with hc | rfl
  · exact ⟨ne_of_class hc (by decide), ne_of_class hc (by decide), ne_of_class hc (by decide), ne_of_class hc (by decide)⟩
  · decide

theorem pchar_free {c : UInt8} (hc : pchar c = true ∨ c = byte '%') : c ≠ byte '/' ∧ c ≠ byte '?' ∧ c ≠ byte '#' := by
  rcases hc with hc | rfl
  · exact ⟨ne_of_class hc (by decide), ne_of_class hc (by decide), ne_of_class hc (by decide)⟩
  · decide

theorem nameOk_single (ok : UInt8 → Bool) {c : UInt8} (hc : ok c = true)
    (hok : ∀ b ∈ ascii "@/?#:[", ok b = false) : NameOk [c] := by
  have hne : ∀ b ∈ ascii "@/?#:[", c ≠ b := fun b hb => ne_of_class hc (hok b hb)
  constructor
  · intro x hx
    rw [List.mem_singleton.mp hx]
    exact ⟨hne _ (by decide), hne _ (by decide), hne _ (by decide), hne _ (by decide)⟩
  · intro x hx
    rw [List.mem_singleton.mp hx]
    exact ⟨hne _ (by decide), hne _ (by decide)⟩

theorem regChar_nameOk {c : UInt8} (hc : regChar c = true ∨ c = byte '%') : NameOk [c] := by
  rcases hc with hc | rfl
  · exact nameOk_single regChar hc (by decide)
  · exact nameOk_single (fun c => c = byte '%') (by decide) (by decide)

theorem userChar_userOk {c : UInt8} (hc : userChar c = true ∨ c = byte '%') : UserOk [c] := by
  intro x hx
  rw [List.mem_singleton.mp hx]
  rcases hc with hc | rfl
  · exact ⟨ne_of_class hc (by decide), ne_of_class hc (by decide), ne_of_class hc (by decide), ne_of_class hc (by decide)⟩
  · decide

/-- the regions an escape can be in -/
def Region.escapes : Region → Bool
  | .segment => true
  | .path => true
  | .userOrHost _ => true
  | .regName _ => true
  | .user => true
  | .pathAbempty => true
  | .query => true
  | .fragment => true
  | _ => false

theorem grows_xdigit {r : Region} (hr : r.escapes = true) {c : UInt8} (hc : xdigit c = true) : r.Grows c := by
  have hname : NameOk [c] := nameOk_single xdigit hc (by decide)
  have hfree := hname.1 c (List.mem_singleton_self c)
  cases r with
  | segment => exact ⟨(hname.2 c (List.mem_singleton_self c)).1, hfree.2⟩
  | path => exact hfree.2.2
  | userOrHost t => exact hname
  | regName t => exact hname
  | user => exact hname.1
  | pathAbempty => exact hfree.2.2
  | query => exact hfree.2.2.2
  | fragment => trivial
  | _ => cases hr

/-- what a transition has to give -/
def Goes (s text : Bytes) (c : UInt8) (d : Data) (m : Option Move) : Prop :=
  ∀ st' acts d', m = some (st', acts) → perform (fun i => act s i text.length) acts d = .go d' →
    Reads (text ++ [c]) st' d' ∧ (st'.pct ≠ 0 → st'.region.escapes = true)

theorem Goes.orElse {s text : Bytes} {c : UInt8} {d : Data} {a b : Option Move} (ha : Goes s text c d a)
    (hb : a = none → Goes s text c d b) : Goes s text c d (a <|> b) := by
  intro st' acts d' hm hp
  rcases orElse_some hm with hm | ⟨hnone, hm⟩
  · exact ha st' acts d' hm hp
  · exact hb hnone st' acts d' hm hp

theorem Goes.none (s text : Bytes) (c : UInt8) (d : Data) : Goes s text c d none := by
  intro st' acts d' hm
  cases hm

theorem Goes.one {s text : Bytes} {c : UInt8} {d : Data} {ok : UInt8 → Bool} {st : State} {acts : List Action}
    (hpct : st.pct = 0)
    (h : ok c = true → ∀ d', perform (fun i => act s i text.length) acts d = .go d' → Reads (text ++ [c]) st d') :
    Goes s text c d (one ok st acts c) := by
  intro st' acts' d' hm hp
  obtain ⟨hc, rfl, rfl⟩ := one_some hm
  exact ⟨h hc d' hp, fun hne => absurd hpct hne⟩

theorem Goes.on {s text : Bytes} {c : UInt8} {d : Data} {b : Char} {st : State} {acts : List Action} (hpct : st.pct = 0)
    (h : c = byte b → ∀ d', perform (fun i => act s i text.length) acts d = .go d' → Reads (text ++ [c]) st d') :
    Goes s text c d (on b st acts c) :=
  Goes.one hpct fun hc => h (decide_eq_true_eq.mp hc)

/-- `Reads` does not look at the escape -/
theorem Reads.pct {text : Bytes} {st : State} {d : Data} (h : Reads text st d) (k : ℕ) :
    Reads text { st with pct := k } d := h

theorem Goes.take {s text : Bytes} {c : UInt8} {d : Data} {ok : UInt8 → Bool} {st : State} {acts : List Action}
    (hesc : st.region.escapes = true) (h : ok c = true ∨ c = byte '%' → ∀ d',
      perform (fun i => act s i text.length) acts d = .go d' → Reads (text ++ [c]) st d') :
    Goes s text c d (take ok st acts c) := by
  intro st' acts' d' hm hp
  obtain ⟨hc, ⟨k, rfl⟩, rfl⟩ := take_some hm
  exact ⟨(h hc d' hp).pct k, fun _ => hesc⟩

/-! ## Every transition -/

section Own

variable {s text rest : Bytes} {c : UInt8} {d : Data} {given : Bool} {pct : ℕ}

/-- a relative path gets its first slash -/
theorem openPath_segment (hne : text ≠ [])
    (hfree : ∀ c ∈ text, c ≠ byte ':' ∧ c ≠ byte '/' ∧ c ≠ byte '?' ∧ c ≠ byte '#') :
    OpenPath ⟨none, none, text ++ [byte '/'], none, none⟩ := by
  have hslash : byte '/' ∉ text := fun hin => (hfree _ hin).2.1 rfl
  refine ⟨by simp [SchemeOk], by simp, by simp, ?_, by simp, ?_, ?_, rfl, rfl⟩
  · intro x hx
    rcases List.mem_append.mp hx with hx | hx
    · exact (hfree x hx).2.2
    · rw [List.mem_singleton.mp hx]
      decide
  · intro _
    obtain ⟨x, t, rfl⟩ := List.exists_cons_of_ne_nil hne
    refine ⟨by simp, by simp, ?_⟩
    intro hpre
    exact (hfree x List.mem_cons_self).2.1 (List.cons_prefix_cons.mp hpre).1.symm
  · intro _ _
    refine ⟨by simp, ?_⟩
    show byte ':' ∉ (text ++ [byte '/']).takeWhile (· ≠ byte '/')
    rw [takeWhile_ne_append hslash]
    simpa using fun hin => (hfree _ hin).1 rfl

theorem reads_segment_slash (hne : text ≠ [])
    (hfree : ∀ c ∈ text, c ≠ byte ':' ∧ c ≠ byte '/' ∧ c ≠ byte '?' ∧ c ≠ byte '#') (hgiven : given = false)
    (huri : d.uri = {}) (k : ℕ) : Reads (text ++ [byte '/']) ⟨.path, given, k⟩ d := by
  refine ⟨_, openPath_segment hne hfree, by simpa using hgiven, by simp, ?_, ?_⟩
  · simp [Parts.text, before, after, authorityText]
  · rw [huri]
    simp [extract]

theorem goes_start (h : Reads text ⟨.start, given, pct⟩ d) : Goes s text c d (Region.own given c .start) := by
  obtain ⟨rfl, hgiven, huri⟩ := h
  refine (Goes.one rfl ?_).orElse fun _ => (Goes.on rfl ?_).orElse fun _ => Goes.take rfl ?_
  · intro hc d' hp
    simp only [perform, act, Flow.go.injEq] at hp
    refine ⟨hgiven, by simp, ?_, ?_⟩
    · intro x hx
      rw [List.mem_singleton.mp hx]
      simp [schemeChar, hc]
    · rw [← hp, huri]
      rfl
  · intro hc d' hp
    rw [← Flow.go.inj hp, hc]
    exact ⟨none, by simp [SchemeOk], by simpa using hgiven, by simp [before], by simpa using huri⟩
  · intro hc d' hp
    rw [← Flow.go.inj hp]
    refine ⟨hgiven, by simp, ?_, huri⟩
    intro x hx
    rw [List.mem_singleton.mp hx]
    exact pcharNc_free hc

theorem goes_scheme (h : Reads text ⟨.scheme, given, pct⟩ d) (hs : s = text ++ c :: rest) :
    Goes s text c d (Region.own given c .scheme) := by
  obtain ⟨hgiven, hne, hchars, rfl⟩ := h
  have hfree : ∀ c ∈ text, c ≠ byte ':' ∧ c ≠ byte '/' ∧ c ≠ byte '?' ∧ c ≠ byte '#' :=
    fun c hc => schemeChar_free (hchars c hc)
  refine (Goes.one rfl ?_).orElse fun _ => (Goes.on rfl ?_).orElse fun _ => (Goes.on rfl ?_).orElse fun _ =>
    Goes.take rfl ?_
  · intro hc d' hp
    refine ⟨hgiven, by simp, ?_, (Flow.go.inj hp).symm⟩
    intro x hx
    rcases List.mem_append.mp hx with hx | hx
    · exact hchars x hx
    · rw [List.mem_singleton.mp hx]
      exact hc
  · intro hc d' hp
    have hslice : slice s 0 text.length = text := by
      rw [hs]
      exact slice_append [] text _
    simp only [perform, act, Data.save, hslice, Flow.go.injEq] at hp
    refine ⟨rfl, text, ?_, by rw [hc], by rw [← hp]⟩
    intro x hx
    obtain rfl := Option.some.inj hx
    exact ⟨hne, hfree⟩
  · intro hc d' hp
    rw [← Flow.go.inj hp, hc]
    exact reads_segment_slash hne hfree hgiven rfl 0
  · intro hc d' hp
    rw [← Flow.go.inj hp]
    have hsegment : Reads text ⟨.segment, given, 0⟩ ⟨{}, some 0⟩ := ⟨hgiven, hne, hfree, rfl⟩
    exact reads_grow hsegment (pcharNc_free hc) 0

theorem goes_segment (h : Reads text ⟨.segment, given, pct⟩ d) : Goes s text c d (Region.own given c .segment) := by
  refine (Goes.on rfl ?_).orElse fun _ => Goes.take rfl ?_
  · intro hc d' hp
    obtain ⟨hgiven, hne, hfree, huri⟩ := h
    rw [← Flow.go.inj hp, hc]
    exact reads_segment_slash hne hfree hgiven huri 0
  · intro hc d' hp
    rw [← Flow.go.inj hp]
    exact reads_grow h (pcharNc_free hc) 0

/-- the first bytes of a path that is not behind an authority -/
theorem reads_firstPath {sch : Option Bytes} {lead : Bytes} (hsch : SchemeOk sch) (hgiven : given = sch.isSome)
    (hc : c ≠ byte '/' ∧ c ≠ byte '?' ∧ c ≠ byte '#') (hlead : lead = [byte '/'] ∨ (lead = [] ∧ sch.isSome))
    (htext : text = before (byte ':') sch ++ lead) (huri : d.uri = { scheme := sch.getD [] }) :
    Reads (text ++ [c]) ⟨.path, given, 0⟩ d := by
  refine ⟨⟨sch, none, lead ++ [c], none, none⟩, ⟨hsch, by simp, by simp, ?_, by simp, ?_, ?_, rfl, rfl⟩, hgiven,
    by simp, ?_, ?_⟩
  · intro x hx
    rcases List.mem_append.mp hx with hx | hx
    · rcases hlead with rfl | ⟨rfl, -⟩
      · rw [List.mem_singleton.mp hx]
        decide
      · cases hx
    · rw [List.mem_singleton.mp hx]
      exact hc.2
  · intro _
    rcases hlead with rfl | ⟨rfl, -⟩
    · refine ⟨by simp, by simp, ?_⟩
      intro hpre
      have hpre := (List.cons_prefix_cons.mp hpre).2
      exact hc.1 (List.cons_prefix_cons.mp hpre).1.symm
    · refine ⟨by simp, by simpa using hc.1, ?_⟩
      intro hpre
      exact hc.1 (List.cons_prefix_cons.mp hpre).1.symm
  · intro hnone _
    rcases hlead with rfl | ⟨-, hsome⟩
    · refine ⟨by simp, ?_⟩
      show byte ':' ∉ (byte '/' :: [c]).takeWhile (· ≠ byte '/')
      simp
    · have hnone : sch = none := hnone
      rw [hnone] at hsome
      cases hsome
  · rw [htext]
    simp [Parts.text, after, authorityText]
  · rw [huri]
    simp [extract]

theorem goes_hier (h : Reads text ⟨.hier, given, pct⟩ d) : Goes s text c d (Region.own given c .hier) := by
  obtain ⟨hgiven, x, hx, htext, huri⟩ := h
  have hgiven : given = true := hgiven
  refine (Goes.on rfl ?_).orElse fun _ => Goes.take rfl ?_
  · intro hc d' hp
    rw [← Flow.go.inj hp, hc, htext]
    exact ⟨some x, hx, hgiven, rfl, huri⟩
  · intro hc d' hp
    rw [← Flow.go.inj hp]
    exact reads_firstPath hx hgiven (pchar_free hc) (Or.inr ⟨rfl, rfl⟩) (by simpa [before] using htext) huri

theorem goes_slash (h : Reads text ⟨.slash, given, pct⟩ d) : Goes s text c d (Region.own given c .slash) := by
  obtain ⟨sch, hsch, hgiven, htext, huri⟩ := h
  refine (Goes.on rfl ?_).orElse fun _ => Goes.take rfl ?_
  · intro hc d' hp
    rw [← Flow.go.inj hp, hc, htext]
    refine ⟨sch, ⟨hsch, hgiven, by simp⟩, ?_, ?_⟩
    · have hdouble : ascii "//" = [byte '/'] ++ [byte '/'] := by decide
      rw [frontText, hdouble]
      simp [before]
    · rw [huri]
      simp [frontUri]
  · intro hc d' hp
    rw [← Flow.go.inj hp]
    exact reads_firstPath hsch hgiven (pchar_free hc) (Or.inl rfl) htext huri

theorem goes_path (h : Reads text ⟨.path, given, pct⟩ d) : Goes s text c d (Region.own given c .path) := by
  refine (Goes.on rfl ?_).orElse fun _ => Goes.take rfl ?_
  · intro hc d' hp
    rw [← Flow.go.inj hp]
    refine reads_grow h ?_ 0
    rw [hc]
    exact ⟨by decide, by decide⟩
  · intro hc d' hp
    rw [← Flow.go.inj hp]
    exact reads_grow h (pchar_free hc).2 0

theorem savedUserinfo_name {h : Bytes} (hh : NameOk h) : savedUserinfo h = h := by
  have hcolon : byte ':' ∉ h := fun hin => (hh.2 _ hin).1 rfl
  rw [savedUserinfo, cut_of_not_mem hcolon]

theorem savedUserinfo_colon {h : Bytes} (hh : NameOk h) (t : Bytes) :
    savedUserinfo (h ++ byte ':' :: t) = if t.head?.any digit then t else h ++ byte ':' :: t := by
  have hcolon : byte ':' ∉ h := fun hin => (hh.2 _ hin).1 rfl
  have hcut : cut (byte ':') (h ++ byte ':' :: t) = (h, some t) := cut_after hcolon (some t)
  rw [savedUserinfo, hcut]

/-- a user has ended and what was marked is saved -/
theorem reads_host0 {sch : Option Bytes} {x front rest' old : Bytes} {d' : Data} (hf : Front sch none given)
    (hx : UserOk x)
    (htext : text = frontText sch none ++ x) (hs : s = text ++ rest) (hfront : text = front ++ rest')
    (hsaved : rest' = savedUserinfo x) (huri : d.uri = frontUri sch none old) (hmark : d.mark = some front.length)
    (hp : perform (fun i => act s i text.length) [.saveUserinfo] d = .go d') :
    Reads (text ++ [byte '@']) ⟨.host0, given, 0⟩ d' := by
  have hslice : slice s front.length text.length = rest' := by
    rw [hs, hfront, slice_append]
  simp only [perform, act, hmark, hslice, Flow.go.injEq] at hp
  refine ⟨sch, x, old, ⟨hf.scheme, hf.isSome, ?_⟩, ?_, ?_⟩
  · intro y hy
    obtain rfl := Option.some.inj hy
    exact hx
  · rw [htext]
    simp [frontText, before]
  · rw [← hp, huri, hsaved]
    simp [frontUri]

/-- a host has ended at a colon -/
theorem saved_host {sch who : Option Bytes} {old h : Bytes} {d' : Data} (hat : AtHost sch who old h text d)
    (hs : s = text ++ rest) (hp : perform (fun i => act s i text.length) [.saveHost] d = .go d') :
    d' = ⟨frontUri sch who h, some (frontText sch who).length⟩ := by
  obtain ⟨rfl, rfl⟩ := hat
  have hslice : slice s (frontText sch who).length (frontText sch who ++ h).length = h := by
    rw [hs, slice_append]
  simp only [perform, act, hslice, Flow.go.injEq] at hp
  rw [← hp]
  rfl

/-- the first byte of a host marks it -/
theorem atHost_first {sch who : Option Bytes} {old : Bytes} {d' : Data} (htext : text = frontText sch who)
    (huri : d.uri = frontUri sch who old) (c : UInt8)
    (hp : perform (fun i => act s i text.length) [.markh] d = .go d') : AtHost sch who old [c] (text ++ [c]) d' := by
  simp only [perform, act, Flow.go.injEq] at hp
  refine ⟨by rw [htext], ?_⟩
  rw [← hp, huri, htext]

theorem nameOk_two : NameOk [2] := nameOk_single (fun c => c = 2) (by decide) (by decide)

theorem nameOk_nil : NameOk [] := ⟨by simp [UserOk], by simp⟩

theorem goes_authority (h : Reads text ⟨.authority, given, pct⟩ d) (hs : s = text ++ c :: rest) :
    Goes s text c d (Region.own given c .authority) := by
  obtain ⟨sch, hf, htext, huri⟩ := h
  refine (Goes.on rfl ?_).orElse fun _ => (Goes.one rfl ?_).orElse fun _ => (Goes.on rfl ?_).orElse fun _ =>
    (Goes.on rfl ?_).orElse fun _ => Goes.take rfl ?_
  · intro hc d' hp
    rw [hc]
    exact ⟨sch, none, [], hf, by simp, atHost_first htext huri _ hp⟩
  · intro hc d' hp
    obtain rfl : c = 2 := decide_eq_true_eq.mp hc
    exact ⟨sch, none, [], [2], hf, nameOk_two, atHost_first htext huri _ hp⟩
  · -- an empty user
    intro hc d' hp
    rw [hc]
    have hempty : UserOk [] := by simp [UserOk]
    exact reads_host0 (d := ⟨d.uri, some text.length⟩) hf hempty (by simpa using htext) hs (List.append_nil _).symm rfl
      huri rfl hp
  · intro hc d' hp
    simp only [perform, act, slice_self, Flow.go.injEq] at hp
    refine ⟨sch, [], hf, nameOk_nil, by rw [htext, hc]; simp, ?_⟩
    rw [← hp, huri, htext]
    rfl
  · intro hc d' hp
    exact ⟨sch, [c], hf, regChar_nameOk hc, atHost_first htext huri _ hp⟩

theorem goes_userOrHost {t : Bytes} (h : Reads text ⟨.userOrHost t, given, pct⟩ d) (hs : s = text ++ c :: rest) :
    Goes s text c d (Region.own given c (.userOrHost t)) := by
  refine (Goes.one rfl ?_).orElse fun _ => (Goes.on rfl ?_).orElse fun _ => (Goes.on rfl ?_).orElse fun _ =>
    Goes.take rfl ?_
  · intro hc d' hp
    obtain rfl : c = 2 := decide_eq_true_eq.mp hc
    obtain ⟨sch, h, hf, hh, hat⟩ := h
    rw [← Flow.go.inj hp]
    exact ⟨sch, none, [], h ++ [2], hf, hh.append nameOk_two, hat.snoc 2⟩
  · intro hc d' hp
    rw [hc]
    obtain ⟨sch, h, hf, hh, rfl, rfl⟩ := h
    exact reads_host0 hf hh.1 rfl hs rfl (savedUserinfo_name hh).symm rfl rfl hp
  · intro hc d' hp
    obtain ⟨sch, h, hf, hh, hat⟩ := h
    refine ⟨sch, h, hf, hh, by rw [hat.1, hc], saved_host hat hs hp⟩
  · intro hc d' hp
    rw [← Flow.go.inj hp]
    exact reads_grow h (regChar_nameOk hc) 0

theorem digit_false {c : UInt8} {st : State} {acts : List Action} (h : one digit st acts c = none) :
    digit c = false := by
  unfold one at h
  split_ifs at h with hc
  simpa using hc

theorem goes_userOrPort0 (h : Reads text ⟨.userOrPort0, given, pct⟩ d) (hs : s = text ++ c :: rest) :
    Goes s text c d (Region.own given c .userOrPort0) := by
  obtain ⟨sch, h, hf, hh, rfl, rfl⟩ := h
  refine (Goes.one rfl ?_).orElse fun hnot => (Goes.on rfl ?_).orElse fun _ => Goes.take rfl ?_
  · intro hc d' hp
    simp only [perform, act, Flow.go.injEq] at hp
    refine ⟨sch, h, [c], hf, hh, by simp, ?_, by simp, hp.symm⟩
    intro x hx
    rw [List.mem_singleton.mp hx]
    exact hc
  · intro hc d' hp
    rw [hc]
    have hx : UserOk (h ++ [byte ':']) := hh.1.append (by simp [UserOk]; decide)
    exact reads_host0 hf hx (by simp) hs (List.append_assoc ..) (by simp [savedUserinfo_colon hh]) rfl rfl hp
  · intro hc d' hp
    rw [← Flow.go.inj hp]
    refine ⟨sch, h, c, [], h, hf, hh, userChar_userOk hc, by simp, ?_⟩
    rw [digit_false hnot]
    rfl

theorem goes_userOrPort (h : Reads text ⟨.userOrPort, given, pct⟩ d) (hs : s = text ++ c :: rest) :
    Goes s text c d (Region.own given c .userOrPort) := by
  obtain ⟨sch, h, x, hf, hh, hx, hdigits, rfl, rfl⟩ := h
  have hsplit : frontText sch none ++ h ++ byte ':' :: x = (frontText sch none ++ h ++ [byte ':']) ++ x := by simp
  obtain ⟨b, t, rfl⟩ := List.exists_cons_of_ne_nil hx
  have hb : digit b = true := hdigits b List.mem_cons_self
  have huser : UserOk (b :: t) := by
    intro y hy
    have hd := hdigits y hy
    exact ⟨ne_of_class hd (by decide), ne_of_class hd (by decide), ne_of_class hd (by decide),
      ne_of_class hd (by decide)⟩
  refine (Goes.one rfl ?_).orElse fun _ => (Goes.on rfl ?_).orElse fun _ => Goes.take rfl ?_
  · intro hc d' hp
    rw [← Flow.go.inj hp]
    refine ⟨sch, h, b :: t ++ [c], hf, hh, by simp, ?_, by simp, rfl⟩
    intro y hy
    rcases List.mem_append.mp hy with hy | hy
    · exact hdigits y hy
    · rw [List.mem_singleton.mp hy]
      exact hc
  · intro hc d' hp
    rw [hc]
    have hcolon : UserOk [byte ':'] := by simp [UserOk]; decide
    have hall : UserOk (h ++ byte ':' :: b :: t) := hh.1.append (hcolon.append huser)
    exact reads_host0 hf hall (by simp) hs hsplit (by simp [savedUserinfo_colon hh, hb]) rfl rfl hp
  · intro hc d' hp
    rw [← Flow.go.inj hp]
    refine ⟨sch, h, b, t ++ [c], h, hf, hh, ?_, by simp, ?_⟩
    · rw [← List.cons_append]
      exact huser.append (userChar_userOk hc)
    · rw [hb]
      rfl

theorem goes_user (h : Reads text ⟨.user, given, pct⟩ d) (hs : s = text ++ c :: rest) :
    Goes s text c d (Region.own given c .user) := by
  refine (Goes.on rfl ?_).orElse fun _ => Goes.take rfl ?_
  · intro hc d' hp
    rw [hc]
    obtain ⟨sch, h, b, x, old, hf, hh, hx, rfl, rfl⟩ := h
    have hcolon : UserOk [byte ':'] := by simp [UserOk]; decide
    have hall : UserOk (h ++ byte ':' :: b :: x) := hh.1.append (hcolon.append hx)
    by_cases hb : digit b = true
    · have hsplit : frontText sch none ++ h ++ byte ':' :: b :: x = (frontText sch none ++ h ++ [byte ':']) ++ b :: x := by
        simp
      exact reads_host0 hf hall (by simp) hs hsplit (by simp [savedUserinfo_colon hh, hb]) rfl (by rw [if_pos hb]) hp
    · exact reads_host0 hf hall (by simp) hs (List.append_assoc ..) (by simp [savedUserinfo_colon hh, hb]) rfl
        (by rw [if_neg hb]) hp
  · intro hc d' hp
    rw [← Flow.go.inj hp]
    exact reads_grow h (userChar_userOk hc) 0

theorem goes_host0 (h : Reads text ⟨.host0, given, pct⟩ d) : Goes s text c d (Region.own given c .host0) := by
  obtain ⟨sch, x, old, hf, htext, huri⟩ := h
  refine (Goes.on rfl ?_).orElse fun _ => (Goes.one rfl ?_).orElse fun _ => (Goes.on rfl ?_).orElse fun _ =>
    Goes.take rfl ?_
  · intro hc d' hp
    rw [hc]
    exact ⟨sch, some x, old, hf, by simp, atHost_first htext huri _ hp⟩
  · intro hc d' hp
    obtain rfl : c = 2 := decide_eq_true_eq.mp hc
    exact ⟨sch, some x, old, [2], hf, nameOk_two, atHost_first htext huri _ hp⟩
  · intro hc d' hp
    simp only [perform, act, slice_self, Flow.go.injEq] at hp
    refine ⟨sch, some x, [], hf, nameOk_nil.hostOk, by rw [htext, hc]; simp, ?_⟩
    rw [← hp, huri]
    rfl
  · intro hc d' hp
    exact ⟨sch, some x, old, [c], hf, regChar_nameOk hc, atHost_first htext huri _ hp⟩

/-- a host has ended and a port follows -/
theorem reads_port0 {sch who : Option Bytes} {old h : Bytes} {d' : Data} (hf : Front sch who given) (hh : HostOk h)
    (hat : AtHost sch who old h text d) (hs : s = text ++ rest)
    (hp : perform (fun i => act s i text.length) [.saveHost] d = .go d') :
    Reads (text ++ [byte ':']) ⟨.port0, given, 0⟩ d' := by
  refine ⟨sch, who, h, hf, hh, by rw [hat.1], ?_⟩
  rw [saved_host hat hs hp]

theorem goes_regName {t : Bytes} (h : Reads text ⟨.regName t, given, pct⟩ d) (hs : s = text ++ c :: rest) :
    Goes s text c d (Region.own given c (.regName t)) := by
  refine (Goes.one rfl ?_).orElse fun _ => (Goes.on rfl ?_).orElse fun _ => Goes.take rfl ?_
  · intro hc d' hp
    obtain rfl : c = 2 := decide_eq_true_eq.mp hc
    obtain ⟨sch, who, old, h, hf, hh, hat⟩ := h
    rw [← Flow.go.inj hp]
    exact ⟨sch, who, old, h ++ [2], hf, hh.append nameOk_two, hat.snoc 2⟩
  · intro hc d' hp
    rw [hc]
    obtain ⟨sch, who, old, h, hf, hh, hat⟩ := h
    exact reads_port0 hf hh.hostOk hat hs hp
  · intro hc d' hp
    rw [← Flow.go.inj hp]
    exact reads_grow h (regChar_nameOk hc) 0

theorem goes_ipv4 {t : Bytes} (h : Reads text ⟨.ipv4 t, given, pct⟩ d) (hs : s = text ++ c :: rest) :
    Goes s text c d (Region.own given c (.ipv4 t)) := by
  obtain ⟨sch, who, old, h, hf, hh, hat⟩ := h
  refine (Goes.one rfl ?_).orElse fun _ => ?_
  · intro hc d' hp
    rw [← Flow.go.inj hp]
    have hc : NameOk [c] := nameOk_single (fun c => digit c || c = 2 || c = byte '.') hc (by decide)
    exact ⟨sch, who, old, h ++ [c], hf, hh.append hc, hat.snoc c⟩
  · split_ifs
    · refine Goes.on rfl ?_
      intro hc d' hp
      rw [hc]
      exact reads_port0 hf hh.hostOk hat hs hp
    · exact Goes.none s text c d

/-- what holds of the symbols of the groups, of the colon and of a future address, holds of all symbols of addresses -/
theorem address_symbols {P : UInt8 → Prop} (hh16 : ∀ c ∈ symbols h16, P c) (hls32 : ∀ c ∈ symbols ls32, P c)
    (hcolon : ∀ c ∈ ascii ":", P c) (hfuture : ∀ c ∈ symbols ipvFuture, P c) :
    ∀ c ∈ symbols (ipv6address + ipvFuture), P c := by
  have happend : ∀ {a b : Bytes}, (∀ c ∈ a, P c) → (∀ c ∈ b, P c) → ∀ c ∈ a ++ b, P c :=
    fun ha hb => List.forall_mem_append.mpr ⟨ha, hb⟩
  have hnil : ∀ c ∈ ([] : Bytes), P c := fun c hc => absurd hc List.not_mem_nil
  have hone : ∀ c ∈ symbols (lit ":"), P c := happend hcolon hnil
  have htwo : ∀ c ∈ symbols (lit "::"), P c := happend hcolon hone
  have hgroups : ∀ n, ∀ c ∈ symbols (groups n), P c := by
    intro n
    induction n with
    | zero => exact hnil
    | succ n ih => exact happend ih (happend hh16 hone)
  have hopt : ∀ {Q}, (∀ c ∈ symbols Q, P c) → ∀ c ∈ symbols (opt Q), P c := fun h => happend hnil h
  have hleft : ∀ n, ∀ c ∈ symbols (opt (groups n * h16)), P c := fun n => hopt (happend (hgroups n) hh16)
  -- the nine forms of an address, in the order of the grammar
  refine happend ?_ hfuture
  refine happend (happend (happend (happend (happend (happend (happend (happend ?_ ?_) ?_) ?_) ?_) ?_) ?_) ?_) ?_
  · exact happend (hgroups 6) hls32
  · exact happend (happend htwo (hgroups 5)) hls32
  · exact happend (happend (happend (hopt hh16) htwo) (hgroups 4)) hls32
  · exact happend (happend (happend (hleft 1) htwo) (hgroups 3)) hls32
  · exact happend (happend (happend (hleft 2) htwo) (hgroups 2)) hls32
  · exact happend (happend (happend (hleft 3) htwo) (hgroups 1)) hls32
  · exact happend (happend (hleft 4) htwo) hls32
  · exact happend (happend (hleft 5) htwo) hh16
  · exact happend (hleft 6) htwo

/-- an address has no delimiters in it -/
theorem address_free {x : Bytes} (h : (ipv6address + ipvFuture).rmatch x = true) : UserOk x := by
  intro c hc
  exact address_symbols (P := fun c => c ≠ byte '@' ∧ c ≠ byte '/' ∧ c ≠ byte '?' ∧ c ≠ byte '#') (by decide +kernel)
    (by decide +kernel) (by decide +kernel) (by decide +kernel) c (mem_symbols h hc)

theorem goes_literal {x : Bytes} (h : Reads text ⟨.literal x, given, pct⟩ d) :
    Goes s text c d (Region.own given c (.literal x)) := by
  obtain ⟨sch, who, old, hf, hx, hat⟩ := h
  intro st' acts d' hm hp
  simp only [Region.own] at hm
  split_ifs at hm with hc hmatch
  · simp only [Option.some.injEq, Prod.mk.injEq] at hm
    obtain ⟨rfl, rfl⟩ := hm
    rw [← Flow.go.inj hp, hc]
    refine ⟨⟨sch, who, old, byte '[' :: x ++ [byte ']'], hf, ⟨?_, Or.inr ⟨x, rfl, hx⟩⟩, hat.snoc _⟩,
      fun hne => absurd rfl hne⟩
    have hopen : UserOk [byte '['] := by simp [UserOk]; decide
    have hclose : UserOk [byte ']'] := by simp [UserOk]; decide
    exact (hopen.append (address_free hmatch)).append hclose
  · simp only [Option.some.injEq, Prod.mk.injEq] at hm
    obtain ⟨rfl, rfl⟩ := hm
    rw [← Flow.go.inj hp]
    refine ⟨⟨sch, who, old, hf, ?_, hat.snoc c⟩, fun hne => absurd rfl hne⟩
    intro hin
    rcases List.mem_append.mp hin with hin | hin
    · exact hx hin
    · exact hc (List.mem_singleton.mp hin).symm

theorem goes_literalEnd (h : Reads text ⟨.literalEnd, given, pct⟩ d) (hs : s = text ++ c :: rest) :
    Goes s text c d (Region.own given c .literalEnd) := by
  obtain ⟨sch, who, old, h, hf, hh, hat⟩ := h
  refine Goes.on rfl ?_
  intro hc d' hp
  rw [hc]
  exact reads_port0 hf hh hat hs hp

theorem goes_port0 (h : Reads text ⟨.port0, given, pct⟩ d) : Goes s text c d (Region.own given c .port0) := by
  obtain ⟨sch, who, h, hf, hh, htext, huri⟩ := h
  refine Goes.one rfl ?_
  intro hc d' hp
  simp only [perform, act, Flow.go.injEq] at hp
  refine ⟨sch, who, h, [c], hf, hh, by simp, ?_, by rw [htext]; simp, ?_⟩
  · intro x hx
    rw [List.mem_singleton.mp hx]
    exact hc
  · rw [← hp, huri, htext]

theorem goes_port (h : Reads text ⟨.port, given, pct⟩ d) : Goes s text c d (Region.own given c .port) := by
  obtain ⟨sch, who, h, x, hf, hh, hx, hdigits, htext, hd⟩ := h
  refine Goes.one rfl ?_
  intro hc d' hp
  rw [← Flow.go.inj hp]
  refine ⟨sch, who, h, x ++ [c], hf, hh, by simp, ?_, by rw [htext]; simp, hd⟩
  intro y hy
  rcases List.mem_append.mp hy with hy | hy
  · exact hdigits y hy
  · rw [List.mem_singleton.mp hy]
    exact hc

theorem goes_pathAbempty (h : Reads text ⟨.pathAbempty, given, pct⟩ d) :
    Goes s text c d (Region.own given c .pathAbempty) := by
  refine (Goes.on rfl ?_).orElse fun _ => Goes.take rfl ?_
  · intro hc d' hp
    rw [← Flow.go.inj hp]
    refine reads_grow h ?_ 0
    rw [hc]
    exact ⟨by decide, by decide⟩
  · intro hc d' hp
    rw [← Flow.go.inj hp]
    exact reads_grow h (pchar_free hc).2 0

theorem queryChar_free {c : UInt8} (hc : queryChar c = true ∨ c = byte '%') : c ≠ byte '#' := by
  rcases hc with hc | rfl
  · exact ne_of_class hc (by decide)
  · decide

theorem goes_query0 (h : Reads text ⟨.query0, given, pct⟩ d) : Goes s text c d (Region.own given c .query0) := by
  obtain ⟨p, hgood, hq, hf, htext, huri⟩ := h
  refine Goes.take rfl ?_
  intro hc d' hp
  simp only [perform, act, Flow.go.injEq] at hp
  have hp' : p = { ({ p with query := none } : Parts) with query := some [] } := by rw [← hq]
  have htext' : text = ({ p with query := none } : Parts).text ++ [byte '?'] := by
    rw [htext]
    exact (congrArg Parts.text hp').trans (text_withQuery (p := { p with query := none }) rfl hf [])
  refine ⟨{ p with query := none }, [c], ⟨⟨hgood.scheme, hgood.authority, hgood.path, hgood.rooted, hgood.single,
    hgood.relative, by simp⟩, hgood.digits⟩, rfl, hf, ?_, by rw [htext']; simp, ?_⟩
  · rw [List.mem_singleton]
    exact (queryChar_free hc).symm
  · rw [← hp, huri, htext', hp']
    simp [extract]

theorem goes_query (h : Reads text ⟨.query, given, pct⟩ d) : Goes s text c d (Region.own given c .query) := by
  refine Goes.take rfl ?_
  intro hc d' hp
  rw [← Flow.go.inj hp]
  exact reads_grow h (queryChar_free hc) 0

theorem goes_fragment0 (h : Reads text ⟨.fragment0, given, pct⟩ d) :
    Goes s text c d (Region.own given c .fragment0) := by
  obtain ⟨p, hgood, hf, htext, huri⟩ := h
  refine Goes.take rfl ?_
  intro hc d' hp
  simp only [perform, act, Flow.go.injEq] at hp
  have hp' : p = { ({ p with fragment := none } : Parts) with fragment := some [] } := by rw [← hf]
  have htext' : text = ({ p with fragment := none } : Parts).text ++ [byte '#'] := by
    rw [htext]
    exact (congrArg Parts.text hp').trans (text_withFragment (p := { p with fragment := none }) rfl [])
  refine ⟨{ p with fragment := none }, [c], ⟨⟨hgood.scheme, hgood.authority, hgood.path, hgood.rooted, hgood.single,
    hgood.relative, hgood.query⟩, hgood.digits⟩, rfl, by rw [htext']; simp, ?_⟩
  rw [← hp, huri, htext', hp']
  simp [extract]

theorem goes_fragment (h : Reads text ⟨.fragment, given, pct⟩ d) : Goes s text c d (Region.own given c .fragment) := by
  refine Goes.take rfl ?_
  intro hc d' hp
  rw [← Flow.go.inj hp]
  exact reads_grow h trivial 0

theorem goes_own {r : Region} (h : Reads text ⟨r, given, pct⟩ d) (hs : s = text ++ c :: rest) :
    Goes s text c d (r.own given c) := by
  cases r with
  | error => exact absurd h id
  | start => exact goes_start h
  | scheme => exact goes_scheme h hs
  | segment => exact goes_segment h
  | hier => exact goes_hier h
  | slash => exact goes_slash h
  | path => exact goes_path h
  | authority => exact goes_authority h hs
  | userOrHost t => exact goes_userOrHost h hs
  | userOrPort0 => exact goes_userOrPort0 h hs
  | userOrPort => exact goes_userOrPort h hs
  | user => exact goes_user h hs
  | host0 => exact goes_host0 h
  | regName t => exact goes_regName h hs
  | ipv4 t => exact goes_ipv4 h hs
  | literal x => exact goes_literal h
  | literalEnd => exact goes_literalEnd h hs
  | port0 => exact goes_port0 h
  | port => exact goes_port h
  | pathAbempty => exact goes_pathAbempty h
  | query0 => exact goes_query0 h
  | query => exact goes_query h
  | fragment0 => exact goes_fragment0 h
  | fragment => exact goes_fragment h

theorem goes_toPath {r : Region} (h : Reads text ⟨r, given, pct⟩ d) (hs : s = text ++ c :: rest) :
    Goes s text c d (r.toPath given c) := by
  unfold Region.toPath
  cases hacts : r.closing with
  | none => exact Goes.none s text c d
  | some acts =>
    rw [Option.bind_some]
    -- a slash ends the digits of a port
    have hrest : c = byte '/' → ∀ x ∈ (c :: rest).head?, digit x = false := by
      rintro rfl x hx
      obtain rfl := Option.some.inj hx
      decide
    split_ifs with hgiven
    · refine Goes.on rfl ?_
      intro hc d' hp
      obtain ⟨d1, hd1, huri, hmark⟩ := perform_enter hacts hp
      obtain ⟨sch, a, hgood, hsome, htext, huri'⟩ := reads_closing h hs (hrest hc) hacts hd1
      have hsch : sch.isSome = true := hsome.symm.trans hgiven
      rw [hc]
      refine ⟨⟨sch, some a, [byte '/'], none, none⟩, ⟨⟨hgood.scheme, hgood.authority, ?_, fun _ => Or.inr rfl, ?_, ?_,
        hgood.query⟩, hgood.digits⟩, hsch, rfl, rfl, rfl, hgiven, rfl, ?_, ?_, ?_⟩
      · intro x hx
        rw [List.mem_singleton.mp hx]
        decide
      · intro hnone
        cases hnone
      · intro _ hnone
        cases hnone
      · rw [htext, text_snoc rfl rfl]
        rfl
      · rw [huri, huri']
      · intro m hm
        rw [hmark m hm, htext]
    · refine Goes.on rfl ?_
      intro hc d' hp
      obtain ⟨sch, a, hgood, hsome, htext, huri⟩ := reads_closing h hs (hrest hc) hacts hp
      have hsch : sch = none := by
        cases sch with
        | none => rfl
        | some x => exact absurd hsome hgiven
      rw [hc]
      refine ⟨⟨sch, some a, [byte '/'], none, none⟩, ⟨hgood.scheme, hgood.authority, hgood.digits, ?_, fun _ => rfl,
        ?_, ?_, rfl, rfl⟩, hsome, ?_, ?_, ?_⟩
      · intro x hx
        rw [List.mem_singleton.mp hx]
        decide
      · intro hnone
        cases hnone
      · intro _ hnone
        cases hnone
      · rw [hsch]
        simp
      · rw [htext, text_snoc rfl rfl]
        rfl
      · rw [huri, hsch]
        simp [extract]

theorem goes_toQuery {r : Region} (h : Reads text ⟨r, given, pct⟩ d) (hs : s = text ++ c :: rest) :
    Goes s text c d (r.toQuery given c) := by
  unfold Region.toQuery
  cases hacts : r.leaving given with
  | none => exact Goes.none s text c d
  | some acts =>
    rw [Option.bind_some]
    split_ifs with hstage
    · refine Goes.on rfl ?_
      intro hc d' hp
      have hrest : ∀ x ∈ (c :: rest).head?, digit x = false := by
        intro x hx
        obtain rfl := Option.some.inj hx
        rw [hc]
        decide
      obtain ⟨p, hgood, hq, hf, htext, huri⟩ := reads_leaving h hs hrest hacts hp
      have hq := hq hstage
      have hf := hf (Nat.lt_succ_of_lt hstage)
      rw [hc]
      refine ⟨{ p with query := some [] }, hgood.withQuery List.not_mem_nil, rfl, hf, ?_, ?_⟩
      · rw [htext, text_withQuery hq hf]
      · rw [huri]
        simp [extract, hq]
    · exact Goes.none s text c d

theorem goes_toFragment {r : Region} (h : Reads text ⟨r, given, pct⟩ d) (hs : s = text ++ c :: rest) :
    Goes s text c d (r.toFragment given c) := by
  unfold Region.toFragment
  cases hacts : r.leaving given with
  | none => exact Goes.none s text c d
  | some acts =>
    rw [Option.bind_some]
    split_ifs with hstage
    · refine Goes.on rfl ?_
      intro hc d' hp
      have hrest : ∀ x ∈ (c :: rest).head?, digit x = false := by
        intro x hx
        obtain rfl := Option.some.inj hx
        rw [hc]
        decide
      obtain ⟨p, hgood, -, hf, htext, huri⟩ := reads_leaving h hs hrest hacts hp
      have hf := hf hstage
      rw [hc]
      refine ⟨{ p with fragment := some [] }, hgood.withFragment [], rfl, ?_, ?_⟩
      · rw [htext, text_withFragment hf]
      · rw [huri]
        simp [extract, hf]
    · exact Goes.none s text c d

end Own

/-- what holds between two bytes -/
def Reading (text : Bytes) (st : State) (d : Data) : Prop :=
  Reads text st d ∧ (st.pct ≠ 0 → st.region.escapes = true)

/-- **One transition.** -/
theorem reads_next {s text rest : Bytes} {c : UInt8} {st : State} {d d' : Data} (hs : s = text ++ c :: rest)
    (h : Reading text st d) (herr : (st.next c).1 ≠ .error)
    (hp : perform (fun i => act s i text.length) (st.next c).2 d = .go d') : Reading (text ++ [c]) (st.next c).1 d' := by
  unfold State.next at herr hp ⊢
  split_ifs at herr hp ⊢ with hpct hdigit
  · cases hm : st.region.next st.scheme c with
    | none =>
      rw [hm] at herr
      exact absurd rfl herr
    | some m =>
      rw [hm] at hp
      have hgoes : Goes s text c d (st.region.next st.scheme c) := by
        refine (goes_own h.1 hs).orElse fun _ => (goes_toPath h.1 hs).orElse fun _ => (goes_toQuery h.1 hs).orElse fun _ => ?_
        exact goes_toFragment h.1 hs
      exact hgoes m.1 m.2 d' hm hp
  · rw [← Flow.go.inj hp]
    exact ⟨reads_grow h.1 (grows_xdigit (h.2 hpct) hdigit) _, fun _ => h.2 hpct⟩
  · exact absurd rfl herr

/-- **What is accepted is the text of parts**, and these are what the fields were filled from. -/
theorem create_parts {s : Bytes} {u : Uri} (h : create s = .ok (some u)) :
    ∃ p : Parts, p.Good ∧ p.text = s ∧ u = extract p := by
  unfold create at h
  cases hexec : exec machine (act s) s 0 .start ⟨{}, none⟩ with
  | error e =>
    rw [hexec] at h
    cases h
  | ok r =>
    obtain ⟨p, st, d⟩ := r
    rw [hexec] at h
    dsimp only at h
    have herr : st ≠ .error := by
      intro heq
      rw [if_pos heq] at h
      cases Except.ok.inj h
    rw [if_neg herr] at h
    have hstart : Reading [] .start ⟨{}, none⟩ := ⟨⟨rfl, rfl, rfl⟩, fun hne => absurd rfl hne⟩
    obtain ⟨hp, hread, -⟩ := exec_reading (R := Reading) (act_ne_fbreak s)
      (fun pre c rest cs d d' hs hR herr hp => reads_next hs hR herr hp) (List.nil_append s).symm hstart hexec herr
    obtain rfl : p = s.length := hp
    unfold atEof at h
    split at h
    · cases Except.ok.inj h
    · next acts hacts =>
      have hacts : st.region.leaving st.scheme = some acts := by
        split_ifs at hacts
        exact hacts
      split at h
      · next d' hd' =>
        obtain ⟨p, hgood, -, -, htext, huri⟩ := reads_leaving hread (List.append_nil s).symm (by simp) hacts hd'
        exact ⟨p, hgood, htext.symm, by rw [← huri]; exact (Option.some.inj (Except.ok.inj h)).symm⟩
      · next d' hd' => exact absurd hd' (perform_ne_fbreak (fun i d d' => act_ne_fbreak s i _ d d') _ _ _)
      · cases h

end Sylar.Uri
