/-
What `Uri::Create` has read and saved.

`Reads text st d` says for each region what the text read so far is made of, what is in the fields and where the mark
is. In a region where two readings are open it has both. Where a part ends (`reads_closing`, `reads_leaving`) the text
is that of parts whose fields are saved, and the fields are `extract` of these parts:
- a user with a colon and a digit behind it is saved without what stands before the digit (`savedUserinfo`): the digit
  may begin a port, and marks it;
- the path is saved behind scheme and authority only.
-/
import Mathlib.Tactic
import Sylar.Core.Scan
import Sylar.Core.Text
import Sylar.Uri.Machine
import Sylar.Uri.Parts

namespace Sylar.Uri

open Sylar.Core Sylar.Core.Scan Sylar.Http

/-- what is saved of a user -/
def savedUserinfo (x : Bytes) : Bytes :=
  match (cut (byte ':') x).2 with
  | some t => if t.head?.any digit then t else x
  | none => x

/-- the fields `Uri::Create` fills in for these parts -/
def extract (p : Parts) : Uri where
  scheme := p.scheme.getD []
  userinfo := ((p.authority.bind (·.userinfo)).map savedUserinfo).getD []
  host := (p.authority.map (·.host)).getD []
  path := if p.scheme.isSome ∧ p.authority.isSome then p.path else []
  query := p.query.getD []
  fragment := p.fragment.getD []
  port := ((p.authority.bind (·.port)).map atoi).getD 0

/-! ## Pieces of the text -/

/-- parts that can be told apart, with digits for a port -/
structure Parts.Good (p : Parts) : Prop extends p.Apart where
  digits : ∀ a ∈ p.authority, ∀ x ∈ a.port, ∀ c ∈ x, digit c = true

def SchemeOk (sch : Option Bytes) : Prop :=
  ∀ x ∈ sch, x ≠ [] ∧ ∀ c ∈ x, c ≠ byte ':' ∧ c ≠ byte '/' ∧ c ≠ byte '?' ∧ c ≠ byte '#'

/-- no delimiter of the parts behind a user -/
def UserOk (x : Bytes) : Prop := ∀ c ∈ x, c ≠ byte '@' ∧ c ≠ byte '/' ∧ c ≠ byte '?' ∧ c ≠ byte '#'

/-- a name without brackets -/
def NameOk (h : Bytes) : Prop := UserOk h ∧ ∀ c ∈ h, c ≠ byte ':' ∧ c ≠ byte '['

def HostOk (h : Bytes) : Prop := UserOk h ∧ HostShape h

/-- the text up to the host -/
def frontText (sch who : Option Bytes) : Bytes := before (byte ':') sch ++ ascii "//" ++ before (byte '@') who

/-- the fields when scheme, user and a host are saved -/
def frontUri (sch who : Option Bytes) (host : Bytes) : Uri :=
  { scheme := sch.getD [], userinfo := (who.map savedUserinfo).getD [], host := host }

/-- what has been read before the host -/
structure Front (sch who : Option Bytes) (given : Bool) : Prop where
  scheme : SchemeOk sch
  isSome : given = sch.isSome
  user : ∀ x ∈ who, UserOk x

/-- the host `h` is being read; `old` is what the field holds -/
def AtHost (sch who : Option Bytes) (old h text : Bytes) (d : Data) : Prop :=
  text = frontText sch who ++ h ∧ d = ⟨frontUri sch who old, some (frontText sch who).length⟩

/-- a path without scheme or without authority -/
structure OpenPath (p : Parts) : Prop where
  scheme : SchemeOk p.scheme
  authority : ∀ a ∈ p.authority, a.Apart
  digits : ∀ a ∈ p.authority, ∀ x ∈ a.port, ∀ c ∈ x, digit c = true
  free : ∀ c ∈ p.path, c ≠ byte '?' ∧ c ≠ byte '#'
  rooted : p.authority.isSome → p.path.head? = some (byte '/')
  single : p.authority = none → p.path ≠ [] ∧ p.path ≠ [byte '/'] ∧ ¬ ascii "//" <+: p.path
  relative : p.scheme = none → p.authority = none → byte '/' ∈ p.path ∧ byte ':' ∉ p.path.takeWhile (· ≠ byte '/')
  query : p.query = none
  fragment : p.fragment = none

def Reads (text : Bytes) (st : State) (d : Data) : Prop :=
  match st.region with
  | .error => False
  | .start => text = [] ∧ st.scheme = false ∧ d.uri = {}
  | .scheme => st.scheme = false ∧ text ≠ [] ∧ (∀ c ∈ text, schemeChar c = true) ∧ d = ⟨{}, some 0⟩
  | .segment =>
    st.scheme = false ∧ text ≠ [] ∧ (∀ c ∈ text, c ≠ byte ':' ∧ c ≠ byte '/' ∧ c ≠ byte '?' ∧ c ≠ byte '#') ∧ d.uri = {}
  | .hier => st.scheme = true ∧ ∃ x, SchemeOk (some x) ∧ text = x ++ [byte ':'] ∧ d.uri = { scheme := x }
  | .slash =>
    ∃ sch, SchemeOk sch ∧ st.scheme = sch.isSome ∧ text = before (byte ':') sch ++ [byte '/'] ∧
      d.uri = { scheme := sch.getD [] }
  | .path =>
    ∃ p, OpenPath p ∧ st.scheme = p.scheme.isSome ∧ ¬ (p.scheme.isSome ∧ p.authority.isSome) ∧ text = p.text ∧
      d.uri = extract p
  | .authority => ∃ sch, Front sch none st.scheme ∧ text = frontText sch none ∧ d.uri = frontUri sch none []
  | .userOrHost _ => ∃ sch h, Front sch none st.scheme ∧ NameOk h ∧ AtHost sch none [] h text d
  | .userOrPort0 =>
    ∃ sch h, Front sch none st.scheme ∧ NameOk h ∧ text = frontText sch none ++ h ++ [byte ':'] ∧
      d = ⟨frontUri sch none h, some (frontText sch none).length⟩
  | .userOrPort =>
    ∃ sch h x, Front sch none st.scheme ∧ NameOk h ∧ x ≠ [] ∧ (∀ c ∈ x, digit c = true) ∧
      text = frontText sch none ++ h ++ byte ':' :: x ∧
      d = ⟨frontUri sch none h, some (frontText sch none ++ h ++ [byte ':']).length⟩
  | .user =>
    ∃ sch h c x old, Front sch none st.scheme ∧ NameOk h ∧ UserOk (c :: x) ∧
      text = frontText sch none ++ h ++ byte ':' :: c :: x ∧
      d = ⟨frontUri sch none old, some (if digit c then (frontText sch none ++ h ++ [byte ':']).length
        else (frontText sch none).length)⟩
  | .host0 =>
    ∃ sch x old, Front sch (some x) st.scheme ∧ text = frontText sch (some x) ∧ d.uri = frontUri sch (some x) old
  | .regName _ => ∃ sch who old h, Front sch who st.scheme ∧ NameOk h ∧ AtHost sch who old h text d
  | .ipv4 _ => ∃ sch who old h, Front sch who st.scheme ∧ NameOk h ∧ AtHost sch who old h text d
  | .literal x =>
    ∃ sch who old, Front sch who st.scheme ∧ byte ']' ∉ x ∧ AtHost sch who old (byte '[' :: x) text d
  | .literalEnd => ∃ sch who old h, Front sch who st.scheme ∧ HostOk h ∧ AtHost sch who old h text d
  | .port0 =>
    ∃ sch who h, Front sch who st.scheme ∧ HostOk h ∧ text = frontText sch who ++ h ++ [byte ':'] ∧
      d.uri = frontUri sch who h
  | .port =>
    ∃ sch who h x, Front sch who st.scheme ∧ HostOk h ∧ x ≠ [] ∧ (∀ c ∈ x, digit c = true) ∧
      text = frontText sch who ++ h ++ byte ':' :: x ∧
      d = ⟨frontUri sch who h, some (frontText sch who ++ h ++ [byte ':']).length⟩
  | .pathAbempty =>
    ∃ p : Parts, p.Good ∧ p.scheme.isSome ∧ p.authority.isSome ∧ p.query = none ∧ p.fragment = none ∧
      st.scheme = true ∧ p.path.head? = some (byte '/') ∧ text = p.text ∧ d.uri = extract { p with path := [] } ∧
      ∀ m ∈ d.mark, m = ({ p with path := [] } : Parts).text.length
  | .query0 =>
    ∃ p : Parts, p.Good ∧ p.query = some [] ∧ p.fragment = none ∧ text = p.text ∧ d.uri = extract p
  | .query =>
    ∃ (p : Parts) (x : Bytes), p.Good ∧ p.query = none ∧ p.fragment = none ∧ byte '#' ∉ x ∧
      text = p.text ++ byte '?' :: x ∧ d = ⟨extract p, some (p.text.length + 1)⟩
  | .fragment0 => ∃ p : Parts, p.Good ∧ p.fragment = some [] ∧ text = p.text ∧ d.uri = extract p
  | .fragment =>
    ∃ (p : Parts) (x : Bytes), p.Good ∧ p.fragment = none ∧ text = p.text ++ byte '#' :: x ∧
      d = ⟨extract p, some (p.text.length + 1)⟩

/-- the text is that of parts whose fields are saved; `stage` as for regions -/
def Closed (stage : ℕ) (text : Bytes) (uri : Uri) : Prop :=
  ∃ p : Parts, p.Good ∧ (stage < 1 → p.query = none) ∧ (stage < 2 → p.fragment = none) ∧ text = p.text ∧ uri = extract p

/-! ## Bytes and slices -/

theorem ne_of_class {ok : UInt8 → Bool} {b c : UInt8} (hc : ok c = true) (hb : ok b = false) : c ≠ b := by
  intro heq
  rw [heq, hb] at hc
  cases hc

theorem schemeChar_free {c : UInt8} (hc : schemeChar c = true) :
    c ≠ byte ':' ∧ c ≠ byte '/' ∧ c ≠ byte '?' ∧ c ≠ byte '#' :=
  ⟨ne_of_class hc (by decide), ne_of_class hc (by decide), ne_of_class hc (by decide), ne_of_class hc (by decide)⟩

theorem slice_append (x y rest : Bytes) : slice (x ++ y ++ rest) x.length (x ++ y).length = y := by
  unfold slice
  rw [List.append_assoc, List.drop_left, List.length_append, Nat.add_sub_cancel_left, List.take_left]

theorem slice_self (s : Bytes) (p : ℕ) : slice s p p = [] := by simp [slice]

theorem act_ne_fbreak (s : Bytes) (i : Action) (p : ℕ) (d d' : Data) : act s i p d ≠ .fbreak d' := by
  cases i <;> simp only [act, Data.save] <;> (try split) <;> simp

theorem frontText_eq (sch who : Option Bytes) (h : Bytes) (port : Option Bytes) (path : Bytes) :
    frontText sch who ++ h ++ after (byte ':') port ++ path = (⟨sch, some ⟨who, h, port⟩, path, none, none⟩ : Parts).text := by
  simp [frontText, Parts.text, authorityText, Authority.text, after]

theorem frontUri_eq (sch who : Option Bytes) (h : Bytes) :
    frontUri sch who h = extract ⟨sch, some ⟨who, h, none⟩, [], none, none⟩ := by
  simp [frontUri, extract]

/-! ## Parts that end -/

theorem NameOk.hostOk {h : Bytes} (hh : NameOk h) : HostOk h := by
  refine ⟨hh.1, Or.inl ⟨?_, fun hin => (hh.2 _ hin).1 rfl⟩⟩
  intro hhead
  exact (hh.2 _ (List.mem_of_head? hhead)).2 rfl

theorem Front.good {sch who : Option Bytes} {given : Bool} (hf : Front sch who given) {h : Bytes} (hh : HostOk h)
    {port : Option Bytes} (hport : ∀ x ∈ port, ∀ c ∈ x, digit c = true) :
    (⟨sch, some ⟨who, h, port⟩, [], none, none⟩ : Parts).Good := by
  have hfree : ∀ c ∈ h ++ after (byte ':') port, c ≠ byte '@' ∧ c ≠ byte '/' ∧ c ≠ byte '?' ∧ c ≠ byte '#' := by
    intro c hc
    rcases List.mem_append.mp hc with hc | hc
    · exact hh.1 c hc
    · cases port with
      | none => cases hc
      | some x =>
        rcases List.mem_cons.mp hc with rfl | hc
        · decide
        · have hd := hport x rfl c hc
          exact ⟨ne_of_class hd (by decide), ne_of_class hd (by decide), ne_of_class hd (by decide),
            ne_of_class hd (by decide)⟩
  refine ⟨⟨hf.scheme, ?_, by simp, fun _ => Or.inl rfl, by simp, by simp, by simp⟩, by simpa using hport⟩
  intro a ha
  obtain rfl := Option.some.inj ha
  refine ⟨fun x hx hin => (hf.user x hx _ hin).1 rfl, fun hin => (hfree _ hin).1 rfl, hh.2, ?_⟩
  intro c hc
  unfold Authority.text at hc
  rw [List.append_assoc] at hc
  rcases List.mem_append.mp hc with hc | hc
  · cases who with
    | none => cases hc
    | some x =>
      rcases List.mem_append.mp hc with hc | hc
      · exact (hf.user x rfl c hc).2
      · rw [List.mem_singleton.mp hc]
        decide
  · exact (hfree c hc).2

theorem digit_eq (c : UInt8) : digit c = isDigit 10 c := by
  rw [Bool.eq_iff_iff, isDigit_ten, digit, decide_eq_true_eq]

/-- the number of a port ends with its digits -/
theorem atoi_port {x rest : Bytes} (hx : x ≠ []) (hdigits : ∀ c ∈ x, digit c = true)
    (hrest : ∀ c ∈ rest.head?, digit c = false) : atoi (x ++ rest) = atoi x := by
  apply atoi_run hx
  · intro c hc
    rw [← digit_eq]
    exact hdigits c hc
  · intro c hc
    rw [← digit_eq]
    exact hrest c hc

/-- an authority that has ended, saved -/
def Ended (given : Bool) (text : Bytes) (uri : Uri) : Prop :=
  ∃ sch a, (⟨sch, some a, [], none, none⟩ : Parts).Good ∧ given = sch.isSome ∧
    text = (⟨sch, some a, [], none, none⟩ : Parts).text ∧ uri = extract ⟨sch, some a, [], none, none⟩

section Closing

variable {sch who : Option Bytes} {given : Bool} {old h text rest s : Bytes} {d d' : Data}

theorem ended_saveHost (hf : Front sch who given) (hh : HostOk h) (hat : AtHost sch who old h text d)
    (hs : s = text ++ rest) (hp : perform (fun i => act s i text.length) [.saveHost] d = .go d') :
    Ended given text d'.uri := by
  obtain ⟨rfl, rfl⟩ := hat
  simp only [perform, act, Flow.go.injEq] at hp
  refine ⟨sch, ⟨who, h, none⟩, hf.good hh (by simp), hf.isSome, ?_, ?_⟩
  · rw [← frontText_eq]
    simp [after]
  · rw [← frontUri_eq, ← hp, hs, slice_append]
    rfl

theorem ended_emptyHost (hf : Front sch who given) (htext : text = frontText sch who)
    (hd : d.uri = frontUri sch who old)
    (hp : perform (fun i => act s i text.length) [.markh, .saveHost] d = .go d') : Ended given text d'.uri := by
  simp only [perform, act, Flow.go.injEq, slice_self] at hp
  have hempty : HostOk [] := ⟨by simp [UserOk], Or.inl ⟨by simp, by simp⟩⟩
  refine ⟨sch, ⟨who, [], none⟩, hf.good hempty (by simp), hf.isSome, ?_, ?_⟩
  · rw [← frontText_eq, htext]
    simp [after]
  · rw [← frontUri_eq, ← hp, hd]
    rfl

theorem ended_savePort (hf : Front sch who given) (hh : HostOk h) {x : Bytes} (hx : x ≠ [])
    (hdigits : ∀ c ∈ x, digit c = true) (htext : text = frontText sch who ++ h ++ byte ':' :: x)
    (hd : d = ⟨frontUri sch who h, some (frontText sch who ++ h ++ [byte ':']).length⟩) (hs : s = text ++ rest)
    (hrest : ∀ c ∈ rest.head?, digit c = false)
    (hp : perform (fun i => act s i text.length) [.savePort] d = .go d') : Ended given text d'.uri := by
  have hsplit : text = (frontText sch who ++ h ++ [byte ':']) ++ x := by rw [htext]; simp
  have hne : text.length ≠ (frontText sch who ++ h ++ [byte ':']).length := by
    have hpos := List.length_pos_of_ne_nil hx
    rw [hsplit, List.length_append]
    omega
  have hdrop : s.drop (frontText sch who ++ h ++ [byte ':']).length = x ++ rest := by
    rw [hs, hsplit, List.append_assoc _ x rest, List.drop_left]
  rw [hd] at hp
  simp only [perform, act, Flow.go.injEq] at hp
  rw [if_pos hne, hdrop, atoi_port hx hdigits hrest] at hp
  refine ⟨sch, ⟨who, h, some x⟩, hf.good hh (by simpa using hdigits), hf.isSome, ?_, ?_⟩
  · rw [← frontText_eq, htext]
    simp [after]
  · rw [← hp]
    simp [extract, frontUri]

theorem ended_emptyPort (hf : Front sch who given) (hh : HostOk h) (htext : text = frontText sch who ++ h ++ [byte ':'])
    (hd : d.uri = frontUri sch who h)
    (hp : perform (fun i => act s i text.length) [.markh, .savePort] d = .go d') : Ended given text d'.uri := by
  simp only [perform, act, ne_eq, not_true_eq_false, if_false, Flow.go.injEq] at hp
  refine ⟨sch, ⟨who, h, some []⟩, hf.good hh (by simp), hf.isSome, ?_, ?_⟩
  · rw [← frontText_eq, htext]
    simp [after]
  · rw [← hp, hd]
    have hzero : atoi [] = 0 := by decide
    simp [extract, frontUri, hzero]

end Closing

/-- **The authority ends.** -/
theorem reads_closing {text rest s : Bytes} {st : State} {d d' : Data} {acts : List Action} (h : Reads text st d)
    (hs : s = text ++ rest) (hrest : ∀ c ∈ rest.head?, digit c = false) (hacts : st.region.closing = some acts)
    (hp : perform (fun i => act s i text.length) acts d = .go d') : Ended st.scheme text d'.uri := by
  obtain ⟨r, given, pct⟩ := st
  cases r with
  | authority =>
    obtain rfl := Option.some.inj hacts
    obtain ⟨sch, hf, htext, hd⟩ := h
    exact ended_emptyHost hf htext hd hp
  | host0 =>
    obtain rfl := Option.some.inj hacts
    obtain ⟨sch, x, old, hf, htext, hd⟩ := h
    exact ended_emptyHost hf htext hd hp
  | userOrHost t =>
    obtain rfl := Option.some.inj hacts
    obtain ⟨sch, h, hf, hh, hat⟩ := h
    exact ended_saveHost hf hh.hostOk hat hs hp
  | regName t =>
    obtain rfl := Option.some.inj hacts
    obtain ⟨sch, who, old, h, hf, hh, hat⟩ := h
    exact ended_saveHost hf hh.hostOk hat hs hp
  | ipv4 t =>
    simp only [Region.closing] at hacts
    split_ifs at hacts
    obtain rfl := Option.some.inj hacts
    obtain ⟨sch, who, old, h, hf, hh, hat⟩ := h
    exact ended_saveHost hf hh.hostOk hat hs hp
  | literalEnd =>
    obtain rfl := Option.some.inj hacts
    obtain ⟨sch, who, old, h, hf, hh, hat⟩ := h
    exact ended_saveHost hf hh hat hs hp
  | userOrPort0 =>
    obtain rfl := Option.some.inj hacts
    obtain ⟨sch, h, hf, hh, htext, hd⟩ := h
    exact ended_emptyPort hf hh.hostOk htext (by rw [hd]) hp
  | port0 =>
    obtain rfl := Option.some.inj hacts
    obtain ⟨sch, who, h, hf, hh, htext, hd⟩ := h
    exact ended_emptyPort hf hh htext hd hp
  | userOrPort =>
    obtain rfl := Option.some.inj hacts
    obtain ⟨sch, h, x, hf, hh, hx, hdigits, htext, hd⟩ := h
    exact ended_savePort hf hh.hostOk hx hdigits htext hd hs hrest hp
  | port =>
    obtain rfl := Option.some.inj hacts
    obtain ⟨sch, who, h, x, hf, hh, hx, hdigits, htext, hd⟩ := h
    exact ended_savePort hf hh hx hdigits htext hd hs hrest hp
  | _ => cases hacts

theorem closing_cases {r : Region} {acts : List Action} (h : r.closing = some acts) :
    acts = [.saveHost] ∨ acts = [.markh, .saveHost] ∨ acts = [.savePort] ∨ acts = [.markh, .savePort] := by
  cases r with
  | ipv4 t =>
    simp only [Region.closing] at h
    split_ifs at h
    exact Or.inl (Option.some.inj h).symm
  | _ => simp_all [Region.closing]

/-- entering a path right behind an authority: the mark is here, or an empty port has cleared it -/
theorem perform_enter {r : Region} {acts : List Action} (h : r.closing = some acts) {s : Bytes} {p : ℕ} {d d'' : Data}
    (hp : perform (fun i => act s i p) (acts ++ [Action.markh]).eraseDups d = .go d'') :
    ∃ d', perform (fun i => act s i p) acts d = .go d' ∧ d''.uri = d'.uri ∧ ∀ m ∈ d''.mark, m = p := by
  rcases closing_cases h with rfl | rfl | rfl | rfl
  · have hdups : ([Action.saveHost] ++ [Action.markh]).eraseDups = [Action.saveHost] ++ [Action.markh] := by decide
    rw [hdups, perform_append] at hp
    split at hp
    · next d' hd' =>
      simp only [perform, act, Flow.go.injEq] at hp
      exact ⟨d', hd', by rw [← hp], by rw [← hp]; simp⟩
    · cases hp
    · cases hp
  · have hdups : ([Action.markh, .saveHost] ++ [Action.markh]).eraseDups = [Action.markh, .saveHost] := by decide
    rw [hdups] at hp
    refine ⟨d'', hp, rfl, ?_⟩
    simp only [perform, act, Flow.go.injEq] at hp
    rw [← hp]
    simp
  · have hdups : ([Action.savePort] ++ [Action.markh]).eraseDups = [Action.savePort] ++ [Action.markh] := by decide
    rw [hdups, perform_append] at hp
    split at hp
    · next d' hd' =>
      simp only [perform, act, Flow.go.injEq] at hp
      exact ⟨d', hd', by rw [← hp], by rw [← hp]; simp⟩
    · cases hp
    · cases hp
  · have hdups : ([Action.markh, .savePort] ++ [Action.markh]).eraseDups = [Action.markh, .savePort] := by decide
    rw [hdups] at hp
    refine ⟨d'', hp, rfl, ?_⟩
    simp only [perform, act, Flow.go.injEq] at hp
    rw [← hp]
    simp

theorem eraseDups_savePath {r : Region} {acts : List Action} (h : r.closing = some acts) :
    (acts ++ [Action.markh, .savePath]).eraseDups = (acts ++ [Action.markh]).eraseDups ++ [.savePath] := by
  rcases closing_cases h with rfl | rfl | rfl | rfl <;> decide

theorem Ended.closed {given : Bool} {text : Bytes} {uri : Uri} (h : Ended given text uri) :
    Closed 0 text uri ∧ Closed 0 text { uri with path := [] } := by
  obtain ⟨sch, a, hgood, -, htext, huri⟩ := h
  refine ⟨⟨_, hgood, fun _ => rfl, fun _ => rfl, htext, huri⟩, ⟨_, hgood, fun _ => rfl, fun _ => rfl, htext, ?_⟩⟩
  rw [huri]
  simp [extract]

/-- an authority that ends where no path begins -/
theorem closed_closing {text rest s : Bytes} {st : State} {d d' : Data} {acts acts' : List Action} (h : Reads text st d)
    (hs : s = text ++ rest) (hrest : ∀ c ∈ rest.head?, digit c = false) (hacts : st.region.closing = some acts)
    (hacts' : acts' = if st.scheme then (acts ++ [Action.markh, .savePath]).eraseDups else acts)
    (hp : perform (fun i => act s i text.length) acts' d = .go d') : Closed 0 text d'.uri := by
  rw [hacts'] at hp
  split_ifs at hp with hgiven
  · -- the empty path is saved, unless the mark is gone
    rw [eraseDups_savePath hacts, perform_append] at hp
    split at hp
    · next d1 hd1 =>
      obtain ⟨d2, hd2, huri, hmark⟩ := perform_enter hacts hd1
      have hended := reads_closing h hs hrest hacts hd2
      simp only [perform, act, Data.save] at hp
      cases hm : d1.mark with
      | none =>
        rw [hm] at hp
        cases hp
      | some m =>
        rw [hmark m hm] at hm
        simp only [hm, slice_self, Flow.go.injEq] at hp
        rw [← hp]
        show Closed 0 text { d1.uri with path := [] }
        rw [huri]
        exact hended.closed.2
    · cases hp
    · cases hp
  · exact (reads_closing h hs hrest hacts hp).closed.1

theorem relative_good {text : Bytes} (h : ∀ c ∈ text, c ≠ byte ':' ∧ c ≠ byte '/' ∧ c ≠ byte '?' ∧ c ≠ byte '#') :
    (⟨none, none, text, none, none⟩ : Parts).Good := by
  refine ⟨⟨by simp, by simp, fun c hc => (h c hc).2.2, by simp, ?_, ?_, by simp⟩, by simp⟩
  · intro _ hpre
    have hin : byte '/' ∈ text := hpre.subset (by decide)
    exact (h _ hin).2.1 rfl
  · intro _ _ hin
    exact (h _ ((List.takeWhile_sublist _).subset hin)).1 rfl

theorem OpenPath.good {p : Parts} (h : OpenPath p) : p.Good := by
  refine ⟨⟨h.scheme, h.authority, h.free, fun ha => Or.inr (h.rooted ha), fun ha => (h.single ha).2.2,
    fun hs ha => (h.relative hs ha).2, ?_⟩, h.digits⟩
  rw [h.query]
  simp

theorem Parts.Good.withQuery {p : Parts} (h : p.Good) {x : Bytes} (hx : byte '#' ∉ x) :
    Parts.Good { p with query := some x } :=
  ⟨⟨h.scheme, h.authority, h.path, h.rooted, h.single, h.relative, by simpa using hx⟩, h.digits⟩

theorem Parts.Good.withFragment {p : Parts} (h : p.Good) (x : Bytes) : Parts.Good { p with fragment := some x } :=
  ⟨⟨h.scheme, h.authority, h.path, h.rooted, h.single, h.relative, h.query⟩, h.digits⟩

theorem text_withQuery {p : Parts} (hq : p.query = none) (hf : p.fragment = none) (x : Bytes) :
    ({ p with query := some x } : Parts).text = p.text ++ byte '?' :: x := by
  simp [Parts.text, hq, hf, after]

theorem text_withFragment {p : Parts} (hf : p.fragment = none) (x : Bytes) :
    ({ p with fragment := some x } : Parts).text = p.text ++ byte '#' :: x := by
  simp [Parts.text, hf, after]

theorem text_withPath {p : Parts} (hq : p.query = none) (hf : p.fragment = none) :
    p.text = ({ p with path := [] } : Parts).text ++ p.path := by
  simp [Parts.text, hq, hf, after]

/-- a part that is saved where it ends -/
theorem perform_save {s : Bytes} {i : Action} (set : Uri → Bytes → Uri) (hi : ∀ p d, act s i p d = d.save s p set)
    {x y rest : Bytes} (hs : s = x ++ y ++ rest) {d d' : Data} (hd : d.mark = some x.length)
    (hp : perform (fun i => act s i (x ++ y).length) [i] d = .go d') : d'.uri = set d.uri y := by
  have hslice : slice s x.length (x ++ y).length = y := by rw [hs, slice_append]
  simp only [perform, hi, Data.save, hd, hslice, Flow.go.injEq] at hp
  rw [← hp]

/-- **A part ends** where no path begins: at a `?`, a `#` or the end of the text. -/
theorem reads_leaving {text rest s : Bytes} {st : State} {d d' : Data} {acts : List Action} (h : Reads text st d)
    (hs : s = text ++ rest) (hrest : ∀ c ∈ rest.head?, digit c = false) (hacts : st.region.leaving st.scheme = some acts)
    (hp : perform (fun i => act s i text.length) acts d = .go d') : Closed st.region.stage text d'.uri := by
  have hstay : acts = [] → d' = d := by
    rintro rfl
    exact (Flow.go.inj hp).symm
  have hauth : st.region.leaving st.scheme =
      st.region.closing.map (fun acts => if st.scheme then (acts ++ [Action.markh, .savePath]).eraseDups else acts) →
      Closed 0 text d'.uri := by
    intro hmap
    rw [hacts] at hmap
    obtain ⟨acts', hclosing, hacts'⟩ := Option.map_eq_some_iff.mp hmap.symm
    exact closed_closing h hs hrest hclosing hacts'.symm hp
  obtain ⟨r, given, pct⟩ := st
  cases r with
  | error => exact absurd h id
  | start =>
    obtain ⟨rfl, -, huri⟩ := h
    rw [hstay (Option.some.inj hacts).symm, huri]
    exact ⟨⟨none, none, [], none, none⟩, relative_good (by simp), fun _ => rfl, fun _ => rfl, rfl, rfl⟩
  | scheme =>
    obtain ⟨-, -, hchars, rfl⟩ := h
    rw [hstay (Option.some.inj hacts).symm]
    refine ⟨⟨none, none, text, none, none⟩, relative_good fun c hc => schemeChar_free (hchars c hc), fun _ => rfl,
      fun _ => rfl, ?_, rfl⟩
    simp [Parts.text, before, after, authorityText]
  | segment =>
    obtain ⟨-, -, hchars, huri⟩ := h
    rw [hstay (Option.some.inj hacts).symm, huri]
    refine ⟨⟨none, none, text, none, none⟩, relative_good hchars, fun _ => rfl, fun _ => rfl, ?_, rfl⟩
    simp [Parts.text, before, after, authorityText]
  | hier =>
    obtain ⟨-, x, hx, rfl, huri⟩ := h
    rw [hstay (Option.some.inj hacts).symm, huri]
    refine ⟨⟨some x, none, [], none, none⟩, ⟨⟨hx, by simp, by simp, by simp, ?_, by simp, by simp⟩, by simp⟩,
      fun _ => rfl, fun _ => rfl, ?_, ?_⟩
    · exact fun _ => show ¬ ascii "//" <+: [] by decide
    · simp [Parts.text, before, after, authorityText]
    · simp [extract]
  | slash =>
    obtain ⟨sch, hsch, -, rfl, huri⟩ := h
    rw [hstay (Option.some.inj hacts).symm, huri]
    refine ⟨⟨sch, none, [byte '/'], none, none⟩, ⟨⟨hsch, by simp, ?_, by simp, ?_, ?_, by simp⟩, by simp⟩, fun _ => rfl,
      fun _ => rfl, ?_, ?_⟩
    · intro c hc
      rw [List.mem_singleton.mp hc]
      decide
    · exact fun _ => show ¬ ascii "//" <+: [byte '/'] by decide
    · exact fun _ _ => show byte ':' ∉ [byte '/'].takeWhile (· ≠ byte '/') by decide
    · simp [Parts.text, after, authorityText]
    · simp [extract]
  | path =>
    obtain ⟨p, hopen, -, -, rfl, huri⟩ := h
    rw [hstay (Option.some.inj hacts).symm, huri]
    exact ⟨p, hopen.good, fun _ => hopen.query, fun _ => hopen.fragment, rfl, rfl⟩
  | pathAbempty =>
    obtain rfl := Option.some.inj hacts
    obtain ⟨p, hgood, hsch, ha, hq, hf, -, -, rfl, huri, hmark⟩ := h
    have hm : d.mark = some ({ p with path := [] } : Parts).text.length := by
      cases hm : d.mark with
      | none => simp [perform, act, Data.save, hm] at hp
      | some m => rw [hmark m hm]
    have hsplit := text_withPath hq hf
    rw [hsplit] at hs hp
    have hsave := perform_save (fun u x => { u with path := x }) (fun _ _ => rfl) hs hm hp
    refine ⟨p, hgood, fun _ => hq, fun _ => hf, rfl, ?_⟩
    rw [hsave, huri]
    simp [extract, hsch, ha]
  | query0 =>
    obtain rfl := Option.some.inj hacts
    obtain ⟨p, hgood, hq, hf, rfl, huri⟩ := h
    simp only [perform, act, Data.save, slice_self, Flow.go.injEq] at hp
    refine ⟨p, hgood, fun hlt => absurd hlt (show ¬ 1 < 1 by decide), fun _ => hf, rfl, ?_⟩
    rw [← hp, huri]
    simp [extract, hq]
  | query =>
    obtain rfl := Option.some.inj hacts
    obtain ⟨p, x, hgood, hq, hf, hx, rfl, rfl⟩ := h
    have hsplit : p.text ++ byte '?' :: x = (p.text ++ [byte '?']) ++ x := by simp
    rw [hsplit] at hs hp
    have hsave := perform_save (fun u x => { u with query := x }) (fun _ _ => rfl) hs (by simp) hp
    refine ⟨{ p with query := some x }, hgood.withQuery hx, fun hlt => absurd hlt (show ¬ 1 < 1 by decide), fun _ => hf,
      (text_withQuery hq hf x).symm, ?_⟩
    rw [hsave]
    simp [extract]
  | fragment0 =>
    obtain rfl := Option.some.inj hacts
    obtain ⟨p, hgood, hf, rfl, huri⟩ := h
    simp only [perform, act, Data.save, slice_self, Flow.go.injEq] at hp
    refine ⟨p, hgood, fun hlt => absurd hlt (show ¬ 2 < 1 by decide),
      fun hlt => absurd hlt (show ¬ 2 < 2 by decide), rfl, ?_⟩
    rw [← hp, huri]
    simp [extract, hf]
  | fragment =>
    obtain rfl := Option.some.inj hacts
    obtain ⟨p, x, hgood, hf, rfl, rfl⟩ := h
    have hsplit : p.text ++ byte '#' :: x = (p.text ++ [byte '#']) ++ x := by simp
    rw [hsplit] at hs hp
    have hsave := perform_save (fun u x => { u with fragment := x }) (fun _ _ => rfl) hs (by simp) hp
    refine ⟨{ p with fragment := some x }, hgood.withFragment x, fun hlt => absurd hlt (show ¬ 2 < 1 by decide),
      fun hlt => absurd hlt (show ¬ 2 < 2 by decide), (text_withFragment hf x).symm, ?_⟩
    rw [hsave]
    simp [extract]
  | _ => exact hauth rfl

end Sylar.Uri
