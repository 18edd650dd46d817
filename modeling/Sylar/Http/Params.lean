/-
Parameters and cookies of a request (`http.cpp`, `PARSE_PARAM`, `initQueryParam`, `initBodyParam` and `initCookies`).

The loop never splits its text: it looks for the next `=`, and from there for the next separator. What stands between
the place it is at and the `=` is the key. `parsePairs` are the pairs it inserts.
- `parsePairs_merged`: on a text cut into pieces at the separator, a piece without `=` goes into the key of the next
  piece that has one (`mergedPairs`).
- `query_roundtrip`: pairs written as a query with their values encoded are read back, from the query and from a form.
- `neighbours_iff`: the pairs are those of the pieces that have a `=`, and pieces without one change nothing, exactly
  if no piece without a `=` stands in front of one that has it.
-/
import Mathlib.Tactic
import Sylar.Core.Text
import Sylar.Http.Map
import Sylar.Util.Url

namespace Sylar.Http

open Sylar.Core Sylar.Util

/-! ## Searching strings -/

/-- `str.find(c, pos)`; none is `npos` -/
def strFind (str : Bytes) (c : UInt8) (pos : ℕ) : Option ℕ := ((str.drop pos).findIdx? (· = c)).map (pos + ·)

/-- `str.substr(pos, n)` -/
def substr (str : Bytes) (pos n : ℕ) : Bytes := (str.drop pos).take n

/-- `str.find_first_not_of(delimit)` -/
def findFirstNotOf (str delimit : Bytes) : Option ℕ := str.findIdx? (· ∉ delimit)

/-- `str.find_last_not_of(delimit)` -/
def findLastNotOf (str delimit : Bytes) : Option ℕ := (str.reverse.findIdx? (· ∉ delimit)).map (str.length - 1 - ·)

/-- `StringUtil::Trim`; where the first search finds a byte, the second one does -/
def trim (str : Bytes) (delimit : Bytes := ascii " \t\r\n") : Bytes :=
  match findFirstNotOf str delimit, findLastNotOf str delimit with
  | some first, some last => substr str first (last - first + 1)
  | _, _ => []

/-- `strcasestr(hay, needle) != nullptr` -/
def strcasestrFound (hay needle : Bytes) : Bool :=
  (hay.takeWhile (· ≠ 0)).tails.any fun t => ((needle.takeWhile (· ≠ 0)).map tolower).isPrefixOf (t.map tolower)

theorem strFind_lt {str : Bytes} {c : UInt8} {pos i : ℕ} (h : strFind str c pos = some i) :
    pos ≤ i ∧ i < str.length := by
  obtain ⟨k, hk, rfl⟩ := Option.map_eq_some_iff.mp h
  obtain ⟨hlt, -⟩ := List.findIdx?_eq_some_iff_findIdx_eq.mp hk
  rw [List.length_drop] at hlt
  omega

/-! ## The loop -/

/-- `PARSE_PARAM` from `pos` on: the pairs it inserts. Behind the last separator, `npos - key - 1` is more than is
left. -/
def parsePairs (flag : UInt8) (trim : Bytes → Bytes) (str : Bytes) (pos : ℕ) : List (Bytes × Bytes) :=
  match _hkey : strFind str 61 pos with
  | none => []
  | some key =>
    match _hnext : strFind str flag key with
    | none => [(trim (substr str pos (key - pos)), urlDecode (str.drop (key + 1)))]
    | some next =>
      (trim (substr str pos (key - pos)), urlDecode (substr str (key + 1) (next - key - 1))) ::
        parsePairs flag trim str (next + 1)
termination_by str.length - pos
decreasing_by
  have h1 := strFind_lt _hkey
  have h2 := strFind_lt _hnext
  omega

/-- a request and what is parsed of it on demand -/
structure ParamRequest extends HttpRequest where
  parserParamFlag : UInt8 := 0
  params : MapType := []
  cookies : MapType := []
deriving DecidableEq, Repr

/-- a request none of whose parameters is parsed yet -/
def ParamRequest.unparsed (r : HttpRequest) : ParamRequest := { toHttpRequest := r }

namespace ParamRequest

/-- `getHeader(key)` -/
def getHeader (r : ParamRequest) (key : Bytes) (dflt : Bytes := []) : Bytes := (r.headers.find key).getD dflt

def initQueryParam (r : ParamRequest) : ParamRequest :=
  if r.parserParamFlag &&& 0x1 ≠ 0 then r
  else
    { r with
      params := r.params.insertAll (parsePairs 38 id r.query 0)
      parserParamFlag := r.parserParamFlag ||| 0x1 }

def initBodyParam (r : ParamRequest) : ParamRequest :=
  if r.parserParamFlag &&& 0x2 ≠ 0 then r
  else if !strcasestrFound (r.getHeader (ascii "content-type")) (ascii "application/x-www-form-urlencoded") then
    { r with parserParamFlag := r.parserParamFlag ||| 0x2 }
  else
    { r with
      params := r.params.insertAll (parsePairs 38 id r.body 0)
      parserParamFlag := r.parserParamFlag ||| 0x2 }

def initCookies (r : ParamRequest) : ParamRequest :=
  if r.parserParamFlag &&& 0x4 ≠ 0 then r
  else
    let cookie := r.getHeader (ascii "cookie")
    if cookie = [] then { r with parserParamFlag := r.parserParamFlag ||| 0x4 }
    else
      { r with
        cookies := r.cookies.insertAll (parsePairs 59 (fun s => trim s) cookie 0)
        parserParamFlag := r.parserParamFlag ||| 0x4 }

def initParam (r : ParamRequest) : ParamRequest := r.initQueryParam.initBodyParam.initCookies

end ParamRequest

/-! ## The loop on a text cut into pieces -/

theorem strFind_of_drop {str a b : Bytes} {c : UInt8} {pos : ℕ} (h : str.drop pos = a ++ c :: b) (ha : c ∉ a) :
    strFind str c pos = some (pos + a.length) := by
  have hno : a.findIdx? (· = c) = none := by
    rw [List.findIdx?_eq_none_iff]
    intro x hx
    exact decide_eq_false (ne_of_mem_of_not_mem hx ha)
  have hfind : (a ++ c :: b).findIdx? (· = c) = some a.length := by
    rw [List.findIdx?_append, hno, List.findIdx?_cons]
    simp
  rw [strFind, h, hfind, Option.map_some]

theorem strFind_eq_none {str : Bytes} {c : UInt8} {pos : ℕ} (h : c ∉ str.drop pos) : strFind str c pos = none := by
  rw [strFind, Option.map_eq_none_iff, List.findIdx?_eq_none_iff]
  intro x hx
  exact decide_eq_false (ne_of_mem_of_not_mem hx h)

/-- what stands in front of the place of a byte -/
theorem substr_of_drop {str a b : Bytes} {pos : ℕ} (h : str.drop pos = a ++ b) : substr str pos a.length = a := by
  rw [substr, h, List.take_left]

theorem drop_of_drop {str a b : Bytes} {pos : ℕ} (h : str.drop pos = a ++ b) : str.drop (pos + a.length) = b := by
  rw [← List.drop_drop, h, List.drop_left]

section

variable {flag : UInt8} {trim : Bytes → Bytes} {str : Bytes} {pos : ℕ}

theorem parsePairs_end (h : 61 ∉ str.drop pos) : parsePairs flag trim str pos = [] := by
  rw [parsePairs]
  split
  · rfl
  · next key hkey =>
    rw [strFind_eq_none h] at hkey
    cases hkey

/-- a pass that finds a `=`, by what it finds behind it -/
theorem parsePairs_found {k t : Bytes} (h : str.drop pos = k ++ 61 :: t) (hk : 61 ∉ k) :
    parsePairs flag trim str pos =
      (strFind str flag (pos + k.length)).elim [(trim k, urlDecode t)] fun next =>
        (trim k, urlDecode (substr str (pos + k.length + 1) (next - (pos + k.length) - 1))) ::
          parsePairs flag trim str (next + 1) := by
  have hkey := strFind_of_drop h hk
  have hbehind : str.drop (pos + k.length + 1) = t := by
    rw [← List.drop_drop, drop_of_drop h]
    rfl
  rw [parsePairs]
  split
  · next hnone =>
    rw [hkey] at hnone
    cases hnone
  · next key hsome =>
    rw [hkey, Option.some.injEq] at hsome
    subst hsome
    rw [Nat.add_sub_cancel_left, substr_of_drop h, hbehind]
    split
    · next hnext => rw [hnext, Option.elim_none]
    · next next hnext => rw [hnext, Option.elim_some]

/-- what stands behind the `=` and has no separator is the last value -/
theorem parsePairs_last {k v : Bytes} (h : str.drop pos = k ++ 61 :: v) (hk : 61 ∉ k) (hv : flag ∉ v)
    (hflag : flag ≠ 61) :
    parsePairs flag trim str pos = [(trim k, urlDecode v)] := by
  have hnone : strFind str flag (pos + k.length) = none := by
    apply strFind_eq_none
    rw [drop_of_drop h, List.mem_cons, not_or]
    exact ⟨hflag, hv⟩
  rw [parsePairs_found h hk, hnone, Option.elim_none]

/-- a value ends at the next separator, and the loop goes on behind it -/
theorem parsePairs_cons {k v rest : Bytes} (h : str.drop pos = k ++ 61 :: (v ++ flag :: rest)) (hk : 61 ∉ k)
    (hv : flag ∉ v) (hflag : flag ≠ 61) :
    ∃ next, str.drop next = rest ∧
      parsePairs flag trim str pos = (trim k, urlDecode v) :: parsePairs flag trim str next := by
  have hdrop : str.drop (pos + k.length) = (61 :: v) ++ flag :: rest := drop_of_drop h
  have hbehind : str.drop (pos + k.length + 1) = v ++ flag :: rest := by
    rw [← List.drop_drop, hdrop]
    rfl
  have hnext : strFind str flag (pos + k.length) = some (pos + k.length + (v.length + 1)) := by
    apply strFind_of_drop hdrop
    rw [List.mem_cons, not_or]
    exact ⟨hflag, hv⟩
  refine ⟨pos + k.length + (v.length + 1) + 1, ?_, ?_⟩
  · rw [← List.drop_drop, ← List.drop_drop, hdrop, List.drop_left' List.length_cons]
    rfl
  · have hlen : pos + k.length + (v.length + 1) - (pos + k.length) - 1 = v.length := by omega
    rw [parsePairs_found h hk, hnext, Option.elim_some, hlen, substr_of_drop hbehind]

/-- the pair a piece stands for: it is split at its first `=`, and there is none without one -/
def pairOf (trim : Bytes → Bytes) (piece : Bytes) : Option (Bytes × Bytes) :=
  (cut 61 piece).2.map fun v => (trim (cut 61 piece).1, urlDecode v)

/-- what the loop makes of the pieces; `acc` are those without a `=` it has passed -/
def mergedPairs (flag : UInt8) (trim : Bytes → Bytes) : Bytes → List Bytes → List (Bytes × Bytes)
  | _, [] => []
  | acc, p :: ps =>
    match cut 61 p with
    | (k, some v) => (trim (acc ++ k), urlDecode v) :: mergedPairs flag trim [] ps
    | (_, none) => mergedPairs flag trim (acc ++ p ++ [flag]) ps

theorem parsePairs_merged {acc : Bytes} {ps : List Bytes} (hflag : flag ≠ 61) (hacc : 61 ∉ acc)
    (hps : ∀ p ∈ ps, flag ∉ p)
    (hne : ps ≠ []) (h : str.drop pos = acc ++ [flag].intercalate ps) :
    parsePairs flag trim str pos = mergedPairs flag trim acc ps := by
  induction ps generalizing acc pos with
  | nil => exact absurd rfl hne
  | cons p ps ih =>
    have hp := hps p List.mem_cons_self
    have hps' : ∀ q ∈ ps, flag ∉ q := fun q hq => hps q (List.mem_cons_of_mem p hq)
    by_cases heq : 61 ∈ p
    · -- a pass of the loop, and the key has all that was passed
      obtain ⟨k, v, rfl, hk, hcut⟩ := cut_of_mem heq
      have hk' : 61 ∉ acc ++ k := by
        rw [List.mem_append, not_or]
        exact ⟨hacc, hk⟩
      have hv : flag ∉ v := fun hv => hp (List.mem_append_right k (List.mem_cons_of_mem _ hv))
      rw [mergedPairs, hcut]
      by_cases hlast : ps = []
      · rw [hlast, List.intercalate_singleton, ← List.append_assoc] at h
        rw [parsePairs_last h hk' hv hflag, hlast]
        rfl
      · rw [intercalate_cons_of_ne_nil flag _ hlast, List.append_assoc, ← List.append_assoc acc] at h
        obtain ⟨next, hdrop, hpass⟩ := parsePairs_cons h hk' hv hflag
        rw [hpass, ih List.not_mem_nil hps' hlast hdrop]
    · have hcut : cut 61 p = (p, none) := cut_of_not_mem heq
      have hacc' : 61 ∉ acc ++ p := by
        rw [List.mem_append, not_or]
        exact ⟨hacc, heq⟩
      rw [mergedPairs, hcut]
      by_cases hlast : ps = []
      · rw [hlast, List.intercalate_singleton] at h
        rw [← h] at hacc'
        rw [parsePairs_end hacc', hlast]
        rfl
      · rw [intercalate_cons_of_ne_nil flag _ hlast, ← List.append_assoc, ← List.singleton_append,
          ← List.append_assoc] at h
        apply ih _ hps' hlast h
        rw [List.mem_append, not_or]
        exact ⟨hacc', fun hmem => hflag (List.mem_singleton.mp hmem).symm⟩

theorem parsePairs_eq_merged (hflag : flag ≠ 61) (trim : Bytes → Bytes) (str : Bytes) :
    parsePairs flag trim str 0 = mergedPairs flag trim [] (str.splitOn flag) := by
  apply parsePairs_merged hflag List.not_mem_nil
  · exact fun p hp => not_mem_of_mem_splitOn hp
  · exact List.splitOn_ne_nil flag str
  · rw [List.intercalate_splitOn]
    rfl

end

/-! ## Pieces without a value -/

/-- no piece without a `=` stands in front of one that has it -/
def ValuesFirst (ps : List Bytes) : Prop := ps.Pairwise fun p q => 61 ∈ q → 61 ∈ p

instance (ps : List Bytes) : Decidable (ValuesFirst ps) := inferInstanceAs (Decidable (ps.Pairwise _))

/-- the pairs of the pieces that have a `=` -/
def piecePairs (flag : UInt8) (trim : Bytes → Bytes) (str : Bytes) : List (Bytes × Bytes) :=
  (str.splitOn flag).filterMap (pairOf trim)

section

variable {flag : UInt8} {trim : Bytes → Bytes}

theorem pairOf_eq_none {p : Bytes} (h : 61 ∉ p) : pairOf trim p = none := by
  rw [pairOf, cut_of_not_mem h, Option.map_none]

theorem filterMap_pairOf_nil {ps : List Bytes} (h : ∀ p ∈ ps, 61 ∉ p) : ps.filterMap (pairOf trim) = [] := by
  rw [List.filterMap_eq_nil_iff]
  exact fun p hp => pairOf_eq_none (h p hp)

theorem mergedPairs_nil {ps : List Bytes} (h : ∀ p ∈ ps, 61 ∉ p) (acc : Bytes) : mergedPairs flag trim acc ps = [] := by
  induction ps generalizing acc with
  | nil => rfl
  | cons p ps ih =>
    have hcut : cut 61 p = (p, none) := cut_of_not_mem (h p List.mem_cons_self)
    rw [mergedPairs, hcut]
    exact ih (fun q hq => h q (List.mem_cons_of_mem p hq)) _

/-- where the values come first, the loop splits at the separators -/
theorem mergedPairs_of_valuesFirst {ps : List Bytes} (h : ValuesFirst ps) :
    mergedPairs flag trim [] ps = ps.filterMap (pairOf trim) := by
  induction ps with
  | nil => rfl
  | cons p ps ih =>
    obtain ⟨hp, hps⟩ := List.pairwise_cons.mp h
    by_cases heq : 61 ∈ p
    · obtain ⟨k, v, -, -, hcut⟩ := cut_of_mem heq
      have hpair : pairOf trim p = some (trim k, urlDecode v) := by rw [pairOf, hcut, Option.map_some]
      rw [mergedPairs, hcut, List.filterMap_cons_some hpair, ih hps]
      rfl
    · have hno : ∀ q ∈ p :: ps, 61 ∉ q := by
        intro q hq
        rcases List.mem_cons.mp hq with rfl | hq
        · exact heq
        · exact fun hmem => heq (hp q hq hmem)
      rw [mergedPairs_nil hno, filterMap_pairOf_nil hno]

/-- what is passed goes into a key, with the separator behind it -/
theorem mergedPairs_key {ps : List Bytes} (htrim : ∀ x, flag ∈ trim x ↔ flag ∈ x) {acc : Bytes} (hacc : flag ∈ acc)
    (h : ∃ p ∈ ps, 61 ∈ p) : ∃ e ∈ mergedPairs flag trim acc ps, flag ∈ e.1 := by
  induction ps generalizing acc with
  | nil =>
    obtain ⟨p, hp, -⟩ := h
    cases hp
  | cons p ps ih =>
    by_cases heq : 61 ∈ p
    · obtain ⟨k, v, -, -, hcut⟩ := cut_of_mem heq
      rw [mergedPairs, hcut]
      exact ⟨_, List.mem_cons_self, (htrim _).mpr (List.mem_append_left k hacc)⟩
    · have hcut : cut 61 p = (p, none) := cut_of_not_mem heq
      rw [mergedPairs, hcut]
      apply ih (List.mem_append_left _ (List.mem_append_left p hacc))
      obtain ⟨q, hq, hmem⟩ := h
      rcases List.mem_cons.mp hq with rfl | hq
      · exact absurd hmem heq
      · exact ⟨q, hq, hmem⟩

theorem mergedPairs_not_valuesFirst {ps : List Bytes} (htrim : ∀ x, flag ∈ trim x ↔ flag ∈ x) (h : ¬ValuesFirst ps) :
    ∃ e ∈ mergedPairs flag trim [] ps, flag ∈ e.1 := by
  induction ps with
  | nil => exact absurd List.Pairwise.nil h
  | cons p ps ih =>
    by_cases heq : 61 ∈ p
    · obtain ⟨k, v, -, -, hcut⟩ := cut_of_mem heq
      have hps : ¬ValuesFirst ps := fun hps => h (List.pairwise_cons.mpr ⟨fun _ _ _ => heq, hps⟩)
      obtain ⟨e, he, hflag⟩ := ih hps
      rw [mergedPairs, hcut]
      exact ⟨e, List.mem_cons_of_mem _ he, hflag⟩
    · have hcut : cut 61 p = (p, none) := cut_of_not_mem heq
      rw [mergedPairs, hcut]
      apply mergedPairs_key htrim
      · exact List.mem_append_right _ List.mem_cons_self
      · -- a piece behind `p` has a value, as else none would have one
        by_contra hno
        apply h
        have hnone : ∀ q ∈ ps, 61 ∉ q := fun q hq hmem => hno ⟨q, hq, hmem⟩
        refine List.pairwise_cons.mpr ⟨fun q hq hmem => absurd hmem (hnone q hq), ?_⟩
        exact List.pairwise_of_forall_mem_list fun _ _ q hq hmem => absurd hmem (hnone q hq)

/-- a piece has no separator, and so has its key -/
theorem piecePairs_key (htrim : ∀ x, flag ∈ trim x ↔ flag ∈ x) {str : Bytes} {e : Bytes × Bytes}
    (he : e ∈ piecePairs flag trim str) : flag ∉ e.1 := by
  obtain ⟨p, hp, hpair⟩ := List.mem_filterMap.mp he
  obtain ⟨v, -, rfl⟩ := Option.map_eq_some_iff.mp hpair
  rw [htrim]
  exact fun hmem => not_mem_of_mem_splitOn hp ((List.takeWhile_sublist _).subset hmem)

/-- a text without one of its pieces -/
theorem splitOn_without {str p : Bytes} {a b : List Bytes} (h : str.splitOn flag = a ++ p :: b) (hne : a ++ b ≠ []) :
    ([flag].intercalate (a ++ b)).splitOn flag = a ++ b := by
  apply List.splitOn_intercalate
  · intro q hq
    apply not_mem_of_mem_splitOn (l := str)
    rw [h]
    exact (List.Sublist.append_left (List.sublist_cons_self p b) a).subset hq
  · exact hne

/-- **Pieces and their neighbours.** What is claimed of the parsed pairs of a text: the map has the first of each key
of the pieces with a `=`, no parsed key has the separator, and a piece without a `=` can be left out. -/
def KeepsNeighbours (flag : UInt8) (trim : Bytes → Bytes) (str : Bytes) (m : MapType) : Prop :=
  m.Perm (keepFirst (piecePairs flag trim str)) ∧
    (∀ e ∈ parsePairs flag trim str 0, flag ∉ e.1) ∧
    ∀ a p b, str.splitOn flag = a ++ p :: b → 61 ∉ p →
      parsePairs flag trim ([flag].intercalate (a ++ b)) 0 = parsePairs flag trim str 0

theorem keepsNeighbours_iff (hflag : flag ≠ 61) (htrim : ∀ x, flag ∈ trim x ↔ flag ∈ x) (str : Bytes) :
    KeepsNeighbours flag trim str (MapType.insertAll [] (parsePairs flag trim str 0)) ↔
      ValuesFirst (str.splitOn flag) := by
  have hmerged := parsePairs_eq_merged hflag trim
  constructor
  · intro h
    by_contra hno
    obtain ⟨e, he, hmem⟩ := mergedPairs_not_valuesFirst htrim hno
    rw [← hmerged] at he
    exact h.2.1 e he hmem
  · intro h
    have hpairs : parsePairs flag trim str 0 = piecePairs flag trim str :=
      (hmerged str).trans (mergedPairs_of_valuesFirst h)
    rw [KeepsNeighbours, hpairs]
    refine ⟨insertAll_perm _, fun e he => piecePairs_key htrim he, fun a p b hsplit hp => ?_⟩
    have hwithout : piecePairs flag trim str = (a ++ b).filterMap (pairOf trim) := by
      rw [piecePairs, hsplit, List.filterMap_append, List.filterMap_cons_none (pairOf_eq_none hp),
        ← List.filterMap_append]
    rw [hwithout]
    by_cases hab : a ++ b = []
    · rw [hab, List.intercalate_nil]
      exact parsePairs_end List.not_mem_nil
    · rw [hmerged, splitOn_without hsplit hab]
      apply mergedPairs_of_valuesFirst
      rw [hsplit] at h
      exact h.sublist (List.Sublist.append_left (List.sublist_cons_self p b) a)

end

/-! ## Trimming -/

/-- the first place where a test holds is not behind another one -/
theorem findIdx_le {test : UInt8 → Bool} {a b : Bytes} {c : UInt8} {i : ℕ} (hc : test c = true)
    (h : (a ++ c :: b).findIdx? test = some i) : i ≤ a.length := by
  obtain ⟨hlt, -, hno⟩ := List.findIdx?_eq_some_iff_getElem.mp h
  by_contra hle
  have := hno a.length (Nat.lt_of_not_le hle)
  simp [hc] at this

theorem findIdx_isSome {test : UInt8 → Bool} {s : Bytes} {c : UInt8} (hc : test c = true) (hmem : c ∈ s) :
    ∃ i, s.findIdx? test = some i := by
  rw [← Option.isSome_iff_exists, List.findIdx?_isSome, List.any_eq_true]
  exact ⟨c, hmem, hc⟩

/-- a byte that is no delimiter is trimmed off at neither end -/
theorem mem_trim {str delimit : Bytes} {c : UInt8} (hc : c ∉ delimit) : c ∈ trim str delimit ↔ c ∈ str := by
  have htest : decide (c ∉ delimit) = true := decide_eq_true hc
  constructor
  · unfold trim
    split
    · exact fun h => List.mem_of_mem_drop (List.mem_of_mem_take h)
    · exact fun h => absurd h List.not_mem_nil
  · intro h
    obtain ⟨first, hfirst⟩ : ∃ i, str.findIdx? (· ∉ delimit) = some i := findIdx_isSome htest h
    obtain ⟨last, hlast⟩ : ∃ i, str.reverse.findIdx? (· ∉ delimit) = some i :=
      findIdx_isSome htest (List.mem_reverse.mpr h)
    obtain ⟨a, b, rfl⟩ := List.append_of_mem h
    have hbefore := findIdx_le htest hfirst
    have hbehind : last ≤ b.length := by
      rw [List.reverse_append, List.reverse_cons, List.append_assoc] at hlast
      have h := findIdx_le htest hlast
      rwa [List.length_reverse] at h
    have htrim : trim (a ++ c :: b) delimit =
        substr (a ++ c :: b) first ((a ++ c :: b).length - 1 - last - first + 1) := by
      rw [trim, findFirstNotOf, hfirst, findLastNotOf, hlast]
      rfl
    rw [htrim, substr]
    -- the byte is at `a.length`, between the first and the last one that are kept
    apply List.mem_of_getElem? (i := a.length - first)
    rw [List.getElem?_take, List.getElem?_drop, Nat.add_sub_cancel' hbefore, if_pos]
    · simp
    · rw [List.length_append, List.length_cons]
      omega

/-! ## Queries and cookies -/

namespace ParamRequest

theorem unparsed_initQueryParam (r : HttpRequest) :
    (unparsed r).initQueryParam.params = MapType.insertAll [] (parsePairs 38 id r.query 0) := by
  have hflag : ¬(0 : UInt8) &&& 0x1 ≠ 0 := by decide
  rw [initQueryParam]
  exact congrArg params (if_neg hflag)

theorem unparsed_initBodyParam {r : HttpRequest}
    (h : strcasestrFound ((unparsed r).getHeader (ascii "content-type"))
      (ascii "application/x-www-form-urlencoded") = true) :
    (unparsed r).initBodyParam.params = MapType.insertAll [] (parsePairs 38 id r.body 0) := by
  have hflag : ¬(0 : UInt8) &&& 0x2 ≠ 0 := by decide
  have hfresh : ¬(unparsed r).parserParamFlag &&& 0x2 ≠ 0 := hflag
  simp only [initBodyParam, hfresh, h, Bool.not_true, Bool.false_eq_true, if_false]
  rfl

/-- an empty header is parsed to nothing either way -/
theorem unparsed_initCookies (r : HttpRequest) :
    (unparsed r).initCookies.cookies =
      MapType.insertAll [] (parsePairs 59 (fun s => trim s) ((unparsed r).getHeader (ascii "cookie")) 0) := by
  have hflag : ¬(0 : UInt8) &&& 0x4 ≠ 0 := by decide
  have hfresh : ¬(unparsed r).parserParamFlag &&& 0x4 ≠ 0 := hflag
  simp only [initCookies, hfresh, if_false]
  split_ifs with hempty
  · have hend : parsePairs 59 (fun s => trim s) [] 0 = [] := parsePairs_end List.not_mem_nil
    rw [hempty, hend]
    rfl
  · rfl

end ParamRequest

/-- pairs written as a query -/
def queryText (l : List (Bytes × Bytes)) : Bytes := [38].intercalate (l.map fun e => e.1 ++ 61 :: urlEncode e.2)

theorem strcasecmpEq_of_noNul {a b : Bytes} (ha : 0 ∉ a) (hb : 0 ∉ b) :
    strcasecmpEq a b = true ↔ a.map tolower = b.map tolower := by
  rw [strcasecmpEq_iff, cstr_of_noNul ha, cstr_of_noNul hb, List.map_append, List.map_append]
  exact List.append_left_inj _

/-- every pair is a piece of the query, and is read from it -/
theorem parsePairs_queryText {l : List (Bytes × Bytes)} (hkeys : ∀ e ∈ l, 61 ∉ e.1 ∧ 38 ∉ e.1) :
    parsePairs 38 id (queryText l) 0 = l := by
  by_cases hl : l = []
  · rw [hl]
    exact parsePairs_end List.not_mem_nil
  · have hpieces : (queryText l).splitOn 38 = l.map fun e => e.1 ++ 61 :: urlEncode e.2 := by
      apply List.splitOn_intercalate
      · intro p hp
        obtain ⟨e, he, rfl⟩ := List.mem_map.mp hp
        rw [List.mem_append, List.mem_cons, not_or, not_or]
        exact ⟨(hkeys e he).2, by decide, not_mem_urlEncode e.2 true (by decide)⟩
      · rw [ne_eq, List.map_eq_nil_iff]
        exact hl
    have hvalues : ValuesFirst ((queryText l).splitOn 38) := by
      rw [hpieces, ValuesFirst]
      apply List.pairwise_of_forall_mem_list
      intro p hp _ _ _
      obtain ⟨e, -, rfl⟩ := List.mem_map.mp hp
      exact List.mem_append_right e.1 List.mem_cons_self
    have hpair : ∀ e ∈ l, pairOf id (e.1 ++ 61 :: urlEncode e.2) = some e := by
      intro e he
      have hcut : cut 61 (e.1 ++ 61 :: urlEncode e.2) = (e.1, some (urlEncode e.2)) := cut_after (hkeys e he).1 (some _)
      rw [pairOf, hcut, Option.map_some, urlDecode_urlEncode]
      rfl
    rw [parsePairs_eq_merged (by decide), mergedPairs_of_valuesFirst hvalues, hpieces, List.filterMap_map]
    calc l.filterMap (pairOf id ∘ fun e => e.1 ++ 61 :: urlEncode e.2)
      _ = l.filterMap some := List.filterMap_congr hpair
      _ = l := List.filterMap_some

/-- **Queries are read back.** Pairs whose keys are free of `=`, `&` and NUL and differ in more than case are written
as a query with their values encoded. The loop inserts exactly them, one in each pass, so the parameters are these
pairs; they are the same if the text comes as a form. -/
theorem query_roundtrip {l : List (Bytes × Bytes)} (hkeys : ∀ e ∈ l, 61 ∉ e.1 ∧ 38 ∉ e.1 ∧ 0 ∉ e.1)
    (hapart : l.Pairwise fun x y => x.1.map tolower ≠ y.1.map tolower) (r : HttpRequest) :
    let params := (ParamRequest.unparsed { r with query := queryText l }).initQueryParam.params
    parsePairs 38 id (queryText l) 0 = l ∧ params.Perm l ∧ (∀ e ∈ l, params.find e.1 = some e.2) ∧
      ∀ r' : HttpRequest, r'.body = queryText l →
        strcasestrFound ((ParamRequest.unparsed r').getHeader (ascii "content-type"))
          (ascii "application/x-www-form-urlencoded") = true →
        (ParamRequest.unparsed r').initBodyParam.params = params := by
  intro params
  have hpairs : parsePairs 38 id (queryText l) 0 = l :=
    parsePairs_queryText fun e he => ⟨(hkeys e he).1, (hkeys e he).2.1⟩
  have hparams : params = MapType.insertAll [] l := by
    rw [← hpairs]
    exact ParamRequest.unparsed_initQueryParam _
  have hfirst : keepFirst l = l := by
    apply keepFirst_of_apart
    apply hapart.imp_of_mem
    intro x y hx hy hne
    rw [Bool.eq_false_iff]
    exact fun h => hne ((strcasecmpEq_of_noNul (hkeys x hx).2.2 (hkeys y hy).2.2).mp h)
  have hperm : params.Perm l := by
    have h := insertAll_perm l
    rwa [hfirst, ← hparams] at h
  refine ⟨hpairs, hperm, fun e he => ?_, fun r' hbody hform => ?_⟩
  · have hsorted : OrdSet.Sorted entryLess params := by
      rw [hparams]
      exact MapType.sorted_insertAll List.Pairwise.nil l
    exact MapType.find_of_mem hsorted (hperm.mem_iff.mpr he) (strcasecmpEq_refl e.1)
  · rw [ParamRequest.unparsed_initBodyParam hform, hbody, hpairs, hparams]

def twoPairs : List (Bytes × Bytes) := [(ascii "a", ascii "x y&=1"), (ascii "B", [])]

theorem query_roundtrip_two :
    (ParamRequest.unparsed { query := queryText twoPairs }).initQueryParam.params.Perm twoPairs ∧
      (ParamRequest.unparsed
          { body := queryText twoPairs
            headers := [(ascii "content-type", ascii "application/x-www-form-urlencoded")] }).initBodyParam.params =
        (ParamRequest.unparsed { query := queryText twoPairs }).initQueryParam.params := by
  obtain ⟨-, hperm, -, hform⟩ := query_roundtrip (l := twoPairs) (by decide) (by decide) {}
  exact ⟨hperm, hform _ rfl (by decide +kernel)⟩

/-- **Malformed pieces and their neighbours.** The parameters of a query are those of its pieces, whatever stands
between them, exactly if no piece without a `=` stands in front of one that has it: such a piece becomes a part of the
next key. The cookies of a request are parsed in the same way. -/
theorem neighbours_iff (r : HttpRequest) :
    let cookie := (ParamRequest.unparsed r).getHeader (ascii "cookie")
    (KeepsNeighbours 38 id r.query (ParamRequest.unparsed r).initQueryParam.params ↔ ValuesFirst (r.query.splitOn 38)) ∧
      (KeepsNeighbours 59 (fun s => trim s) cookie (ParamRequest.unparsed r).initCookies.cookies ↔
        ValuesFirst (cookie.splitOn 59)) := by
  intro cookie
  rw [ParamRequest.unparsed_initQueryParam, ParamRequest.unparsed_initCookies]
  refine ⟨keepsNeighbours_iff (by decide) (fun _ => Iff.rfl) r.query, ?_⟩
  exact keepsNeighbours_iff (by decide) (fun _ => mem_trim (by decide)) cookie

/-- `a&b=1` has the one parameter `a&b` -/
theorem neighbours_merged :
    (ParamRequest.unparsed { query := ascii "a&b=1" }).initQueryParam.params = [(ascii "a&b", ascii "1")] ∧
      keepFirst (piecePairs 38 id (ascii "a&b=1")) = [(ascii "b", ascii "1")] ∧
      ¬KeepsNeighbours 38 id (ascii "a&b=1")
        (ParamRequest.unparsed { query := ascii "a&b=1" }).initQueryParam.params := by
  have hparams :
      (ParamRequest.unparsed { query := ascii "a&b=1" }).initQueryParam.params = [(ascii "a&b", ascii "1")] := by
    decide +kernel
  have hpieces : keepFirst (piecePairs 38 id (ascii "a&b=1")) = [(ascii "b", ascii "1")] := by decide +kernel
  refine ⟨hparams, hpieces, fun h => ?_⟩
  have hperm := h.1
  rw [hparams, hpieces, List.singleton_perm_singleton] at hperm
  revert hperm
  decide

end Sylar.Http
