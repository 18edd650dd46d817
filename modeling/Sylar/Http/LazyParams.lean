/-
The parameters and cookies of a request are parsed by the first call that reads them (`http.cpp`, `getParams` to
`hasCookie`).

Until then the maps hold what was set explicitly. Parsing inserts, and so what was set stays; but it knows nothing of
what was deleted. The run of a sequence of calls is compared with the run after `initParam()`, where all is parsed at
once.
- `Overlay`: what the parsed request finds is what the other one finds, or else what will be parsed.
- `answer_same`: related requests answer every call alike.
- `overlay_step`: they stay related, unless a key is deleted that is still to be parsed (`DelOk`).
- `lazy_iff`: all answers are those of the parsed request exactly along runs without such a deletion.
-/
import Mathlib.Tactic
import Sylar.Core.Run
import Sylar.Core.Words
import Sylar.Http.Params

namespace Sylar.Http

open Sylar.Core

/-! ## The calls -/

namespace ParamRequest

def getParams (r : ParamRequest) (key dflt : Bytes) : Bytes × ParamRequest :=
  let r := r.initQueryParam.initBodyParam
  ((r.params.find key).getD dflt, r)

/-- none for false, else what `*val` is set to -/
def hasParam (r : ParamRequest) (key : Bytes) : Option Bytes × ParamRequest :=
  let r := r.initQueryParam.initBodyParam
  (r.params.find key, r)

def getCookie (r : ParamRequest) (key dflt : Bytes) : Bytes × ParamRequest :=
  let r := r.initCookies
  ((r.cookies.find key).getD dflt, r)

def hasCookie (r : ParamRequest) (key : Bytes) : Option Bytes × ParamRequest :=
  let r := r.initCookies
  (r.cookies.find key, r)

def setParam (r : ParamRequest) (key val : Bytes) : ParamRequest := { r with params := MapType.assign r.params key val }

def setCookie (r : ParamRequest) (key val : Bytes) : ParamRequest :=
  { r with cookies := MapType.assign r.cookies key val }

def delParam (r : ParamRequest) (key : Bytes) : ParamRequest := { r with params := MapType.erase r.params key }

def delCookie (r : ParamRequest) (key : Bytes) : ParamRequest := { r with cookies := MapType.erase r.cookies key }

end ParamRequest

inductive ParamCall where
  | setParam (key val : Bytes)
  | delParam (key : Bytes)
  | getParams (key dflt : Bytes)
  | hasParam (key : Bytes)
  | setCookie (key val : Bytes)
  | delCookie (key : Bytes)
  | getCookie (key dflt : Bytes)
  | hasCookie (key : Bytes)
deriving DecidableEq, Repr

/-- what a call returns -/
inductive ParamAnswer where
  | done
  | text (s : Bytes)
  | found (v : Option Bytes)
deriving DecidableEq, Repr

def paramStep (r : ParamRequest) : ParamCall → ParamAnswer × ParamRequest
  | .setParam key val => (.done, r.setParam key val)
  | .delParam key => (.done, r.delParam key)
  | .getParams key dflt => (.text (r.getParams key dflt).1, (r.getParams key dflt).2)
  | .hasParam key => (.found (r.hasParam key).1, (r.hasParam key).2)
  | .setCookie key val => (.done, r.setCookie key val)
  | .delCookie key => (.done, r.delCookie key)
  | .getCookie key dflt => (.text (r.getCookie key dflt).1, (r.getCookie key dflt).2)
  | .hasCookie key => (.found (r.hasCookie key).1, (r.hasCookie key).2)

/-! ## The flags -/

/-- the flag `b` of the request is set -/
def ParamRequest.Parsed (r : ParamRequest) (b : UInt8) : Prop := r.parserParamFlag &&& b ≠ 0

instance (r : ParamRequest) (b : UInt8) : Decidable (r.Parsed b) := inferInstanceAs (Decidable (_ ≠ _))

theorem flag_or : ∀ f : UInt8, ∀ a ∈ [(1 : UInt8), 2, 4], ∀ b ∈ [(1 : UInt8), 2, 4],
    ((f ||| a) &&& b ≠ 0 ↔ a = b ∨ f &&& b ≠ 0) := forall_byte (by decide +kernel)

/-- the pairs of a form, none if the body is no form -/
def bodyPairs (r : ParamRequest) : List (Bytes × Bytes) :=
  if strcasestrFound (r.getHeader (ascii "content-type")) (ascii "application/x-www-form-urlencoded") then
    parsePairs 38 id r.body 0
  else []

def cookiePairs (r : ParamRequest) : List (Bytes × Bytes) :=
  parsePairs 59 (fun s => trim s) (r.getHeader (ascii "cookie")) 0

namespace ParamRequest

theorem initQueryParam_eq (r : ParamRequest) :
    r.initQueryParam =
      if r.Parsed 1 then r
      else
        { r with
          params := MapType.insertAll r.params (parsePairs 38 id r.query 0)
          parserParamFlag := r.parserParamFlag ||| 1 } := rfl

/-- a body that is no form has no pairs -/
theorem initBodyParam_eq (r : ParamRequest) :
    r.initBodyParam =
      if r.Parsed 2 then r
      else
        { r with params := MapType.insertAll r.params (bodyPairs r), parserParamFlag := r.parserParamFlag ||| 2 } := by
  by_cases h : r.Parsed 2
  · rw [if_pos h]
    exact if_pos h
  · rw [if_neg h, bodyPairs]
    refine (if_neg h).trans ?_
    cases strcasestrFound (r.getHeader (ascii "content-type")) (ascii "application/x-www-form-urlencoded") <;> rfl

/-- neither has an empty header -/
theorem initCookies_eq (r : ParamRequest) :
    r.initCookies =
      if r.Parsed 4 then r
      else
        { r with
          cookies := MapType.insertAll r.cookies (cookiePairs r), parserParamFlag := r.parserParamFlag ||| 4 } := by
  by_cases h : r.Parsed 4
  · rw [if_pos h]
    exact if_pos h
  · rw [if_neg h, cookiePairs]
    refine (if_neg h).trans ?_
    dsimp only
    split_ifs with hempty
    · have hend : parsePairs 59 (fun s => trim s) [] 0 = [] := parsePairs_end List.not_mem_nil
      rw [hempty, hend]
      rfl
    · rfl

/-- the request with its parameters parsed, as the first call that reads one leaves it -/
def readParams (r : ParamRequest) : ParamRequest := r.initQueryParam.initBodyParam

/-- what reading the parameters of `s` does to it -/
structure ReadParams (s s' : ParamRequest) : Prop where
  request : s'.toHttpRequest = s.toHttpRequest
  cookies : s'.cookies = s.cookies
  cookiesParsed : s'.Parsed 4 ↔ s.Parsed 4
  queryParsed : s'.Parsed 1
  bodyParsed : s'.Parsed 2
  sorted : OrdSet.Sorted entryLess s'.params
  find : ∀ k, MapType.find s'.params k =
    (MapType.find s.params k).or
      (if s.Parsed 1 then none else MapType.find (unparsed s.toHttpRequest).readParams.params k)

theorem readParams_of_parsed {s : ParamRequest} (h1 : s.Parsed 1) (h2 : s.Parsed 2) : s.readParams = s := by
  rw [readParams, initQueryParam_eq, if_pos h1, initBodyParam_eq, if_pos h2]

theorem readParams_of_unparsed {s : ParamRequest} (h1 : ¬s.Parsed 1) (h2 : ¬s.Parsed 2) :
    s.readParams =
      { s with
        params := MapType.insertAll (MapType.insertAll s.params (parsePairs 38 id s.query 0)) (bodyPairs s)
        parserParamFlag := s.parserParamFlag ||| 1 ||| 2 } := by
  have h2' : ¬(s.parserParamFlag ||| 1) &&& 2 ≠ 0 := by
    rw [flag_or _ 1 (by decide) 2 (by decide)]
    exact not_or.mpr ⟨by decide, h2⟩
  rw [readParams, initQueryParam_eq, if_neg h1, initBodyParam_eq]
  exact if_neg h2'

theorem readParams_spec {s : ParamRequest} (hboth : s.Parsed 1 ↔ s.Parsed 2) (hs : OrdSet.Sorted entryLess s.params) :
    ReadParams s s.readParams := by
  by_cases h1 : s.Parsed 1
  · rw [readParams_of_parsed h1 (hboth.mp h1)]
    refine ⟨rfl, rfl, Iff.rfl, h1, hboth.mp h1, hs, fun k => ?_⟩
    rw [if_pos h1, Option.or_none]
  · have h2 : ¬s.Parsed 2 := fun h => h1 (hboth.mpr h)
    have hfresh : ∀ b, ¬(unparsed s.toHttpRequest).Parsed b := fun b h => h UInt8.zero_and
    rw [readParams_of_unparsed h1 h2]
    refine ⟨rfl, rfl, ?_, ?_, ?_, ?_, fun k => ?_⟩
    · apply ((flag_or _ 2 (by decide) 4 (by decide)).trans (or_iff_right (by decide))).trans
      exact (flag_or _ 1 (by decide) 4 (by decide)).trans (or_iff_right (by decide))
    · apply (flag_or _ 2 (by decide) 1 (by decide)).mpr
      exact Or.inr ((flag_or _ 1 (by decide) 1 (by decide)).mpr (Or.inl rfl))
    · exact (flag_or _ 2 (by decide) 2 (by decide)).mpr (Or.inl rfl)
    · exact MapType.sorted_insertAll (MapType.sorted_insertAll hs _) _
    · -- what is there, then the query, then the body
      have hfind : ∀ m : MapType, OrdSet.Sorted entryLess m →
          ((m.insertAll (parsePairs 38 id s.query 0)).insertAll (bodyPairs s)).find k =
            (m.find k).or (((MapType.insertAll [] (parsePairs 38 id s.query 0)).find k).or
              ((MapType.insertAll [] (bodyPairs s)).find k)) := by
        intro m hm
        rw [MapType.find_insertAll (MapType.sorted_insertAll hm _), MapType.find_insertAll hm, Option.or_assoc]
      rw [if_neg h1, readParams_of_unparsed (hfresh 1) (hfresh 2)]
      exact (hfind s.params hs).trans (congrArg _ (hfind [] List.Pairwise.nil).symm)

theorem initCookies_of_parsed {s : ParamRequest} (h : s.Parsed 4) : s.initCookies = s := by
  rw [initCookies_eq, if_pos h]

/-- the same for the cookies -/
structure ReadCookies (s s' : ParamRequest) : Prop where
  request : s'.toHttpRequest = s.toHttpRequest
  params : s'.params = s.params
  paramsParsed : (s'.Parsed 1 ↔ s.Parsed 1) ∧ (s'.Parsed 2 ↔ s.Parsed 2)
  parsed : s'.Parsed 4
  sorted : OrdSet.Sorted entryLess s'.cookies
  find : ∀ k, MapType.find s'.cookies k =
    (MapType.find s.cookies k).or
      (if s.Parsed 4 then none else MapType.find (unparsed s.toHttpRequest).initCookies.cookies k)

theorem readCookies_spec {s : ParamRequest} (hs : OrdSet.Sorted entryLess s.cookies) : ReadCookies s s.initCookies := by
  by_cases h : s.Parsed 4
  · rw [initCookies_of_parsed h]
    refine ⟨rfl, rfl, ⟨Iff.rfl, Iff.rfl⟩, h, hs, fun k => ?_⟩
    rw [if_pos h, Option.or_none]
  · have hfresh : ¬(unparsed s.toHttpRequest).Parsed 4 := fun h => h UInt8.zero_and
    rw [initCookies_eq, if_neg h]
    refine ⟨rfl, rfl, ⟨?_, ?_⟩, ?_, MapType.sorted_insertAll hs _, fun k => ?_⟩
    · exact (flag_or _ 4 (by decide) 1 (by decide)).trans (or_iff_right (by decide))
    · exact (flag_or _ 4 (by decide) 2 (by decide)).trans (or_iff_right (by decide))
    · exact (flag_or _ 4 (by decide) 4 (by decide)).mpr (Or.inl rfl)
    · rw [if_neg h, initCookies_eq, if_neg hfresh]
      exact MapType.find_insertAll hs _ k

end ParamRequest

/-! ## What is set, and what will be parsed -/

/-- the parameters and the cookies of a request with none set, once they are parsed -/
def parsedRequest (r : HttpRequest) : ParamRequest := (ParamRequest.unparsed r).initParam

/-- **Overlay.** `t` has all parsed. What it finds is what `s` finds, or else what `s` is still to parse. -/
structure Overlay (r : HttpRequest) (s t : ParamRequest) : Prop where
  request : s.toHttpRequest = r
  parsed : t.Parsed 1 ∧ t.Parsed 2 ∧ t.Parsed 4
  both : s.Parsed 1 ↔ s.Parsed 2
  sortedS : OrdSet.Sorted entryLess s.params ∧ OrdSet.Sorted entryLess s.cookies
  sortedT : OrdSet.Sorted entryLess t.params ∧ OrdSet.Sorted entryLess t.cookies
  params : ∀ k, MapType.find t.params k =
    (MapType.find s.params k).or (if s.Parsed 1 then none else MapType.find (parsedRequest r).params k)
  cookies : ∀ k, MapType.find t.cookies k =
    (MapType.find s.cookies k).or (if s.Parsed 4 then none else MapType.find (parsedRequest r).cookies k)

/-- a deletion comes after the parsing, or its key is not parsed -/
def DelOk (s : ParamRequest) : ParamCall → Prop
  | .delParam key => s.Parsed 1 ∨ MapType.find (parsedRequest s.toHttpRequest).params key = none
  | .delCookie key => s.Parsed 4 ∨ MapType.find (parsedRequest s.toHttpRequest).cookies key = none
  | _ => True

instance (s : ParamRequest) : ∀ c, Decidable (DelOk s c)
  | .delParam _ => inferInstanceAs (Decidable (_ ∨ _))
  | .delCookie _ => inferInstanceAs (Decidable (_ ∨ _))
  | .setParam _ _ | .getParams _ _ | .hasParam _ | .setCookie _ _ | .getCookie _ _ | .hasCookie _ => isTrue trivial

theorem unparsed_not_parsed (r : HttpRequest) (b : UInt8) :
    ¬(ParamRequest.unparsed r).Parsed b :=
  fun h => h UInt8.zero_and

theorem unparsed_readParams (r : HttpRequest) :
    ParamRequest.ReadParams (.unparsed r) (ParamRequest.unparsed r).readParams :=
  ParamRequest.readParams_spec
    (iff_of_false (unparsed_not_parsed r 1) (unparsed_not_parsed r 2)) List.Pairwise.nil

theorem unparsed_readCookies (r : HttpRequest) :
    ParamRequest.ReadCookies (ParamRequest.unparsed r).readParams (parsedRequest r) := by
  apply ParamRequest.readCookies_spec
  rw [(unparsed_readParams r).cookies]
  exact List.Pairwise.nil

theorem parsedRequest_params (r : HttpRequest) :
    (parsedRequest r).params = (ParamRequest.unparsed r).readParams.params :=
  (unparsed_readCookies r).params

theorem parsedRequest_cookies (r : HttpRequest) (k : Bytes) :
    MapType.find (parsedRequest r).cookies k = MapType.find (ParamRequest.unparsed r).initCookies.cookies k := by
  have hread := unparsed_readParams r
  have hnot : ¬(ParamRequest.unparsed r).readParams.Parsed 4 :=
    fun h => unparsed_not_parsed r 4 (hread.cookiesParsed.mp h)
  rw [(unparsed_readCookies r).find, hread.cookies, hread.request, if_neg hnot]
  rfl

theorem parsedRequest_sorted (r : HttpRequest) :
    OrdSet.Sorted entryLess (parsedRequest r).params ∧ OrdSet.Sorted entryLess (parsedRequest r).cookies := by
  rw [parsedRequest_params]
  exact ⟨(unparsed_readParams r).sorted, (unparsed_readCookies r).sorted⟩

theorem overlay_init (r : HttpRequest) : Overlay r (.unparsed r) (parsedRequest r) where
  request := rfl
  parsed := by
    have hread := unparsed_readParams r
    have hcookies := unparsed_readCookies r
    exact ⟨hcookies.paramsParsed.1.mpr hread.queryParsed, hcookies.paramsParsed.2.mpr hread.bodyParsed, hcookies.parsed⟩
  both := iff_of_false (unparsed_not_parsed r 1) (unparsed_not_parsed r 2)
  sortedS := ⟨List.Pairwise.nil, List.Pairwise.nil⟩
  sortedT := parsedRequest_sorted r
  params := by
    intro k
    rw [if_neg (unparsed_not_parsed r 1)]
    rfl
  cookies := by
    intro k
    rw [if_neg (unparsed_not_parsed r 4)]
    rfl

section

variable {r : HttpRequest} {s t : ParamRequest}

/-- reading the parameters finds what the parsed request finds -/
theorem Overlay.find_params (h : Overlay r s t) (k : Bytes) :
    MapType.find s.readParams.params k = MapType.find t.params k := by
  rw [(ParamRequest.readParams_spec h.both h.sortedS.1).find, h.params, parsedRequest_params, h.request]

theorem Overlay.find_cookies (h : Overlay r s t) (k : Bytes) :
    MapType.find s.initCookies.cookies k = MapType.find t.cookies k := by
  rw [(ParamRequest.readCookies_spec h.sortedS.2).find, h.cookies, parsedRequest_cookies, h.request]

theorem Overlay.readParams_parsed (h : Overlay r s t) : t.readParams = t :=
  ParamRequest.readParams_of_parsed h.parsed.1 h.parsed.2.1

theorem Overlay.initCookies_parsed (h : Overlay r s t) : t.initCookies = t :=
  ParamRequest.initCookies_of_parsed h.parsed.2.2

/-- related requests answer alike, also a deletion, which answers nothing -/
theorem answer_same (h : Overlay r s t) (c : ParamCall) : (paramStep s c).1 = (paramStep t c).1 := by
  cases c with
  | setParam key val => rfl
  | delParam key => rfl
  | setCookie key val => rfl
  | delCookie key => rfl
  | getParams key dflt =>
    have hfind := h.find_params key
    rw [← h.readParams_parsed] at hfind
    exact congrArg (fun v => ParamAnswer.text (v.getD dflt)) hfind
  | hasParam key =>
    have hfind := h.find_params key
    rw [← h.readParams_parsed] at hfind
    exact congrArg ParamAnswer.found hfind
  | getCookie key dflt =>
    have hfind := h.find_cookies key
    rw [← h.initCookies_parsed] at hfind
    exact congrArg (fun v => ParamAnswer.text (v.getD dflt)) hfind
  | hasCookie key =>
    have hfind := h.find_cookies key
    rw [← h.initCookies_parsed] at hfind
    exact congrArg ParamAnswer.found hfind

theorem Overlay.read_params (h : Overlay r s t) : Overlay r s.readParams t := by
  have hread := ParamRequest.readParams_spec h.both h.sortedS.1
  refine ⟨hread.request.trans h.request, h.parsed, iff_of_true hread.queryParsed hread.bodyParsed, ?_, h.sortedT,
    fun k => ?_, fun k => ?_⟩
  · rw [hread.cookies]
    exact ⟨hread.sorted, h.sortedS.2⟩
  · rw [if_pos hread.queryParsed, Option.or_none, h.find_params]
  · rw [hread.cookies, h.cookies]
    simp only [hread.cookiesParsed]

theorem Overlay.read_cookies (h : Overlay r s t) : Overlay r s.initCookies t := by
  have hread := ParamRequest.readCookies_spec h.sortedS.2
  refine ⟨hread.request.trans h.request, h.parsed, ?_, ?_, h.sortedT, fun k => ?_, fun k => ?_⟩
  · rw [hread.paramsParsed.1, hread.paramsParsed.2]
    exact h.both
  · rw [hread.params]
    exact ⟨h.sortedS.1, hread.sorted⟩
  · rw [hread.params, h.params]
    simp only [hread.paramsParsed.1]
  · rw [if_pos hread.parsed, Option.or_none, h.find_cookies]

/-- an entry that is set hides what will be parsed under its key -/
theorem overlay_assign {m m' : MapType} {later : Bytes → Option Bytes} (hm : OrdSet.Sorted entryLess m)
    (hm' : OrdSet.Sorted entryLess m') (h : ∀ k, m'.find k = (m.find k).or (later k)) (key val k : Bytes) :
    (m'.assign key val).find k = ((m.assign key val).find k).or (later k) := by
  rw [MapType.find_assign hm', MapType.find_assign hm]
  split_ifs
  · rfl
  · exact h k

/-- what is erased stays away if it will not be parsed -/
theorem overlay_erase {m m' : MapType} {later : Bytes → Option Bytes} (hm : OrdSet.Sorted entryLess m)
    (hm' : OrdSet.Sorted entryLess m') (h : ∀ k, m'.find k = (m.find k).or (later k)) {key : Bytes}
    (hkey : ∀ k, strcasecmpEq key k = true → later k = none) (k : Bytes) :
    (m'.erase key).find k = ((m.erase key).find k).or (later k) := by
  rw [MapType.find_erase hm', MapType.find_erase hm]
  split_ifs with hk
  · rw [hkey k hk]
    rfl
  · exact h k

theorem later_eq_none {m : MapType} (hm : OrdSet.Sorted entryLess m) {p : Prop} [Decidable p] {key k : Bytes}
    (hok : p ∨ m.find key = none) (hk : strcasecmpEq key k = true) : (if p then none else m.find k) = none := by
  split_ifs with hp
  · rfl
  · rw [← MapType.find_congr hm hk]
    exact hok.resolve_left hp

/-- **Step.** Related requests stay related, unless a key is deleted that is still to be parsed. -/
theorem overlay_step (h : Overlay r s t) {c : ParamCall} (hok : DelOk s c) :
    Overlay r (paramStep s c).2 (paramStep t c).2 := by
  cases c with
  | setParam key val =>
    refine ⟨h.request, h.parsed, h.both, ⟨MapType.sorted_assign h.sortedS.1 key val, h.sortedS.2⟩,
      ⟨MapType.sorted_assign h.sortedT.1 key val, h.sortedT.2⟩, fun k => ?_, h.cookies⟩
    exact overlay_assign h.sortedS.1 h.sortedT.1 h.params key val k
  | delParam key =>
    refine ⟨h.request, h.parsed, h.both, ⟨MapType.sorted_erase h.sortedS.1 key, h.sortedS.2⟩,
      ⟨MapType.sorted_erase h.sortedT.1 key, h.sortedT.2⟩, fun k => ?_, h.cookies⟩
    refine overlay_erase h.sortedS.1 h.sortedT.1 h.params (fun k hk => ?_) k
    rw [DelOk, h.request] at hok
    exact later_eq_none (parsedRequest_sorted r).1 hok hk
  | setCookie key val =>
    refine ⟨h.request, h.parsed, h.both, ⟨h.sortedS.1, MapType.sorted_assign h.sortedS.2 key val⟩,
      ⟨h.sortedT.1, MapType.sorted_assign h.sortedT.2 key val⟩, h.params, fun k => ?_⟩
    exact overlay_assign h.sortedS.2 h.sortedT.2 h.cookies key val k
  | delCookie key =>
    refine ⟨h.request, h.parsed, h.both, ⟨h.sortedS.1, MapType.sorted_erase h.sortedS.2 key⟩,
      ⟨h.sortedT.1, MapType.sorted_erase h.sortedT.2 key⟩, h.params, fun k => ?_⟩
    refine overlay_erase h.sortedS.2 h.sortedT.2 h.cookies (fun k hk => ?_) k
    rw [DelOk, h.request] at hok
    exact later_eq_none (parsedRequest_sorted r).2 hok hk
  | getParams key dflt =>
    have hread := h.read_params
    rw [← h.readParams_parsed] at hread
    exact hread
  | hasParam key =>
    have hread := h.read_params
    rw [← h.readParams_parsed] at hread
    exact hread
  | getCookie key dflt =>
    have hread := h.read_cookies
    rw [← h.initCookies_parsed] at hread
    exact hread
  | hasCookie key =>
    have hread := h.read_cookies
    rw [← h.initCookies_parsed] at hread
    exact hread

end

/-! ## A request with all parsed -/

structure Settled (t : ParamRequest) : Prop where
  parsed : t.Parsed 1 ∧ t.Parsed 2 ∧ t.Parsed 4
  sorted : OrdSet.Sorted entryLess t.params ∧ OrdSet.Sorted entryLess t.cookies

section

variable {t : ParamRequest}

theorem Settled.readParams (h : Settled t) : t.readParams = t :=
  ParamRequest.readParams_of_parsed h.parsed.1 h.parsed.2.1

theorem Settled.initCookies (h : Settled t) : t.initCookies = t := ParamRequest.initCookies_of_parsed h.parsed.2.2

/-- a call sets or deletes, or leaves the request as it is -/
theorem settled_cases (h : Settled t) (c : ParamCall) :
    (∃ key val, c = .setParam key val) ∨ (∃ key, c = .delParam key) ∨ (∃ key val, c = .setCookie key val) ∨
      (∃ key, c = .delCookie key) ∨ (paramStep t c).2 = t := by
  cases c with
  | setParam key val => exact Or.inl ⟨key, val, rfl⟩
  | delParam key => exact Or.inr (Or.inl ⟨key, rfl⟩)
  | setCookie key val => exact Or.inr (Or.inr (Or.inl ⟨key, val, rfl⟩))
  | delCookie key => exact Or.inr (Or.inr (Or.inr (Or.inl ⟨key, rfl⟩)))
  | getParams key dflt => exact Or.inr (Or.inr (Or.inr (Or.inr h.readParams)))
  | hasParam key => exact Or.inr (Or.inr (Or.inr (Or.inr h.readParams)))
  | getCookie key dflt => exact Or.inr (Or.inr (Or.inr (Or.inr h.initCookies)))
  | hasCookie key => exact Or.inr (Or.inr (Or.inr (Or.inr h.initCookies)))

theorem settled_step (h : Settled t) (c : ParamCall) : Settled (paramStep t c).2 := by
  obtain ⟨key, val, rfl⟩ | ⟨key, rfl⟩ | ⟨key, val, rfl⟩ | ⟨key, rfl⟩ | hsame := settled_cases h c
  · exact ⟨h.parsed, MapType.sorted_assign h.sorted.1 key val, h.sorted.2⟩
  · exact ⟨h.parsed, MapType.sorted_erase h.sorted.1 key, h.sorted.2⟩
  · exact ⟨h.parsed, h.sorted.1, MapType.sorted_assign h.sorted.2 key val⟩
  · exact ⟨h.parsed, h.sorted.1, MapType.sorted_erase h.sorted.2 key⟩
  · rw [hsame]
    exact h

theorem find_assign_none {m : MapType} (hm : OrdSet.Sorted entryLess m) {key k : Bytes} (hk : m.find k = none)
    (hkey : strcasecmpEq key k = false) (val : Bytes) : (m.assign key val).find k = none := by
  rw [MapType.find_assign hm, hkey, hk]
  rfl

theorem find_erase_none {m : MapType} (hm : OrdSet.Sorted entryLess m) {k : Bytes} (hk : m.find k = none)
    (key : Bytes) :
    (m.erase key).find k = none := by
  rw [MapType.find_erase hm, hk, ite_self]

/-- a parameter that is not there comes only with a call that sets it -/
theorem settled_no_param (h : Settled t) {k : Bytes} (hk : MapType.find t.params k = none) {c : ParamCall}
    (hc : ∀ key val, c = .setParam key val → strcasecmpEq key k = false) :
    MapType.find (paramStep t c).2.params k = none := by
  obtain ⟨key, val, rfl⟩ | ⟨key, rfl⟩ | ⟨key, val, rfl⟩ | ⟨key, rfl⟩ | hsame := settled_cases h c
  · exact find_assign_none h.sorted.1 hk (hc key val rfl) val
  · exact find_erase_none h.sorted.1 hk key
  · exact hk
  · exact hk
  · rw [hsame]
    exact hk

theorem settled_no_cookie (h : Settled t) {k : Bytes} (hk : MapType.find t.cookies k = none) {c : ParamCall}
    (hc : ∀ key val, c = .setCookie key val → strcasecmpEq key k = false) :
    MapType.find (paramStep t c).2.cookies k = none := by
  obtain ⟨key, val, rfl⟩ | ⟨key, rfl⟩ | ⟨key, val, rfl⟩ | ⟨key, rfl⟩ | hsame := settled_cases h c
  · exact hk
  · exact hk
  · exact find_assign_none h.sorted.2 hk (hc key val rfl) val
  · exact find_erase_none h.sorted.2 hk key
  · rw [hsame]
    exact hk

end

/-! ## Runs -/

/-- the calls are answered as if `initParam()` had been called before the first one -/
def SameAnswers (r : HttpRequest) (calls : List ParamCall) : Prop :=
  (runOut paramStep (.unparsed r) calls).1 = (runOut paramStep (ParamRequest.unparsed r).initParam calls).1

instance (r : HttpRequest) (calls : List ParamCall) : Decidable (SameAnswers r calls) :=
  inferInstanceAs (Decidable (_ = _))

/-- what is deleted and not set again is not found -/
def StaysDeleted (r : HttpRequest) (calls : List ParamCall) : Prop :=
  (∀ pre k post, calls = pre ++ .delParam k :: post → (∀ k' v, .setParam k' v ∈ post → strcasecmpEq k' k = false) →
    (∀ d, ((runOut paramStep (.unparsed r) calls).2.getParams k d).1 = d) ∧
      ((runOut paramStep (.unparsed r) calls).2.hasParam k).1 = none) ∧
  ∀ pre k post, calls = pre ++ .delCookie k :: post → (∀ k' v, .setCookie k' v ∈ post → strcasecmpEq k' k = false) →
    (∀ d, ((runOut paramStep (.unparsed r) calls).2.getCookie k d).1 = d) ∧
      ((runOut paramStep (.unparsed r) calls).2.hasCookie k).1 = none

/-- **Lazy parsing cannot be seen.** However the calls go on after any part of them, all answers are those of the
parsed request, and what is deleted stays away. -/
def Unobservable (r : HttpRequest) (calls : List ParamCall) : Prop :=
  (∀ pre, pre <+: calls → ∀ c, SameAnswers r (pre ++ [c])) ∧ StaysDeleted r calls

theorem overlay_run (r : HttpRequest) {calls : List ParamCall}
    (h : Along DelOk (fun s c => (paramStep s c).2) (.unparsed r) calls) :
    (runOut paramStep (ParamRequest.unparsed r).initParam calls).1 = (runOut paramStep (.unparsed r) calls).1 ∧
      Overlay r (runOut paramStep (.unparsed r) calls).2
        (runOut paramStep (ParamRequest.unparsed r).initParam calls).2 := by
  exact runOut_sim (R := fun t s => Overlay r s t)
    (fun t s c hok h => ⟨(answer_same h c).symm, overlay_step h hok⟩) calls (overlay_init r) h

/-- the last answer of a run -/
theorem sameAnswers_last {r : HttpRequest} {calls : List ParamCall} {c : ParamCall} (h : SameAnswers r (calls ++ [c])) :
    (paramStep (runOut paramStep (.unparsed r) calls).2 c).1 =
      (paramStep (runOut paramStep (ParamRequest.unparsed r).initParam calls).2 c).1 := by
  rw [SameAnswers, runOut_append, runOut_append] at h
  exact (List.cons.inj (List.append_inj' h rfl).2).1

theorem Overlay.settled {r : HttpRequest} {s t : ParamRequest} (h : Overlay r s t) : Settled t := ⟨h.parsed, h.sortedT⟩

/-- the answers about a parameter that is not there -/
theorem Overlay.no_param {r : HttpRequest} {s t : ParamRequest} (h : Overlay r s t) {k : Bytes}
    (hk : MapType.find t.params k = none) : (∀ d, (s.getParams k d).1 = d) ∧ (s.hasParam k).1 = none := by
  have hfind : MapType.find s.readParams.params k = none := (h.find_params k).trans hk
  exact ⟨fun d => congrArg (·.getD d) hfind, hfind⟩

theorem Overlay.no_cookie {r : HttpRequest} {s t : ParamRequest} (h : Overlay r s t) {k : Bytes}
    (hk : MapType.find t.cookies k = none) : (∀ d, (s.getCookie k d).1 = d) ∧ (s.hasCookie k).1 = none := by
  have hfind : MapType.find s.initCookies.cookies k = none := (h.find_cookies k).trans hk
  exact ⟨fun d => congrArg (·.getD d) hfind, hfind⟩

theorem run_no_param {t : ParamRequest} (h : Settled t) {k : Bytes} (hk : MapType.find t.params k = none)
    {post : List ParamCall} (hset : ∀ key val, .setParam key val ∈ post → strcasecmpEq key k = false) :
    MapType.find (run (fun s c => (paramStep s c).2) t post).params k = none := by
  have halong : Along (fun _ c => ∀ key val, c = .setParam key val → strcasecmpEq key k = false)
      (fun s c => (paramStep s c).2) t post := by
    apply Along.of_forall
    intro c hc key val he
    rw [he] at hc
    exact hset key val hc
  have hrun := run_inv (P := fun t => Settled t ∧ MapType.find t.params k = none)
    (fun t c hc ht => ⟨settled_step ht.1 c, settled_no_param ht.1 ht.2 hc⟩) post ⟨h, hk⟩ halong
  exact hrun.2

theorem run_no_cookie {t : ParamRequest} (h : Settled t) {k : Bytes} (hk : MapType.find t.cookies k = none)
    {post : List ParamCall} (hset : ∀ key val, .setCookie key val ∈ post → strcasecmpEq key k = false) :
    MapType.find (run (fun s c => (paramStep s c).2) t post).cookies k = none := by
  have halong : Along (fun _ c => ∀ key val, c = .setCookie key val → strcasecmpEq key k = false)
      (fun s c => (paramStep s c).2) t post := by
    apply Along.of_forall
    intro c hc key val he
    rw [he] at hc
    exact hset key val hc
  have hrun := run_inv (P := fun t => Settled t ∧ MapType.find t.cookies k = none)
    (fun t c hc ht => ⟨settled_step ht.1 c, settled_no_cookie ht.1 ht.2 hc⟩) post ⟨h, hk⟩ halong
  exact hrun.2

theorem staysDeleted {r : HttpRequest} {calls : List ParamCall}
    (h : Along DelOk (fun s c => (paramStep s c).2) (.unparsed r) calls) : StaysDeleted r calls := by
  have hover := (overlay_run r h).2
  refine ⟨fun pre k post hcalls hset => hover.no_param ?_, fun pre k post hcalls hset => hover.no_cookie ?_⟩
  · subst hcalls
    have hpre := (overlay_run r h.append.1).2.settled
    rw [runOut_snd] at hpre
    rw [runOut_snd, run_append, run_cons]
    apply run_no_param (settled_step hpre (.delParam k)) _ hset
    exact (MapType.find_erase hpre.sorted.1 k k).trans (if_pos (strcasecmpEq_refl k))
  · subst hcalls
    have hpre := (overlay_run r h.append.1).2.settled
    rw [runOut_snd] at hpre
    rw [runOut_snd, run_append, run_cons]
    apply run_no_cookie (settled_step hpre (.delCookie k)) _ hset
    exact (MapType.find_erase hpre.sorted.2 k k).trans (if_pos (strcasecmpEq_refl k))

/-- a read after a deletion tells whether the key is still to be parsed -/
theorem delOk_of_sameAnswers {r : HttpRequest} {s t : ParamRequest} (hover : Overlay r s t) {c : ParamCall}
    (h : ∀ c', (paramStep (paramStep s c).2 c').1 = (paramStep (paramStep t c).2 c').1) : DelOk s c := by
  cases c with
  | delParam key =>
    have hsettled := settled_step hover.settled (.delParam key)
    have heager : MapType.find (t.delParam key).readParams.params key = none := by
      have hsame : (t.delParam key).readParams = t.delParam key := hsettled.readParams
      rw [hsame]
      exact (MapType.find_erase hover.sortedT.1 key key).trans (if_pos (strcasecmpEq_refl key))
    have hlazy : MapType.find (s.delParam key).readParams.params key = none :=
      (ParamAnswer.found.inj (h (.hasParam key))).trans heager
    rw [(ParamRequest.readParams_spec (s := s.delParam key) hover.both (MapType.sorted_erase hover.sortedS.1 key)).find,
      Option.or_eq_none_iff, ← parsedRequest_params] at hlazy
    by_cases hparsed : s.Parsed 1
    · exact Or.inl hparsed
    · exact Or.inr ((if_neg hparsed).symm.trans hlazy.2)
  | delCookie key =>
    have hsettled := settled_step hover.settled (.delCookie key)
    have heager : MapType.find (t.delCookie key).initCookies.cookies key = none := by
      have hsame : (t.delCookie key).initCookies = t.delCookie key := hsettled.initCookies
      rw [hsame]
      exact (MapType.find_erase hover.sortedT.2 key key).trans (if_pos (strcasecmpEq_refl key))
    have hlazy : MapType.find (s.delCookie key).initCookies.cookies key = none :=
      (ParamAnswer.found.inj (h (.hasCookie key))).trans heager
    rw [(ParamRequest.readCookies_spec (s := s.delCookie key) (MapType.sorted_erase hover.sortedS.2 key)).find,
      Option.or_eq_none_iff, ← parsedRequest_cookies] at hlazy
    by_cases hparsed : s.Parsed 4
    · exact Or.inl hparsed
    · exact Or.inr ((if_neg hparsed).symm.trans hlazy.2)
  | _ => exact trivial

/-- **Lazy parsing.** However a request is read, set and deleted from, all answers are those of the request that has
parsed its parameters and cookies at the start, exactly if every deletion comes after the first read, or is of a key
that is not parsed: the first read inserts a key that was deleted before it again. -/
theorem lazy_iff (r : HttpRequest) (calls : List ParamCall) :
    Unobservable r calls ↔ Along DelOk (fun s c => (paramStep s c).2) (.unparsed r) calls := by
  constructor
  · intro h
    apply along_of_prefixes
    intro pre c hpre hok
    have hover := (overlay_run r hok).2
    have hlast : ∀ c', (paramStep (paramStep (runOut paramStep (.unparsed r) pre).2 c).2 c').1 =
        (paramStep (paramStep (runOut paramStep (ParamRequest.unparsed r).initParam pre).2 c).2 c').1 := by
      intro c'
      have h2 := sameAnswers_last (h.1 (pre ++ [c]) hpre c')
      rwa [runOut_append, runOut_append] at h2
    rw [← runOut_snd]
    exact delOk_of_sameAnswers hover hlast
  · intro h
    refine ⟨fun pre hpre c => ?_, staysDeleted h⟩
    obtain ⟨suf, rfl⟩ := hpre
    obtain ⟨hanswers, hover⟩ := overlay_run r h.append.1
    rw [SameAnswers, runOut_append, runOut_append, hanswers]
    exact congrArg (fun a => _ ++ [a]) (answer_same hover c)

/-- a parameter that is deleted first is read with the value of the query -/
theorem deleted_comes_back :
    (runOut paramStep (.unparsed { query := ascii "a=1" })
        [.delParam (ascii "a"), .getParams (ascii "a") (ascii "d"), .hasParam (ascii "a")]).1 =
      [.done, .text (ascii "1"), .found (some (ascii "1"))] ∧
    (runOut paramStep (ParamRequest.unparsed { query := ascii "a=1" }).initParam
        [.delParam (ascii "a"), .getParams (ascii "a") (ascii "d"), .hasParam (ascii "a")]).1 =
      [.done, .text (ascii "d"), .found none] ∧
    ¬SameAnswers { query := ascii "a=1" }
      [.delParam (ascii "a"), .getParams (ascii "a") (ascii "d"), .hasParam (ascii "a")] := by
  decide +kernel

end Sylar.Http
