/-
What `Uri::Create` extracts, against the parts of RFC 3986.

A `Uri` has a string for every part and a number for the port, so an absent part and an empty one are the same to it.
`Parts.ofUri` reads the fields that way, and `recompose` writes them down again by the rule of section 5.3.
- `recompose_iff`: the text comes back just if its parts are such that nothing is lost (`Parts.Kept`): a path only
  behind scheme and authority, no empty user, query, fragment or authority, no colon followed by a digit in the user,
  and a port that is written as a positive `int` is.
- `parts_lost`: a relative reference loses its path, a user its name before a number.
-/
import Mathlib.Tactic
import Sylar.Core.Text
import Sylar.Uri.Machine
import Sylar.Uri.Parts
import Sylar.Uri.Reading
import Sylar.Uri.Transitions

namespace Sylar.Uri

open Sylar.Core Sylar.Http

/-- `std::to_string` -/
def intText (n : ℤ) : Bytes := if n < 0 then byte '-' :: decimal (-n).toNat else decimal n.toNat

/-- an empty field is an absent part -/
def present (x : Bytes) : Option Bytes := if x = [] then none else some x

def Parts.ofUri (u : Uri) : Parts where
  scheme := present u.scheme
  authority :=
    if u.userinfo = [] ∧ u.host = [] ∧ u.port = 0 then none
    else some ⟨present u.userinfo, u.host, if u.port = 0 then none else some (intText u.port)⟩
  path := u.path
  query := present u.query
  fragment := present u.fragment

def recompose (u : Uri) : Bytes := (Parts.ofUri u).text

/-- the byte behind the first colon is a digit -/
def ColonDigit (x : Bytes) : Prop := ∃ t, (cut (byte ':') x).2 = some t ∧ t.head?.any digit = true

structure Authority.Kept (a : Authority) : Prop where
  userinfo : ∀ x ∈ a.userinfo, x ≠ [] ∧ ¬ ColonDigit x
  port : ∀ x ∈ a.port, ∃ n, 0 < n ∧ n < 2147483648 ∧ x = decimal n
  nonempty : a.userinfo.isSome ∨ a.host ≠ [] ∨ a.port.isSome

/-- nothing of these parts is lost -/
structure Parts.Kept (p : Parts) : Prop where
  path : p.path = [] ∨ (p.scheme.isSome ∧ p.authority.isSome)
  authority : ∀ a ∈ p.authority, a.Kept
  query : p.query ≠ some []
  fragment : p.fragment ≠ some []

/-! ## Fields and parts -/

theorem present_getD {x : Option Bytes} : present (x.getD []) = x ↔ x ≠ some [] := by
  unfold present
  cases x with
  | none => simp
  | some y => by_cases hy : y = [] <;> simp [hy]

theorem present_eq_some {x y : Bytes} : present x = some y ↔ x ≠ [] ∧ y = x := by
  unfold present
  by_cases hx : x = []
  · simp [hx]
  · rw [if_neg hx, Option.some.injEq, eq_comm]
    simp [hx]

theorem savedUserinfo_eq {x : Bytes} : savedUserinfo x = x ↔ ¬ ColonDigit x := by
  unfold savedUserinfo ColonDigit
  cases hcut : (cut (byte ':') x).2 with
  | none => simp
  | some t =>
    by_cases ht : t.head?.any digit = true
    · -- what is left is shorter
      have hlen : t.length < x.length := by
        have htail : (x.dropWhile (· ≠ byte ':')).tail? = some t := hcut
        have hsuffix := (List.dropWhile_suffix (p := (· ≠ byte ':')) (l := x)).length_le
        cases hdrop : x.dropWhile (· ≠ byte ':') with
        | nil =>
          rw [hdrop] at htail
          cases htail
        | cons c y =>
          rw [hdrop] at htail hsuffix
          obtain rfl := Option.some.inj htail
          rw [List.length_cons] at hsuffix
          omega
      simp only [ht, if_true, Option.some.injEq, exists_eq_left', not_true_eq_false, iff_false]
      intro heq
      rw [heq] at hlen
      exact lt_irrefl _ hlen
    · simp [ht]

theorem savedUserinfo_ne_nil {x : Bytes} (hx : x ≠ []) : savedUserinfo x ≠ [] := by
  unfold savedUserinfo
  split
  · next t _ =>
    split_ifs with ht
    · intro hnil
      rw [hnil] at ht
      cases ht
    · exact hx
  · exact hx

theorem mem_of_mem_savedUserinfo {x : Bytes} {c : UInt8} (h : c ∈ savedUserinfo x) : c ∈ x := by
  unfold savedUserinfo at h
  split at h
  · next t ht =>
    split_ifs at h
    · have htail : (x.dropWhile (· ≠ byte ':')).tail? = some t := ht
      have htail : t = (x.dropWhile (· ≠ byte ':')).tail := by
        cases hdrop : x.dropWhile (· ≠ byte ':') with
        | nil =>
          rw [hdrop] at htail
          cases htail
        | cons b y =>
          rw [hdrop] at htail
          exact (Option.some.inj htail).symm
      rw [htail] at h
      exact (List.dropWhile_sublist _).subset (List.mem_of_mem_tail h)
    · exact h
  · exact h

theorem intText_chars {n : ℤ} {c : UInt8} (h : c ∈ intText n) : digit c = true ∨ c = byte '-' := by
  have hdecimal : ∀ {m : ℕ}, c ∈ decimal m → digit c = true := by
    intro m hm
    have hrange := decimal_digits hm
    rw [digit, decide_eq_true_eq]
    exact hrange
  unfold intText at h
  split_ifs at h
  · rcases List.mem_cons.mp h with h | h
    · exact Or.inr h
    · exact Or.inl (hdecimal h)
  · exact Or.inl (hdecimal h)

theorem port_kept {x : Bytes} (hx : ∀ c ∈ x, digit c = true) :
    (if atoi x = 0 then none else some (intText (atoi x))) = some x ↔
      ∃ n, 0 < n ∧ n < 2147483648 ∧ x = decimal n := by
  constructor
  · intro h
    split_ifs at h with hzero
    have h := Option.some.inj h
    have hpos : ¬ atoi x < 0 := by
      intro hneg
      rw [intText, if_pos hneg] at h
      have hminus : digit (byte '-') = true := hx _ (by rw [← h]; exact List.mem_cons_self)
      exact absurd hminus (by decide)
    rw [intText, if_neg hpos] at h
    refine ⟨(atoi x).toNat, by omega, ?_, h.symm⟩
    unfold atoi toInt32
    omega
  · rintro ⟨n, hpos, hlt, rfl⟩
    rw [atoi_decimal hlt, if_neg (by omega), intText, if_neg (by omega), Int.toNat_natCast]

/-! ## When the fields are the parts -/

section Kept

variable {a : Authority}

theorem userinfo_kept : present ((a.userinfo.map savedUserinfo).getD []) = a.userinfo ↔
    ∀ x ∈ a.userinfo, x ≠ [] ∧ ¬ ColonDigit x := by
  cases hu : a.userinfo with
  | none => simp [present]
  | some x =>
    simp only [Option.map_some, Option.getD_some, Option.mem_def, Option.some.injEq, forall_eq']
    unfold present
    constructor
    · intro h
      split_ifs at h with hnil
      have hsaved := Option.some.inj h
      refine ⟨?_, savedUserinfo_eq.mp hsaved⟩
      rw [hsaved] at hnil
      exact hnil
    · rintro ⟨hne, hcolon⟩
      rw [if_neg (savedUserinfo_ne_nil hne), savedUserinfo_eq.mpr hcolon]

theorem port_field_kept (hdigits : ∀ x ∈ a.port, ∀ c ∈ x, digit c = true) :
    (if (a.port.map atoi).getD 0 = 0 then none else some (intText ((a.port.map atoi).getD 0))) = a.port ↔
      ∀ x ∈ a.port, ∃ n, 0 < n ∧ n < 2147483648 ∧ x = decimal n := by
  cases hp : a.port with
  | none => simp
  | some x =>
    simp only [Option.map_some, Option.getD_some, Option.mem_def, Option.some.injEq, forall_eq']
    exact port_kept (hdigits x hp)

/-- the authority of the fields -/
def ofAuthority (a : Authority) : Option Authority :=
  if (a.userinfo.map savedUserinfo).getD [] = [] ∧ a.host = [] ∧ (a.port.map atoi).getD 0 = 0 then none
  else some ⟨present ((a.userinfo.map savedUserinfo).getD []), a.host,
    if (a.port.map atoi).getD 0 = 0 then none else some (intText ((a.port.map atoi).getD 0))⟩

theorem ofUri_authority (p : Parts) : (Parts.ofUri (extract p)).authority = p.authority.bind ofAuthority := by
  cases ha : p.authority with
  | none => simp [Parts.ofUri, extract, ha]
  | some a => simp [Parts.ofUri, extract, ha, ofAuthority]

theorem authority_kept (hdigits : ∀ x ∈ a.port, ∀ c ∈ x, digit c = true) : ofAuthority a = some a ↔ a.Kept := by
  unfold ofAuthority
  constructor
  · intro h
    have hempty : ¬ ((a.userinfo.map savedUserinfo).getD [] = [] ∧ a.host = [] ∧ (a.port.map atoi).getD 0 = 0) := by
      intro hempty
      rw [if_pos hempty] at h
      cases h
    rw [if_neg hempty] at h
    have h := Option.some.inj h
    have huser := congrArg Authority.userinfo h
    have hport := congrArg Authority.port h
    dsimp only at huser hport
    refine ⟨userinfo_kept.mp huser, (port_field_kept hdigits).mp hport, ?_⟩
    by_contra hnone
    simp only [not_or, ne_eq, not_not, Bool.not_eq_true, Option.isSome_eq_false_iff, Option.isNone_iff_eq_none] at hnone
    exact hempty ⟨by rw [hnone.1]; rfl, hnone.2.1, by rw [hnone.2.2]; rfl⟩
  · intro h
    have huser := userinfo_kept.mpr h.userinfo
    have hport := (port_field_kept hdigits).mpr h.port
    rw [if_neg, huser, hport]
    rintro ⟨hu, hh, hp⟩
    rw [hu] at huser
    rw [if_pos hp] at hport
    rcases h.nonempty with hsome | hsome | hsome
    · rw [← huser] at hsome
      exact absurd hsome (by decide)
    · exact hsome hh
    · rw [← hport] at hsome
      cases hsome

theorem ofUri_scheme {p : Parts} (hp : p.Good) : (Parts.ofUri (extract p)).scheme = p.scheme := by
  apply present_getD.mpr
  intro hnil
  exact (hp.scheme [] hnil).1 rfl

/-- the fields are the parts if nothing is lost, and only then -/
theorem ofUri_eq_iff {p : Parts} (hp : p.Good) : Parts.ofUri (extract p) = p ↔ p.Kept := by
  have hauth : (Parts.ofUri (extract p)).authority = p.authority ↔ ∀ a ∈ p.authority, a.Kept := by
    rw [ofUri_authority]
    cases ha : p.authority with
    | none => simp
    | some a =>
      simp only [Option.bind_some, Option.mem_def, Option.some.injEq, forall_eq']
      exact authority_kept (hp.digits a ha)
  have hpath : (Parts.ofUri (extract p)).path = p.path ↔ p.path = [] ∨ (p.scheme.isSome ∧ p.authority.isSome) := by
    show (if p.scheme.isSome ∧ p.authority.isSome then p.path else []) = p.path ↔ _
    by_cases hboth : p.scheme.isSome ∧ p.authority.isSome
    · simp [hboth]
    · rw [if_neg hboth, eq_comm]
      simp [hboth]
  constructor
  · intro h
    refine ⟨hpath.mp ?_, hauth.mp ?_, present_getD.mp ?_, present_getD.mp ?_⟩
    · rw [h]
    · rw [h]
    · exact congrArg Parts.query h
    · exact congrArg Parts.fragment h
  · intro h
    have h1 := ofUri_scheme hp
    have h2 := hauth.mpr h.authority
    have h3 := hpath.mpr h.path
    have h4 : (Parts.ofUri (extract p)).query = p.query := present_getD.mpr h.query
    have h5 : (Parts.ofUri (extract p)).fragment = p.fragment := present_getD.mpr h.fragment
    calc Parts.ofUri (extract p)
        = ⟨(Parts.ofUri (extract p)).scheme, (Parts.ofUri (extract p)).authority, (Parts.ofUri (extract p)).path,
            (Parts.ofUri (extract p)).query, (Parts.ofUri (extract p)).fragment⟩ := rfl
      _ = p := by rw [h1, h2, h3, h4, h5]

end Kept

/-! ## The text comes back -/

theorem ofAuthority_apart {a a' : Authority} (hgood : a.Apart) (h : ofAuthority a = some a') : a'.Apart := by
  unfold ofAuthority at h
  by_cases hempty : (a.userinfo.map savedUserinfo).getD [] = [] ∧ a.host = [] ∧ (a.port.map atoi).getD 0 = 0
  · rw [if_pos hempty] at h
    cases h
  rw [if_neg hempty] at h
  obtain rfl := Option.some.inj h
  -- the user is an end of the one in the text, the port is a number
  have huser : ∀ x ∈ present ((a.userinfo.map savedUserinfo).getD []), ∃ y ∈ a.userinfo, ∀ c ∈ x, c ∈ y := by
    intro x hx
    obtain ⟨hnil, rfl⟩ := present_eq_some.mp hx
    cases hu : a.userinfo with
    | none =>
      rw [hu] at hnil
      exact absurd rfl hnil
    | some y => exact ⟨y, rfl, fun c hc => mem_of_mem_savedUserinfo hc⟩
  have hport : ∀ c ∈ after (byte ':') (if (a.port.map atoi).getD 0 = 0 then none else
      some (intText ((a.port.map atoi).getD 0))), c ≠ byte '@' ∧ c ≠ byte '/' ∧ c ≠ byte '?' ∧ c ≠ byte '#' := by
    intro c hc
    split_ifs at hc
    · cases hc
    · rcases List.mem_cons.mp hc with rfl | hc
      · decide
      · rcases intText_chars hc with hd | rfl
        · exact ⟨ne_of_class hd (by decide), ne_of_class hd (by decide), ne_of_class hd (by decide),
            ne_of_class hd (by decide)⟩
        · decide
  refine ⟨?_, ?_, hgood.host, ?_⟩
  · intro x hx hin
    obtain ⟨y, hy, hsub⟩ := huser x hx
    exact hgood.userinfo y hy (hsub _ hin)
  · intro hin
    rcases List.mem_append.mp hin with hin | hin
    · exact hgood.rest (List.mem_append_left _ hin)
    · exact (hport _ hin).1 rfl
  · intro c hc
    unfold Authority.text at hc
    rcases List.mem_append.mp hc with hc | hc
    · rcases List.mem_append.mp hc with hc | hc
      · cases hx : present ((a.userinfo.map savedUserinfo).getD []) with
        | none =>
          rw [hx] at hc
          cases hc
        | some x =>
          rw [hx] at hc
          obtain ⟨y, hy, hsub⟩ := huser x hx
          rcases List.mem_append.mp hc with hc | hc
          · apply hgood.free c
            rw [Authority.text, Option.mem_def.mp hy]
            simp [before, hsub c hc]
          · rw [List.mem_singleton.mp hc]
            decide
      · apply hgood.free c
        simp only [Authority.text, List.mem_append]
        exact Or.inl (Or.inr hc)
    · exact (hport c hc).2

/-- the fields can be told apart, except that an authority without anything in it is gone -/
theorem ofUri_apart {p : Parts} (hp : p.Good)
    (hauth : p.authority.isSome → (Parts.ofUri (extract p)).authority.isSome) :
    (Parts.ofUri (extract p)).Apart := by
  have hpath : (Parts.ofUri (extract p)).path = if p.scheme.isSome ∧ p.authority.isSome then p.path else [] := rfl
  have hscheme := ofUri_scheme hp
  refine ⟨?_, ?_, ?_, ?_, ?_, ?_, ?_⟩
  · rw [hscheme]
    exact hp.scheme
  · intro a' ha'
    rw [ofUri_authority] at ha'
    obtain ⟨a, ha, ha'⟩ := Option.bind_eq_some_iff.mp ha'
    exact ofAuthority_apart (hp.authority a ha) ha'
  · intro c hc
    rw [hpath] at hc
    split_ifs at hc
    · exact hp.path c hc
    · cases hc
  · intro hsome
    rw [ofUri_authority] at hsome
    have ha : p.authority.isSome := by
      cases ha : p.authority with
      | none => rw [ha] at hsome; cases hsome
      | some a => rfl
    rw [hpath]
    split_ifs
    · exact hp.rooted ha
    · exact Or.inl rfl
  · intro hnone
    have ha : ¬ p.authority.isSome := by
      intro hsome
      have hkept := hauth hsome
      rw [hnone] at hkept
      cases hkept
    rw [hpath, if_neg fun hboth => ha hboth.2]
    decide
  · intro hnone _
    rw [hscheme] at hnone
    rw [hpath, if_neg (by rw [hnone]; simp)]
    simp
  · intro q hq
    apply hp.query q
    obtain ⟨hnil, rfl⟩ := present_eq_some.mp hq
    cases hpq : p.query with
    | none =>
      exact absurd (show (extract p).query = [] by simp [extract, hpq]) hnil
    | some x => simp [extract, hpq]

theorem after_present_le (sep : UInt8) (x : Option Bytes) :
    (after sep (present (x.getD []))).length ≤ (after sep x).length := by
  cases x with
  | none => simp [present, after]
  | some y =>
    unfold present
    split_ifs
    · simp [after]
    · rfl

/-- an authority that is gone leaves less than the text -/
theorem recompose_lt {p : Parts} (hp : p.Good) (ha : p.authority.isSome)
    (hgone : (Parts.ofUri (extract p)).authority = none) :
    (recompose (extract p)).length < p.text.length := by
  obtain ⟨a, ha⟩ := Option.isSome_iff_exists.mp ha
  have hscheme := ofUri_scheme hp
  have hpath : (Parts.ofUri (extract p)).path.length ≤ p.path.length := by
    show (if p.scheme.isSome ∧ p.authority.isSome then p.path else []).length ≤ _
    split_ifs
    · exact le_rfl
    · exact Nat.zero_le _
  have hquery : (after (byte '?') (Parts.ofUri (extract p)).query).length ≤ (after (byte '?') p.query).length :=
    after_present_le _ _
  have hfragment : (after (byte '#') (Parts.ofUri (extract p)).fragment).length ≤ (after (byte '#') p.fragment).length :=
    after_present_le _ _
  have hslashes : 2 ≤ (authorityText p.authority).length := by
    rw [ha, authorityText, List.length_append]
    exact Nat.le_add_right 2 _
  unfold recompose Parts.text
  rw [hscheme, hgone]
  simp only [List.length_append, authorityText, List.length_nil] at hslashes ⊢
  omega

/-- **What is extracted.** For every accepted text, writing the fields down again gives back the text, and the fields
are its parts, just if the text has a path only behind scheme and authority, no empty user, query, fragment or
authority, no colon with a digit behind it in the user, and a port that is the decimal of a positive `int`. -/
theorem recompose_iff {s : Bytes} {u : Uri} (h : create s = .ok (some u)) :
    (recompose u = s ↔ (split s).Kept) ∧ (Parts.ofUri u = split s ↔ (split s).Kept) := by
  obtain ⟨p, hp, rfl, rfl⟩ := create_parts h
  rw [split_text hp.toApart]
  refine ⟨?_, ofUri_eq_iff hp⟩
  constructor
  · intro htext
    have hauth : p.authority.isSome → (Parts.ofUri (extract p)).authority.isSome := by
      intro ha
      by_contra hgone
      have hlt := recompose_lt hp ha (by simpa using hgone)
      rw [htext] at hlt
      exact lt_irrefl _ hlt
    have hsplit := split_text (ofUri_apart hp hauth)
    have htext : (Parts.ofUri (extract p)).text = p.text := htext
    rw [htext, split_text hp.toApart] at hsplit
    exact (ofUri_eq_iff hp).mp hsplit.symm
  · intro hkept
    rw [recompose, (ofUri_eq_iff hp).mpr hkept]

/-- the text of `test_uri.cpp` -/
def testText : Bytes := ascii "http://www.baidu.com/test/uri?id=100&name=sylar&vv=s#frg"

def testUri : Uri where
  scheme := ascii "http"
  host := ascii "www.baidu.com"
  path := ascii "/test/uri"
  query := ascii "id=100&name=sylar&vv=s"
  fragment := ascii "frg"

theorem create_test : create testText = .ok (some testUri) := by
  decide +kernel

theorem recompose_iff_test : recompose testUri = testText ∧ Parts.ofUri testUri = split testText := by
  have hsplit : split testText = ⟨some (ascii "http"), some ⟨none, ascii "www.baidu.com", none⟩, ascii "/test/uri",
      some (ascii "id=100&name=sylar&vv=s"), some (ascii "frg")⟩ := by decide +kernel
  have hkept : (split testText).Kept := by
    rw [hsplit]
    refine ⟨Or.inr ⟨rfl, rfl⟩, ?_, by decide, by decide⟩
    intro a ha
    obtain rfl := Option.some.inj ha
    exact ⟨by simp, by simp, Or.inr (Or.inl (by decide))⟩
  exact ⟨(recompose_iff create_test).1.mpr hkept, (recompose_iff create_test).2.mpr hkept⟩

/-- a relative path is not saved, and of a user with a number only the number is -/
theorem parts_lost :
    (create (ascii "/a") = .ok (some {}) ∧ recompose {} ≠ ascii "/a") ∧
    create (ascii "http://name:1@h/") =
      .ok (some { scheme := ascii "http", userinfo := ascii "1", host := ascii "h", path := ascii "/" }) ∧
    recompose { scheme := ascii "http", userinfo := ascii "1", host := ascii "h", path := ascii "/" } ≠
      ascii "http://name:1@h/" := by
  decide +kernel

end Sylar.Uri
