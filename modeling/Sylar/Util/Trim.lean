/-
Trimming strings (`util.cpp`, `StringUtil::Trim`, `TrimLeft` and `TrimRight`).

The three functions look for the first or the last byte that is no delimiter and cut there. `TrimRight` ends its part
in front of that byte, where `Trim` ends behind it.
- `trimLeft_eq`, `trim_eq`: `TrimLeft` and `Trim` strip what they should.
- `trimRight_eq`: `TrimRight` strips one byte more.
- `trim_iff`: the laws of the three hold exactly of the strings that are made of delimiters.
-/
import Mathlib.Tactic
import Sylar.Core.Text
import Sylar.Http.Params

namespace Sylar.Util

open Sylar.Core Sylar.Http

/-- `StringUtil::TrimLeft` -/
def trimLeft (str : Bytes) (delimit : Bytes := ascii " \t\r\n") : Bytes :=
  match findFirstNotOf str delimit with
  | none => []
  | some first => str.drop first

/-- `StringUtil::TrimRight` -/
def trimRight (str : Bytes) (delimit : Bytes := ascii " \t\r\n") : Bytes :=
  match findLastNotOf str delimit with
  | none => []
  | some last => substr str 0 last

/-! ## What is stripped -/

section
variable (str delimit : Bytes)

theorem findFirstNotOf_none {str delimit : Bytes} (h : findFirstNotOf str delimit = none) : ∀ c ∈ str, c ∈ delimit := by
  intro c hc
  have hno := List.findIdx?_eq_none_iff.mp h c hc
  rwa [decide_eq_false_iff_not, not_not] at hno

theorem findFirstNotOf_some {str delimit : Bytes} {first : ℕ} (h : findFirstNotOf str delimit = some first) :
    first < str.length ∧ str.findIdx (fun c => !decide (c ∈ delimit)) = first := by
  have htest : (fun c : UInt8 => !decide (c ∈ delimit)) = fun c => decide (c ∉ delimit) := by
    funext c
    rw [decide_not]
  rw [htest]
  exact List.findIdx?_eq_some_iff_findIdx_eq.mp h

theorem findLastNotOf_eq :
    findLastNotOf str delimit = (findFirstNotOf str.reverse delimit).map (str.length - 1 - ·) := rfl

/-- stripped at the front -/
def stripFront : Bytes := str.dropWhile (· ∈ delimit)

/-- stripped at the back -/
def stripBack : Bytes := str.rdropWhile (· ∈ delimit)

theorem strip_of_all {str delimit : Bytes} (h : ∀ c ∈ str, c ∈ delimit) :
    stripFront str delimit = [] ∧ stripBack str delimit = [] := by
  have hall : ∀ c ∈ str, decide (c ∈ delimit) = true := fun c hc => decide_eq_true (h c hc)
  exact ⟨List.dropWhile_eq_nil_iff.mpr hall, List.rdropWhile_eq_nil_iff.mpr hall⟩

theorem stripFront_eq_drop {str delimit : Bytes} {first : ℕ} (h : findFirstNotOf str delimit = some first) :
    stripFront str delimit = str.drop first := by
  rw [stripFront, List.dropWhile_eq_drop_findIdx_not, (findFirstNotOf_some h).2]

theorem stripBack_eq_take {str delimit : Bytes} {last : ℕ} (h : findLastNotOf str delimit = some last) :
    last < str.length ∧ stripBack str delimit = str.take (last + 1) := by
  rw [findLastNotOf_eq, Option.map_eq_some_iff] at h
  obtain ⟨back, hback, rfl⟩ := h
  have hlt := (findFirstNotOf_some hback).1
  rw [List.length_reverse] at hlt
  refine ⟨by omega, ?_⟩
  have hfront := stripFront_eq_drop hback
  rw [stripFront] at hfront
  rw [stripBack, List.rdropWhile, hfront, List.drop_reverse, List.reverse_reverse]
  congr 1
  omega

theorem first_le_last {str delimit : Bytes} {first last : ℕ} (hfirst : findFirstNotOf str delimit = some first)
    (hlast : findLastNotOf str delimit = some last) : first ≤ last := by
  obtain ⟨hlt, htest, -⟩ := List.findIdx?_eq_some_iff_getElem.mp hfirst
  have hsplit : str = str.take first ++ str[first] :: str.drop (first + 1) := by simp
  have hrev : str.reverse = (str.drop (first + 1)).reverse ++ str[first] :: (str.take first).reverse := by
    conv_lhs => rw [hsplit]
    rw [List.reverse_append, List.reverse_cons, List.append_assoc, List.singleton_append]
  rw [findLastNotOf_eq, Option.map_eq_some_iff] at hlast
  obtain ⟨back, hback, rfl⟩ := hlast
  rw [findFirstNotOf, hrev] at hback
  have hle := findIdx_le htest hback
  rw [List.length_reverse, List.length_drop] at hle
  omega

theorem trimLeft_eq : trimLeft str delimit = stripFront str delimit := by
  unfold trimLeft
  cases h : findFirstNotOf str delimit with
  | none => exact (strip_of_all (findFirstNotOf_none h)).1.symm
  | some first => exact (stripFront_eq_drop h).symm

/-- one byte more than it should -/
theorem trimRight_eq : trimRight str delimit = (stripBack str delimit).dropLast := by
  unfold trimRight
  cases h : findLastNotOf str delimit with
  | none =>
    rw [findLastNotOf_eq, Option.map_eq_none_iff] at h
    have hall : ∀ c ∈ str, c ∈ delimit := fun c hc => findFirstNotOf_none h c (List.mem_reverse.mpr hc)
    rw [(strip_of_all hall).2]
    rfl
  | some last =>
    obtain ⟨hlt, hback⟩ := stripBack_eq_take h
    show (str.drop 0).take last = _
    rw [hback, List.drop_zero, List.dropLast_eq_take, List.length_take, List.take_take]
    congr 1
    omega

/-- the two ends can be stripped in any order -/
theorem strip_comm : stripBack (stripFront str delimit) delimit = stripFront (stripBack str delimit) delimit :=
  dropWhile_rdropWhile _ str

theorem trim_eq : trim str delimit = stripBack (stripFront str delimit) delimit := by
  unfold trim
  cases hfirst : findFirstNotOf str delimit with
  | none =>
    rw [(strip_of_all (findFirstNotOf_none hfirst)).1]
    rfl
  | some first =>
    obtain ⟨hlt, hidx⟩ := findFirstNotOf_some hfirst
    cases hlast : findLastNotOf str delimit with
    | none =>
      -- the first search has found a byte
      rw [findLastNotOf_eq, Option.map_eq_none_iff] at hlast
      have hall : ∀ c ∈ str, c ∈ delimit := fun c hc => findFirstNotOf_none hlast c (List.mem_reverse.mpr hc)
      have hdrop := stripFront_eq_drop hfirst
      rw [(strip_of_all hall).1] at hdrop
      have hlen := congrArg List.length hdrop
      rw [List.length_drop, List.length_nil] at hlen
      omega
    | some last =>
      obtain ⟨-, hback⟩ := stripBack_eq_take hlast
      have hle := first_le_last hfirst hlast
      show (str.drop first).take (last - first + 1) = _
      rw [strip_comm, hback, stripFront, List.dropWhile_eq_drop_findIdx_not, List.findIdx_take, hidx, List.drop_take]
      congr 1
      · omega
      · congr 1
        omega

end

/-! ## The laws -/

/-- the longest suffix that does not begin with a delimiter -/
structure LongestSuffix (str delimit part : Bytes) : Prop where
  suffix : part <:+ str
  first : ∀ c ∈ part.head?, c ∉ delimit
  longest : ∀ t, t <:+ str → (∀ c ∈ t.head?, c ∉ delimit) → t.length ≤ part.length

/-- the longest prefix that does not end with a delimiter -/
structure LongestPrefix (str delimit part : Bytes) : Prop where
  start : part <+: str
  last : ∀ c ∈ part.getLast?, c ∉ delimit
  longest : ∀ t, t <+: str → (∀ c ∈ t.getLast?, c ∉ delimit) → t.length ≤ part.length

structure TrimLaws (str delimit : Bytes) : Prop where
  left : LongestSuffix str delimit (trimLeft str delimit)
  right : LongestPrefix str delimit (trimRight str delimit)
  right_left : trim str delimit = trimRight (trimLeft str delimit) delimit
  left_right : trim str delimit = trimLeft (trimRight str delimit) delimit
  left_twice : trimLeft (trimLeft str delimit) delimit = trimLeft str delimit
  right_twice : trimRight (trimRight str delimit) delimit = trimRight str delimit
  twice : trim (trim str delimit) delimit = trim str delimit

section
variable (str delimit : Bytes)

theorem longestSuffix_stripFront : LongestSuffix str delimit (stripFront str delimit) := by
  refine ⟨List.dropWhile_suffix _, ?_, ?_⟩
  · intro c hc
    have hhead := List.head?_dropWhile_not (fun c => decide (c ∈ delimit)) str
    rw [stripFront, Option.mem_def] at hc
    rw [hc] at hhead
    simpa using hhead
  · intro t ht hfirst
    exact (suffix_dropWhile _ ht fun c hc => decide_eq_false (hfirst c hc)).length_le

theorem longestPrefix_stripBack : LongestPrefix str delimit (stripBack str delimit) := by
  refine ⟨List.rdropWhile_prefix _ str, ?_, ?_⟩
  · intro c hc
    have hne : stripBack str delimit ≠ [] := by
      intro hnil
      rw [hnil] at hc
      cases hc
    have hlast := List.rdropWhile_last_not (fun c => decide (c ∈ delimit)) str hne
    rw [Option.mem_def, List.getLast?_eq_some_getLast hne, Option.some.injEq] at hc
    rw [decide_eq_true_eq] at hlast
    rw [← hc]
    exact hlast
  · intro t ht hlast
    exact (prefix_rdropWhile _ ht fun c hc => decide_eq_false (hlast c hc)).length_le

/-- `TrimLeft` gives the longest suffix -/
theorem longestSuffix_trimLeft : LongestSuffix str delimit (trimLeft str delimit) := by
  rw [trimLeft_eq]
  exact longestSuffix_stripFront str delimit

theorem stripFront_twice : stripFront (stripFront str delimit) delimit = stripFront str delimit :=
  List.dropWhile_idempotent _ str

theorem stripBack_twice : stripBack (stripBack str delimit) delimit = stripBack str delimit :=
  List.rdropWhile_idempotent _ str

/-- `Trim` is idempotent -/
theorem trim_twice : trim (trim str delimit) delimit = trim str delimit := by
  calc trim (trim str delimit) delimit
      = stripBack (stripFront (stripBack (stripFront str delimit) delimit) delimit) delimit := by rw [trim_eq, trim_eq]
    _ = stripBack (stripBack (stripFront (stripFront str delimit) delimit) delimit) delimit := by
      rw [strip_comm (stripFront str delimit)]
    _ = stripBack (stripFront str delimit) delimit := by rw [stripBack_twice, stripFront_twice]
    _ = trim str delimit := (trim_eq str delimit).symm

theorem trim_nil : trim [] delimit = [] ∧ trimLeft [] delimit = [] ∧ trimRight [] delimit = [] := ⟨rfl, rfl, rfl⟩

/-- **The laws of trimming.** For every string and every set of delimiters: `TrimLeft` and `TrimRight` give the longest
suffix and prefix, `Trim` is either of them after the other, and all three are idempotent, exactly if the string is
made of delimiters. -/
theorem trim_iff : TrimLaws str delimit ↔ ∀ c ∈ str, c ∈ delimit := by
  constructor
  · intro h
    by_contra hkept
    have hne : stripBack str delimit ≠ [] := by
      intro hnil
      have hall := List.rdropWhile_eq_nil_iff.mp hnil
      exact hkept fun c hc => of_decide_eq_true (hall c hc)
    -- what should be left is a prefix, and longer by one
    have hkeep := longestPrefix_stripBack str delimit
    have hlong := h.right.longest (stripBack str delimit) hkeep.start hkeep.last
    have hpos := List.length_pos_of_ne_nil hne
    rw [trimRight_eq, List.length_dropLast] at hlong
    omega
  · intro hall
    obtain ⟨hfront, hback⟩ := strip_of_all hall
    have hleft : trimLeft str delimit = [] := by rw [trimLeft_eq, hfront]
    have hright : trimRight str delimit = [] := by
      rw [trimRight_eq, hback]
      rfl
    have htrim : trim str delimit = [] := by
      rw [trim_eq, hfront]
      rfl
    refine ⟨longestSuffix_trimLeft str delimit, ?_, ?_, ?_, ?_, ?_, trim_twice str delimit⟩
    · rw [hright, ← hback]
      exact longestPrefix_stripBack str delimit
    · rw [htrim, hleft]
      exact (trim_nil delimit).2.2.symm
    · rw [htrim, hright]
      exact (trim_nil delimit).2.1.symm
    · rw [hleft]
      exact (trim_nil delimit).2.1
    · rw [hright]
      exact (trim_nil delimit).2.2

end

/-- nothing is to be trimmed off `ab`, and `TrimRight` cuts its last byte -/
theorem last_byte_cut :
    trimRight (ascii "ab") (ascii " ") = ascii "a" ∧ ¬TrimLaws (ascii "ab") (ascii " ") := by
  have hcut : trimRight (ascii "ab") (ascii " ") = ascii "a" := by decide
  refine ⟨hcut, fun h => ?_⟩
  have hlast : ∀ c ∈ (ascii "ab").getLast?, c ∉ ascii " " := by
    intro c hc
    obtain rfl : 98 = c := Option.some.inj hc
    decide
  have hlong := h.right.longest (ascii "ab") (List.prefix_refl _) hlast
  rw [hcut] at hlong
  exact absurd hlong (by decide)

end Sylar.Util
