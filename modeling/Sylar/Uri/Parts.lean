/-
The parts of a URI reference and its text (RFC 3986, sections 3 and 5.3), as a measure for what `Uri::Create`
extracts.

`Parts.text` puts the parts together, with their delimiters, and leaves out what is absent. `split` takes a text apart
at its delimiters: the fragment behind the first `#`, the query behind the first `?` before it, the scheme before a
colon that no slash precedes, the authority behind `//` up to the next slash; in the authority the user before the `@`
and the port behind the colon that follows the host. `split_text`: parts whose texts do not contain the delimiters
that end them (`Parts.Apart`) are what their text is split into. So a text has one reading.
-/
import Mathlib.Tactic
import Sylar.Core.Text
import Sylar.Uri.Machine

namespace Sylar.Uri

open Sylar.Core Sylar.Http

structure Authority where
  userinfo : Option Bytes
  host : Bytes
  port : Option Bytes
deriving DecidableEq, Repr

structure Parts where
  scheme : Option Bytes
  authority : Option Authority
  path : Bytes
  query : Option Bytes
  fragment : Option Bytes
deriving DecidableEq, Repr

def Authority.text (a : Authority) : Bytes := before (byte '@') a.userinfo ++ a.host ++ after (byte ':') a.port

def authorityText : Option Authority → Bytes
  | none => []
  | some a => ascii "//" ++ a.text

def Parts.text (p : Parts) : Bytes :=
  before (byte ':') p.scheme ++ authorityText p.authority ++ p.path ++ after (byte '?') p.query ++
    after (byte '#') p.fragment

/-! ## Taking apart -/

/-- the host ends at the bracket or at the first colon -/
def splitHost (s : Bytes) : Bytes × Option Bytes :=
  if s.head? = some (byte '[') then
    let r := cut (byte ']') s
    let t := cut (byte ':') (r.2.getD [])
    (r.1 ++ byte ']' :: t.1, t.2)
  else cut (byte ':') s

def splitAuthority (s : Bytes) : Authority :=
  let r := cutBefore (byte '@') s
  let t := splitHost r.2
  ⟨r.1, t.1, t.2⟩

/-- a scheme is not empty and has no slash in it -/
def splitScheme (s : Bytes) : Option Bytes × Bytes :=
  let x := s.takeWhile fun c => c ≠ byte ':' ∧ c ≠ byte '/'
  if x ≠ [] ∧ (s.drop x.length).head? = some (byte ':') then (some x, s.drop (x.length + 1)) else (none, s)

def splitHier (s : Bytes) : Option Authority × Bytes :=
  if ascii "//" <+: s then
    let t := s.drop 2
    (some (splitAuthority (t.takeWhile (· ≠ byte '/'))), t.dropWhile (· ≠ byte '/'))
  else (none, s)

def split (s : Bytes) : Parts :=
  let f := cut (byte '#') s
  let q := cut (byte '?') f.1
  let x := splitScheme q.1
  let h := splitHier x.2
  ⟨x.1, h.1, h.2, q.2, f.2⟩

/-! ## Parts that can be told apart -/

/-- in brackets, or without a colon -/
def HostShape (h : Bytes) : Prop :=
  (h.head? ≠ some (byte '[') ∧ byte ':' ∉ h) ∨ ∃ t, h = byte '[' :: t ++ [byte ']'] ∧ byte ']' ∉ t

structure Authority.Apart (a : Authority) : Prop where
  userinfo : ∀ x ∈ a.userinfo, byte '@' ∉ x
  rest : byte '@' ∉ a.host ++ after (byte ':') a.port
  host : HostShape a.host
  free : ∀ c ∈ a.text, c ≠ byte '/' ∧ c ≠ byte '?' ∧ c ≠ byte '#'

structure Parts.Apart (p : Parts) : Prop where
  scheme : ∀ x ∈ p.scheme, x ≠ [] ∧ ∀ c ∈ x, c ≠ byte ':' ∧ c ≠ byte '/' ∧ c ≠ byte '?' ∧ c ≠ byte '#'
  authority : ∀ a ∈ p.authority, a.Apart
  path : ∀ c ∈ p.path, c ≠ byte '?' ∧ c ≠ byte '#'
  rooted : p.authority.isSome → p.path = [] ∨ p.path.head? = some (byte '/')
  single : p.authority = none → ¬ ascii "//" <+: p.path
  relative : p.scheme = none → p.authority = none → byte ':' ∉ p.path.takeWhile (· ≠ byte '/')
  query : ∀ q ∈ p.query, byte '#' ∉ q

theorem splitHost_eq {h : Bytes} (hh : HostShape h) (port : Option Bytes) :
    splitHost (h ++ after (byte ':') port) = (h, port) := by
  unfold splitHost
  rcases hh with ⟨hhead, hcolon⟩ | ⟨t, rfl, ht⟩
  · have hne : (h ++ after (byte ':') port).head? ≠ some (byte '[') := by
      cases h with
      | nil => cases port <;> simp [after, byte]
      | cons c h => exact hhead
    rw [if_neg hne, cut_after hcolon]
  · have hcut : cut (byte ']') (byte '[' :: t ++ [byte ']'] ++ after (byte ':') port)
        = (byte '[' :: t, some (after (byte ':') port)) := by
      have hnot : byte ']' ∉ byte '[' :: t := by
        rw [List.mem_cons, not_or]
        exact ⟨by decide, ht⟩
      rw [List.append_assoc]
      exact cut_after hnot (some (after (byte ':') port))
    have hport : cut (byte ':') (after (byte ':') port) = ([], port) := by
      have := cut_after (List.not_mem_nil (a := byte ':')) port
      rwa [List.nil_append] at this
    have hhead : (byte '[' :: t ++ [byte ']'] ++ after (byte ':') port).head? = some (byte '[') := rfl
    rw [if_pos hhead, hcut]
    simp only [Option.getD_some, hport]

theorem splitAuthority_text {a : Authority} (h : a.Apart) : splitAuthority a.text = a := by
  unfold splitAuthority Authority.text
  rw [List.append_assoc, cutBefore_before h.userinfo fun _ => h.rest]
  simp only [splitHost_eq h.host]

theorem splitScheme_some {x : Bytes} (hx : x ≠ []) (hfree : ∀ c ∈ x, c ≠ byte ':' ∧ c ≠ byte '/') (t : Bytes) :
    splitScheme (x ++ byte ':' :: t) = (some x, t) := by
  have htake : (x ++ byte ':' :: t).takeWhile (fun c => c ≠ byte ':' ∧ c ≠ byte '/') = x := by
    rw [List.takeWhile_append_of_pos]
    · simp
    · intro c hc
      rw [decide_eq_true_eq]
      exact hfree c hc
  unfold splitScheme
  simp only [htake]
  rw [List.drop_left, if_pos ⟨hx, rfl⟩, ← List.drop_drop, List.drop_left]
  rfl

theorem splitScheme_none {s : Bytes} (h : byte ':' ∉ s.takeWhile (· ≠ byte '/')) : splitScheme s = (none, s) := by
  have hcolon : (s.drop (s.takeWhile fun c => c ≠ byte ':' ∧ c ≠ byte '/').length).head? ≠ some (byte ':') := by
    induction s with
    | nil => simp
    | cons c s ih =>
      by_cases hslash : c = byte '/'
      · rw [hslash]
        simp [byte]
      · rw [List.takeWhile_cons_of_pos (by simpa using hslash), List.mem_cons, not_or] at h
        rw [List.takeWhile_cons_of_pos (by simpa using ⟨Ne.symm h.1, hslash⟩), List.length_cons, List.drop_succ_cons]
        exact ih h.2
  unfold splitScheme
  simp only
  rw [if_neg fun hx => hcolon hx.2]

theorem splitHier_eq {a : Option Authority} {path : Bytes} (ha : ∀ x ∈ a, x.Apart)
    (hrooted : a.isSome → path = [] ∨ path.head? = some (byte '/')) (hsingle : a = none → ¬ ascii "//" <+: path) :
    splitHier (authorityText a ++ path) = (a, path) := by
  unfold splitHier
  cases a with
  | none => rw [authorityText, List.nil_append, if_neg (hsingle rfl)]
  | some x =>
    have hfree : byte '/' ∉ x.text := fun hin => ((ha x rfl).free _ hin).1 rfl
    rw [authorityText, List.append_assoc, if_pos (List.prefix_append ..)]
    have hdrop : (ascii "//" ++ (x.text ++ path)).drop 2 = x.text ++ path := List.drop_left' rfl
    simp only [hdrop]
    rw [takeWhile_ne_append hfree, dropWhile_ne_append hfree]
    rcases hrooted rfl with rfl | hhead
    · simp [splitAuthority_text (ha x rfl)]
    · obtain ⟨t, rfl⟩ := List.head?_eq_some_iff.mp hhead
      simp [splitAuthority_text (ha x rfl)]

/-- **A text has one reading.** -/
theorem split_text {p : Parts} (h : p.Apart) : split p.text = p := by
  obtain ⟨sch, a, path, q, f⟩ := p
  have hfree : ∀ c ∈ before (byte ':') sch ++ authorityText a ++ path, c ≠ byte '?' ∧ c ≠ byte '#' := by
    intro c hc
    rcases List.mem_append.mp hc with hc | hc
    · rcases List.mem_append.mp hc with hc | hc
      · cases sch with
        | none => cases hc
        | some x =>
          rcases List.mem_append.mp hc with hc | hc
          · exact ((h.scheme x rfl).2 c hc).2.2
          · rw [List.mem_singleton.mp hc]
            decide
      · cases a with
        | none => cases hc
        | some x =>
          rcases List.mem_append.mp hc with hc | hc
          · have hslash : ∀ c ∈ ascii "//", c ≠ byte '?' ∧ c ≠ byte '#' := by decide
            exact hslash c hc
          · exact ((h.authority x rfl).free c hc).2
    · exact h.path c hc
  have hquestion : byte '?' ∉ before (byte ':') sch ++ authorityText a ++ path := fun hin => (hfree _ hin).1 rfl
  have hhash : byte '#' ∉ before (byte ':') sch ++ authorityText a ++ path ++ after (byte '?') q := by
    intro hin
    rcases List.mem_append.mp hin with hin | hin
    · exact (hfree _ hin).2 rfl
    · cases q with
      | none => cases hin
      | some x =>
        rcases List.mem_cons.mp hin with hin | hin
        · exact absurd hin (by decide)
        · exact h.query x rfl hin
  have hscheme : splitScheme (before (byte ':') sch ++ authorityText a ++ path) = (sch, authorityText a ++ path) := by
    rw [List.append_assoc]
    cases sch with
    | none =>
      rw [before, List.nil_append]
      apply splitScheme_none
      cases a with
      | none => exact h.relative rfl rfl
      | some x => simp [authorityText, ascii, byte]
    | some x =>
      rw [before, List.append_assoc]
      exact splitScheme_some (h.scheme x rfl).1
        (fun c hc => ⟨((h.scheme x rfl).2 c hc).1, ((h.scheme x rfl).2 c hc).2.1⟩) _
  unfold split Parts.text
  rw [cut_after hhash]
  simp only
  rw [cut_after hquestion]
  simp only
  rw [hscheme]
  simp only
  rw [splitHier_eq h.authority h.rooted h.single]

end Sylar.Uri
