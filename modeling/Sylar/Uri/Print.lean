/-
`Uri::dump` and `toString` (`uri.rl`), and reading the text back.

`dump` puts the delimiters in by itself, leaves out a default port and writes a default path; and it writes a line feed
behind the user, the host, the path and the query. No rule of the grammar has a line feed, so no text of `toString` is
accepted: `toString_rejected`. (The parser generated earlier, `http/uri.rl.cc`, has a `dump` without them.)
-/
import Mathlib.Tactic
import Sylar.Core.Scan
import Sylar.Uri.Machine
import Sylar.Uri.Components

namespace Sylar.Uri

open Sylar.Core Sylar.Core.Scan Sylar.Http

/-- the port of the schemes that have one -/
def defaultPort (scheme : Bytes) : Option ℤ :=
  if scheme = ascii "http" ∨ scheme = ascii "ws" then some 80
  else if scheme = ascii "https" ∨ scheme = ascii "wss" then some 443
  else none

def isDefaultPort (u : Uri) : Bool := u.port = 0 || defaultPort u.scheme = some u.port

def getPath (u : Uri) : Bytes := if u.path = [] then ascii "/" else u.path

def getPort (u : Uri) : ℤ := if u.port ≠ 0 then u.port else (defaultPort u.scheme).getD u.port

def toString (u : Uri) : Bytes :=
  u.scheme ++ ascii "://" ++ u.userinfo ++ ascii "\n" ++ (if u.userinfo = [] then [] else ascii "@") ++ u.host ++
    ascii "\n" ++ (if isDefaultPort u then [] else ascii ":" ++ intText u.port) ++ getPath u ++ ascii "\n" ++
    (if u.query = [] then [] else ascii "?") ++ u.query ++ ascii "\n" ++ (if u.fragment = [] then [] else ascii "#") ++
    u.fragment

/-- the text of `u` is read as a `Uri` that says the same -/
def RoundTrips (u : Uri) : Prop :=
  ∃ u', create (toString u) = .ok (some u') ∧ u'.scheme = u.scheme ∧ u'.userinfo = u.userinfo ∧ u'.host = u.host ∧
    getPort u' = getPort u ∧ getPath u' = getPath u ∧ u'.query = u.query ∧ u'.fragment = u.fragment

/-! ## No line feed -/

/-- the only part that goes on over a line feed is an address, which it spoils -/
theorem own_ten (given : Bool) {r : Region} (hr : ∀ x, r ≠ .literal x) : r.own given 10 = none := by
  cases r with
  | literal x => exact absurd rfl (hr x)
  | ipv4 t =>
    have hcolon : ∀ st acts, on ':' st acts 10 = none := fun st acts => rfl
    simp only [Region.own, hcolon, ite_self]
    rfl
  | _ => rfl

theorem next_ten (given : Bool) {r : Region} (hr : ∀ x, r ≠ .literal x) : r.next given 10 = none := by
  have hpath : r.toPath given 10 = none := by
    unfold Region.toPath
    cases r.closing with
    | none => rfl
    | some acts => cases given <;> rfl
  have hquery : r.toQuery given 10 = none := by
    unfold Region.toQuery
    cases r.leaving given with
    | none => rfl
    | some acts =>
      rw [Option.bind_some]
      split_ifs <;> rfl
  have hfragment : r.toFragment given 10 = none := by
    unfold Region.toFragment
    cases r.leaving given with
    | none => rfl
    | some acts =>
      rw [Option.bind_some]
      split_ifs <;> rfl
  rw [Region.next, own_ten given hr, hpath, hquery, hfragment]
  rfl

theorem ten_not_address {x : Bytes} (hx : 10 ∈ x) : (ipv6address + ipvFuture).rmatch x = false := by
  rw [← Bool.not_eq_true]
  intro hmatch
  exact address_symbols (P := fun c => c ≠ 10) (by decide +kernel) (by decide +kernel) (by decide +kernel)
    (by decide +kernel) 10 (mem_symbols hmatch hx) rfl

/-- a line feed that has been read is in an address that does not end -/
def Spoiled (text : Bytes) (st : State) : Prop := 10 ∈ text → ∃ x, st.region = .literal x ∧ 10 ∈ x ∧ st.pct = 0

theorem spoiled_next {text : Bytes} {st : State} {c : UInt8} (h : Spoiled text st) (herr : (st.next c).1 ≠ .error) :
    Spoiled (text ++ [c]) (st.next c).1 := by
  intro hin
  have hliteral : ∃ x, st.region = .literal x ∧ st.pct = 0 ∧ (10 ∈ x ∨ c = 10) := by
    rcases List.mem_append.mp hin with hin | hin
    · obtain ⟨x, hx, hten, hpct⟩ := h hin
      exact ⟨x, hx, hpct, Or.inl hten⟩
    · obtain rfl : 10 = c := List.mem_singleton.mp hin
      unfold State.next at herr
      split_ifs at herr with hpct hdigit
      · by_contra hnot
        have hr : ∀ x, st.region ≠ .literal x := fun x hx => hnot ⟨x, hx, hpct, Or.inr rfl⟩
        rw [next_ten _ hr] at herr
        exact herr rfl
      · exact absurd hdigit (by decide)
      · exact absurd rfl herr
  obtain ⟨x, hx, hpct, hten⟩ := hliteral
  have hown : st.region.own st.scheme c ≠ none := by
    intro hnone
    apply herr
    rw [State.next, if_pos hpct, Region.next, hnone, hx]
    rfl
  rw [hx] at hown
  simp only [Region.own] at hown
  by_cases hc : c = byte ']'
  · -- the address ends, but it has a line feed in it
    have hin : 10 ∈ x := hten.resolve_right (by rw [hc]; decide)
    rw [if_pos hc, if_neg (by rw [ten_not_address hin]; decide)] at hown
    exact absurd rfl hown
  · have hnext : (st.next c).1 = ⟨.literal (x ++ [c]), st.scheme, 0⟩ := by
      rw [State.next, if_pos hpct, Region.next, hx]
      simp only [Region.own]
      rw [if_neg hc]
      rfl
    rw [hnext]
    refine ⟨x ++ [c], rfl, ?_, rfl⟩
    rcases hten with hten | rfl
    · exact List.mem_append_left _ hten
    · exact List.mem_append_right _ (List.mem_singleton_self _)

theorem create_ten {s : Bytes} (hs : 10 ∈ s) (u : Uri) : create s ≠ .ok (some u) := by
  intro h
  unfold create at h
  cases hexec : exec machine (act s) s 0 .start ⟨{}, none⟩ with
  | error e =>
    rw [hexec] at h
    cases h
  | ok r =>
    obtain ⟨p, st, d⟩ := r
    rw [hexec] at h
    dsimp only at h
    have herr : st ≠ .error := by
      intro heq
      rw [if_pos heq] at h
      cases Except.ok.inj h
    rw [if_neg herr] at h
    have hstart : Spoiled [] .start := fun hin => absurd hin List.not_mem_nil
    obtain ⟨-, hspoiled⟩ := exec_reading (R := fun text st _ => Spoiled text st) (act_ne_fbreak s)
      (fun pre c rest cs d d' _ hR herr _ => spoiled_next hR herr) (List.nil_append s).symm hstart hexec herr
    obtain ⟨x, hx, -, -⟩ := hspoiled hs
    rw [atEof, hx] at h
    simp [Region.leaving, Region.closing] at h

theorem ten_mem_toString (u : Uri) : 10 ∈ toString u := by
  have hten : (10 : UInt8) ∈ ascii "\n" := by decide
  simp only [toString, List.mem_append]
  tauto

/-- **No text of `toString` is accepted.** Whatever the fields are, with scheme and authority or without, the text is
not read back. -/
theorem toString_rejected (u : Uri) : ¬ RoundTrips u := by
  rintro ⟨u', hcreate, -⟩
  exact create_ten (ten_mem_toString u) u' hcreate

/-- so it is for the text of `test_uri.cpp` -/
theorem test_not_read_back :
    create testText = .ok (some testUri) ∧ ∀ u', create (toString testUri) ≠ .ok (some u') :=
  ⟨create_test, create_ten (ten_mem_toString testUri)⟩

end Sylar.Uri
