/-
Looking up a host (`Address::Lookup`, `LookupAnyIPAddress`, `Address::Create`).

`Lookup` cuts its argument into the node and the service that it gives to `getaddrinfo`. The first stage reads a name
in brackets; as long as there is no node, the second one looks for a single colon, and the third takes the whole text.
`service` is a pointer into the text that the stages share: where the second stage finds more than one colon, it takes
no node, but leaves the pointer at the first of them.
- `passed_bracketed`, `passed_pair`, `passed_plain`: the texts that are cut as they are meant to be.
- `passed_literal`: an address of colons comes with a service.
- `lookup_iff`: the node and the service are the right ones just for the hosts that are not of the last kind.
-/
import Mathlib.Tactic
import Sylar.Core.Text
import Sylar.Http.Params
import Sylar.Address.Order

namespace Sylar.Address

open Sylar.Core Sylar.Http

/-! ## The stages -/

/-- `memchr(s + start, c, n)`, as an index into `s` -/
def memchr (s : Bytes) (start : ℕ) (c : UInt8) (n : ℕ) : Option ℕ :=
  (((s.drop start).take n).findIdx? (· = c)).map (start + ·)

/-- the case of IPv6: the node, and the index `service` points at -/
def bracketStage (host : Bytes) : Bytes × Option ℕ :=
  if host ≠ [] ∧ host.head? = some 91 then
    match memchr host 1 93 (host.length - 1) with
    | some endipv6 =>
      (substr host 1 (endipv6 - 1), if host.getD (endipv6 + 1) 0 = 58 then some (endipv6 + 2) else none)
    | none => ([], none)
  else ([], none)

/-- the case of IPv4 or a name -/
def colonStage (host : Bytes) (found : Bytes × Option ℕ) : Bytes × Option ℕ :=
  if found.1 = [] then
    match memchr host 0 58 host.length with
    | some service =>
      if memchr host (service + 1) 58 (host.length - service - 1) = none then
        (substr host 0 service, some (service + 1))
      else (found.1, some service)
    | none => (found.1, none)
  else found

/-- the node and the service that are passed to `getaddrinfo`: the texts at the two pointers -/
def passed (host : Bytes) : Bytes × Option Bytes :=
  let found := colonStage host (bracketStage host)
  (if found.1 = [] then host else found.1, found.2.map host.drop)

/-! ## The addresses -/

structure Hints where
  aiFamily : ℕ
  aiSocktype : ℤ
  aiProtocol : ℤ
deriving DecidableEq, Repr

/-- a `sockaddr`, by its family -/
inductive Sockaddr where
  | inet (a : SockaddrIn) (sinZero : Memory 8)
  | inet6 (a : SockaddrIn6)
  | other (a : Memory 16)
deriving DecidableEq, Repr

/-- `Address::Create` -/
def AddressObject.create : Sockaddr → AddressObject
  | .inet a sinZero => .ipv4 ⟨a⟩ sinZero
  | .inet6 a => .ipv6 ⟨a⟩
  | .other a => .unknown a

/-- `getaddrinfo` reads both texts up to the first NUL; none is an error -/
abbrev Resolver := Bytes → Option Bytes → Hints → Option (List Sockaddr)

/-- `Address::Lookup` -/
def lookup (getaddrinfo : Resolver) (host : Bytes) (family : ℕ := 0) (type : ℤ := 0) (protocol : ℤ := 0) :
    Option (List AddressObject) :=
  let args := passed host
  (getaddrinfo (cstr args.1) (args.2.map cstr) ⟨family, type, protocol⟩).map (·.map AddressObject.create)

/-- the objects whose class is derived from `IPAddress` -/
inductive IPAddress where
  | ipv4 (a : IPv4Address) (sinZero : Memory 8)
  | ipv6 (a : IPv6Address)

def IPAddress.getPort : IPAddress → BitVec 16
  | ipv4 a _ => a.getPort
  | ipv6 a => a.getPort

def IPAddress.setPort (v : BitVec 16) : IPAddress → IPAddress
  | ipv4 a sinZero => ipv4 (a.setPort v) sinZero
  | ipv6 a => ipv6 (a.setPort v)

@[simp] theorem IPAddress.getPort_setPort (a : IPAddress) (v : BitVec 16) : (a.setPort v).getPort = v := by
  cases a <;> simp [setPort, getPort]

/-- `dynamic_pointer_cast<IPAddress>` -/
def AddressObject.toIP : AddressObject → Option IPAddress
  | .ipv4 a sinZero => some (.ipv4 a sinZero)
  | .ipv6 a => some (.ipv6 a)
  | _ => none

/-- `Address::LookupAnyIPAddress` -/
def lookupAnyIPAddress (getaddrinfo : Resolver) (host : Bytes) (family : ℕ := 0) (type : ℤ := 0) (protocol : ℤ := 0) :
    Option IPAddress :=
  (lookup getaddrinfo host family type protocol).bind (·.findSome? (·.toIP))

/-! ## Texts with and without brackets -/

/-- it begins with something in brackets -/
def Bracketed (host : Bytes) : Prop := ∃ v x, host = 91 :: (v ++ 93 :: x) ∧ v ≠ [] ∧ 93 ∉ v

theorem memchr_rest {s : Bytes} {start n : ℕ} (c : UInt8) (h : n = s.length - start) :
    memchr s start c n = strFind s c start := by
  rw [memchr, strFind, List.take_of_length_le (by rw [List.length_drop, h])]

theorem passed_bracketed {v : Bytes} (hv : v ≠ []) (hfree : 93 ∉ v) (x : Bytes) :
    passed (91 :: (v ++ 93 :: x)) = (v, if x.head? = some 58 then some x.tail else none) := by
  have hdrop : (91 :: (v ++ 93 :: x)).drop 1 = v ++ 93 :: x := rfl
  have hfind : memchr (91 :: (v ++ 93 :: x)) 1 93 ((91 :: (v ++ 93 :: x)).length - 1) = some (1 + v.length) := by
    rw [memchr_rest 93 rfl, strFind_of_drop hdrop hfree]
  have hnode : substr (91 :: (v ++ 93 :: x)) 1 (1 + v.length - 1) = v := by
    rw [Nat.add_sub_cancel_left]
    exact substr_of_drop hdrop
  have hbehind : (91 :: (v ++ 93 :: x)).drop (1 + v.length + 1) = x := by
    rw [← List.drop_drop, drop_of_drop hdrop]
    rfl
  have hnext : (91 :: (v ++ 93 :: x)).getD (1 + v.length + 1) 0 = x.head?.getD 0 := by
    rw [List.getD_eq_getElem?_getD, ← List.head?_drop, hbehind]
  have hstage : bracketStage (91 :: (v ++ 93 :: x)) =
      (v, if x.head? = some 58 then some (1 + v.length + 2) else none) := by
    have hcolon : x.head?.getD 0 = 58 ↔ x.head? = some 58 := by
      cases x <;> simp
    rw [bracketStage, if_pos ⟨List.cons_ne_nil _ _, rfl⟩, hfind]
    simp only [hnode, hnext, hcolon]
  rw [passed, hstage, colonStage, if_neg hv]
  simp only [if_neg hv, Prod.mk.injEq, true_and]
  split_ifs
  · rw [Option.map_some, show 1 + v.length + 2 = 1 + v.length + 1 + 1 from rfl, ← List.drop_drop, hbehind, List.drop_one]
  · rfl

/-- the first stage finds nothing -/
theorem bracketStage_nil {host : Bytes} (h : ¬Bracketed host) : (bracketStage host).1 = [] := by
  unfold bracketStage
  split_ifs with hopen
  · obtain ⟨t, rfl⟩ := List.head?_eq_some_iff.mp hopen.2
    rw [memchr_rest 93 rfl]
    by_cases hclose : 93 ∈ t
    · obtain ⟨v, x, rfl, hfree⟩ := List.eq_append_cons_of_mem hclose
      have hdrop : (91 :: (v ++ 93 :: x)).drop 1 = v ++ 93 :: x := rfl
      have hnil : v = [] := by
        by_contra hv
        exact h ⟨v, x, rfl, hv, hfree⟩
      rw [strFind_of_drop hdrop hfree, hnil]
      rfl
    · rw [strFind_eq_none hclose]
  · rfl

theorem passed_plain {host : Bytes} (h : ¬Bracketed host) (hfree : 58 ∉ host) : passed host = (host, none) := by
  have hnone : memchr host 0 58 host.length = none := by
    rw [memchr_rest 58 (Nat.sub_zero _).symm]
    exact strFind_eq_none hfree
  have hstage : colonStage host (bracketStage host) = ([], none) := by
    rw [colonStage, if_pos (bracketStage_nil h), hnone, bracketStage_nil h]
  rw [passed, hstage]
  rfl

section
variable {a b : Bytes} (hbracket : ¬Bracketed (a ++ 58 :: b)) (ha : 58 ∉ a)
include hbracket ha

/-- the second stage finds the colon -/
theorem colonStage_eq : colonStage (a ++ 58 :: b) (bracketStage (a ++ 58 :: b)) =
    if 58 ∈ b then ([], some a.length) else (a, some (a.length + 1)) := by
  have hdrop : (a ++ 58 :: b).drop 0 = a ++ 58 :: b := rfl
  have hfirst : memchr (a ++ 58 :: b) 0 58 (a ++ 58 :: b).length = some a.length := by
    rw [memchr_rest 58 (Nat.sub_zero _).symm, strFind_of_drop hdrop ha, Nat.zero_add]
  have hbehind : (a ++ 58 :: b).drop (a.length + 1) = b := by
    rw [← List.drop_drop, List.drop_left]
    rfl
  have hsecond : memchr (a ++ 58 :: b) (a.length + 1) 58 ((a ++ 58 :: b).length - a.length - 1) = none ↔ 58 ∉ b := by
    rw [memchr_rest 58 (Nat.sub_sub _ _ _)]
    constructor
    · intro hnone hmem
      obtain ⟨c, d, rfl, hc⟩ := List.eq_append_cons_of_mem hmem
      rw [strFind_of_drop hbehind hc] at hnone
      cases hnone
    · intro hfree
      exact strFind_eq_none (by rwa [hbehind])
  have hnode : substr (a ++ 58 :: b) 0 a.length = a := substr_of_drop hdrop
  rw [colonStage, if_pos (bracketStage_nil hbracket), hfirst]
  simp only [hsecond, hnode, bracketStage_nil hbracket]
  by_cases hb : 58 ∈ b <;> simp [hb]

theorem passed_pair (hne : a ≠ []) (hb : 58 ∉ b) : passed (a ++ 58 :: b) = (a, some b) := by
  rw [passed, colonStage_eq hbracket ha, if_neg hb]
  simp only [if_neg hne, Option.map_some]
  rw [← List.drop_drop, List.drop_left]
  rfl

/-- the pointer is left at the first colon -/
theorem passed_literal (hb : 58 ∈ b) : passed (a ++ 58 :: b) = (a ++ 58 :: b, some (58 :: b)) := by
  rw [passed, colonStage_eq hbracket ha, if_pos hb]
  simp only [if_true, Option.map_some, List.drop_left]

end

/-! ## What is meant -/

/-- the node and the service of a host -/
inductive Reading : Bytes → Bytes → Option Bytes → Prop where
  | bracketService {v : Bytes} (s : Bytes) (hv : v ≠ []) (hfree : 93 ∉ v) : Reading (91 :: (v ++ 93 :: 58 :: s)) v (some s)
  | bracket {v : Bytes} (hv : v ≠ []) (hfree : 93 ∉ v) : Reading (91 :: (v ++ [93])) v none
  | pair {h s : Bytes} (hne : h ≠ []) (hh : 58 ∉ h) (hs : 58 ∉ s) (hopen : h.head? ≠ some 91) :
    Reading (h ++ 58 :: s) h (some s)
  | plain {h : Bytes} (hfree : 58 ∉ h) (hbracket : ¬Bracketed h) : Reading h h none
  | literal {h : Bytes} (hcolons : 2 ≤ h.count 58) (hbracket : ¬Bracketed h) : Reading h h none

/-- every reading of the host is what is passed -/
def SplitRight (host : Bytes) : Prop := ∀ node service, Reading host node service → passed host = (node, service)

/-- a text with two colons or more, cut at the first -/
theorem exists_two_colons {host : Bytes} (h : 2 ≤ host.count 58) : ∃ a b, host = a ++ 58 :: b ∧ 58 ∉ a ∧ 58 ∈ b := by
  have hmem : 58 ∈ host := List.count_pos_iff.mp (by omega)
  obtain ⟨a, b, rfl, ha⟩ := List.eq_append_cons_of_mem hmem
  refine ⟨a, b, rfl, ha, List.count_pos_iff.mp ?_⟩
  rw [List.count_append, List.count_cons_self, List.count_eq_zero.mpr ha] at h
  omega

theorem not_bracketed_of_head {host : Bytes} (h : host.head? ≠ some 91) : ¬Bracketed host := by
  rintro ⟨v, x, rfl, -⟩
  exact h rfl

/-- **Host and service.** For every host: the node and the service passed to `getaddrinfo` are the right ones exactly if
the host begins with a name in brackets or has at most one colon. -/
theorem lookup_iff (host : Bytes) : SplitRight host ↔ Bracketed host ∨ host.count 58 ≤ 1 := by
  constructor
  · intro h
    by_contra hno
    rw [not_or, not_le] at hno
    obtain ⟨a, b, rfl, ha, hb⟩ := exists_two_colons hno.2
    have hright := h _ _ (Reading.literal hno.2 hno.1)
    rw [passed_literal hno.1 ha hb] at hright
    cases congrArg Prod.snd hright
  · intro h node service hreading
    cases hreading with
    | bracketService s hv hfree => exact passed_bracketed hv hfree (58 :: s)
    | bracket hv hfree => exact passed_bracketed hv hfree []
    | pair hne hh hs hopen =>
      refine passed_pair (not_bracketed_of_head ?_) hh hne hs
      rwa [List.head?_append_of_ne_nil _ hne]
    | plain hfree hbracket => exact passed_plain hbracket hfree
    | literal hcolons hbracket =>
      rcases h with h | h
      · exact absurd h hbracket
      · omega

/-- `::1` is passed with the service `::1` -/
theorem loopback_with_service :
    passed (ascii "::1") = (ascii "::1", some (ascii "::1")) ∧ ¬SplitRight (ascii "::1") := by
  refine ⟨by decide, fun h => ?_⟩
  have hbracket : ¬Bracketed (ascii "::1") := not_bracketed_of_head (by decide)
  have hright := h _ _ (Reading.literal (by decide) hbracket)
  revert hright
  decide

end Sylar.Address
