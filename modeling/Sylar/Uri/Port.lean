/-
The port of a URI and the port that is connected to (`uri.rl`, `save_port`, `getPort` and `createAddress`).

The digits of the port, any number of them, go through `atoi` into an `int32_t`; `getPort` takes a zero for no port and
puts that of the scheme there; and `setPort` of the address takes the low 16 bits. `port_iff`: the address has the port
of the text, or the text is rejected, exactly if the number is below 65536, and not zero where the scheme has a port.
-/
import Mathlib.Tactic
import Sylar.Core.Text
import Sylar.Address.Lookup
import Sylar.Uri.Machine
import Sylar.Uri.Parts
import Sylar.Uri.Reading
import Sylar.Uri.Transitions
import Sylar.Uri.Print

namespace Sylar.Uri

open Sylar.Core Sylar.Http
open Sylar.Address (Resolver IPAddress lookupAnyIPAddress AF_INET)

/-- `Uri::createAddress`; the argument of `setPort` is a `uint16_t` -/
def createAddress (getaddrinfo : Resolver) (u : Uri) : Option IPAddress :=
  (lookupAnyIPAddress getaddrinfo u.host).map fun addr => addr.setPort (BitVec.ofInt 16 (getPort u))

/-- the port that is written in a text, if there is one -/
def explicitPort (s : Bytes) : Option Bytes := (split s).authority.bind (·.port)

/-- the number with these digits -/
def portValue (digits : Bytes) : ℕ := digits.foldl (fun v c => v * 10 + (c.toNat - 48)) 0

/-- an accepted text gives an address with port `n`, which is one, whatever the lookup finds -/
def PortRight (u : Uri) (n : ℕ) : Prop :=
  n < 65536 ∧ ∀ getaddrinfo addr, createAddress getaddrinfo u = some addr → addr.getPort.toNat = n

/-! ## From the text to the field -/

theorem atoi_digits {x : Bytes} (hx : x ≠ []) (hdigits : ∀ c ∈ x, digit c = true) :
    atoi x = toInt32 (min 9223372036854775807 (portValue x : ℤ)) := by
  cases x with
  | nil => exact absurd rfl hx
  | cons c x =>
    have hten : ∀ y ∈ c :: x, isDigit 10 y = true := fun y hy => by rw [← digit_eq]; exact hdigits y hy
    rw [atoi_cons (hten c List.mem_cons_self), digitsValue_eq_foldl hten, portValue]

theorem atoi_port_value {x : Bytes} (hx : x ≠ []) (hdigits : ∀ c ∈ x, digit c = true) (hlt : portValue x < 65536) :
    atoi x = portValue x := by
  have hmin : min 9223372036854775807 (portValue x : ℤ) = portValue x := min_eq_right (by omega)
  rw [atoi_digits hx hdigits, hmin]
  exact toInt32_of_lt (by omega) (by omega)

/-- the fields of a text with a port -/
theorem port_field {s digits : Bytes} {u : Uri} (h : create s = .ok (some u)) (hport : explicitPort s = some digits) :
    u.port = atoi digits ∧ (∀ c ∈ digits, digit c = true) ∧ u.scheme = (split s).scheme.getD [] := by
  obtain ⟨p, hgood, rfl, rfl⟩ := create_parts h
  rw [explicitPort, split_text hgood.toApart, Option.bind_eq_some_iff] at hport
  obtain ⟨a, ha, hx⟩ := hport
  refine ⟨?_, hgood.digits a ha digits hx, by rw [split_text hgood.toApart]; rfl⟩
  show ((p.authority.bind (·.port)).map atoi).getD 0 = atoi digits
  rw [ha, Option.bind_some, hx, Option.map_some, Option.getD_some]

/-! ## From the field to the address -/

theorem createAddress_port {getaddrinfo : Resolver} {u : Uri} {addr : IPAddress}
    (h : createAddress getaddrinfo u = some addr) : addr.getPort = BitVec.ofInt 16 (getPort u) := by
  obtain ⟨found, -, rfl⟩ := Option.map_eq_some_iff.mp h
  exact IPAddress.getPort_setPort _ _

/-- a resolver that knows the address 0.0.0.0 -/
def anyAddress : Resolver := fun _ _ _ => some [.inet { sinFamily := AF_INET } ⟨List.replicate 8 0, rfl⟩]

theorem exists_createAddress (u : Uri) : ∃ addr, createAddress anyAddress u = some addr := ⟨_, rfl⟩

/-- **The port connected to.** For every text that is accepted and has a port written in it: the address has that port,
and it is one, exactly if the number is below 65536 and, where it is 0, the scheme has no port of its own. -/
theorem port_iff {s digits : Bytes} {u : Uri} (h : create s = .ok (some u)) (hport : explicitPort s = some digits)
    (hne : digits ≠ []) :
    PortRight u (portValue digits) ↔
      portValue digits < 65536 ∧ (portValue digits = 0 → defaultPort ((split s).scheme.getD []) = none) := by
  obtain ⟨hfield, hdigits, hscheme⟩ := port_field h hport
  rw [PortRight, ← hscheme]
  apply and_congr_right
  intro hlt
  have hfield : u.port = portValue digits := hfield.trans (atoi_port_value hne hdigits hlt)
  by_cases hzero : portValue digits = 0
  · -- the port of the scheme, if it has one
    have hget : getPort u = (defaultPort u.scheme).getD 0 := by
      rw [getPort, hfield, hzero]
      rfl
    simp only [hzero, true_implies]
    constructor
    · intro hright
      obtain ⟨addr, haddr⟩ := exists_createAddress u
      have hport := hright anyAddress addr haddr
      rw [createAddress_port haddr, hget] at hport
      revert hport
      unfold defaultPort
      split_ifs
      · decide
      · decide
      · exact fun _ => rfl
    · intro hnone getaddrinfo addr haddr
      rw [createAddress_port haddr, hget, hnone]
      rfl
  · have hget : getPort u = portValue digits := by
      rw [getPort, hfield, if_pos (by omega)]
    refine iff_of_true (fun getaddrinfo addr haddr => ?_) fun hnil => absurd hnil hzero
    rw [createAddress_port haddr, hget, BitVec.ofInt_natCast, BitVec.toNat_ofNat]
    omega

def localUri : Uri where
  scheme := ascii "http"
  host := ascii "h"
  path := ascii "/"
  port := 8080

theorem create_local : create (ascii "http://h:8080/") = .ok (some localUri) := by
  decide +kernel

theorem port_iff_local : PortRight localUri 8080 := by
  have hport : explicitPort (ascii "http://h:8080/") = some (ascii "8080") := by decide +kernel
  exact (port_iff create_local hport (by decide)).mpr (by decide +kernel)

def farUri : Uri where
  scheme := ascii "http"
  host := ascii "h"
  path := ascii "/"
  port := 66616

def zeroUri : Uri where
  scheme := ascii "http"
  host := ascii "h"
  path := ascii "/"

/-- 66616 is accepted and becomes the port 1080, and 0 the port of the scheme -/
theorem port_wraps :
    (create (ascii "http://h:66616/") = .ok (some farUri) ∧ explicitPort (ascii "http://h:66616/") = some (ascii "66616") ∧
      (createAddress anyAddress farUri).map (·.getPort.toNat) = some 1080 ∧ ¬PortRight farUri 66616) ∧
    create (ascii "http://h:0/") = .ok (some zeroUri) ∧ explicitPort (ascii "http://h:0/") = some (ascii "0") ∧
      (createAddress anyAddress zeroUri).map (·.getPort.toNat) = some 80 ∧ ¬PortRight zeroUri 0 := by
  have hzero : (createAddress anyAddress zeroUri).map (·.getPort.toNat) = some 80 := by decide +kernel
  refine ⟨⟨by decide +kernel, by decide +kernel, by decide +kernel, fun h => absurd h.1 (by decide)⟩, by decide +kernel,
    by decide +kernel, hzero, fun h => ?_⟩
  obtain ⟨addr, haddr⟩ := exists_createAddress zeroUri
  rw [haddr, Option.map_some, h.2 anyAddress addr haddr] at hzero
  cases hzero

end Sylar.Uri
