/-
Subnets of IPv4 addresses (`CreateMask`, `CountBytes`, `IPv4Address::subnetMask`, `networdAddress`,
`broadcastAddress`).

`CreateMask` makes the ones behind a prefix by a shift of an `int`; the outcome `none` is undefined behaviour: a shift
by 32 or more, or a difference below the least `int`. Masks are stored in network order; a swap commutes with `~` and
`|`.
- `mask_iff`, `broadcast_iff`: the mask and the broadcast address are right exactly if the prefix has 2 bits or more.
- `network_iff`: `networdAddress` keeps the bits behind the prefix instead of the others, and so is right exactly if
  moreover the address is 0.0.0.0.
- `subnet4_iff`: all of it together; `private_network` is 192.168.1.10/24.
-/
import Mathlib.Tactic
import Sylar.Core.LeBytes
import Sylar.Core.Masks
import Sylar.ByteArray.Codec
import Sylar.Address.Model

namespace Sylar.Address

open Sylar.Core Sylar.ByteArray

/-! ## The operations -/

/-- `CreateMask<T>`, for a type with `size` bytes; the amount of the shift is a `size_t` -/
def createMask (size bits : ℕ) : Option (BitVec (8 * size)) :=
  let amount := (8 * size + 2 ^ 64 - bits) % 2 ^ 64
  if amount < 32 then
    let value := ((2 : ℤ) ^ amount).bmod (2 ^ 32) - 1
    if -2 ^ 31 ≤ value then some (BitVec.ofInt _ value) else none
  else none

/-- `CountBytes` -/
def countBytes {w : ℕ} (value : BitVec w) : ℕ :=
  if h : value.toNat = 0 then 0 else countBytes (value &&& (value - 1)) + 1
termination_by value.toNat
decreasing_by
  rw [toNat_clear h]
  exact clear_lt h

/-- the mask of a `uint32_t`, in network order -/
def hostMask (prefixLen : ℕ) : Option (BitVec 32) := (createMask 4 prefixLen).map (byteswapOnLittleEndian 4)

/-- the address, or a null pointer -/
def IPv4Address.broadcastAddress (a : IPv4Address) (prefixLen : ℕ) : Option (Option IPv4Address) :=
  if 32 < prefixLen then some none
  else do
    let mask ← hostMask prefixLen
    return some ⟨{ a.addr with sAddr := a.addr.sAddr ||| mask }⟩

def IPv4Address.networdAddress (a : IPv4Address) (prefixLen : ℕ) : Option (Option IPv4Address) :=
  if 32 < prefixLen then some none
  else do
    let mask ← hostMask prefixLen
    return some ⟨{ a.addr with sAddr := a.addr.sAddr &&& mask }⟩

def IPv4Address.subnetMask (prefixLen : ℕ) : Option IPv4Address := do
  let mask ← hostMask prefixLen
  return ⟨{ sinFamily := AF_INET, sAddr := ~~~mask }⟩

/-! ## What is meant -/

/-- `p` leading ones, in network order -/
def netMask (p : ℕ) : BitVec 32 := byteswapOnLittleEndian 4 (leading 32 p)

/-- the address as a number -/
def IPv4Address.number (a : IPv4Address) : ℕ := (byteswapOnLittleEndian 4 a.addr.sAddr).toNat

/-- another address, with the same port and family -/
def IPv4Address.withAddr (a : IPv4Address) (x : BitVec 32) : IPv4Address := ⟨{ a.addr with sAddr := x }⟩

def MaskRight (p : ℕ) : Prop :=
  ∃ m, IPv4Address.subnetMask p = some m ∧ m.addr.sAddr = netMask p ∧ countBytes m.addr.sAddr = p

/-- the address behind `networdAddress`, which is not above `a` and is its own network -/
def NetworkRight (a : IPv4Address) (p : ℕ) : Prop :=
  let n := a.withAddr (a.addr.sAddr &&& netMask p)
  a.networdAddress p = some (some n) ∧ n.number ≤ a.number ∧ n.networdAddress p = some (some n)

def BroadcastRight (a : IPv4Address) (p : ℕ) : Prop :=
  let b := a.withAddr (a.addr.sAddr ||| ~~~netMask p)
  a.broadcastAddress p = some (some b) ∧ a.number ≤ b.number ∧ b.broadcastAddress p = some (some b)

/-! ## Byte order -/

theorem getLsbD_byteswap {k i : ℕ} (hi : i < 8 * k) (v : BitVec (8 * k)) :
    (byteswapOnLittleEndian k v).getLsbD i = v.getLsbD (8 * (k - 1 - i / 8) + i % 8) := by
  rw [byteswapOnLittleEndian, byteswap, BitVec.getLsbD_ofNat, testBit_reverse hi]
  simp only [hi, decide_true, Bool.true_and]
  rfl

theorem byteswap_not {k : ℕ} (v : BitVec (8 * k)) :
    byteswapOnLittleEndian k (~~~v) = ~~~byteswapOnLittleEndian k v := by
  apply BitVec.eq_of_getLsbD_eq
  intro i hi
  have hj : 8 * (k - 1 - i / 8) + i % 8 < 8 * k := by omega
  rw [getLsbD_byteswap hi, BitVec.getLsbD_not, BitVec.getLsbD_not, getLsbD_byteswap hi]
  simp only [hi, hj]

theorem byteswap_or {k : ℕ} (v v' : BitVec (8 * k)) :
    byteswapOnLittleEndian k (v ||| v') = byteswapOnLittleEndian k v ||| byteswapOnLittleEndian k v' := by
  apply BitVec.eq_of_getLsbD_eq
  intro i hi
  rw [getLsbD_byteswap hi, BitVec.getLsbD_or, BitVec.getLsbD_or, getLsbD_byteswap hi, getLsbD_byteswap hi]

theorem popcount_byteswap {k : ℕ} (v : BitVec (8 * k)) :
    popcount (byteswapOnLittleEndian k v).toNat = popcount v.toNat := by
  have hlt : v.toNat < 256 ^ k := by
    rw [← pow_byte]
    exact v.isLt
  have hrev := ofLE_lt (toLE k v.toNat).reverse
  rw [List.length_reverse, toLE_length, ← pow_byte] at hrev
  calc popcount (byteswapOnLittleEndian k v).toNat
      = popcount (ofLE (toLE k v.toNat).reverse) := by
        rw [byteswapOnLittleEndian, byteswap, BitVec.toNat_ofNat, Nat.mod_eq_of_lt hrev]
    _ = popcount (ofLE (toLE k v.toNat)) := by
        rw [popcount_ofLE, popcount_ofLE, List.map_reverse, List.sum_reverse]
    _ = popcount v.toNat := by rw [ofLE_toLE k _ hlt]

theorem countBytes_eq {w : ℕ} (v : BitVec w) : countBytes v = popcount v.toNat := by
  fun_induction countBytes v with
  | case1 v h => rw [h, popcount_zero]
  | case2 v h ih => rw [ih, toNat_clear h, ← popcount_clear h]

/-! ## The masks of the code -/

/-- the shift is defined from 2 bits on -/
theorem createMask_word :
    ∀ p < 33, createMask 4 p = if 2 ≤ p then some (BitVec.ofNat 32 (2 ^ (32 - p) - 1)) else none := by
  decide +kernel

theorem hostMask_eq {p : ℕ} (hp : p ≤ 32) : hostMask p = if 2 ≤ p then some (~~~netMask p) else none := by
  have hmask : byteswapOnLittleEndian 4 (BitVec.ofNat 32 (2 ^ (32 - p) - 1)) = ~~~netMask p := by
    have hnot := byteswap_not (k := 4) (BitVec.ofNat 32 (2 ^ (32 - p) - 1))
    rw [netMask, ← not_low]
    exact ((congrArg (~~~·) hnot).trans BitVec.not_not).symm
  rw [hostMask, createMask_word p (by omega)]
  split_ifs
  · exact congrArg some hmask
  · rfl

theorem subnetMask_eq {p : ℕ} (hp : p ≤ 32) :
    IPv4Address.subnetMask p = if 2 ≤ p then some ⟨{ sinFamily := AF_INET, sAddr := netMask p }⟩ else none := by
  rw [IPv4Address.subnetMask, hostMask_eq hp]
  split_ifs
  · rw [Option.bind_eq_bind, Option.bind_some, BitVec.not_not]
    rfl
  · rfl

theorem broadcastAddress_eq (a : IPv4Address) {p : ℕ} (hp : p ≤ 32) :
    a.broadcastAddress p = if 2 ≤ p then some (some (a.withAddr (a.addr.sAddr ||| ~~~netMask p))) else none := by
  rw [IPv4Address.broadcastAddress, if_neg (not_lt.mpr hp), hostMask_eq hp]
  split_ifs <;> rfl

/-- the bits behind the prefix are kept -/
theorem networdAddress_eq (a : IPv4Address) {p : ℕ} (hp : p ≤ 32) :
    a.networdAddress p = if 2 ≤ p then some (some (a.withAddr (a.addr.sAddr &&& ~~~netMask p))) else none := by
  rw [IPv4Address.networdAddress, if_neg (not_lt.mpr hp), hostMask_eq hp]
  split_ifs <;> rfl

/-! ## When they are right -/

theorem countBytes_netMask {p : ℕ} (hp : p ≤ 32) : countBytes (netMask p) = p := by
  have hswap := popcount_byteswap (k := 4) (leading 32 p)
  rw [countBytes_eq]
  exact hswap.trans (popcount_leading hp)

theorem mask_iff {p : ℕ} (hp : p ≤ 32) : MaskRight p ↔ 2 ≤ p := by
  rw [MaskRight, subnetMask_eq hp]
  constructor
  · intro ⟨m, hm, _, _⟩
    by_contra hlt
    rw [if_neg hlt] at hm
    cases hm
  · intro h2
    rw [if_pos h2]
    exact ⟨_, rfl, rfl, countBytes_netMask hp⟩

theorem number_or_le (a : IPv4Address) (x : BitVec 32) : a.number ≤ (a.withAddr (a.addr.sAddr ||| x)).number := by
  have hor := congrArg BitVec.toNat (byteswap_or (k := 4) a.addr.sAddr x)
  rw [BitVec.toNat_or] at hor
  exact Nat.left_le_or.trans_eq hor.symm

theorem broadcast_iff (a : IPv4Address) {p : ℕ} (hp : p ≤ 32) : BroadcastRight a p ↔ 2 ≤ p := by
  rw [BroadcastRight, broadcastAddress_eq a hp, broadcastAddress_eq _ hp]
  constructor
  · intro ⟨hb, _⟩
    by_contra hlt
    rw [if_neg hlt] at hb
    cases hb
  · intro h2
    rw [if_pos h2, if_pos h2]
    refine ⟨rfl, number_or_le a _, ?_⟩
    have hagain : a.addr.sAddr ||| ~~~netMask p ||| ~~~netMask p = a.addr.sAddr ||| ~~~netMask p := by
      rw [BitVec.or_assoc, BitVec.or_self]
    exact congrArg (fun x => some (some (a.withAddr x))) hagain

theorem network_iff (a : IPv4Address) {p : ℕ} (hp : p ≤ 32) : NetworkRight a p ↔ 2 ≤ p ∧ a.addr.sAddr = 0 := by
  rw [NetworkRight, networdAddress_eq a hp, networdAddress_eq _ hp]
  constructor
  · intro ⟨hn, _⟩
    by_cases h2 : 2 ≤ p
    · rw [if_pos h2] at hn
      have hkept := congrArg (fun n => n.addr.sAddr) (Option.some.inj (Option.some.inj hn))
      exact ⟨h2, (and_eq_and_not a.addr.sAddr (netMask p)).mp hkept.symm⟩
    · rw [if_neg h2] at hn
      cases hn
  · intro ⟨h2, hzero⟩
    have hand : ∀ m, a.addr.sAddr &&& m = a.addr.sAddr := by
      intro m
      rw [hzero]
      exact BitVec.zero_and
    rw [if_pos h2, if_pos h2, hand, hand]
    refine ⟨rfl, le_rfl, ?_⟩
    exact congrArg (fun x => some (some (a.withAddr x))) (hand _)

/-- **When the arithmetic of IPv4 subnets is right.** -/
theorem subnet4_iff (a : IPv4Address) (p : ℕ) (hp : p ≤ 32) :
    MaskRight p ∧ NetworkRight a p ∧ BroadcastRight a p ↔ 2 ≤ p ∧ a.addr.sAddr = 0 := by
  rw [mask_iff hp, network_iff a hp, broadcast_iff a hp]
  constructor
  · intro ⟨_, hnetwork, _⟩
    exact hnetwork
  · intro h
    exact ⟨h.1, h, h.1⟩

theorem subnet4_iff_zero : MaskRight 8 ∧ NetworkRight (.ofWord 0 80) 8 ∧ BroadcastRight (.ofWord 0 80) 8 :=
  (subnet4_iff (.ofWord 0 80) 8 (by decide)).mpr ⟨by decide, rfl⟩

/-- 192.168.1.10, port 80 -/
def privateHost : IPv4Address := ⟨{ sinFamily := AF_INET, sinPort := swapPort 80, sAddr := 0x0a01a8c0 }⟩

/-- the host is taken for the network, and a prefix of 0 or 1 bits is undefined -/
theorem private_network :
    privateHost.networdAddress 24 = some (some (privateHost.withAddr 0x0a000000)) ∧ ¬NetworkRight privateHost 24 ∧
      IPv4Address.subnetMask 0 = none ∧ ¬MaskRight 0 := by
  refine ⟨by decide +kernel, ?_, by decide +kernel, ?_⟩
  · intro ⟨hn, _⟩
    revert hn
    decide +kernel
  · intro ⟨m, hm, _⟩
    have hnone : IPv4Address.subnetMask 0 = none := by decide +kernel
    rw [hnone] at hm
    cases hm

end Sylar.Address
