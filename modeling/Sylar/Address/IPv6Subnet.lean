/-
Subnets of IPv6 addresses (`IPv6Address::subnetMask`, `networdAddress`, `broadcastAddress`).

The three functions treat the byte with the end of the prefix, the bytes before it and the bytes behind it. The
outcome `none` is undefined behaviour: an index that is not below 16, which is so for every prefix of 128 bits or
more.
- `subnet6_never`: `subnetMask` overwrites the byte with the end of the prefix, so that no mask is right;
  `broadcastAddress` is right for all prefixes below 128; `networdAddress` keeps what it should take away, and so is
  right only if there is nothing behind the prefix.
- `link_local`: the mask of fe80::1/10 has 16 ones.
-/
import Mathlib.Tactic
import Sylar.Core.LeBytes
import Sylar.Core.Masks
import Sylar.ByteArray.Codec
import Sylar.Address.Model
import Sylar.Address.IPv4Subnet

namespace Sylar.Address

open Sylar.Core Sylar.ByteArray

/-! ## The operations -/

/-- the mask of a `uint8_t` -/
def byteMask (bits : ℕ) : Option UInt8 := (createMask 1 bits).map fun m => ⟨m⟩

/-- an assignment to `s6_addr[i]`, which has 16 elements -/
def In6Addr.modify (a : In6Addr) (i : ℕ) (f : UInt8 → UInt8) : Option In6Addr :=
  if i < 16 then some ⟨a.s6Addr.modify i f, (List.length_modify ..).trans a.size⟩ else none

/-- the loops that set the elements from `i` up to `stop` -/
def In6Addr.fill (a : In6Addr) (i stop : ℕ) : Option In6Addr :=
  (List.range' i (stop - i)).foldlM (fun a i => a.modify i fun _ => 0xff) a

def IPv6Address.broadcastAddress (a : IPv6Address) (prefixLen : ℕ) : Option IPv6Address := do
  let mask ← byteMask (prefixLen % 8)
  let baddr ← a.addr.sin6Addr.modify (prefixLen / 8) (· ||| mask)
  let baddr ← baddr.fill (prefixLen / 8 + 1) 16
  return ⟨{ a.addr with sin6Addr := baddr }⟩

def IPv6Address.networdAddress (a : IPv6Address) (prefixLen : ℕ) : Option IPv6Address := do
  let mask ← byteMask (prefixLen % 8)
  let baddr ← a.addr.sin6Addr.modify (prefixLen / 8) (· &&& mask)
  return ⟨{ a.addr with sin6Addr := baddr }⟩

def IPv6Address.subnetMask (prefixLen : ℕ) : Option IPv6Address := do
  let mask ← byteMask (prefixLen % 8)
  let subnet ← In6Addr.zero.modify (prefixLen / 8) fun _ => ~~~mask
  let subnet ← subnet.fill 0 (prefixLen / 8 + 1)
  return ⟨{ sin6Family := AF_INET6, sin6Addr := subnet }⟩

/-! ## What is meant -/

/-- the value of the bytes in network order -/
def In6Addr.value (a : In6Addr) : BitVec 128 := BitVec.ofNat 128 (ofLE a.s6Addr.reverse)

def Mask6Right (p : ℕ) : Prop :=
  ∃ m, IPv6Address.subnetMask p = some m ∧ m.addr.sin6Addr.value = leading 128 p

def Network6Right (a : IPv6Address) (p : ℕ) : Prop :=
  ∃ n, a.networdAddress p = some n ∧ n.addr.sin6Addr.value = a.addr.sin6Addr.value &&& leading 128 p

def Broadcast6Right (a : IPv6Address) (p : ℕ) : Prop :=
  ∃ b, a.broadcastAddress p = some b ∧ b.addr.sin6Addr.value = a.addr.sin6Addr.value ||| ~~~leading 128 p

/-! ## Bytes -/

def In6Addr.byte (a : In6Addr) (i : ℕ) : UInt8 := a.s6Addr.getD i 0

theorem byte_modify (a : In6Addr) {i : ℕ} (hi : i < 16) (f : UInt8 → UInt8) :
    ∃ a', a.modify i f = some a' ∧ ∀ j < 16, a'.byte j = if j = i then f (a.byte j) else a.byte j := by
  refine ⟨_, if_pos hi, ?_⟩
  intro j hj
  have hlen : j < a.s6Addr.length := hj.trans_eq a.size.symm
  rw [In6Addr.byte, In6Addr.byte, List.getD_eq_getElem?_getD, List.getD_eq_getElem?_getD, List.getElem?_modify,
    List.getElem?_eq_getElem hlen]
  split_ifs with h1 h2 h2
  · rfl
  · exact absurd h1.symm h2
  · exact absurd h2.symm h1
  · rfl

theorem byte_fill {i stop : ℕ} (h : i ≤ stop) (hstop : stop ≤ 16) (a : In6Addr) :
    ∃ a', a.fill i stop = some a' ∧ ∀ j < 16, a'.byte j = if i ≤ j ∧ j < stop then 0xff else a.byte j := by
  obtain ⟨n, rfl⟩ := Nat.exists_eq_add_of_le h
  rw [In6Addr.fill, Nat.add_sub_cancel_left]
  clear h
  induction n generalizing i a with
  | zero =>
    refine ⟨a, rfl, ?_⟩
    intro j _
    rw [if_neg (by omega)]
  | succ n ih =>
    obtain ⟨a1, h1, hbyte1⟩ := byte_modify a (by omega : i < 16) fun _ => 0xff
    obtain ⟨a2, h2, hbyte2⟩ := ih a1 (by omega : i + 1 + n ≤ 16)
    refine ⟨a2, ?_, ?_⟩
    · rw [List.range'_succ, List.foldlM_cons, h1]
      exact h2
    · intro j hj
      rw [hbyte2 j hj, hbyte1 j hj]
      split_ifs <;> first | rfl | omega

theorem getLsbD_value (a : In6Addr) {i b : ℕ} (hi : i < 16) (hb : b < 8) :
    a.value.getLsbD (8 * (15 - i) + b) = (a.byte i).toNat.testBit b := by
  have hlt : 8 * (15 - i) + b < 128 := by omega
  have hdiv : (8 * (15 - i) + b) / 8 = 15 - i := by omega
  have hmod : (8 * (15 - i) + b) % 8 = b := by omega
  have hrev : a.s6Addr.reverse.getD (15 - i) 0 = a.byte i := by
    have hlen : 15 - i < a.s6Addr.length := by
      rw [a.size]
      omega
    have hback : a.s6Addr.length - 1 - (15 - i) = i := by
      rw [a.size]
      omega
    rw [List.getD_eq_getElem?_getD, List.getElem?_reverse hlen, hback, ← List.getD_eq_getElem?_getD, In6Addr.byte]
  calc a.value.getLsbD (8 * (15 - i) + b)
      = (ofLE a.s6Addr.reverse).testBit (8 * (15 - i) + b) := by
        rw [In6Addr.value, BitVec.getLsbD_ofNat, decide_eq_true hlt, Bool.true_and]
    _ = (a.s6Addr.reverse.getD (15 - i) 0).toNat.testBit b := by rw [testBit_ofLE, hdiv, hmod]
    _ = (a.byte i).toNat.testBit b := by rw [hrev]

/-- the meaning of an address, byte by byte -/
theorem value_eq_iff (a : In6Addr) (v : BitVec 128) :
    a.value = v ↔ ∀ i < 16, ∀ b < 8, (a.byte i).toNat.testBit b = v.getLsbD (8 * (15 - i) + b) := by
  constructor
  · intro h i hi b hb
    rw [← h, getLsbD_value a hi hb]
  · intro h
    apply BitVec.eq_of_getLsbD_eq
    intro k hk
    have hsplit : k = 8 * (15 - (15 - k / 8)) + k % 8 := by omega
    have hmod : k % 8 < 8 := Nat.mod_lt k (by decide)
    rw [hsplit, getLsbD_value a (by omega) hmod]
    exact h (15 - k / 8) (by omega) (k % 8) hmod

theorem getLsbD_leading6 {p i b : ℕ} (hp : p ≤ 128) (hi : i < 16) (hb : b < 8) :
    (leading 128 p).getLsbD (8 * (15 - i) + b) = decide (8 * i + 7 < p + b) := by
  rw [getLsbD_leading (by omega), decide_eq_decide]
  omega

/-- the ones of a mask are behind the prefix -/
theorem byteMask_spec : ∀ r < 8, ∃ m, byteMask r = some m ∧ ∀ b < 8, m.toNat.testBit b = decide (b + r < 8) := by
  have hdefined : ∀ r < 8, (byteMask r).isSome = true := by decide +kernel
  have hbits : ∀ r < 8, ∀ b < 8, ((byteMask r).getD 0).toNat.testBit b = decide (b + r < 8) := by decide +kernel
  intro r hr
  obtain ⟨m, hm⟩ := Option.isSome_iff_exists.mp (hdefined r hr)
  refine ⟨m, hm, ?_⟩
  intro b hb
  have hbit := hbits r hr b hb
  rwa [hm, Option.getD_some] at hbit

/-! ## The functions, byte by byte -/

theorem modify_eq_none {i : ℕ} (hi : 16 ≤ i) (a : In6Addr) (f : UInt8 → UInt8) : a.modify i f = none :=
  if_neg (not_lt.mpr hi)

/-- from 128 bits on the index of the first assignment is 16 or more -/
theorem undefined_of_le {p : ℕ} (hp : 128 ≤ p) (a : IPv6Address) :
    IPv6Address.subnetMask p = none ∧ a.networdAddress p = none ∧ a.broadcastAddress p = none := by
  have hindex : 16 ≤ p / 8 := by omega
  obtain ⟨m, hm, _⟩ := byteMask_spec (p % 8) (Nat.mod_lt p (by decide))
  refine ⟨?_, ?_, ?_⟩
  · rw [IPv6Address.subnetMask, hm]
    simp only [Option.bind_eq_bind, Option.bind_some, modify_eq_none hindex, Option.bind_none]
  · rw [IPv6Address.networdAddress, hm]
    simp only [Option.bind_eq_bind, Option.bind_some, modify_eq_none hindex, Option.bind_none]
  · rw [IPv6Address.broadcastAddress, hm]
    simp only [Option.bind_eq_bind, Option.bind_some, modify_eq_none hindex, Option.bind_none]

theorem subnetMask_spec {p : ℕ} (hp : p < 128) :
    ∃ m, IPv6Address.subnetMask p = some m ∧ ∀ j < 16, m.addr.sin6Addr.byte j = if j ≤ p / 8 then 0xff else 0 := by
  obtain ⟨m, hm, _⟩ := byteMask_spec (p % 8) (Nat.mod_lt p (by decide))
  obtain ⟨x, hx, hbyte⟩ := byte_modify In6Addr.zero (by omega : p / 8 < 16) fun _ => ~~~m
  obtain ⟨y, hy, hfill⟩ := byte_fill (Nat.zero_le (p / 8 + 1)) (by omega) x
  refine ⟨⟨{ sin6Family := AF_INET6, sin6Addr := y }⟩, ?_, ?_⟩
  · rw [IPv6Address.subnetMask, hm]
    simp only [Option.bind_eq_bind, Option.bind_some, hx, hy]
    rfl
  · intro j hj
    have hzero : In6Addr.zero.byte j = 0 := by
      rw [In6Addr.byte, In6Addr.zero, List.getD_eq_getElem?_getD, List.getElem?_replicate, if_pos hj, Option.getD_some]
    rw [hfill j hj, hbyte j hj, hzero]
    split_ifs <;> first | rfl | omega

theorem networdAddress_spec (a : IPv6Address) {p : ℕ} (hp : p < 128) : ∃ m n, byteMask (p % 8) = some m ∧
    a.networdAddress p = some n ∧ ∀ j < 16, n.addr.sin6Addr.byte j =
      if j = p / 8 then a.addr.sin6Addr.byte j &&& m else a.addr.sin6Addr.byte j := by
  obtain ⟨m, hm, _⟩ := byteMask_spec (p % 8) (Nat.mod_lt p (by decide))
  obtain ⟨x, hx, hbyte⟩ := byte_modify a.addr.sin6Addr (by omega : p / 8 < 16) (· &&& m)
  refine ⟨m, ⟨{ a.addr with sin6Addr := x }⟩, hm, ?_, hbyte⟩
  rw [IPv6Address.networdAddress, hm]
  simp only [Option.bind_eq_bind, Option.bind_some, hx]
  rfl

theorem broadcastAddress_spec (a : IPv6Address) {p : ℕ} (hp : p < 128) : ∃ m b, byteMask (p % 8) = some m ∧
    a.broadcastAddress p = some b ∧ ∀ j < 16, b.addr.sin6Addr.byte j =
      if j < p / 8 then a.addr.sin6Addr.byte j else if j = p / 8 then a.addr.sin6Addr.byte j ||| m else 0xff := by
  obtain ⟨m, hm, _⟩ := byteMask_spec (p % 8) (Nat.mod_lt p (by decide))
  obtain ⟨x, hx, hbyte⟩ := byte_modify a.addr.sin6Addr (by omega : p / 8 < 16) (· ||| m)
  obtain ⟨y, hy, hfill⟩ := byte_fill (by omega : p / 8 + 1 ≤ 16) le_rfl x
  refine ⟨m, ⟨{ a.addr with sin6Addr := y }⟩, hm, ?_, ?_⟩
  · rw [IPv6Address.broadcastAddress, hm]
    simp only [Option.bind_eq_bind, Option.bind_some, hx, hy]
    rfl
  · intro j hj
    rw [hfill j hj, hbyte j hj]
    split_ifs <;> first | rfl | omega

/-! ## When they are right -/

theorem not_mask6 (p : ℕ) : ¬Mask6Right p := by
  intro ⟨m, hm, hvalue⟩
  by_cases hp : p < 128
  · obtain ⟨m', hm', hbyte⟩ := subnetMask_spec hp
    cases hm.symm.trans hm'
    -- the last bit of the byte with the end of the prefix
    have hbit := (value_eq_iff _ _).mp hvalue (p / 8) (by omega) 0 (by decide)
    rw [hbyte (p / 8) (by omega), if_pos le_rfl, getLsbD_leading6 hp.le (by omega) (by decide),
      decide_eq_false (by omega)] at hbit
    revert hbit
    decide
  · rw [(undefined_of_le (not_lt.mp hp) IPv6Address.init).1] at hm
    cases hm

theorem broadcast6_iff (a : IPv6Address) (p : ℕ) : Broadcast6Right a p ↔ p < 128 := by
  constructor
  · intro ⟨b, hb, _⟩
    by_contra hp
    rw [(undefined_of_le (not_lt.mp hp) a).2.2] at hb
    cases hb
  · intro hp
    obtain ⟨m, b, hm, hb, hbyte⟩ := broadcastAddress_spec a hp
    obtain ⟨m', hm', hbits⟩ := byteMask_spec (p % 8) (Nat.mod_lt p (by decide))
    cases hm.symm.trans hm'
    refine ⟨b, hb, (value_eq_iff _ _).mpr ?_⟩
    intro i hi k hk
    have hlt : 8 * (15 - i) + k < 128 := by omega
    rw [hbyte i hi, BitVec.getLsbD_or, BitVec.getLsbD_not, getLsbD_value _ hi hk, getLsbD_leading6 hp.le hi hk,
      decide_eq_true hlt, Bool.true_and]
    split_ifs with h1 h2
    · rw [decide_eq_true (by omega), Bool.not_true, Bool.or_false]
    · have hbehind : k + p % 8 < 8 ↔ ¬8 * i + 7 < p + k := by omega
      rw [UInt8.toNat_or, Nat.testBit_or, hbits k hk, ← decide_not, decide_eq_decide.mpr hbehind]
    · have hones : ∀ k < 8, (0xff : UInt8).toNat.testBit k = true := by decide
      rw [hones k hk, decide_eq_false (by omega), Bool.not_false, Bool.or_true]

/-- a byte without ones -/
theorem byte_eq_zero_iff (c : UInt8) : c = 0 ↔ ∀ k < 8, c.toNat.testBit k = false := by
  constructor
  · rintro rfl k _
    exact Nat.zero_testBit k
  · intro h
    apply UInt8.toNat_inj.mp
    apply Nat.eq_of_testBit_eq
    intro k
    by_cases hk : k < 8
    · rw [h k hk]
      exact (Nat.zero_testBit k).symm
    · have hsmall : c.toNat < 2 ^ k := c.toNat_lt.trans_le (Nat.pow_le_pow_right two_pos (not_lt.mp hk))
      rw [Nat.testBit_lt_two_pow hsmall]
      exact (Nat.zero_testBit k).symm

/-- what has the same bits on both sides of a mask is zero -/
theorem and_mask_iff {c m : UInt8} {q : ℕ → Prop} [DecidablePred q] (hm : ∀ k < 8, m.toNat.testBit k = !decide (q k)) :
    (∀ k < 8, (c &&& m).toNat.testBit k = (c.toNat.testBit k && decide (q k))) ↔ c = 0 := by
  rw [byte_eq_zero_iff]
  constructor
  · intro h k hk
    have hbit := h k hk
    rw [UInt8.toNat_and, Nat.testBit_and, hm k hk] at hbit
    cases hc : c.toNat.testBit k
    · rfl
    · rw [hc, Bool.true_and, Bool.true_and] at hbit
      exact absurd hbit (Bool.not_ne_self _)
  · intro h k hk
    rw [UInt8.toNat_and, Nat.testBit_and, h k hk, Bool.false_and, Bool.false_and]

/-- nothing is taken away, so there must be nothing behind the prefix -/
theorem network6_iff (a : IPv6Address) (p : ℕ) :
    Network6Right a p ↔ p < 128 ∧ ∀ i < 16, p / 8 ≤ i → a.addr.sin6Addr.byte i = 0 := by
  by_cases hp : p < 128
  · obtain ⟨m, n, hm, hn, hbyte⟩ := networdAddress_spec a hp
    obtain ⟨m', hm', hbits⟩ := byteMask_spec (p % 8) (Nat.mod_lt p (by decide))
    cases hm.symm.trans hm'
    have hright : Network6Right a p ↔ n.addr.sin6Addr.value = a.addr.sin6Addr.value &&& leading 128 p := by
      rw [Network6Right, hn]
      simp only [Option.some.injEq, exists_eq_left']
    have hmeant : ∀ i < 16, ∀ k < 8, (a.addr.sin6Addr.value &&& leading 128 p).getLsbD (8 * (15 - i) + k) =
        ((a.addr.sin6Addr.byte i).toNat.testBit k && decide (8 * i + 7 < p + k)) := by
      intro i hi k hk
      rw [BitVec.getLsbD_and, getLsbD_value _ hi hk, getLsbD_leading6 hp.le hi hk]
    rw [hright, value_eq_iff, and_iff_right hp]
    apply forall_congr'
    intro i
    apply forall_congr'
    intro hi
    simp only [hbyte i hi]
    rcases lt_trichotomy i (p / 8) with hlt | rfl | hgt
    · refine iff_of_true ?_ fun hle => absurd hlt (not_lt.mpr hle)
      intro k hk
      rw [if_neg hlt.ne, hmeant i hi k hk, decide_eq_true (by omega), Bool.and_true]
    · -- the bits of the mask are those that are not meant
      have hmask : ∀ k < 8, m.toNat.testBit k = !decide (8 * (p / 8) + 7 < p + k) := by
        intro k hk
        have hbehind : k + p % 8 < 8 ↔ ¬8 * (p / 8) + 7 < p + k := by omega
        rw [hbits k hk, ← decide_not, decide_eq_decide.mpr hbehind]
      rw [if_pos rfl, forall_prop_of_true le_rfl, ← and_mask_iff hmask]
      exact forall₂_congr fun k hk => by rw [hmeant _ hi k hk]
    · rw [if_neg hgt.ne', forall_prop_of_true hgt.le, byte_eq_zero_iff]
      refine forall₂_congr fun k hk => ?_
      rw [hmeant i hi k hk, decide_eq_false (by omega), Bool.and_false]
  · refine iff_of_false ?_ fun h => hp h.1
    intro ⟨n, hn, _⟩
    rw [(undefined_of_le (not_lt.mp hp) a).2.1] at hn
    cases hn

/-- **The arithmetic of IPv6 subnets is never right.** The mask never is; the network is if there is nothing behind the
prefix, the broadcast address for every prefix but the whole address. -/
theorem subnet6_never (a : IPv6Address) (p : ℕ) :
    ¬(Mask6Right p ∧ Network6Right a p ∧ Broadcast6Right a p) ∧ ¬Mask6Right p ∧
      (Network6Right a p ↔ p < 128 ∧ ∀ i < 16, p / 8 ≤ i → a.addr.sin6Addr.byte i = 0) ∧
      (Broadcast6Right a p ↔ p < 128) :=
  ⟨fun h => not_mask6 p h.1, not_mask6 p, network6_iff a p, broadcast6_iff a p⟩

/-- fe80::1 -/
def linkLocal : IPv6Address := .ofBytes ⟨[0xfe, 0x80, 0, 0, 0, 0, 0, 0, 0, 0, 0, 0, 0, 0, 0, 1], rfl⟩

/-- sixteen ones for ten, and the network of an address is the address -/
theorem link_local :
    (IPv6Address.subnetMask 10).map (·.addr.sin6Addr.s6Addr) =
      some [0xff, 0xff, 0, 0, 0, 0, 0, 0, 0, 0, 0, 0, 0, 0, 0, 0] ∧
    (linkLocal.networdAddress 64) = some linkLocal ∧ linkLocal.networdAddress 128 = none ∧
    ¬(Mask6Right 10 ∧ Network6Right linkLocal 10 ∧ Broadcast6Right linkLocal 10) := by
  refine ⟨by decide +kernel, by decide +kernel, by decide +kernel, ?_⟩
  intro ⟨⟨m, hm, hvalue⟩, _⟩
  have hmask : (IPv6Address.subnetMask 10).map (·.addr.sin6Addr.value) = some (leading 128 10) := by
    rw [hm]
    exact congrArg some hvalue
  revert hmask
  decide +kernel

end Sylar.Address
