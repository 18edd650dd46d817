/-
Signed 64-bit values (`writeInt64`, `readInt64`).

`EncodeZigzag64` is declared to return `uint32_t`, and `DecodeZigzag64` to return `int32_t`: the arithmetic between is
that of 64 bits, the results lose their upper halves. So what is read back is the value of the low 32 bits of the code
(`decode_encode64_toInt`), and a value comes back if and only if it is a 32-bit one (`int64_roundtrip_iff`).
-/
import Mathlib.Tactic
import Sylar.Core.Splice
import Sylar.ByteArray.Model
import Sylar.ByteArray.Invariant
import Sylar.ByteArray.Refine
import Sylar.ByteArray.Codec
import Sylar.ByteArray.Scatter

namespace Sylar.ByteArray

open Sylar.Core

def encodeZigzag64 (v : BitVec 64) : BitVec 32 :=
  (if v.slt 0#64 then -v * 2#64 - 1#64 else v * 2#64).setWidth 32

def decodeZigzag64 (v : BitVec 64) : BitVec 32 := ((v >>> 1) ^^^ -(v &&& 1#64)).setWidth 32

def writeInt64 (value : BitVec 64) (junk : ℕ → UInt8) : M Unit := writeUint64 ((encodeZigzag64 value).setWidth 64) junk
def readInt64 (host : Endian) : M (BitVec 64) := do pure ((decodeZigzag64 (← readUint64 host)).signExtend 64)

/-! ## The codes -/

theorem encodeZigzag64_toNat (v : BitVec 64) :
    (encodeZigzag64 v).toNat = (if 2 ^ 63 ≤ v.toNat then 2 * (2 ^ 64 - v.toNat) - 1 else 2 * v.toNat) % 2 ^ 32 := by
  have hlt := v.isLt
  have hsign : v.slt 0#64 = decide (2 ^ 63 ≤ v.toNat) := by
    rw [BitVec.slt_zero_eq_msb, BitVec.msb_eq_decide]
  have h1 : (1#64).toNat = 1 := rfl
  have h2 : (2#64).toNat = 2 := rfl
  simp only [encodeZigzag64, hsign, decide_eq_true_eq, BitVec.toNat_setWidth]
  split_ifs with h
  · rw [BitVec.toNat_sub, BitVec.toNat_mul, BitVec.toNat_neg, h1, h2]
    omega
  · rw [BitVec.toNat_mul, h2]
    omega

/-- the last bit chooses between the halved value and its complement -/
theorem decodeZigzag64_toNat (v : BitVec 64) :
    (decodeZigzag64 v).toNat = (if v.toNat % 2 = 0 then v.toNat / 2 else 2 ^ 64 - 1 - v.toNat / 2) % 2 ^ 32 := by
  have hand : (v &&& 1#64).toNat = v.toNat % 2 := by
    rw [BitVec.toNat_and, show (1#64).toNat = 2 ^ 1 - 1 from rfl, Nat.and_two_pow_sub_one_eq_mod]
  have hshr : (v >>> 1).toNat = v.toNat / 2 := by rw [BitVec.toNat_ushiftRight, Nat.shiftRight_eq_div_pow]
  rw [decodeZigzag64, BitVec.toNat_setWidth]
  split_ifs with h
  · have h0 : v &&& 1#64 = 0#64 := BitVec.eq_of_toNat_eq (by rw [hand, h]; rfl)
    rw [h0, BitVec.neg_zero, BitVec.xor_zero, hshr]
  · have h1 : v &&& 1#64 = 1#64 := BitVec.eq_of_toNat_eq (by rw [hand]; show _ = 1; omega)
    rw [h1, show -1#64 = BitVec.allOnes 64 from by decide, BitVec.xor_allOnes, BitVec.toNat_not, hshr]

/-- the value that a code of 32 bits stands for -/
theorem decode64_toInt (e : BitVec 32) :
    ((decodeZigzag64 (e.setWidth 64)).signExtend 64).toInt =
      if e.toNat % 2 = 0 then (e.toNat / 2 : ℤ) else -(e.toNat / 2 : ℤ) - 1 := by
  have hlt := e.isLt
  have hwide : (e.setWidth 64).toNat = e.toNat := by
    rw [BitVec.toNat_setWidth, Nat.mod_eq_of_lt (by omega)]
  have hdec := decodeZigzag64_toNat (e.setWidth 64)
  rw [hwide] at hdec
  rw [BitVec.toInt_signExtend_of_le (by omega), BitVec.toInt_eq_toNat_cond, hdec]
  split_ifs <;> omega

/-- a value of 64 bits behind its code of 32 bits -/
theorem decode_encode64_toInt (v : BitVec 64) :
    ((decodeZigzag64 ((encodeZigzag64 v).setWidth 64)).signExtend 64).toInt =
      if 0 ≤ v.toInt then v.toInt % 2 ^ 31 else -((-v.toInt - 1) % 2 ^ 31) - 1 := by
  have hlt := v.isLt
  rw [decode64_toInt, encodeZigzag64_toNat, BitVec.toInt_eq_toNat_cond]
  split_ifs <;> omega

theorem decode_encode64_iff (v : BitVec 64) :
    (decodeZigzag64 ((encodeZigzag64 v).setWidth 64)).signExtend 64 = v ↔ -2 ^ 31 ≤ v.toInt ∧ v.toInt < 2 ^ 31 := by
  rw [← BitVec.toInt_inj, decode_encode64_toInt]
  split_ifs <;> omega

/-! ## Written and read back -/

/-- `writeInt64(v)`, a seek back, and `readInt64()`, which returns `v` and stops behind what was written -/
def RoundTrips64 (host : Endian) (junk : ℕ → UInt8) (ba : ByteArray) (v : BitVec 64) : Prop :=
  ∃ b1 b2 b3, writeInt64 v junk ba = (.ok (), b1) ∧ setPosition ba.position b1 = (.ok (), b2) ∧
    readInt64 host b2 = (.ok v, b3) ∧ b3.position = b1.position

/-- what is read back of `v` -/
theorem readInt64_writeInt64 (host : Endian) (junk : ℕ → UInt8) {ba : ByteArray} (h : Inv ba) (v : BitVec 64) :
    ∃ b1 b2 b3, writeInt64 v junk ba = (.ok (), b1) ∧ setPosition ba.position b1 = (.ok (), b2) ∧
      readInt64 host b2 = (.ok ((decodeZigzag64 ((encodeZigzag64 v).setWidth 64)).signExtend 64), b3) ∧
      b3.position = b1.position := by
  obtain ⟨f, hrel⟩ := h.exists_flat
  let code := (encodeZigzag64 v).setWidth 64
  obtain ⟨b1, h1, hrel₁, -⟩ := encodes_write ba.endian (varint code.toNat) junk ba f hrel rfl
  obtain ⟨b2, h2, hrel₂, -⟩ := setPosition_rel hrel₁ (f.pos_le_write _)
  have hdec := (decodes_uint64 host b2.endian code).map fun x => (decodeZigzag64 x).signExtend 64
  obtain ⟨b3, f3, h3, hrel₃, -, -, hpos, -⟩ := hdec b2 _ _ hrel₂ rfl (f.rest_rewound _)
  rw [← hrel.pos] at h2
  exact ⟨b1, b2, b3, h1, h2, h3, by rw [hrel₃.pos, hpos, hrel₁.pos]; rfl⟩

theorem roundTrips64_iff_codes (host : Endian) (junk : ℕ → UInt8) {ba : ByteArray} (h : Inv ba) (v : BitVec 64) :
    RoundTrips64 host junk ba v ↔ (decodeZigzag64 ((encodeZigzag64 v).setWidth 64)).signExtend 64 = v := by
  obtain ⟨b1, b2, b3, h1, h2, h3, h4⟩ := readInt64_writeInt64 host junk h v
  constructor
  · intro hrt
    obtain ⟨c1, c2, c3, k1, k2, k3, -⟩ := hrt
    obtain rfl : b1 = c1 := (Prod.mk.inj (h1.symm.trans k1)).2
    obtain rfl : b2 = c2 := (Prod.mk.inj (h2.symm.trans k2)).2
    exact Except.ok.inj (Prod.mk.inj (h3.symm.trans k3)).1
  · intro hv
    rw [hv] at h3
    exact ⟨b1, b2, b3, h1, h2, h3, h4⟩

/-- **64-bit zigzag.** In every reachable state, a value is written and read back, every byte of it and no more, if and
only if it fits in 32 bits; so it is with the codes alone. -/
theorem int64_roundtrip_iff (host : Endian) (junk : ℕ → UInt8) (ba : ByteArray) (h : Reachable ba) (v : BitVec 64) :
    (RoundTrips64 host junk ba v ↔ -2 ^ 31 ≤ v.toInt ∧ v.toInt < 2 ^ 31) ∧
    ((decodeZigzag64 ((encodeZigzag64 v).setWidth 64)).signExtend 64 = v ↔ -2 ^ 31 ≤ v.toInt ∧ v.toInt < 2 ^ 31) :=
  ⟨(roundTrips64_iff_codes host junk h.inv v).trans (decode_encode64_iff v), decode_encode64_iff v⟩

theorem int64_roundtrip_iff_small : RoundTrips64 .little (fun _ => 0) (new 1 fun _ => 0) (-1) :=
  (int64_roundtrip_iff .little (fun _ => 0) (new 1 fun _ => 0) (.new 1 _ (by decide)) (-1)).1.mpr (by decide)

/-- 2^31 comes back as 0 -/
theorem int64_truncated :
    Reachable (new 1 fun _ => 0) ∧ ¬RoundTrips64 .little (fun _ => 0) (new 1 fun _ => 0) 0x80000000#64 ∧
    (decodeZigzag64 ((encodeZigzag64 0x80000000#64).setWidth 64)).signExtend 64 = 0#64 := by
  refine ⟨.new 1 _ (by decide), ?_, by decide⟩
  rw [roundTrips64_iff_codes _ _ (inv_new 1 (fun _ => 0) (by decide))]
  decide

end Sylar.ByteArray
