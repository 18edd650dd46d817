/-
Numbers as byte strings, least significant byte first, in a fixed number of bytes.

`toLE k n` is the memory image of the k-byte number n on a little-endian machine, `ofLE` reads one back. They are
inverse on k-byte numbers and k-byte strings, so reversing the image (the other byte order, or a byte swap) is an
involution; `testBit_reverse` says where it puts the bits.
-/
import Mathlib.Tactic

namespace Sylar.Core

def toLE : ℕ → ℕ → List UInt8
  | 0, _ => []
  | k + 1, n => UInt8.ofNat n :: toLE k (n / 256)

def ofLE : List UInt8 → ℕ
  | [] => 0
  | b :: bs => b.toNat + 256 * ofLE bs

@[simp] theorem toLE_length (k n : ℕ) : (toLE k n).length = k := by
  induction k generalizing n with
  | zero => rfl
  | succ k ih => rw [toLE, List.length_cons, ih]

theorem ofLE_lt (bs : List UInt8) : ofLE bs < 256 ^ bs.length := by
  induction bs with
  | nil => simp [ofLE]
  | cons b bs ih =>
    have hb := b.toNat_lt
    rw [ofLE, List.length_cons, pow_succ]
    omega

theorem ofLE_toLE (k n : ℕ) (h : n < 256 ^ k) : ofLE (toLE k n) = n := by
  induction k generalizing n with
  | zero => simp only [pow_zero] at h; simp only [toLE, ofLE]; omega
  | succ k ih =>
    rw [pow_succ] at h
    rw [toLE, ofLE, ih (n / 256) (by omega), UInt8.toNat_ofNat']
    omega

theorem toLE_ofLE (bs : List UInt8) : toLE bs.length (ofLE bs) = bs := by
  induction bs with
  | nil => rfl
  | cons b bs ih =>
    have hb := b.toNat_lt
    have hdiv : (b.toNat + 256 * ofLE bs) / 256 = ofLE bs := by omega
    have hbyte : UInt8.ofNat (b.toNat + 256 * ofLE bs) = b := by
      apply UInt8.toNat_inj.mp
      rw [UInt8.toNat_ofNat']
      omega
    rw [List.length_cons, ofLE, toLE, hdiv, hbyte, ih]

/-- reading back a string of the right length and imaging it again changes nothing -/
theorem toLE_ofLE_of_length {k : ℕ} {bs : List UInt8} (h : bs.length = k) : toLE k (ofLE bs) = bs := by
  rw [← h, toLE_ofLE]

/-! ## Bits -/

theorem testBit_ofLE (bs : List UInt8) (i : ℕ) : (ofLE bs).testBit i = (bs.getD (i / 8) 0).toNat.testBit (i % 8) := by
  induction bs generalizing i with
  | nil => simp [ofLE]
  | cons b bs ih =>
    have hsum : ofLE (b :: bs) = 2 ^ 8 * ofLE bs + b.toNat := by
      rw [ofLE]
      omega
    rw [hsum, Nat.testBit_two_pow_mul_add _ b.toNat_lt]
    split_ifs with hi
    · rw [Nat.div_eq_of_lt hi, Nat.mod_eq_of_lt hi, List.getD_cons_zero]
    · have hdiv : i / 8 = (i - 8) / 8 + 1 := by omega
      have hmod : i % 8 = (i - 8) % 8 := by omega
      rw [ih, hdiv, hmod, List.getD_cons_succ]

theorem getD_toLE {k j : ℕ} (hj : j < k) (n : ℕ) : (toLE k n).getD j 0 = UInt8.ofNat (n / 256 ^ j) := by
  induction k generalizing n j with
  | zero => exact absurd hj (Nat.not_lt_zero j)
  | succ k ih =>
    cases j with
    | zero => rw [toLE, List.getD_cons_zero, pow_zero, Nat.div_one]
    | succ j => rw [toLE, List.getD_cons_succ, ih (Nat.lt_of_succ_lt_succ hj), Nat.div_div_eq_div_mul, ← pow_succ']

/-- the bits of a reversed image -/
theorem testBit_reverse {k i : ℕ} (hi : i < 8 * k) (n : ℕ) :
    (ofLE (toLE k n).reverse).testBit i = n.testBit (8 * (k - 1 - i / 8) + i % 8) := by
  have hj : k - 1 - i / 8 < k := by omega
  have hrev : (toLE k n).reverse.getD (i / 8) 0 = (toLE k n).getD (k - 1 - i / 8) 0 := by
    have hlt : i / 8 < (toLE k n).length := by
      rw [toLE_length]
      omega
    rw [List.getD_eq_getElem?_getD, List.getElem?_reverse hlt, toLE_length, List.getD_eq_getElem?_getD]
  have hpow : 256 ^ (k - 1 - i / 8) = 2 ^ (8 * (k - 1 - i / 8)) := by
    rw [pow_mul]
    norm_num
  have hbit : i % 8 < 8 := Nat.mod_lt i (by decide)
  calc (ofLE (toLE k n).reverse).testBit i = (UInt8.ofNat (n / 2 ^ (8 * (k - 1 - i / 8)))).toNat.testBit (i % 8) := by
        rw [testBit_ofLE, hrev, getD_toLE hj, hpow]
    _ = (n / 2 ^ (8 * (k - 1 - i / 8))).testBit (i % 8) := by
        rw [UInt8.toNat_ofNat', Nat.testBit_mod_two_pow, decide_eq_true hbit, Bool.true_and]
    _ = n.testBit (8 * (k - 1 - i / 8) + i % 8) := by rw [Nat.testBit_div_two_pow, Nat.add_comm]

end Sylar.Core
