/-
Masks: words of leading ones, and the number of ones in a word.

- `leading w p` has ones in the first `p` of its `w` bits; `not_low`: it is the complement of the numbers below.
- `popcount` counts ones: in a shifted number, in a row of bytes (`popcount_ofLE`), in a mask (`popcount_leading`).
- `popcount_clear`: clearing the lowest one takes one away, which is how ones are counted in a loop.
-/
import Mathlib.Tactic
import Sylar.Core.LeBytes

namespace Sylar.Core

/-! ## The number of ones -/

def popcount (n : ℕ) : ℕ := if n = 0 then 0 else n % 2 + popcount (n / 2)
decreasing_by omega

@[simp] theorem popcount_zero : popcount 0 = 0 := by rw [popcount, if_pos rfl]

theorem popcount_eq (n : ℕ) : popcount n = n % 2 + popcount (n / 2) := by
  by_cases hn : n = 0
  · rw [hn, Nat.zero_mod, Nat.zero_div, popcount_zero]
  · rw [popcount, if_neg hn]

theorem popcount_double (n : ℕ) : popcount (2 * n) = popcount n := by
  rw [popcount_eq, Nat.mul_mod_right, Nat.zero_add, Nat.mul_div_cancel_left n two_pos]

theorem popcount_odd (n : ℕ) : popcount (2 * n + 1) = popcount n + 1 := by
  have hmod : (2 * n + 1) % 2 = 1 := by omega
  have hdiv : (2 * n + 1) / 2 = n := by omega
  rw [popcount_eq, hmod, hdiv, Nat.add_comm]

/-- the low bits and the rest -/
theorem popcount_add {b k : ℕ} (hb : b < 2 ^ k) (n : ℕ) : popcount (b + 2 ^ k * n) = popcount b + popcount n := by
  induction k generalizing b with
  | zero =>
    have hzero : b = 0 := Nat.lt_one_iff.mp hb
    rw [hzero, pow_zero, one_mul, Nat.zero_add, popcount_zero, Nat.zero_add]
  | succ k ih =>
    have hmod : (b + 2 ^ (k + 1) * n) % 2 = b % 2 := by
      rw [pow_succ', mul_assoc]
      exact Nat.add_mul_mod_self_left b 2 _
    have hdiv : (b + 2 ^ (k + 1) * n) / 2 = b / 2 + 2 ^ k * n := by
      rw [pow_succ', mul_assoc]
      exact Nat.add_mul_div_left b _ two_pos
    have hhalf : b / 2 < 2 ^ k := by
      rw [pow_succ] at hb
      omega
    calc popcount (b + 2 ^ (k + 1) * n) = b % 2 + popcount (b / 2 + 2 ^ k * n) := by rw [popcount_eq, hmod, hdiv]
      _ = b % 2 + (popcount (b / 2) + popcount n) := by rw [ih hhalf]
      _ = popcount b + popcount n := by rw [popcount_eq b, Nat.add_assoc]

theorem popcount_shift (k n : ℕ) : popcount (2 ^ k * n) = popcount n := by
  have h := popcount_add (Nat.two_pow_pos k) n
  rwa [Nat.zero_add, popcount_zero, Nat.zero_add] at h

theorem popcount_ones (k : ℕ) : popcount (2 ^ k - 1) = k := by
  induction k with
  | zero => exact popcount_zero
  | succ k ih =>
    have hone : 2 ^ (k + 1) - 1 = 2 * (2 ^ k - 1) + 1 := by
      have := Nat.two_pow_pos k
      rw [pow_succ']
      omega
    rw [hone, popcount_odd, ih]

theorem popcount_ofLE (bs : List UInt8) : popcount (ofLE bs) = (bs.map fun b => popcount b.toNat).sum := by
  induction bs with
  | nil => exact popcount_zero
  | cons b bs ih =>
    rw [List.map_cons, List.sum_cons, ← ih]
    exact popcount_add b.toNat_lt (ofLE bs)

/-- `n &&& (n - 1)` is even -/
theorem clear_even (n : ℕ) : (n &&& (n - 1)) % 2 = 0 := by
  have hbit : ¬(n &&& (n - 1)) % 2 = 1 := by
    rw [Nat.and_mod_two_eq_one]
    omega
  omega

/-- `n &&& (n - 1)` has the ones of `n`, but for the lowest -/
theorem popcount_clear {n : ℕ} (hn : n ≠ 0) : popcount n = popcount (n &&& (n - 1)) + 1 := by
  induction n using Nat.strong_induction_on with
  | _ n ih =>
    rw [popcount_eq (n &&& (n - 1)), clear_even n, Nat.and_div_two, Nat.zero_add]
    obtain ⟨m, rfl | rfl⟩ := Nat.even_or_odd' n
    · have hm : m ≠ 0 := by omega
      have h1 : 2 * m / 2 = m := by omega
      have h2 : (2 * m - 1) / 2 = m - 1 := by omega
      rw [h1, h2, popcount_double]
      exact ih m (by omega) hm
    · have h1 : (2 * m + 1) / 2 = m := by omega
      have h2 : (2 * m + 1 - 1) / 2 = m := by omega
      rw [h1, h2, Nat.and_self, popcount_odd]

theorem clear_lt {n : ℕ} (hn : n ≠ 0) : n &&& (n - 1) < n :=
  Nat.and_le_right.trans_lt (Nat.sub_lt (Nat.pos_of_ne_zero hn) one_pos)

theorem toNat_clear {w : ℕ} {v : BitVec w} (hv : v.toNat ≠ 0) : (v &&& (v - 1)).toNat = v.toNat &&& (v.toNat - 1) := by
  have hw : 0 < w := by
    apply Nat.pos_of_ne_zero
    rintro rfl
    exact hv (BitVec.toNat_of_zero_length rfl v)
  have hone : (1 : BitVec w).toNat = 1 := BitVec.toNat_one hw
  have hle : 1 ≤ v := by
    rw [BitVec.le_def, hone]
    omega
  rw [BitVec.toNat_and, BitVec.toNat_sub_of_le hle, hone]

/-! ## Leading ones -/

/-- `p` ones and then zeros -/
def leading (w p : ℕ) : BitVec w := BitVec.allOnes w <<< (w - p)

theorem getLsbD_leading {w p i : ℕ} (hi : i < w) : (leading w p).getLsbD i = decide (w - p ≤ i) := by
  rw [leading, BitVec.getLsbD_shiftLeft, BitVec.getLsbD_allOnes]
  simp only [hi, decide_true, Bool.true_and]
  rw [decide_eq_true (by omega : i - (w - p) < w), Bool.and_true, ← decide_not, decide_eq_decide, not_lt]

theorem not_low (w p : ℕ) : ~~~BitVec.ofNat w (2 ^ (w - p) - 1) = leading w p := by
  apply BitVec.eq_of_getLsbD_eq
  intro i hi
  rw [getLsbD_leading hi, BitVec.getLsbD_not, BitVec.getLsbD_ofNat, Nat.testBit_two_pow_sub_one]
  simp only [hi, decide_true, Bool.true_and]
  rw [← decide_not, decide_eq_decide, not_lt]

theorem toNat_leading {w p : ℕ} (hp : p ≤ w) : (leading w p).toNat = 2 ^ (w - p) * (2 ^ p - 1) := by
  have hpow : 2 ^ (w - p) * 2 ^ p = 2 ^ w := by rw [← pow_add, Nat.sub_add_cancel hp]
  have hle : 2 ^ (w - p) ≤ 2 ^ w := Nat.pow_le_pow_right two_pos (Nat.sub_le w p)
  have hpos := Nat.two_pow_pos (w - p)
  calc (leading w p).toNat = 2 ^ w - 1 - (2 ^ (w - p) - 1) := by
        rw [← not_low, BitVec.toNat_not, BitVec.toNat_ofNat, Nat.mod_eq_of_lt (by omega)]
    _ = 2 ^ w - 2 ^ (w - p) := by omega
    _ = 2 ^ (w - p) * (2 ^ p - 1) := by rw [Nat.mul_sub, hpow, mul_one]

theorem popcount_leading {w p : ℕ} (hp : p ≤ w) : popcount (leading w p).toNat = p := by
  rw [toNat_leading hp, popcount_shift, popcount_ones]

/-- what has the same bits on both sides of a mask is zero -/
theorem and_eq_and_not {w : ℕ} (a m : BitVec w) : a &&& m = a &&& ~~~m ↔ a = 0#w := by
  constructor
  · intro h
    apply BitVec.eq_of_getLsbD_eq
    intro i hi
    have hbit := congrArg (BitVec.getLsbD · i) h
    simp only [BitVec.getLsbD_and, BitVec.getLsbD_not, hi, decide_true, Bool.true_and] at hbit
    rw [BitVec.getLsbD_zero]
    cases ha : a.getLsbD i
    · rfl
    · rw [ha] at hbit
      cases hm : m.getLsbD i <;> simp [hm] at hbit
  · intro h
    rw [h, BitVec.zero_and, BitVec.zero_and]

end Sylar.Core
