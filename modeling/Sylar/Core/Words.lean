/-
Fixed-width integers read as integers.

`Int32`, `Int64` and `UInt64` wrap around. These lemmas say when an operation does not, and what the conversions
between signed and unsigned words do to the value: to a narrower signed word it is reduced to the balanced remainder,
from a signed to an unsigned word of the same width to the remainder.
-/
import Mathlib.Tactic

namespace Sylar.Core

/-- the values of a 64-bit signed word -/
def Fits64 (n : ℤ) : Prop := -2 ^ 63 ≤ n ∧ n < 2 ^ 63

theorem fits64_toInt (x : Int64) : Fits64 x.toInt := ⟨x.le_toInt, x.toInt_lt⟩

theorem bmod_of_fits64 {n : ℤ} (h : Fits64 n) : n.bmod (2 ^ 64) = n := by
  obtain ⟨h1, h2⟩ := h
  apply Int.bmod_eq_of_le
  · exact h1
  · exact h2

theorem toInt_add_of_fits {a b : Int64} (h : Fits64 (a.toInt + b.toInt)) : (a + b).toInt = a.toInt + b.toInt := by
  rw [Int64.toInt_add]
  exact bmod_of_fits64 h

theorem toInt_mul_of_fits {a b : Int64} (h : Fits64 (a.toInt * b.toInt)) : (a * b).toInt = a.toInt * b.toInt := by
  rw [Int64.toInt_mul]
  exact bmod_of_fits64 h

/-- signed arithmetic whose overflow is undefined: `none` then -/
def checked (n : ℤ) : Option Int64 := if -2 ^ 63 ≤ n ∧ n < 2 ^ 63 then some (Int64.ofInt n) else none

theorem checked_eq_some {n : ℤ} {x : Int64} : checked n = some x ↔ x.toInt = n := by
  unfold checked
  split_ifs with h
  · have hn : (Int64.ofInt n).toInt = n := Int64.toInt_ofInt_of_le h.1 h.2
    rw [Option.some.injEq]
    constructor
    · rintro rfl
      exact hn
    · intro hx
      rw [← Int64.toInt_inj, hn, hx]
  · refine iff_of_false nofun ?_
    rintro rfl
    exact h (fits64_toInt x)

theorem exists_checked {n : ℤ} (h : Fits64 n) : ∃ x, checked n = some x := ⟨_, if_pos h⟩

/-- division of a word that is not negative -/
theorem toInt_div_of_nonneg {a b : Int64} (ha : 0 ≤ a.toInt) (hb : 0 < b.toInt) :
    (a / b).toInt = a.toInt / b.toInt := by
  have hne : b ≠ -1 := by
    rintro rfl
    exact absurd hb (by decide)
  rw [Int64.toInt_div_of_ne_right a b hne, Int.tdiv_eq_ediv_of_nonneg ha]

theorem toInt_mod_of_nonneg {a b : Int64} (ha : 0 ≤ a.toInt) : (a % b).toInt = a.toInt % b.toInt := by
  rw [Int64.toInt_mod, Int.tmod_eq_emod_of_nonneg ha]

/-- a signed word as an unsigned one of the same width -/
theorem toNat_toUInt64 (x : Int64) : (x.toUInt64.toNat : ℤ) = x.toInt % 2 ^ 64 := by
  have h : x.toInt = (x.toUInt64.toNat : ℤ).bmod (2 ^ 64) := BitVec.toInt_eq_toNat_bmod x.toBitVec
  have hlt : (x.toUInt64.toNat : ℤ) < 2 ^ 64 := by exact_mod_cast x.toUInt64.toNat_lt
  rw [h, show (2 ^ 64 : ℤ) = ((2 ^ 64 : ℕ) : ℤ) by norm_num, Int.bmod_emod]
  exact (Int.emod_eq_of_lt (by omega) hlt).symm

/-- a property of a byte is a property of 256 numbers -/
theorem forall_byte {P : UInt8 → Prop} (h : ∀ n < 256, P n.toUInt8) (c : UInt8) : P c := by
  have hc : c.toNat.toUInt8 = c := UInt8.ofNat_toNat
  rw [← hc]
  exact h c.toNat c.toNat_lt

end Sylar.Core
