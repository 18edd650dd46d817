/-
Numerals: numbers written in a base up to 16, and read back.

`numeral b n` is what a stream writes, in lower case, `value b s` is what a text means; the digits of a text may be of
either case.
- `value_numeral`: a numeral means its number, so that two numbers are written alike only if they are equal
  (`numeral_inj`).
- `not_mem_numeral`: what is no digit is not in a numeral.
-/
import Mathlib.Tactic

namespace Sylar.Core

def digitVal (c : UInt8) : ℕ :=
  let n := c.toNat
  if 48 ≤ n ∧ n ≤ 57 then n - 48 else if 97 ≤ n ∧ n ≤ 102 then n - 87 else if 65 ≤ n ∧ n ≤ 70 then n - 55 else 16

/-- the digit `c` behind a text that means `v` -/
def pushDigit (b v : ℕ) (c : UInt8) : Option ℕ := if digitVal c < b then some (v * b + digitVal c) else none

/-- the meaning of a text, if all of it are digits -/
def value (b : ℕ) (s : List UInt8) : Option ℕ := s.foldlM (pushDigit b) 0

def numeral (b n : ℕ) : List UInt8 := (Nat.toDigits b n).map fun c => c.toNat.toUInt8

theorem digitVal_digitChar : ∀ d < 16, digitVal d.digitChar.toNat.toUInt8 = d := by decide

theorem numeral_of_lt {b d : ℕ} (h : d < b) : numeral b d = [d.digitChar.toNat.toUInt8] := by
  rw [numeral, Nat.toDigits_of_lt_base h, List.map_singleton]

/-- the last digit of a numeral -/
theorem numeral_digit {b m d : ℕ} (hb : 1 < b) (hm : 0 < m) (hd : d < b) :
    numeral b (b * m + d) = numeral b m ++ [d.digitChar.toNat.toUInt8] := by
  rw [numeral, ← Nat.toDigits_append_toDigits hb hm hd, List.map_append, Nat.toDigits_of_lt_base hd, List.map_singleton,
    numeral]

theorem pushDigit_digitChar {b d : ℕ} (hb : b ≤ 16) (hd : d < b) (v : ℕ) :
    pushDigit b v d.digitChar.toNat.toUInt8 = some (v * b + d) := by
  rw [pushDigit, digitVal_digitChar d (hd.trans_le hb), if_pos hd]

theorem value_snoc (b : ℕ) (s : List UInt8) (c : UInt8) : value b (s ++ [c]) = (value b s).bind (pushDigit b · c) := by
  simp only [value, List.foldlM_append, List.foldlM_cons, List.foldlM_nil, bind_pure]
  rfl

theorem value_numeral {b : ℕ} (hb : 1 < b) (hb16 : b ≤ 16) (n : ℕ) : value b (numeral b n) = some n := by
  induction n using Nat.base_induction b hb with
  | single d hd =>
    have hvalue := value_snoc b [] d.digitChar.toNat.toUInt8
    rw [List.nil_append] at hvalue
    rw [numeral_of_lt hd, hvalue, value, List.foldlM_nil, Option.pure_def, Option.bind_some,
      pushDigit_digitChar hb16 hd, Nat.zero_mul, Nat.zero_add]
  | digit m d hd hm ih =>
    calc value b (numeral b (b * m + d))
        = (value b (numeral b m)).bind (pushDigit b · d.digitChar.toNat.toUInt8) := by
          rw [numeral_digit hb hm hd, value_snoc]
      _ = some (m * b + d) := by rw [ih, Option.bind_some, pushDigit_digitChar hb16 hd]
      _ = some (b * m + d) := by rw [Nat.mul_comm]

theorem numeral_inj {b m n : ℕ} (hb : 1 < b) (hb16 : b ≤ 16) (h : numeral b m = numeral b n) : m = n := by
  have hvalue := value_numeral hb hb16 m
  rw [h, value_numeral hb hb16 n] at hvalue
  exact (Option.some.inj hvalue).symm

theorem mem_numeral {b n : ℕ} (hb : 1 < b) {c : UInt8} (h : c ∈ numeral b n) :
    ∃ d < b, c = d.digitChar.toNat.toUInt8 := by
  induction n using Nat.base_induction b hb with
  | single d hd =>
    rw [numeral_of_lt hd, List.mem_singleton] at h
    exact ⟨d, hd, h⟩
  | digit m d hd hm ih =>
    rw [numeral_digit hb hm hd, List.mem_append, List.mem_singleton] at h
    rcases h with h | h
    · exact ih h
    · exact ⟨d, hd, h⟩

theorem not_mem_numeral {b : ℕ} (hb : 1 < b) (hb16 : b ≤ 16) {c : UInt8} (hc : 16 ≤ digitVal c) (n : ℕ) :
    c ∉ numeral b n := by
  intro h
  obtain ⟨d, hd, rfl⟩ := mem_numeral hb h
  rw [digitVal_digitChar d (hd.trans_le hb16)] at hc
  omega

theorem numeral_ne_nil (b n : ℕ) : numeral b n ≠ [] := by
  rw [numeral, ne_eq, List.map_eq_nil_iff]
  exact Nat.toDigits_ne_nil

theorem numeral_length {b n k : ℕ} (hb : 1 < b) (hk : 0 < k) (hn : n < b ^ k) : (numeral b n).length ≤ k := by
  rw [numeral, List.length_map]
  exact (Nat.length_toDigits_le_iff hb hk).mpr hn

end Sylar.Core
