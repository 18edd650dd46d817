/-
The lexicographic order of lists, by a common prefix and the lengths.

To compare two strings of bytes a program compares as many bytes as the shorter one has, and then the lengths. That is
the lexicographic order (`lt_iff_take`), whatever the lengths are; equal strings are those of one length that agree
(`eq_iff_take`).
-/
import Mathlib.Tactic
import Mathlib.Data.List.Lex

namespace Sylar.Core

variable {α : Type}

theorem lt_iff_take [LinearOrder α] (a b : List α) :
    a < b ↔ a.take (min a.length b.length) < b.take (min a.length b.length) ∨
      a.take (min a.length b.length) = b.take (min a.length b.length) ∧ a.length < b.length := by
  induction a generalizing b with
  | nil => cases b <;> simp
  | cons x a ih =>
    cases b with
    | nil => simp
    | cons y b =>
      have hmin : min (x :: a).length (y :: b).length = min a.length b.length + 1 := by
        rw [List.length_cons, List.length_cons]
        omega
      rw [hmin, List.take_succ_cons, List.take_succ_cons, List.cons_lt_cons_iff, List.cons_lt_cons_iff, ih b,
        List.cons.injEq, List.length_cons, List.length_cons, Nat.add_lt_add_iff_right]
      tauto

theorem eq_iff_take (a b : List α) : a = b ↔ a.length = b.length ∧ a.take a.length = b.take a.length := by
  constructor
  · rintro rfl
    exact ⟨rfl, rfl⟩
  · rintro ⟨hlen, htake⟩
    rwa [List.take_length, hlen, List.take_length] at htake

end Sylar.Core
