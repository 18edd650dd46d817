/-
Texts put together with separators and cut at them, and the symbols of a regular expression.

An optional part of a text is written with a separator behind it (`before`) or in front of it (`after`), and is not
there at all if there is none. `cut` and `cutBefore` take the first separator off again.
- `cut_after`, `cutBefore_before`: a text that was put together is cut into the same parts, if the separator is not in
  what stands before it.
- `append_sep_inj`: a text determines the part before its first separator and the rest.
- `not_mem_of_mem_splitOn`, `length_splitOn`: the pieces between separators are free of them, and one more than they
  are.
- `mem_symbols`: a word that matches a regular expression is made of its symbols.
- `dropWhile_rdropWhile`, `suffix_dropWhile`, `prefix_rdropWhile`: a text may be stripped at its two ends in either
  order, and what is left at one end is the longest part that does not begin, or end, with what is stripped.
-/
import Mathlib.Tactic
import Mathlib.Computability.RegularExpressions
import Mathlib.Data.List.DropRight

namespace Sylar.Core

variable {α : Type}

/-- an optional part with its separator in front -/
def after (sep : α) : Option (List α) → List α
  | none => []
  | some x => sep :: x

/-- an optional part with its separator behind -/
def before (sep : α) : Option (List α) → List α
  | none => []
  | some x => x ++ [sep]

variable [DecidableEq α]

/-- what stands before the first `sep`, and what stands behind it if there is one -/
def cut (sep : α) (l : List α) : List α × Option (List α) :=
  (l.takeWhile (· ≠ sep), (l.dropWhile (· ≠ sep)).tail?)

/-- the part before the first `sep` if there is one, and the rest -/
def cutBefore (sep : α) (l : List α) : Option (List α) × List α :=
  match cut sep l with
  | (a, none) => (none, a)
  | (a, some t) => (some a, t)

theorem takeWhile_ne_append {sep : α} {a : List α} (h : sep ∉ a) (t : List α) :
    (a ++ t).takeWhile (· ≠ sep) = a ++ t.takeWhile (· ≠ sep) := by
  apply List.takeWhile_append_of_pos
  intro x hx
  rw [decide_eq_true_eq]
  exact ne_of_mem_of_not_mem hx h

theorem dropWhile_ne_append {sep : α} {a : List α} (h : sep ∉ a) (t : List α) :
    (a ++ t).dropWhile (· ≠ sep) = t.dropWhile (· ≠ sep) := by
  apply List.dropWhile_append_of_pos
  intro x hx
  rw [decide_eq_true_eq]
  exact ne_of_mem_of_not_mem hx h

theorem cut_after {sep : α} {a : List α} (h : sep ∉ a) (t : Option (List α)) : cut sep (a ++ after sep t) = (a, t) := by
  unfold cut
  rw [takeWhile_ne_append h, dropWhile_ne_append h]
  cases t <;> simp [after]

/-- the text determines the part before its first `sep` -/
theorem append_sep_inj {sep : α} {a a' t t' : List α} (ha : sep ∉ a) (ha' : sep ∉ a')
    (h : a ++ sep :: t = a' ++ sep :: t') :
    a = a' ∧ t = t' := by
  have hcut := cut_after ha (some t)
  rw [after, h] at hcut
  have hcut' := cut_after ha' (some t')
  rw [after, hcut, Prod.mk.injEq, Option.some.injEq] at hcut'
  exact hcut'

theorem cut_of_not_mem {sep : α} {a : List α} (h : sep ∉ a) : cut sep a = (a, none) := by
  have := cut_after h none
  rwa [after, List.append_nil] at this

/-- the cut at the first separator of a text that has one -/
theorem cut_of_mem {sep : α} {l : List α} (h : sep ∈ l) :
    ∃ a b, l = a ++ sep :: b ∧ sep ∉ a ∧ cut sep l = (a, some b) := by
  obtain ⟨a, b, rfl, ha⟩ := List.eq_append_cons_of_mem h
  exact ⟨a, b, rfl, ha, cut_after ha (some b)⟩

theorem cutBefore_before {sep : α} {u : Option (List α)} {t : List α} (hu : ∀ x ∈ u, sep ∉ x)
    (ht : u = none → sep ∉ t) :
    cutBefore sep (before sep u ++ t) = (u, t) := by
  unfold cutBefore
  cases u with
  | none => rw [before, List.nil_append, cut_of_not_mem (ht rfl)]
  | some x =>
    rw [before, List.append_assoc]
    have hcut : cut sep (x ++ ([sep] ++ t)) = (x, some t) := cut_after (hu x rfl) (some t)
    rw [hcut]

/-! ## Pieces -/

omit [DecidableEq α] in
theorem intercalate_cons_of_ne_nil (sep : α) (p : List α) {ps : List (List α)} (h : ps ≠ []) :
    [sep].intercalate (p :: ps) = p ++ sep :: [sep].intercalate ps := by
  cases ps with
  | nil => exact absurd rfl h
  | cons q ps => rw [List.intercalate_cons_cons, List.append_assoc, List.singleton_append]

theorem not_mem_of_mem_splitOn {sep : α} {l p : List α} (h : p ∈ l.splitOn sep) : sep ∉ p := by
  induction l generalizing p with
  | nil =>
    rw [List.splitOn_nil, List.mem_singleton] at h
    rw [h]
    exact List.not_mem_nil
  | cons x l ih =>
    rw [List.splitOn_cons_eq_if_modifyHead] at h
    split_ifs at h with hx
    · rcases List.mem_cons.mp h with h | h
      · rw [h]
        exact List.not_mem_nil
      · exact ih h
    · -- the byte goes in front of the first piece
      cases hl : l.splitOn sep with
      | nil => exact absurd hl (List.splitOn_ne_nil sep l)
      | cons q qs =>
        rw [hl] at h ih
        rw [List.modifyHead_cons] at h
        rcases List.mem_cons.mp h with h | h
        · rw [h, List.mem_cons, not_or]
          refine ⟨fun e => hx ?_, ih List.mem_cons_self⟩
          rw [e]
          exact beq_self_eq_true x
        · exact ih (List.mem_cons_of_mem q h)

/-- there is a piece more than there are separators -/
theorem length_splitOn (sep : α) (l : List α) : (l.splitOn sep).length = l.count sep + 1 := by
  induction l with
  | nil => rw [List.splitOn_nil, List.count_nil, List.length_singleton]
  | cons x l ih =>
    rw [List.splitOn_cons_eq_if_modifyHead, List.count_cons]
    split_ifs with hx
    · rw [List.length_cons, ih]
    · rw [List.length_modifyHead, ih, Nat.add_zero]

omit [DecidableEq α] in
theorem intercalate_cons_eq (sep : α) (p : List α) (ps : List (List α)) :
    [sep].intercalate (p :: ps) = p ++ (ps.map (sep :: ·)).flatten := by
  induction ps generalizing p with
  | nil => rw [List.intercalate_singleton, List.map_nil, List.flatten_nil, List.append_nil]
  | cons q ps ih =>
    rw [intercalate_cons_of_ne_nil sep p (List.cons_ne_nil q ps), ih, List.map_cons, List.flatten_cons,
      List.cons_append]

/-! ## Stripped ends -/

section Strip
omit [DecidableEq α]
variable (p : α → Bool)

theorem rdropWhile_append_of_pos (l : List α) {t : List α} (ht : ∀ x ∈ t, p x = true) :
    (l ++ t).rdropWhile p = l.rdropWhile p := by
  have hrev : ∀ x ∈ t.reverse, p x = true := fun x hx => ht x (List.mem_reverse.mp hx)
  rw [List.rdropWhile, List.reverse_append, List.dropWhile_append_of_pos hrev, List.rdropWhile]

theorem dropWhile_rdropWhile (l : List α) : (l.dropWhile p).rdropWhile p = (l.rdropWhile p).dropWhile p := by
  have hsplit : l.rdropWhile p ++ l.rtakeWhile p = l := List.rdropWhile_append_rtakeWhile
  have htail : ∀ x ∈ l.rtakeWhile p, p x = true := fun x hx => List.mem_rtakeWhile_imp hx
  have hdrop : l.dropWhile p = (l.rdropWhile p ++ l.rtakeWhile p).dropWhile p := by rw [hsplit]
  rw [hdrop, List.dropWhile_append]
  split_ifs with hempty
  · -- nothing but what is stripped
    rw [List.isEmpty_iff.mp hempty, List.dropWhile_eq_nil_iff.mpr htail, List.rdropWhile_nil]
  · rw [rdropWhile_append_of_pos p _ htail, List.rdropWhile_eq_self_iff]
    intro hne
    have hlast : l.rdropWhile p ≠ [] := by
      intro hnil
      rw [hnil] at hne
      exact hne rfl
    rw [(List.dropWhile_suffix p).getLast hne]
    exact List.rdropWhile_last_not p l hlast

theorem suffix_dropWhile {l t : List α} (h : t <:+ l) (ht : ∀ x ∈ t.head?, p x = false) : t <:+ l.dropWhile p := by
  obtain ⟨u, rfl⟩ := h
  rw [List.dropWhile_append]
  split_ifs with hempty
  · have hself : t.dropWhile p = t := by
      cases t with
      | nil => rfl
      | cons x t => rw [List.dropWhile_cons_of_neg (by simp [ht x rfl])]
    rw [hself]
  · exact List.suffix_append _ t

theorem prefix_rdropWhile {l t : List α} (h : t <+: l) (ht : ∀ x ∈ t.getLast?, p x = false) :
    t <+: l.rdropWhile p := by
  have hrev := suffix_dropWhile p (List.reverse_suffix.mpr h) (by rwa [List.head?_reverse])
  rwa [← List.reverse_suffix, List.rdropWhile, List.reverse_reverse]

end Strip

/-! ## Symbols of a regular expression -/

def symbols {β : Type} : RegularExpression β → List β
  | .zero => []
  | .epsilon => []
  | .char a => [a]
  | .plus P Q => symbols P ++ symbols Q
  | .comp P Q => symbols P ++ symbols Q
  | .star P => symbols P

theorem mem_symbols {P : RegularExpression α} {w : List α} (h : P.rmatch w = true) {c : α} (hc : c ∈ w) :
    c ∈ symbols P := by
  induction P generalizing w with
  | zero =>
    rw [RegularExpression.zero_def, RegularExpression.zero_rmatch] at h
    cases h
  | epsilon =>
    rw [RegularExpression.one_def, RegularExpression.one_rmatch_iff] at h
    rw [h] at hc
    cases hc
  | char a =>
    rw [RegularExpression.char_rmatch_iff] at h
    rw [h] at hc
    exact hc
  | plus P Q ihP ihQ =>
    rw [RegularExpression.plus_def, RegularExpression.add_rmatch_iff] at h
    rcases h with h | h
    · exact List.mem_append_left _ (ihP h hc)
    · exact List.mem_append_right _ (ihQ h hc)
  | comp P Q ihP ihQ =>
    rw [RegularExpression.comp_def, RegularExpression.mul_rmatch_iff] at h
    obtain ⟨t, u, rfl, ht, hu⟩ := h
    rcases List.mem_append.mp hc with hc | hc
    · exact List.mem_append_left _ (ihP ht hc)
    · exact List.mem_append_right _ (ihQ hu hc)
  | star P ih =>
    rw [RegularExpression.star_rmatch_iff] at h
    obtain ⟨ts, rfl, hts⟩ := h
    obtain ⟨t, ht, hct⟩ := List.mem_flatten.mp hc
    exact ih (hts t ht).2 hct

end Sylar.Core
