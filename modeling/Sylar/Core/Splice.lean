/-
Overwriting a run of a list in place.

`splice l p bs` is what `memcpy(l + p, bs, |bs|)` leaves in the block `l`: the cells [p, p + |bs|) hold `bs`, the others
are unchanged. Past the end of `l` it extends the list, so the same operation is also "write at a cursor" on a growing
vector. Nothing here names a program: blocks are lists over an arbitrary type.

- `splice_length`, `splice_length_of_le`: a write inside the block keeps its length.
- `splice_append_left`, `splice_append_right`, `splice_append_cross`: a write to two adjacent blocks is a write to the
  first, to the second, or to both with the data cut at the border.
- `take_splice`: the used part of a block after a write is a write to the used part.
- `splice_splice`: writes one behind the other are one write.
- `drop_splice`, `take_splice_zero`: what was written is read back.
-/
import Mathlib.Tactic

namespace Sylar.Core

variable {α : Type}

/-- overwrite `l` from index `p` on with `bs` -/
def splice (l : List α) (p : ℕ) (bs : List α) : List α := l.take p ++ bs ++ l.drop (p + bs.length)

theorem splice_length (l : List α) (p : ℕ) (bs : List α) (h : p ≤ l.length) :
    (splice l p bs).length = max l.length (p + bs.length) := by
  simp only [splice, List.length_append, List.length_take, List.length_drop]
  omega

theorem splice_length_of_le (l : List α) (p : ℕ) (bs : List α) (h : p + bs.length ≤ l.length) :
    (splice l p bs).length = l.length := by
  rw [splice_length l p bs (by omega)]; omega

@[simp] theorem splice_nil (l : List α) (p : ℕ) : splice l p [] = l := by
  simp [splice]

theorem splice_append_left (a r : List α) (p : ℕ) (bs : List α) (h : p + bs.length ≤ a.length) :
    splice (a ++ r) p bs = splice a p bs ++ r := by
  have hp : p ≤ a.length := by omega
  simp only [splice, List.take_append_of_le_length hp, List.drop_append_of_le_length h, List.append_assoc]

theorem splice_append_right (a r : List α) (p : ℕ) (bs : List α) :
    splice (a ++ r) (a.length + p) bs = a ++ splice r p bs := by
  have hd : a.length + p + bs.length = a.length + (p + bs.length) := by omega
  simp only [splice, List.take_length_add_append, hd, List.drop_length_add_append, List.append_assoc]

/-- a write that runs over the end of the first block is cut at the border -/
theorem splice_append_cross (a r : List α) (p : ℕ) (bs : List α) (hp : p ≤ a.length)
    (h : a.length - p ≤ bs.length) :
    splice (a ++ r) p bs = splice a p (bs.take (a.length - p)) ++ splice r 0 (bs.drop (a.length - p)) := by
  have h1 : p + (bs.take (a.length - p)).length = a.length := by
    rw [List.length_take]; omega
  have h2 : p + bs.length = a.length + (bs.length - (a.length - p)) := by omega
  simp only [splice, List.take_append_of_le_length hp, h1, List.drop_length, List.append_nil, List.take_zero,
    List.nil_append, List.length_drop, Nat.zero_add]
  rw [h2, List.drop_length_add_append]
  generalize r.drop _ = tl
  conv_lhs => rw [← List.take_append_drop (a.length - p) bs]
  simp only [List.append_assoc]

/-- the used part of a block after a write is a write to the used part -/
theorem take_splice (m : List α) (s p : ℕ) (bs : List α) (hp : p ≤ s)
    (h : p + bs.length ≤ m.length) :
    (splice m p bs).take (max s (p + bs.length)) = splice (m.take s) p bs := by
  have hpre : (m.take p ++ bs).length = p + bs.length := by
    rw [List.length_append, List.length_take]; omega
  have hle : p + bs.length ≤ max s (p + bs.length) := le_max_right _ _
  simp only [splice]
  rw [List.take_take, Nat.min_eq_left hp, List.take_append, hpre,
    List.take_of_length_le (by rw [hpre]; exact hle), List.drop_take]
  congr 2
  omega

/-- a write right behind another one is one write -/
theorem splice_splice (l : List α) (p : ℕ) (a b : List α) (h : p ≤ l.length) :
    splice (splice l p a) (p + a.length) b = splice l p (a ++ b) := by
  have hpre : (l.take p ++ a).length = p + a.length := by
    rw [List.length_append, List.length_take, min_eq_left h]
  have htake : (splice l p a).take (p + a.length) = l.take p ++ a := by
    rw [splice, List.take_append_of_le_length (by omega), List.take_of_length_le (by omega)]
  have hdrop : (splice l p a).drop (p + a.length + b.length) = l.drop (p + (a ++ b).length) := by
    rw [splice, List.drop_append, List.drop_of_length_le (by omega), List.nil_append, List.drop_drop, hpre,
      List.length_append]
    congr 1
    omega
  calc splice (splice l p a) (p + a.length) b = l.take p ++ a ++ b ++ l.drop (p + (a ++ b).length) := by
        rw [splice, htake, hdrop]
    _ = splice l p (a ++ b) := by rw [splice, List.append_assoc (l.take p)]

theorem splice_zero_eq (l bs : List α) : splice l 0 bs = bs ++ l.drop bs.length := by
  simp [splice]

theorem take_splice_zero (l bs : List α) : (splice l 0 bs).take bs.length = bs := by
  simp [splice]

/-- what was written stands where it was written -/
theorem drop_splice (l : List α) (p : ℕ) (bs : List α) (h : p ≤ l.length) :
    (splice l p bs).drop p = bs ++ l.drop (p + bs.length) := by
  have hpre : (l.take p).length = p := by rw [List.length_take, min_eq_left h]
  rw [splice, List.append_assoc]
  exact List.drop_left' hpre

end Sylar.Core
