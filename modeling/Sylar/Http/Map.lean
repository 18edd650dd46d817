/-
The maps of a message: `std::map` with keys that are compared ignoring case (`http.h`, `MapType`).

Headers, parameters and cookies are kept in such maps. A key stands for all its spellings: `find` finds its entry
under any of them, `m[key] = val` gives the entry that is there another value, `insert` leaves it as it is.
- `find_eq_some`: what is found is the value of the entry.
- `find_insert`, `find_assign`, `find_erase`: what is found after an operation.
- `insertAll_perm`: pairs inserted one by one leave the first of each key (`keepFirst`).
-/
import Mathlib.Tactic
import Sylar.Http.Message

namespace Sylar.Http

open Sylar.Core

/-- `m.insert(std::make_pair(key, val))` -/
def MapType.insert (m : MapType) (key val : Bytes) : MapType := OrdSet.insert entryLess (key, val) m

/-- `m.erase(key)` -/
def MapType.erase (m : MapType) (key : Bytes) : MapType := m.filter fun e => !strcasecmpEq e.1 key

/-- entries of the same key -/
def sameKey (a b : Bytes × Bytes) : Bool := strcasecmpEq a.1 b.1

theorem strcasecmpEq_iff {a b : Bytes} :
    strcasecmpEq a b = true ↔ (cstr a).map tolower = (cstr b).map tolower := decide_eq_true_iff

theorem strcasecmpEq_refl (a : Bytes) : strcasecmpEq a a = true := strcasecmpEq_iff.mpr rfl

theorem strcasecmpEq_symm {a b : Bytes} (h : strcasecmpEq a b = true) : strcasecmpEq b a = true :=
  strcasecmpEq_iff.mpr (strcasecmpEq_iff.mp h).symm

/-- spellings of one key are the same as the same keys -/
theorem strcasecmpEq_congr {a b : Bytes} (h : strcasecmpEq a b = true) (c : Bytes) :
    strcasecmpEq a c = strcasecmpEq b c := by
  rw [strcasecmpEq, strcasecmpEq, strcasecmpEq_iff.mp h]

theorem strcasecmpEq_congr_right {a b : Bytes} (h : strcasecmpEq a b = true) (c : Bytes) :
    strcasecmpEq c a = strcasecmpEq c b := by
  rw [strcasecmpEq, strcasecmpEq, strcasecmpEq_iff.mp h]

theorem entryLess_weak : OrdSet.WeakOrder entryLess sameKey where
  toStrictOrder := entryLess_order
  same_iff := by
    intro a b
    constructor
    · intro h
      refine ⟨Bool.eq_false_of_not_eq_true fun hlt => ?_, Bool.eq_false_of_not_eq_true fun hlt => ?_⟩
      · have hne : strcasecmpEq a.1 b.1 = false := caseInsensitiveLess_ne hlt
        rw [sameKey, hne] at h
        cases h
      · have hne : strcasecmpEq b.1 a.1 = false := caseInsensitiveLess_ne hlt
        rw [strcasecmpEq_symm h] at hne
        cases hne
    · intro h
      by_contra hno
      rw [sameKey, Bool.not_eq_true] at hno
      rcases less_or_less hno with hlt | hlt
      · exact absurd hlt (ne_true_of_eq_false h.1)
      · exact absurd hlt (ne_true_of_eq_false h.2)
  same_left := by
    intro a b z h
    rw [entryLess, entryLess, caseInsensitiveLess, caseInsensitiveLess, strcasecmpEq_iff.mp h]

namespace MapType

/-- what `find` finds is the value of the entry of the key -/
theorem find_eq_some {m : MapType} (hm : OrdSet.Sorted entryLess m) {key v : Bytes} :
    m.find key = some v ↔ ∃ k, (k, v) ∈ m ∧ strcasecmpEq k key = true := by
  unfold find
  rw [Option.map_eq_some_iff]
  constructor
  · intro h
    obtain ⟨⟨k, w⟩, he, hv⟩ := h
    have hv : w = v := hv
    subst hv
    exact ⟨k, (OrdSet.find_eq_some entryLess_weak hm).mp he⟩
  · intro h
    obtain ⟨k, hk⟩ := h
    exact ⟨(k, v), (OrdSet.find_eq_some entryLess_weak hm).mpr hk, rfl⟩

theorem find_eq_none {m : MapType} (hm : OrdSet.Sorted entryLess m) {key : Bytes} :
    m.find key = none ↔ ∀ e ∈ m, strcasecmpEq e.1 key = false := by
  unfold find
  rw [Option.map_eq_none_iff]
  exact OrdSet.find_eq_none entryLess_weak hm

/-- all spellings of a key find the same -/
theorem find_congr {m : MapType} (hm : OrdSet.Sorted entryLess m) {k k' : Bytes} (h : strcasecmpEq k k' = true) :
    m.find k = m.find k' := by
  apply Option.ext
  intro v
  rw [find_eq_some hm, find_eq_some hm]
  simp only [strcasecmpEq_congr_right h]

theorem sorted_insert {m : MapType} (hm : OrdSet.Sorted entryLess m) (key val : Bytes) :
    OrdSet.Sorted entryLess (m.insert key val) := OrdSet.sorted_insert entryLess_weak _ hm

theorem sorted_erase {m : MapType} (hm : OrdSet.Sorted entryLess m) (key : Bytes) :
    OrdSet.Sorted entryLess (m.erase key) := hm.sublist List.filter_sublist

/-- a map with an entry for `k₀`, and the entries of another one for all other keys -/
theorem find_put {m m' : MapType} (hm : OrdSet.Sorted entryLess m) (hm' : OrdSet.Sorted entryLess m') {k₀ val : Bytes}
    (h : (k₀, val) ∈ m') (hmem : ∀ e, strcasecmpEq e.1 k₀ = false → (e ∈ m' ↔ e ∈ m)) (k : Bytes) :
    m'.find k = if strcasecmpEq k₀ k then some val else m.find k := by
  split_ifs with hk
  · exact find_of_mem hm' h hk
  · apply Option.ext
    intro v
    rw [find_eq_some hm', find_eq_some hm]
    apply exists_congr
    intro k'
    apply and_congr_left
    intro hk'
    apply hmem
    rw [Bool.eq_false_iff]
    intro hs
    exact hk ((strcasecmpEq_congr hs k).symm.trans hk')

theorem find_insert {m : MapType} (hm : OrdSet.Sorted entryLess m) (key val k : Bytes) :
    (m.insert key val).find k = (m.find k).or (if strcasecmpEq key k then some val else none) := by
  by_cases hnew : ∀ e ∈ m, strcasecmpEq e.1 key = false
  · obtain ⟨hsorted, hperm⟩ := OrdSet.insert_new entryLess_weak (x := (key, val)) hm hnew
    have hput : (m.insert key val).find k = if strcasecmpEq key k then some val else m.find k := by
      apply find_put hm hsorted
      · exact hperm.mem_iff.mpr List.mem_cons_self
      · intro e he
        rw [hperm.mem_iff, List.mem_cons]
        refine or_iff_right fun h => ?_
        rw [h, strcasecmpEq_refl] at he
        cases he
    rw [hput]
    split_ifs with hk
    · have hnone : m.find k = none := by
        rw [← find_congr hm hk, find_eq_none hm]
        exact hnew
      rw [hnone, Option.none_or]
    · rw [Option.or_none]
  · simp only [not_forall, Bool.not_eq_false] at hnew
    obtain ⟨e, he, hs⟩ := hnew
    have hold : m.insert key val = m := OrdSet.insert_same entryLess_weak hm he hs
    rw [hold]
    split_ifs with hk
    · have hfound : m.find k = some e.2 := find_of_mem hm he ((strcasecmpEq_congr hs k).trans hk)
      rw [hfound, Option.some_or]
    · rw [Option.or_none]

/-- the entry of a key that is there keeps its spelling -/
theorem assign_old {m : MapType} (hm : OrdSet.Sorted entryLess m) {k v key : Bytes} (he : (k, v) ∈ m)
    (hkey : strcasecmpEq k key = true) (val : Bytes) :
    ∃ a b, m = a ++ (k, v) :: b ∧ m.assign key val = a ++ (k, val) :: b := by
  have hcut : (entryLess · (k, v)) = (entryLess · (key, [])) := funext fun z => entryLess_weak.same_left _ _ z hkey
  obtain ⟨b, hb⟩ := OrdSet.lowerBound_mem entryLess_order hm he
  have happ := OrdSet.lowerBound_append (entryLess · (key, [])) m
  have hless : caseInsensitiveLess key k = false := ((entryLess_weak.same_iff (k, v) (key, [])).mp hkey).2
  rw [hcut] at hb
  unfold assign
  rcases hlb : OrdSet.lowerBound (entryLess · (key, [])) m with ⟨a, b'⟩
  rw [hlb] at hb happ
  subst hb
  refine ⟨a, b, happ.symm, ?_⟩
  simp only [hless, Bool.false_eq_true, if_false]

theorem sorted_assign {m : MapType} (hm : OrdSet.Sorted entryLess m) (key val : Bytes) :
    OrdSet.Sorted entryLess (m.assign key val) := by
  by_cases hnew : ∀ e ∈ m, strcasecmpEq e.1 key = false
  · exact (assign_new hm hnew val).1
  · simp only [not_forall, Bool.not_eq_false] at hnew
    obtain ⟨⟨k, v⟩, he, hs⟩ := hnew
    obtain ⟨a, b, hab, hassign⟩ := assign_old hm he hs val
    -- only the keys are compared
    have hkeys : ∀ l : MapType,
        OrdSet.Sorted entryLess l ↔ (l.map Prod.fst).Pairwise fun x y => caseInsensitiveLess x y = true := by
      intro l
      rw [List.pairwise_map]
      exact Iff.rfl
    rw [hkeys] at hm ⊢
    rw [hassign]
    rw [hab] at hm
    simpa using hm

theorem find_assign {m : MapType} (hm : OrdSet.Sorted entryLess m) (key val k : Bytes) :
    (m.assign key val).find k = if strcasecmpEq key k then some val else m.find k := by
  have hsorted := sorted_assign hm key val
  by_cases hnew : ∀ e ∈ m, strcasecmpEq e.1 key = false
  · have hmem := (assign_new hm hnew val).2
    apply find_put hm hsorted
    · exact (hmem _).mpr (Or.inl rfl)
    · intro e he
      rw [hmem]
      refine or_iff_right fun h => ?_
      rw [h, strcasecmpEq_refl] at he
      cases he
  · simp only [not_forall, Bool.not_eq_false] at hnew
    obtain ⟨⟨k₀, v⟩, he, hs⟩ := hnew
    obtain ⟨a, b, hab, hassign⟩ := assign_old hm he hs val
    rw [← strcasecmpEq_congr hs k]
    apply find_put hm hsorted
    · rw [hassign]
      exact List.mem_append_right a List.mem_cons_self
    · intro e he
      have hne : ∀ w, e ≠ (k₀, w) := by
        intro w h
        rw [h, strcasecmpEq_refl] at he
        cases he
      rw [hassign, hab, List.mem_append, List.mem_append, List.mem_cons, List.mem_cons, or_iff_right (hne val),
        or_iff_right (hne v)]

theorem find_erase {m : MapType} (hm : OrdSet.Sorted entryLess m) (key k : Bytes) :
    (m.erase key).find k = if strcasecmpEq key k then none else m.find k := by
  have hsorted := sorted_erase hm key
  split_ifs with hk
  · rw [find_eq_none hsorted]
    intro e he
    have hne := (List.mem_filter.mp he).2
    rwa [Bool.not_eq_true', strcasecmpEq_congr_right hk] at hne
  · apply Option.ext
    intro v
    rw [find_eq_some hsorted, find_eq_some hm]
    apply exists_congr
    intro k'
    apply and_congr_left
    intro hk'
    refine ⟨fun h => (List.mem_filter.mp h).1, fun h => List.mem_filter.mpr ⟨h, ?_⟩⟩
    rw [Bool.not_eq_true', Bool.eq_false_iff]
    intro hs
    exact hk ((strcasecmpEq_congr hs k).symm.trans hk')

end MapType

/-! ## The first of each key -/

/-- the pairs in front of which no pair of the same key stands -/
def keepFirst : List (Bytes × Bytes) → List (Bytes × Bytes)
  | [] => []
  | e :: l => e :: (keepFirst l).filter fun x => !strcasecmpEq e.1 x.1

/-- `m.insert` of the pairs in their order -/
def MapType.insertAll (m : MapType) (l : List (Bytes × Bytes)) : MapType := l.foldl (fun m e => m.insert e.1 e.2) m

theorem keepFirst_eq (l : List (Bytes × Bytes)) : keepFirst l = OrdSet.firsts sameKey l := by
  induction l with
  | nil => rfl
  | cons e l ih =>
    rw [keepFirst, OrdSet.firsts, ih]
    rfl

theorem keepFirst_of_apart {l : List (Bytes × Bytes)} (h : l.Pairwise fun x y => strcasecmpEq x.1 y.1 = false) :
    keepFirst l = l := by
  induction l with
  | nil => rfl
  | cons e l ih =>
    obtain ⟨he, hl⟩ := List.pairwise_cons.mp h
    rw [keepFirst, ih hl, List.filter_eq_self.mpr]
    intro x hx
    rw [he x hx]
    rfl

theorem MapType.sorted_insertAll {m : MapType} (hm : OrdSet.Sorted entryLess m) (l : List (Bytes × Bytes)) :
    OrdSet.Sorted entryLess (m.insertAll l) := (OrdSet.insertAll_spec entryLess_weak l hm).1

/-- pairs that are inserted are found behind the entries that are there -/
theorem MapType.find_insertAll {m : MapType} (hm : OrdSet.Sorted entryLess m) (l : List (Bytes × Bytes)) (k : Bytes) :
    (m.insertAll l).find k = (m.find k).or ((MapType.insertAll [] l).find k) := by
  induction l generalizing m with
  | nil => exact (Option.or_none).symm
  | cons e l ih =>
    have hnil : OrdSet.Sorted entryLess [] := List.Pairwise.nil
    have hempty : MapType.find [] k = none := rfl
    have hstep : ∀ m : MapType, m.insertAll (e :: l) = (m.insert e.1 e.2).insertAll l := fun _ => rfl
    calc (m.insertAll (e :: l)).find k
        = ((m.insert e.1 e.2).find k).or ((MapType.insertAll [] l).find k) := by
          rw [hstep, ih (sorted_insert hm e.1 e.2)]
      _ = (m.find k).or (((MapType.insert [] e.1 e.2).find k).or ((MapType.insertAll [] l).find k)) := by
          rw [find_insert hm, find_insert hnil, hempty, Option.none_or, Option.or_assoc]
      _ = (m.find k).or ((MapType.insertAll [] (e :: l)).find k) := by
          rw [hstep, ih (sorted_insert hnil e.1 e.2)]

/-- **First of each key.** Pairs that are inserted into an empty map leave the first of each key there. -/
theorem insertAll_perm (l : List (Bytes × Bytes)) : (MapType.insertAll [] l).Perm (keepFirst l) := by
  rw [keepFirst_eq]
  exact OrdSet.insertAll_perm entryLess_weak l

end Sylar.Http
