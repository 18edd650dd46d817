/-
`std::set` as a list in increasing order.

The comparator is a parameter `lt`, so the same list can be read under a comparator that changes with the memory the
elements point to: nothing here assumes that it stays the same between two operations. `lower_bound` is the first
element that is not before the probe, which is what the tree search finds as long as the list is sorted.

- `span_of_mono`: on a sorted list `lower_bound` splits off exactly the elements before the probe.
- `lowerBound_extend`: moved on over equivalent elements, the iterator is the `lower_bound` of the weaker test.
- `insert_spec`, `insert_front`: an element comparable to all others goes in, the order is kept, and it is the first
  unless there is one before it.
- `sorted_ext`: a sorted list is known by its elements.
- `find_equiv`, `find_mem`, `mem_eraseAt`, `sorted_eraseAt`: an element of the set is found, and erasing it there
  removes it alone.
- `WeakOrder.of_key`: elements that are compared by a key.
- `find_eq_some`, `insert_same`, `insert_new`: under a weak order an element is found under every element it is the
  same as, and one that is the same as an element of the set does not go in.
- `insertAll_perm`: elements inserted one by one leave the first of each kind.
- `insertAll_sorted`: of elements that come in their order each goes in.
-/
import Mathlib.Tactic
import Mathlib.Data.List.TakeWhile

namespace Sylar.Core.OrdSet

variable {α : Type}

/-- the elements before the iterator `lower_bound` returns, and those from it on -/
def lowerBound (before : α → Bool) (l : List α) : List α × List α := (l.takeWhile before, l.dropWhile before)

/-- the element `find` points at, `none` for `end()` -/
def find (lt : α → α → Bool) (x : α) (l : List α) : Option α :=
  match (lowerBound (lt · x) l).2 with
  | [] => none
  | y :: _ => if lt x y then none else some y

/-- `insert(x)`: nothing happens if an equivalent element is there -/
def insert (lt : α → α → Bool) (x : α) (l : List α) : List α :=
  match lowerBound (lt · x) l with
  | (a, []) => a ++ [x]
  | (a, y :: b) => if lt x y then a ++ x :: y :: b else a ++ y :: b

/-- `erase(it)` at the iterator `find(x)` returned -/
def eraseAt (lt : α → α → Bool) (x : α) (l : List α) : List α :=
  (lowerBound (lt · x) l).1 ++ (lowerBound (lt · x) l).2.tail

/-- strictly increasing under the comparator -/
def Sorted (lt : α → α → Bool) (l : List α) : Prop := l.Pairwise fun a b => lt a b = true

/-- a comparator fit for a `std::set` -/
structure StrictOrder (lt : α → α → Bool) : Prop where
  irrefl : ∀ a, lt a a = false
  trans : ∀ a b c, lt a b = true → lt b c = true → lt a c = true

/-- `x` can be told apart from every other element of `l` -/
def Comparable (lt : α → α → Bool) (x : α) (l : List α) : Prop := ∀ y ∈ l, y ≠ x → lt y x = true ∨ lt x y = true

variable {lt : α → α → Bool}

theorem lowerBound_append (before : α → Bool) (l : List α) :
    (lowerBound before l).1 ++ (lowerBound before l).2 = l :=
  List.takeWhile_append_dropWhile

theorem takeWhile_congr {p q : α → Bool} {l : List α} (h : ∀ x ∈ l, p x = q x) :
    l.takeWhile p = l.takeWhile q ∧ l.dropWhile p = l.dropWhile q := by
  induction l with
  | nil => exact ⟨rfl, rfl⟩
  | cons a l ih =>
    obtain ⟨h1, h2⟩ := ih fun x hx => h x (List.mem_cons_of_mem a hx)
    rw [List.takeWhile_cons, List.takeWhile_cons, List.dropWhile_cons, List.dropWhile_cons, h a List.mem_cons_self,
      h1, h2]
    exact ⟨rfl, rfl⟩

/-- an iterator that is moved on while `same` holds, where `upTo` holds of all elements before it and is `same` from
it on -/
theorem lowerBound_extend {before same upTo : α → Bool} {l : List α}
    (hfront : ∀ y ∈ (lowerBound before l).1, upTo y = true)
    (hback : ∀ y ∈ (lowerBound before l).2, same y = upTo y) :
    ((lowerBound before l).1 ++ (lowerBound before l).2.takeWhile same, (lowerBound before l).2.dropWhile same) =
      lowerBound upTo l := by
  have happ := lowerBound_append before l
  obtain ⟨htake, hdrop⟩ := takeWhile_congr hback
  rw [htake, hdrop]
  generalize (lowerBound before l).1 = a at *
  generalize (lowerBound before l).2 = b at *
  rw [lowerBound, ← happ, List.takeWhile_append_of_pos hfront, List.dropWhile_append_of_pos hfront]

/-- on a sorted list a downward closed probe is a cut: all before it satisfy it, none from it on -/
theorem span_of_mono {before : α → Bool} {l : List α} (h : Sorted lt l)
    (hm : ∀ a ∈ l, ∀ b ∈ l, lt a b = true → before b = true → before a = true) :
    (∀ y ∈ (lowerBound before l).1, before y = true) ∧ ∀ y ∈ (lowerBound before l).2, before y = false := by
  refine ⟨fun y hy => List.mem_takeWhile_imp hy, ?_⟩
  induction l with
  | nil => intro y hy; cases hy
  | cons a l ih =>
    obtain ⟨ha, hl⟩ := List.pairwise_cons.1 h
    intro y hy
    by_cases hb : before a = true
    · rw [lowerBound, List.dropWhile_cons_of_pos hb] at hy
      exact ih hl (fun a ha b hb => hm a (List.mem_cons_of_mem _ ha) b (List.mem_cons_of_mem _ hb)) y hy
    · rw [lowerBound, List.dropWhile_cons_of_neg hb] at hy
      rcases List.mem_cons.1 hy with rfl | hy
      · simpa using hb
      · by_contra hc
        exact hb (hm a List.mem_cons_self y (List.mem_cons_of_mem a hy) (ha y hy) (by simpa using hc))

theorem lowerBound_spec (ho : StrictOrder lt) {l : List α} (h : Sorted lt l) (x : α) :
    (∀ y ∈ (lowerBound (lt · x) l).1, lt y x = true) ∧ ∀ y ∈ (lowerBound (lt · x) l).2, lt y x = false :=
  span_of_mono h fun a _ b _ hab hbx => ho.trans a b x hab hbx

theorem sorted_append {a b : List α} : Sorted lt (a ++ b) ↔
    Sorted lt a ∧ Sorted lt b ∧ ∀ x ∈ a, ∀ y ∈ b, lt x y = true := List.pairwise_append

theorem sorted_nodup (ho : StrictOrder lt) {l : List α} (h : Sorted lt l) : l.Nodup :=
  h.imp fun {a b} hab => by
    rintro rfl
    rw [ho.irrefl] at hab
    cases hab

theorem sorted_ext (ho : StrictOrder lt) {l₁ l₂ : List α} (h₁ : Sorted lt l₁) (h₂ : Sorted lt l₂)
    (hmem : ∀ x, x ∈ l₁ ↔ x ∈ l₂) : l₁ = l₂ := by
  have hperm : l₁.Perm l₂ :=
    (List.perm_ext_iff_of_nodup (sorted_nodup ho h₁) (sorted_nodup ho h₂)).mpr hmem
  refine hperm.eq_of_pairwise (fun a b _ _ hab hba => ?_) h₁ h₂
  have hcycle := ho.trans a b a hab hba
  rw [ho.irrefl] at hcycle
  cases hcycle

/-- the set and its order after an insertion -/
theorem insert_spec (ho : StrictOrder lt) {x : α} {l : List α} (h : Sorted lt l) (hc : Comparable lt x l) :
    (∀ y, y ∈ insert lt x l ↔ y = x ∨ y ∈ l) ∧ Sorted lt (insert lt x l) := by
  obtain ⟨hbefore, hafter⟩ := lowerBound_spec ho h x
  have happ := lowerBound_append (lt · x) l
  have hmem : ∀ y, y ∈ (lowerBound (lt · x) l).1 ∨ y ∈ (lowerBound (lt · x) l).2 ↔ y ∈ l := by
    intro y
    rw [← List.mem_append, happ]
  have hsorted := h
  rw [← happ, sorted_append] at hsorted
  obtain ⟨h1, h2, h3⟩ := hsorted
  unfold insert
  rcases hlb : lowerBound (lt · x) l with ⟨a, b⟩
  rw [hlb] at hbefore hafter hmem h1 h2 h3
  match b with
  | [] =>
    refine ⟨fun y => ?_, sorted_append.2 ⟨h1, List.pairwise_singleton _ _, ?_⟩⟩
    · rw [List.mem_append, List.mem_singleton, ← hmem y]
      simp [or_comm]
    · intro y hy z hz
      rw [List.mem_singleton.1 hz]
      exact hbefore y hy
  | y :: b =>
    have hy : lt y x = false := hafter y List.mem_cons_self
    by_cases hxy : lt x y = true
    · simp only [hxy, if_true]
      refine ⟨fun z => ?_, sorted_append.2 ⟨h1, List.pairwise_cons.2 ⟨?_, h2⟩, ?_⟩⟩
      · rw [← hmem z]
        simp only [List.mem_append, List.mem_cons]
        tauto
      · -- everything from the iterator on is after `x`
        intro z hz
        rcases List.mem_cons.1 hz with rfl | hz
        · exact hxy
        · exact ho.trans x y z hxy ((List.pairwise_cons.1 h2).1 z hz)
      · intro z hz w hw
        rcases List.mem_cons.1 hw with rfl | hw
        · exact hbefore z hz
        · exact h3 z hz w hw
    · -- an element that is neither before nor after `x` is `x` itself
      have hyx : y = x := by
        by_contra hne
        rcases hc y ((hmem y).1 (Or.inr List.mem_cons_self)) hne with h' | h'
        · rw [hy] at h'; cases h'
        · exact hxy h'
      simp only [hxy]
      refine ⟨fun z => ?_, sorted_append.2 ⟨h1, h2, h3⟩⟩
      rw [← hmem z, ← hyx]
      simp only [List.mem_append, List.mem_cons, Bool.false_eq_true, if_false]
      tauto

/-- an element that does not go in at the front has one before it -/
theorem insert_front {x : α} {l : List α} (hc : Comparable lt x l) (hx : x ∉ l) :
    (insert lt x l).head? = some x ∨ ∃ y ∈ l, lt y x = true := by
  cases l with
  | nil => exact Or.inl rfl
  | cons y l =>
    by_cases hy : lt y x = true
    · exact Or.inr ⟨y, List.mem_cons_self, hy⟩
    · have hxy : lt x y = true :=
        (hc y List.mem_cons_self fun e => hx (e ▸ List.mem_cons_self)).resolve_left hy
      left
      have hcut : lowerBound (lt · x) (y :: l) = ([], y :: l) := by
        simp [lowerBound, hy]
      rw [insert, hcut]
      simp [hxy]

/-- the iterator of an element of the set stands on it -/
theorem lowerBound_mem (ho : StrictOrder lt) {x : α} {l : List α} (h : Sorted lt l) (hx : x ∈ l) :
    ∃ b, (lowerBound (lt · x) l).2 = x :: b := by
  obtain ⟨hbefore, hafter⟩ := lowerBound_spec ho h x
  have happ := lowerBound_append (lt · x) l
  have hsorted := h
  rw [← happ, sorted_append] at hsorted
  have hx2 : x ∈ (lowerBound (lt · x) l).2 := by
    rw [← happ, List.mem_append] at hx
    rcases hx with hx | hx
    · have := hbefore x hx
      rw [ho.irrefl] at this
      cases this
    · exact hx
  rcases hb : (lowerBound (lt · x) l).2 with _ | ⟨y, b⟩
  · rw [hb] at hx2; cases hx2
  · rw [hb] at hx2 hafter hsorted
    rcases List.mem_cons.1 hx2 with rfl | hx2
    · exact ⟨b, rfl⟩
    · have hyx := (List.pairwise_cons.1 hsorted.2.1).1 x hx2
      rw [hafter y List.mem_cons_self] at hyx
      cases hyx

/-- what stands where `x` would stand is found -/
theorem find_equiv (ho : StrictOrder lt) {x y : α} {l : List α} (h : Sorted lt l) (hy : y ∈ l)
    (hxy : ∀ z, lt z y = lt z x) : find lt x l = some y := by
  obtain ⟨b, hb⟩ := lowerBound_mem ho h hy
  have hcut : (lt · y) = (lt · x) := funext hxy
  rw [hcut] at hb
  simp only [find, hb, hxy, ho.irrefl, Bool.false_eq_true, if_false]

theorem find_mem (ho : StrictOrder lt) {x : α} {l : List α} (h : Sorted lt l) (hx : x ∈ l) : find lt x l = some x :=
  find_equiv ho h hx fun _ => rfl

theorem eraseAt_sublist (x : α) (l : List α) : (eraseAt lt x l).Sublist l := by
  have h := lowerBound_append (lt · x) l
  conv_rhs => rw [← h]
  exact (List.Sublist.refl _).append (List.tail_sublist _)

theorem sorted_eraseAt {x : α} {l : List α} (h : Sorted lt l) : Sorted lt (eraseAt lt x l) :=
  h.sublist (eraseAt_sublist x l)

theorem mem_eraseAt (ho : StrictOrder lt) {x : α} {l : List α} (h : Sorted lt l) (hx : x ∈ l) (y : α) :
    y ∈ eraseAt lt x l ↔ y ≠ x ∧ y ∈ l := by
  obtain ⟨b, hb⟩ := lowerBound_mem ho h hx
  have happ := lowerBound_append (lt · x) l
  have hnd : ((lowerBound (lt · x) l).1 ++ x :: b).Nodup := by
    rw [← hb, happ]
    exact sorted_nodup ho h
  rw [hb] at happ
  have hdisj := List.nodup_append.1 hnd
  have hxa : x ∉ (lowerBound (lt · x) l).1 := fun hxa => hdisj.2.2 x hxa x List.mem_cons_self rfl
  have hxb : x ∉ b := (List.nodup_cons.1 hdisj.2.1).1
  have hmem : y ∈ l ↔ y ∈ (lowerBound (lt · x) l).1 ∨ y = x ∨ y ∈ b := by
    conv_lhs => rw [← happ]
    rw [List.mem_append, List.mem_cons]
  rw [eraseAt, hb, List.tail_cons, List.mem_append, hmem]
  constructor
  · rintro (hy | hy)
    · exact ⟨fun e => hxa (e ▸ hy), Or.inl hy⟩
    · exact ⟨fun e => hxb (e ▸ hy), Or.inr (Or.inr hy)⟩
  · rintro ⟨hne, hy | rfl | hy⟩
    · exact Or.inl hy
    · exact absurd rfl hne
    · exact Or.inr hy

/-! ## Weak orders -/

/-- an order that cannot tell the elements apart that are the `same` -/
structure WeakOrder (lt same : α → α → Bool) : Prop extends StrictOrder lt where
  same_iff : ∀ a b, same a b = true ↔ lt a b = false ∧ lt b a = false
  same_left : ∀ a b z, same a b = true → lt z a = lt z b

/-- elements ordered by a key, and the same if their keys are equal -/
theorem WeakOrder.of_key {β : Type} [LinearOrder β] {same : α → α → Bool} (key : α → β)
    (hlt : ∀ a b, lt a b = true ↔ key a < key b) (hsame : ∀ a b, same a b = true ↔ key a = key b) : WeakOrder lt same := by
  refine ⟨⟨?_, ?_⟩, ?_, ?_⟩
  · intro a
    rw [← Bool.not_eq_true, hlt]
    exact lt_irrefl _
  · intro a b c hab hbc
    rw [hlt] at *
    exact hab.trans hbc
  · intro a b
    rw [← Bool.not_eq_true, ← Bool.not_eq_true, hlt, hlt, hsame, not_lt, not_lt, le_antisymm_iff, and_comm]
  · intro a b z h
    rw [Bool.eq_iff_iff, hlt, hlt, (hsame a b).mp h]

/-- then exactly one of three holds -/
theorem count_of_key {β : Type} [LinearOrder β] {same : α → α → Bool} (key : α → β)
    (hlt : ∀ a b, lt a b = true ↔ key a < key b) (hsame : ∀ a b, same a b = true ↔ key a = key b) (a b : α) :
    [lt a b, same a b, lt b a].count true = 1 := by
  rcases lt_trichotomy (key a) (key b) with h | h | h
  · have h1 := (hlt a b).mpr h
    have h2 : same a b = false := by rw [← Bool.not_eq_true, hsame]; exact h.ne
    have h3 : lt b a = false := by rw [← Bool.not_eq_true, hlt]; exact h.asymm
    rw [h1, h2, h3]
    rfl
  · have h1 : lt a b = false := by rw [← Bool.not_eq_true, hlt, h]; exact lt_irrefl _
    have h2 := (hsame a b).mpr h
    have h3 : lt b a = false := by rw [← Bool.not_eq_true, hlt, h]; exact lt_irrefl _
    rw [h1, h2, h3]
    rfl
  · have h1 : lt a b = false := by rw [← Bool.not_eq_true, hlt]; exact h.asymm
    have h2 : same a b = false := by rw [← Bool.not_eq_true, hsame]; exact h.ne'
    have h3 := (hlt b a).mpr h
    rw [h1, h2, h3]
    rfl

/-- the elements in front of which no one that is the same stands -/
def firsts (same : α → α → Bool) : List α → List α
  | [] => []
  | x :: l => x :: (firsts same l).filter fun y => !same x y

section

variable {same : α → α → Bool}

theorem WeakOrder.refl (ho : WeakOrder lt same) (a : α) : same a a = true :=
  (ho.same_iff a a).mpr ⟨ho.irrefl a, ho.irrefl a⟩

theorem WeakOrder.symm (ho : WeakOrder lt same) {a b : α} (h : same a b = true) : same b a = true :=
  (ho.same_iff b a).mpr ((ho.same_iff a b).mp h).symm

theorem WeakOrder.same_right (ho : WeakOrder lt same) {a b : α} (h : same a b = true) (z : α) :
    same a z = same b z := by
  have hleft : ∀ x y, same x y = true → same x z = true → same y z = true := by
    intro x y hxy hxz
    have hzx := ho.same_left x y z hxy
    have hyx := ho.same_left x z y hxz
    rw [((ho.same_iff x z).mp hxz).2] at hzx
    rw [((ho.same_iff x y).mp hxy).2] at hyx
    exact (ho.same_iff y z).mpr ⟨hyx.symm, hzx.symm⟩
  rw [Bool.eq_iff_iff]
  exact ⟨hleft a b h, hleft b a (ho.symm h)⟩

theorem WeakOrder.comparable (ho : WeakOrder lt same) {x : α} {l : List α} (h : ∀ y ∈ l, same y x = false) :
    Comparable lt x l := by
  intro y hy _
  by_contra hno
  rw [not_or, Bool.not_eq_true, Bool.not_eq_true] at hno
  have hsame : same y x = true := (ho.same_iff y x).mpr hno
  rw [h y hy] at hsame
  cases hsame

theorem find_same (ho : WeakOrder lt same) {x y : α} {l : List α} (h : Sorted lt l) (hy : y ∈ l)
    (hs : same y x = true) : find lt x l = some y :=
  find_equiv ho.toStrictOrder h hy fun z => ho.same_left y x z hs

theorem find_eq_some (ho : WeakOrder lt same) {x y : α} {l : List α} (h : Sorted lt l) :
    find lt x l = some y ↔ y ∈ l ∧ same y x = true := by
  refine ⟨fun hf => ?_, fun hy => find_same ho h hy.1 hy.2⟩
  have hafter := (lowerBound_spec ho.toStrictOrder h x).2
  have happ := lowerBound_append (lt · x) l
  unfold find at hf
  rcases hb : (lowerBound (lt · x) l).2 with _ | ⟨z, b⟩
  · rw [hb] at hf
    cases hf
  · rw [hb] at hf hafter happ
    have hzx : lt z x = false := hafter z List.mem_cons_self
    by_cases hxz : lt x z = true
    · simp [hxz] at hf
    · have hzy : z = y := by simpa [hxz] using hf
      subst hzy
      refine ⟨?_, (ho.same_iff z x).mpr ⟨hzx, by simpa using hxz⟩⟩
      rw [← happ]
      exact List.mem_append_right _ List.mem_cons_self

theorem find_eq_none (ho : WeakOrder lt same) {x : α} {l : List α} (h : Sorted lt l) :
    find lt x l = none ↔ ∀ y ∈ l, same y x = false := by
  constructor
  · intro hf y hy
    by_contra hs
    rw [Bool.not_eq_false] at hs
    rw [find_same ho h hy hs] at hf
    cases hf
  · intro hno
    by_contra hf
    obtain ⟨y, hy⟩ := Option.ne_none_iff_exists'.mp hf
    obtain ⟨hmem, hs⟩ := (find_eq_some ho h).mp hy
    rw [hno y hmem] at hs
    cases hs

/-- an element does not go in where one that is the same stands -/
theorem insert_same (ho : WeakOrder lt same) {x y : α} {l : List α} (h : Sorted lt l) (hy : y ∈ l)
    (hs : same y x = true) : insert lt x l = l := by
  have hcut : (lt · y) = (lt · x) := funext fun z => ho.same_left y x z hs
  obtain ⟨b, hb⟩ := lowerBound_mem ho.toStrictOrder h hy
  have happ := lowerBound_append (lt · x) l
  have hxy : lt x y = false := ((ho.same_iff y x).mp hs).2
  rw [hcut] at hb
  unfold insert
  rcases hlb : lowerBound (lt · x) l with ⟨a, b'⟩
  rw [hlb] at hb happ
  subst hb
  simp only [hxy, Bool.false_eq_true, if_false]
  exact happ

theorem insert_new (ho : WeakOrder lt same) {x : α} {l : List α} (h : Sorted lt l) (hno : ∀ y ∈ l, same y x = false) :
    Sorted lt (insert lt x l) ∧ (insert lt x l).Perm (x :: l) := by
  obtain ⟨hmem, hsorted⟩ := insert_spec ho.toStrictOrder h (ho.comparable hno)
  have hx : x ∉ l := by
    intro hx
    have hs := hno x hx
    rw [ho.refl] at hs
    cases hs
  have hnodup : (x :: l).Nodup := List.nodup_cons.mpr ⟨hx, sorted_nodup ho.toStrictOrder h⟩
  refine ⟨hsorted, (List.perm_ext_iff_of_nodup (sorted_nodup ho.toStrictOrder hsorted) hnodup).mpr fun y => ?_⟩
  rw [hmem, List.mem_cons]

/-- inserting `x` keeps the order, whether it goes in or not -/
theorem sorted_insert (ho : WeakOrder lt same) (x : α) {l : List α} (h : Sorted lt l) : Sorted lt (insert lt x l) := by
  by_cases hno : ∀ y ∈ l, same y x = false
  · exact (insert_new ho h hno).1
  · simp only [not_forall, Bool.not_eq_false] at hno
    obtain ⟨y, hy, hs⟩ := hno
    rw [insert_same ho h hy hs]
    exact h

/-- the elements of `l` inserted in their order -/
def insertAll (lt : α → α → Bool) (l m : List α) : List α := l.foldl (fun m x => insert lt x m) m

theorem insertAll_spec (ho : WeakOrder lt same) (l : List α) {m : List α} (h : Sorted lt m) :
    Sorted lt (insertAll lt l m) ∧
      (insertAll lt l m).Perm (m ++ (firsts same l).filter fun x => !m.any fun y => same y x) := by
  induction l generalizing m with
  | nil =>
    refine ⟨h, ?_⟩
    rw [firsts, List.filter_nil, List.append_nil]
    exact List.Perm.refl m
  | cons x l ih =>
    obtain ⟨hsorted, hperm⟩ := ih (sorted_insert ho x h)
    refine ⟨hsorted, hperm.trans ?_⟩
    rw [firsts, List.filter_cons]
    by_cases hno : ∀ y ∈ m, same y x = false
    · -- `x` goes in, and what is the same as `x` does not any more
      have hnew : (m.any fun y => same y x) = false := List.any_eq_false.mpr fun y hy => by simp [hno y hy]
      have hfilter : ((firsts same l).filter fun z => !(insert lt x m).any fun y => same y z) =
          ((firsts same l).filter fun y => !same x y).filter fun z => !m.any fun y => same y z := by
        rw [List.filter_filter]
        apply List.filter_congr
        intro z _
        rw [(insert_new ho h hno).2.any_eq, List.any_cons, Bool.not_or, Bool.and_comm]
      rw [hnew, hfilter]
      exact ((insert_new ho h hno).2.append_right _).trans List.perm_middle.symm
    · simp only [not_forall, Bool.not_eq_false] at hno
      obtain ⟨y, hy, hs⟩ := hno
      have hold : (m.any fun y => same y x) = true := List.any_eq_true.mpr ⟨y, hy, hs⟩
      have hfilter : ((firsts same l).filter fun z => !m.any fun y => same y z) =
          ((firsts same l).filter fun z => !same x z).filter fun z => !m.any fun y => same y z := by
        rw [List.filter_filter]
        apply List.filter_congr
        intro z _
        -- what is the same as `x` is the same as `y`
        by_cases hxz : same x z = true
        · have hz : (m.any fun y => same y z) = true :=
            List.any_eq_true.mpr ⟨y, hy, (ho.same_right hs z).trans hxz⟩
          rw [hz]
          rfl
        · rw [Bool.not_eq_true] at hxz
          rw [hxz, Bool.not_false, Bool.and_true]
      rw [hold, insert_same ho h hy hs, hfilter]
      exact List.Perm.refl _

/-- **First of each kind.** -/
theorem insertAll_perm (ho : WeakOrder lt same) (l : List α) : (insertAll lt l []).Perm (firsts same l) := by
  have h := (insertAll_spec ho l (List.Pairwise.nil : Sorted lt [])).2
  rw [List.nil_append] at h
  exact h.trans (List.Perm.of_eq (List.filter_eq_self.mpr fun _ _ => rfl))

theorem firsts_eq_self {l : List α} (h : l.Pairwise fun a b => same a b = false) : firsts same l = l := by
  induction l with
  | nil => rfl
  | cons x l ih =>
    rw [List.pairwise_cons] at h
    rw [firsts, ih h.2]
    congr 1
    exact List.filter_eq_self.mpr fun y hy => by rw [h.1 y hy, Bool.not_false]

/-- elements that come in their order -/
theorem insertAll_sorted (ho : WeakOrder lt same) {l : List α} (h : Sorted lt l) : insertAll lt l [] = l := by
  have hsame : l.Pairwise fun a b => same a b = false := by
    refine h.imp fun {a b} hab => ?_
    rw [← Bool.not_eq_true, ho.same_iff, hab]
    simp
  have hmem : ∀ x, x ∈ insertAll lt l [] ↔ x ∈ l := by
    intro x
    rw [(insertAll_perm ho l).mem_iff, firsts_eq_self hsame]
  exact sorted_ext ho.toStrictOrder (insertAll_spec ho l List.Pairwise.nil).1 h hmem

end

end Sylar.Core.OrdSet
