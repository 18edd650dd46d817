/-
The casts of containers (`config.h`): `LexicalCast` between YAML texts and `std::vector`, `list`, `set`, `unordered_set`,
`map` and `unordered_map`, over any element type that has casts, so nested as deep as one likes.

A container is printed as a node into which the nodes of its elements go; the node of an element is what `YAML::Load`
makes of its text. It is read element by element, each from the text its node is printed as. So an element of a container
does not come back from its own text, but from that text loaded and printed (`readBack`). What yaml-cpp does with a text
is a parameter (`YamlItems`); none is an exception. An unordered container is a list in the order of its iteration, and
two are equal in any order.

- `casts_round_trip`: where the document of a container is loaded as it was printed, the container comes back from its
  text iff its elements come back as elements; inside another container it does exactly if it does so alone.
- `string_keeps_iff`: a string comes back as an element iff loading and printing does not change it.
- `fromString_toString`: a variable that takes the text of another one takes what its value comes back as; if the value
  cannot be printed, it is left without elements.
-/
import Mathlib.Tactic
import Sylar.Core.OrdSet
import Sylar.Http.Message
import Sylar.Config.Yaml
import Sylar.Config.FromString

namespace Sylar

open Sylar.Core Sylar.Http

/-- with `ss << node[i]` of a map -/
structure YamlItems extends YamlCpp where
  printItem : List (Bytes × Yaml) → ℕ → Option Bytes

/-- `LexicalCast<T, std::string>`, `LexicalCast<std::string, T>`, and `operator==` of `T` -/
structure LexicalCast (T : Type) where
  toText : T → Option Bytes
  fromText : Bytes → Option T
  same : T → T → Prop

namespace LexicalCast

variable {T : Type}

/-! ## Elements -/

section Elements

variable (y : YamlItems) (c : LexicalCast T)

/-- `YAML::Load(LexicalCast<T, std::string>()(i))` -/
def item (x : T) : Option Yaml := (c.toText x).bind y.load

/-- `ss << node[i]`, for all items -/
def itemTexts : Yaml → Option (List Bytes)
  | .seq ts => some (ts.map y.emit)
  | .map es => (List.range es.length).mapM (y.printItem es)
  | _ => some []

/-- the loop over the elements, and `ss << node` -/
def printItems (xs : List T) : Option Bytes := (xs.mapM (item y c)).map fun ts => y.emit (.seq ts)

/-- the elements of a text, in the order in which they are put into the container -/
def readItems (v : Bytes) : Option (List T) :=
  (y.load v).bind fun node => (itemTexts y node).bind fun texts => texts.mapM c.fromText

/-- `it->first.Scalar()` and `ss << it->second`, for all entries; an item of a sequence has no first node -/
def entryTexts : Yaml → Option (List (Bytes × Bytes))
  | .map es => some (es.map fun e => (e.1, y.emit e.2))
  | .seq (_ :: _) => none
  | _ => some []

def printEntries (es : List (Bytes × T)) : Option Bytes :=
  (es.mapM fun i => (item y c i.2).map fun t => (i.1, t)).map fun ts => y.emit (.map ts)

def readEntries (v : Bytes) : Option (List (Bytes × T)) :=
  (y.load v).bind fun node => (entryTexts y node).bind fun texts =>
    texts.mapM fun e => (c.fromText e.2).map fun x => (e.1, x)

/-- what an element comes back as -/
def readBack (x : T) : Option T := (item y c x).bind fun t => c.fromText (y.emit t)

end Elements

/-! ## Containers -/

/-- `std::set<T>` -/
@[ext]
structure StdSet (T : Type) [LinearOrder T] where
  elements : List T
  sorted : OrdSet.Sorted (fun a b => decide (a < b)) elements

/-- `std::unordered_set<T>` -/
structure UnorderedSet (T : Type) where
  elements : List T
  nodup : elements.Nodup

/-- `operator<` of the keys -/
def keyLess (a b : Bytes × T) : Bool := a.1.map UInt8.toNat < b.1.map UInt8.toNat

def sameKey (a b : Bytes × T) : Bool := a.1 = b.1

/-- `std::map<std::string, T>` -/
@[ext]
structure StdMap (T : Type) where
  entries : List (Bytes × T)
  sorted : OrdSet.Sorted keyLess entries

/-- `std::unordered_map<std::string, T>` -/
structure UnorderedMap (T : Type) where
  entries : List (Bytes × T)
  nodup : (entries.map Prod.fst).Nodup

theorem lt_weak (T : Type) [LinearOrder T] :
    OrdSet.WeakOrder (fun a b : T => decide (a < b)) fun a b => decide (a = b) :=
  .of_key id (fun _ _ => decide_eq_true_iff) fun _ _ => decide_eq_true_iff

theorem keyLess_weak (T : Type) : OrdSet.WeakOrder (keyLess (T := T)) sameKey := by
  refine .of_key (fun e => e.1.map UInt8.toNat) (fun _ _ => decide_eq_true_iff) fun a b => ?_
  rw [sameKey, decide_eq_true_iff]
  exact (List.map_injective_iff.mpr fun _ _ => UInt8.toNat_inj.mp).eq_iff.symm

namespace StdSet

variable [LinearOrder T]

/-- the loop `vec.insert(…)` -/
def ofList (l : List T) : StdSet T :=
  ⟨OrdSet.insertAll (fun a b => decide (a < b)) l [], (OrdSet.insertAll_spec (lt_weak T) l List.Pairwise.nil).1⟩

end StdSet

namespace UnorderedSet

variable [DecidableEq T]

/-- where an element goes is up to the hash -/
def insert (s : UnorderedSet T) (x : T) : UnorderedSet T :=
  if h : x ∈ s.elements then s else ⟨x :: s.elements, List.nodup_cons.mpr ⟨h, s.nodup⟩⟩

def ofList (l : List T) : UnorderedSet T := l.foldl insert ⟨[], List.nodup_nil⟩

end UnorderedSet

/-- the loop `vec.insert(std::make_pair(…))` -/
def StdMap.ofList (l : List (Bytes × T)) : StdMap T :=
  ⟨OrdSet.insertAll keyLess l [], (OrdSet.insertAll_spec (keyLess_weak T) l List.Pairwise.nil).1⟩

namespace UnorderedMap

def insert (m : UnorderedMap T) (e : Bytes × T) : UnorderedMap T :=
  if h : e.1 ∈ m.entries.map Prod.fst then m
  else ⟨e :: m.entries, by rw [List.map_cons]; exact List.nodup_cons.mpr ⟨h, m.nodup⟩⟩

def ofList (l : List (Bytes × T)) : UnorderedMap T := l.foldl insert ⟨[], List.nodup_nil⟩

end UnorderedMap

section Casts

variable (y : YamlItems) (c : LexicalCast T)

def vector : LexicalCast (List T) where
  toText := printItems y c
  fromText := readItems y c
  same := List.Forall₂ c.same

def list : LexicalCast (List T) where
  toText := printItems y c
  fromText := readItems y c
  same := List.Forall₂ c.same

def set [LinearOrder T] : LexicalCast (StdSet T) where
  toText s := printItems y c s.elements
  fromText v := (readItems y c v).map .ofList
  same := Eq

def unorderedSet [DecidableEq T] : LexicalCast (UnorderedSet T) where
  toText s := printItems y c s.elements
  fromText v := (readItems y c v).map .ofList
  same a b := a.elements.Perm b.elements

/-- the same key with the same value -/
def sameEntry (a b : Bytes × T) : Prop := a.1 = b.1 ∧ c.same a.2 b.2

def map : LexicalCast (StdMap T) where
  toText m := printEntries y c m.entries
  fromText v := (readEntries y c v).map .ofList
  same a b := List.Forall₂ (sameEntry c) a.entries b.entries

def unorderedMap : LexicalCast (UnorderedMap T) where
  toText m := printEntries y c m.entries
  fromText v := (readEntries y c v).map .ofList
  same a b := ∃ l, l.Perm b.entries ∧ List.Forall₂ (sameEntry c) a.entries l

/-- `boost::lexical_cast` between strings -/
def string : LexicalCast Bytes where
  toText s := some s
  fromText v := some v
  same := Eq

/-- a value comes back from its text -/
def RoundTrip (x : T) : Prop := ∃ r, (c.toText x).bind c.fromText = some r ∧ c.same x r

/-- it comes back as an element of a container -/
def Keeps (x : T) : Prop := ∃ r, readBack y c x = some r ∧ c.same x r

/-- the document of a value is loaded as it was printed -/
def Faithful (x : T) : Prop := ∀ text, c.toText x = some text → ∃ t, text = y.emit t ∧ y.load text = some t

end Casts

/-! ## Elements that come back -/

/-- two steps over a list are one -/
theorem mapM_bind {α β γ : Type} (f : α → Option β) (g : β → Option γ) (l : List α) :
    (l.mapM f).bind (fun bs => bs.mapM g) = l.mapM fun a => (f a).bind g := by
  induction l with
  | nil => rfl
  | cons a l ih =>
    rw [List.mapM_cons, List.mapM_cons, ← ih]
    cases f a with
    | none => rfl
    | some b =>
      cases l.mapM f with
      | none => cases hg : g b <;> simp [hg]
      | some bs => exact List.mapM_cons

theorem mapM_eq_some {α β : Type} {f : α → Option β} {l : List α} {rs : List β} :
    l.mapM f = some rs ↔ List.Forall₂ (fun a r => f a = some r) l rs := by
  induction l generalizing rs with
  | nil => simp [eq_comm]
  | cons a l ih =>
    rw [List.mapM_cons, List.forall₂_cons_left_iff]
    simp only [Option.bind_eq_bind, Option.bind_eq_some_iff, Option.pure_def, Option.some.injEq, ih]
    constructor
    · rintro ⟨b, hb, bs, hbs, rfl⟩
      exact ⟨b, bs, hb, hbs, rfl⟩
    · rintro ⟨b, bs, hb, hbs, rfl⟩
      exact ⟨b, hb, bs, hbs, rfl⟩

/-- a list of which each element is kept -/
theorem mapM_forall₂ {α β : Type} {f : α → Option β} {same : α → β → Prop} (l : List α) :
    (∃ rs, l.mapM f = some rs ∧ List.Forall₂ same l rs) ↔ ∀ x ∈ l, ∃ r, f x = some r ∧ same x r := by
  simp only [mapM_eq_some]
  induction l with
  | nil => simp
  | cons x l ih =>
    rw [List.forall_mem_cons, ← ih]
    constructor
    · rintro ⟨rs, hf, hs⟩
      obtain ⟨r, rs, hr, hrs, rfl⟩ := List.forall₂_cons_left_iff.mp hf
      obtain ⟨hsame, hsames⟩ := List.forall₂_cons.mp hs
      exact ⟨⟨r, hr, hsame⟩, rs, hrs, hsames⟩
    · rintro ⟨⟨r, hr, hsame⟩, rs, hrs, hsames⟩
      exact ⟨r :: rs, .cons hr hrs, .cons hsame hsames⟩

section Items

variable {y : YamlItems} {c : LexicalCast T}

/-- the document of a sequence is loaded as it was printed -/
def SeqFaithful (y : YamlItems) (c : LexicalCast T) (xs : List T) : Prop :=
  ∀ ts, xs.mapM (item y c) = some ts → y.load (y.emit (.seq ts)) = some (.seq ts)

/-- and that of a map -/
def MapFaithful (y : YamlItems) (c : LexicalCast T) (es : List (Bytes × T)) : Prop :=
  ∀ ts, (es.mapM fun i => (item y c i.2).map fun t => (i.1, t)) = some ts → y.load (y.emit (.map ts)) = some (.map ts)

theorem readItems_seq {ts : List Yaml} (h : y.load (y.emit (.seq ts)) = some (.seq ts)) :
    readItems y c (y.emit (.seq ts)) = ts.mapM fun t => c.fromText (y.emit t) := by
  rw [readItems, h, Option.bind_some, itemTexts, Option.bind_some, List.mapM_map]
  rfl

theorem readEntries_map {ts : List (Bytes × Yaml)} (h : y.load (y.emit (.map ts)) = some (.map ts)) :
    readEntries y c (y.emit (.map ts)) = ts.mapM fun e => (c.fromText (y.emit e.2)).map fun x => (e.1, x) := by
  rw [readEntries, h, Option.bind_some, entryTexts, Option.bind_some, List.mapM_map]
  rfl

/-- the elements come back one by one -/
theorem readItems_printItems {xs : List T} (h : SeqFaithful y c xs) :
    (printItems y c xs).bind (readItems y c) = xs.mapM (readBack y c) := by
  have hback := mapM_bind (item y c) (fun t => c.fromText (y.emit t)) xs
  rw [printItems]
  cases hts : xs.mapM (item y c) with
  | none =>
    rw [hts] at hback
    exact hback
  | some ts =>
    rw [hts] at hback
    exact (readItems_seq (h ts hts)).trans hback

theorem readEntries_printEntries {es : List (Bytes × T)} (h : MapFaithful y c es) :
    (printEntries y c es).bind (readEntries y c) = es.mapM fun e => (readBack y c e.2).map fun x => (e.1, x) := by
  have hback := mapM_bind (fun i : Bytes × T => (item y c i.2).map fun t => (i.1, t))
    (fun e => (c.fromText (y.emit e.2)).map fun x => (e.1, x)) es
  have hentry : ∀ e : Bytes × T, ((item y c e.2).map fun t => (e.1, t)).bind
      (fun t => (c.fromText (y.emit t.2)).map fun x => (t.1, x)) = (readBack y c e.2).map fun x => (e.1, x) := by
    intro e
    rw [readBack]
    cases item y c e.2 <;> rfl
  simp only [hentry] at hback
  rw [printEntries]
  cases hts : es.mapM fun i => (item y c i.2).map fun t => (i.1, t) with
  | none =>
    rw [hts] at hback
    exact hback
  | some ts =>
    rw [hts] at hback
    exact (readEntries_map (h ts hts)).trans hback

/-- an entry comes back under its key -/
theorem entry_kept {e r : Bytes × T} :
    (readBack y c e.2).map (fun x => (e.1, x)) = some r ↔ r.1 = e.1 ∧ readBack y c e.2 = some r.2 := by
  obtain ⟨k, x⟩ := r
  rw [Option.map_eq_some_iff]
  constructor
  · rintro ⟨x', hx, heq⟩
    obtain ⟨rfl, rfl⟩ := Prod.mk.inj heq
    exact ⟨rfl, hx⟩
  · rintro ⟨rfl, hx⟩
    exact ⟨x, hx, rfl⟩

theorem entries_kept (es : List (Bytes × T)) :
    (∃ rs, (es.mapM fun e => (readBack y c e.2).map fun x => (e.1, x)) = some rs ∧
      List.Forall₂ (sameEntry c) es rs) ↔ ∀ e ∈ es, c.Keeps y e.2 := by
  rw [mapM_forall₂]
  refine forall₂_congr fun e _ => ?_
  constructor
  · rintro ⟨r, hr, -, hsame⟩
    exact ⟨r.2, (entry_kept.mp hr).2, hsame⟩
  · rintro ⟨x, hx, hsame⟩
    exact ⟨(e.1, x), entry_kept.mpr ⟨rfl, hx⟩, rfl, hsame⟩

end Items

/-! ## Containers that come back -/

/-- a value comes back exactly if `back`, alone and as an element of another container -/
structure ComesBack (y : YamlItems) (c : LexicalCast T) (x : T) (back : Prop) : Prop where
  alone : c.RoundTrip x ↔ back
  nested : c.Keeps y x ↔ back

section Containers

variable {y : YamlItems} {c : LexicalCast T}

/-- a value whose document is loaded as it was printed comes back nested if it does alone -/
theorem readBack_of_faithful {x : T} (h : c.Faithful y x) : readBack y c x = (c.toText x).bind c.fromText := by
  rw [readBack, item]
  cases htext : c.toText x with
  | none => rfl
  | some text =>
    obtain ⟨t, rfl, hload⟩ := h text htext
    rw [Option.bind_some, Option.bind_some, hload, Option.bind_some]

theorem comesBack {x : T} {back : Prop} (hfaithful : c.Faithful y x) (h : c.RoundTrip x ↔ back) :
    ComesBack y c x back := by
  refine ⟨h, Iff.trans ?_ h⟩
  rw [Keeps, readBack_of_faithful hfaithful, RoundTrip]

theorem printItems_faithful {xs : List T} (h : SeqFaithful y c xs) (text : Bytes) (htext : printItems y c xs = some text) :
    ∃ t, text = y.emit t ∧ y.load text = some t := by
  obtain ⟨ts, hts, rfl⟩ := Option.map_eq_some_iff.mp htext
  exact ⟨.seq ts, rfl, h ts hts⟩

theorem printEntries_faithful {es : List (Bytes × T)} (h : MapFaithful y c es) (text : Bytes)
    (htext : printEntries y c es = some text) : ∃ t, text = y.emit t ∧ y.load text = some t := by
  obtain ⟨ts, hts, rfl⟩ := Option.map_eq_some_iff.mp htext
  exact ⟨.map ts, rfl, h ts hts⟩

theorem vector_comesBack {xs : List T} (h : SeqFaithful y c xs) :
    ComesBack y (vector y c) xs (∀ x ∈ xs, c.Keeps y x) := by
  refine comesBack (printItems_faithful h) ?_
  rw [RoundTrip, show (vector y c).toText xs = printItems y c xs from rfl,
    show (vector y c).fromText = readItems y c from rfl, readItems_printItems h]
  exact mapM_forall₂ xs

theorem list_comesBack {xs : List T} (h : SeqFaithful y c xs) :
    ComesBack y (list y c) xs (∀ x ∈ xs, c.Keeps y x) := vector_comesBack h

/-- a container that is read by putting the elements of its text into it -/
theorem bind_map_ofList {S A : Type} {text : Option Bytes} {read : Bytes → Option (List A)} {ofList : List A → S}
    {rs : Option (List A)} {same : S → Prop} (h : text.bind read = rs) :
    (∃ r, (text.bind fun v => (read v).map ofList) = some r ∧ same r) ↔ ∃ l, rs = some l ∧ same (ofList l) := by
  rw [← h]
  cases text with
  | none => simp
  | some v => cases hread : read v <;> simp [hread]

namespace StdSet

variable [LinearOrder T]

theorem mem_firsts {l : List T} {x : T} : x ∈ OrdSet.firsts (fun a b => decide (a = b)) l ↔ x ∈ l := by
  induction l with
  | nil => rfl
  | cons z l ih =>
    rw [OrdSet.firsts, List.mem_cons, List.mem_filter, ih, List.mem_cons]
    by_cases hx : x = z
    · simp [hx]
    · simp [hx, Ne.symm hx]

theorem mem_ofList {l : List T} {x : T} : x ∈ (ofList l).elements ↔ x ∈ l :=
  (OrdSet.insertAll_perm (lt_weak T) l).mem_iff.trans mem_firsts

theorem eq_ofList {s : StdSet T} {l : List T} : s = ofList l ↔ ∀ x, x ∈ l ↔ x ∈ s.elements := by
  constructor
  · rintro rfl x
    exact mem_ofList.symm
  · intro h
    refine StdSet.ext (OrdSet.sorted_ext (lt_weak T).toStrictOrder s.sorted (ofList l).sorted fun x => ?_)
    exact (h x).symm.trans mem_ofList.symm

end StdSet

namespace UnorderedSet

variable [DecidableEq T]

theorem mem_foldl_insert (l : List T) (s : UnorderedSet T) (x : T) :
    x ∈ (l.foldl insert s).elements ↔ x ∈ l ∨ x ∈ s.elements := by
  induction l generalizing s with
  | nil => simp
  | cons z l ih =>
    rw [List.foldl_cons, ih, List.mem_cons, insert]
    split_ifs with hz
    · grind
    · simp only [List.mem_cons]
      tauto

theorem perm_ofList {s : UnorderedSet T} {l : List T} :
    s.elements.Perm (ofList l).elements ↔ ∀ x, x ∈ l ↔ x ∈ s.elements := by
  have hmem : ∀ x, x ∈ (ofList l).elements ↔ x ∈ l := by
    intro x
    rw [ofList, mem_foldl_insert]
    simp
  rw [List.perm_ext_iff_of_nodup s.nodup (ofList l).nodup]
  refine forall_congr' fun x => ?_
  rw [hmem]
  exact iff_comm

end UnorderedSet

/-- the elements that are read are those of the set, not each its own -/
def SameElements (y : YamlItems) (c : LexicalCast T) (xs : List T) : Prop :=
  ∃ rs, xs.mapM (readBack y c) = some rs ∧ ∀ x, x ∈ rs ↔ x ∈ xs

theorem set_comesBack [LinearOrder T] {s : StdSet T} (h : SeqFaithful y c s.elements) :
    ComesBack y (set y c) s (SameElements y c s.elements) := by
  refine comesBack (printItems_faithful h) ?_
  refine (bind_map_ofList (readItems_printItems h)).trans ?_
  exact exists_congr fun rs => and_congr_right fun _ => StdSet.eq_ofList

theorem unorderedSet_comesBack [DecidableEq T] {s : UnorderedSet T} (h : SeqFaithful y c s.elements) :
    ComesBack y (unorderedSet y c) s (SameElements y c s.elements) := by
  refine comesBack (printItems_faithful h) ?_
  refine (bind_map_ofList (readItems_printItems h)).trans ?_
  exact exists_congr fun rs => and_congr_right fun _ => UnorderedSet.perm_ofList

/-- entries that come back have the keys they had -/
theorem keys_of_kept {es rs : List (Bytes × T)}
    (h : (es.mapM fun e => (readBack y c e.2).map fun x => (e.1, x)) = some rs) : rs.map Prod.fst = es.map Prod.fst := by
  have hkept := mapM_eq_some.mp h
  clear h
  induction hkept with
  | nil => rfl
  | cons hr _ ih => rw [List.map_cons, List.map_cons, ih, (entry_kept.mp hr).1]

theorem StdMap.entries_ofList {l : List (Bytes × T)} (h : OrdSet.Sorted keyLess l) : (StdMap.ofList l).entries = l :=
  OrdSet.insertAll_sorted (keyLess_weak T) h

theorem keyLess_sorted_iff {l : List (Bytes × T)} :
    OrdSet.Sorted keyLess l ↔ (l.map Prod.fst).Pairwise fun a b => a.map UInt8.toNat < b.map UInt8.toNat := by
  rw [OrdSet.Sorted, List.pairwise_map]
  simp only [keyLess, decide_eq_true_iff]

theorem map_comesBack {m : StdMap T} (h : MapFaithful y c m.entries) :
    ComesBack y (map y c) m (∀ e ∈ m.entries, c.Keeps y e.2) := by
  refine comesBack (printEntries_faithful h) ?_
  refine (bind_map_ofList (readEntries_printEntries h)).trans ?_
  refine Iff.trans (exists_congr fun rs => and_congr_right fun hrs => ?_) (entries_kept m.entries)
  have hsorted : OrdSet.Sorted keyLess rs := by
    rw [keyLess_sorted_iff, keys_of_kept hrs]
    exact keyLess_sorted_iff.mp m.sorted
  rw [show (map y c).same m (.ofList rs) = List.Forall₂ (sameEntry c) m.entries (StdMap.ofList rs).entries from rfl,
    StdMap.entries_ofList hsorted]

namespace UnorderedMap

theorem foldl_insert {l : List (Bytes × T)} {m : UnorderedMap T} (h : ((l ++ m.entries).map Prod.fst).Nodup) :
    (l.foldl insert m).entries.Perm (l ++ m.entries) := by
  induction l generalizing m with
  | nil => exact List.Perm.refl _
  | cons e l ih =>
    have hnew : e.1 ∉ m.entries.map Prod.fst := by
      intro he
      rw [List.cons_append, List.map_cons, List.nodup_cons, List.map_append] at h
      exact h.1 (List.mem_append_right _ he)
    have hinsert : (m.insert e).entries = e :: m.entries := by rw [insert, dif_neg hnew]
    have hperm : (l ++ e :: m.entries).Perm (e :: l ++ m.entries) := List.perm_middle
    rw [List.foldl_cons]
    rw [← hinsert] at hperm
    exact (ih ((hperm.map _).nodup_iff.mpr h)).trans hperm

theorem perm_ofList {l : List (Bytes × T)} (h : (l.map Prod.fst).Nodup) : (ofList l).entries.Perm l := by
  have hperm := foldl_insert (m := ⟨[], List.nodup_nil⟩) (l := l) (by rwa [List.append_nil])
  rwa [List.append_nil] at hperm

end UnorderedMap

/-- the same entries in two orders, under the same keys in the same order -/
theorem perm_eq_of_keys {l rs : List (Bytes × T)} (h : l.Perm rs) (hkeys : l.map Prod.fst = rs.map Prod.fst)
    (hnodup : (rs.map Prod.fst).Nodup) : l = rs := by
  induction l generalizing rs with
  | nil => exact (List.nil_perm.mp h).symm
  | cons e l ih =>
    cases rs with
    | nil => exact absurd h.length_eq (by simp)
    | cons e' rs =>
      rw [List.map_cons, List.map_cons, List.cons_eq_cons] at hkeys
      rw [List.map_cons, List.nodup_cons] at hnodup
      have he : e = e' := by
        rcases List.mem_cons.mp (h.mem_iff.mp List.mem_cons_self) with he | he
        · exact he
        · exact absurd (hkeys.1 ▸ List.mem_map_of_mem he) hnodup.1
      subst he
      rw [ih h.cons_inv hkeys.2 hnodup.2]

theorem keys_of_same {es l : List (Bytes × T)} (h : List.Forall₂ (sameEntry c) es l) :
    es.map Prod.fst = l.map Prod.fst := by
  induction h with
  | nil => rfl
  | cons he _ ih => rw [List.map_cons, List.map_cons, ih, he.1]

/-- in any order: an entry is found again by its key -/
theorem unorderedMap_comesBack {m : UnorderedMap T} (h : MapFaithful y c m.entries) :
    ComesBack y (unorderedMap y c) m (∀ e ∈ m.entries, c.Keeps y e.2) := by
  refine comesBack (printEntries_faithful h) ?_
  refine (bind_map_ofList (readEntries_printEntries h)).trans ?_
  refine Iff.trans (exists_congr fun rs => and_congr_right fun hrs => ?_) (entries_kept m.entries)
  have hperm : (UnorderedMap.ofList rs).entries.Perm rs := by
    refine UnorderedMap.perm_ofList ?_
    rw [keys_of_kept hrs]
    exact m.nodup
  constructor
  · rintro ⟨l, hl, hsame⟩
    have hkeys : l.map Prod.fst = rs.map Prod.fst := by
      rw [keys_of_kept hrs]
      exact (keys_of_same hsame).symm
    have hnodup : (rs.map Prod.fst).Nodup := by
      rw [keys_of_kept hrs]
      exact m.nodup
    rwa [← perm_eq_of_keys (hl.trans hperm) hkeys hnodup]
  · intro hsame
    exact ⟨rs, hperm.symm, hsame⟩

end Containers

/-- **Containers come back.** For every YAML library and every element type: where the document of a container is loaded
as it was printed, a sequence or a map comes back from its text iff each element does as an element, and a set iff what
its elements come back as has the same elements; and so it is if the container is an element of another one. -/
theorem casts_round_trip (y : YamlItems) (c : LexicalCast T) :
    (∀ xs, SeqFaithful y c xs →
      ComesBack y (vector y c) xs (∀ x ∈ xs, c.Keeps y x) ∧ ComesBack y (list y c) xs (∀ x ∈ xs, c.Keeps y x)) ∧
    (∀ (_ : LinearOrder T) (s : StdSet T), SeqFaithful y c s.elements →
      ComesBack y (set y c) s (SameElements y c s.elements)) ∧
    (∀ (_ : DecidableEq T) (s : UnorderedSet T), SeqFaithful y c s.elements →
      ComesBack y (unorderedSet y c) s (SameElements y c s.elements)) ∧
    (∀ m : StdMap T, MapFaithful y c m.entries → ComesBack y (map y c) m (∀ e ∈ m.entries, c.Keeps y e.2)) ∧
    ∀ m : UnorderedMap T, MapFaithful y c m.entries →
      ComesBack y (unorderedMap y c) m (∀ e ∈ m.entries, c.Keeps y e.2) := by
  refine ⟨fun xs h => ⟨vector_comesBack h, list_comesBack h⟩, ?_, ?_, fun m h => map_comesBack h,
    fun m h => unorderedMap_comesBack h⟩
  · intro _ s h
    exact set_comesBack h
  · intro _ s h
    exact unorderedSet_comesBack h

/-- a string comes back as an element iff its text is that of a document -/
theorem string_keeps_iff {y : YamlItems} {s : Bytes} : string.Keeps y s ↔ ∃ t, y.load s = some t ∧ y.emit t = s := by
  have hback : readBack y string s = (y.load s).map y.emit := by
    rw [readBack, item, Option.map_eq_bind]
    rfl
  rw [Keeps, hback]
  constructor
  · rintro ⟨r, hr, rfl⟩
    exact Option.map_eq_some_iff.mp hr
  · intro h
    exact ⟨s, Option.map_eq_some_iff.mpr h, rfl⟩

/-- yaml-cpp on scalars and on sequences of two; the empty document is null, which is printed as `~` -/
def twoScalars : YamlItems where
  emit
    | .scalar text => text
    | .seq [.scalar a, .scalar b] => ascii "- " ++ a ++ ascii "\n- " ++ b
    | .seq [.scalar a, .null] => ascii "- " ++ a ++ ascii "\n- ~"
    | .null => ascii "~"
    | _ => []
  load text :=
    if text = [] ∨ text = ascii "~" then some .null
    else if text = ascii "- 7\n- 8" then some (.seq [.scalar (ascii "7"), .scalar (ascii "8")])
    else if text = ascii "- 7\n- ~" then some (.seq [.scalar (ascii "7"), .null])
    else some (.scalar text)
  printItem _ _ := none

/-- two strings that come back, and an empty one that does not: it comes back as `~` -/
theorem casts_round_trip_strings :
    (vector twoScalars string).RoundTrip [ascii "7", ascii "8"] ∧ ¬(vector twoScalars string).RoundTrip [ascii "7", []] := by
  have hload := (casts_round_trip twoScalars string).1
  constructor
  · refine ((hload _ ?_).1.alone).mpr ?_
    · intro ts hts
      obtain rfl := Option.some.inj hts
      rfl
    · intro x hx
      rw [List.mem_cons, List.mem_singleton] at hx
      rcases hx with rfl | rfl
      · exact string_keeps_iff.mpr ⟨.scalar (ascii "7"), rfl, rfl⟩
      · exact string_keeps_iff.mpr ⟨.scalar (ascii "8"), rfl, rfl⟩
  · intro h
    have hkeeps := ((hload _ ?_).1.alone).mp h [] (by simp)
    · obtain ⟨t, ht, hemit⟩ := string_keeps_iff.mp hkeeps
      obtain rfl := Option.some.inj ht
      exact absurd hemit (by decide)
    · intro ts hts
      obtain rfl := Option.some.inj hts
      rfl

/-! ## Variables -/

section Variables

open FromString

variable {y : YamlItems} {c : LexicalCast T}

/-- `toString()`, with its handler -/
def toString (c : LexicalCast T) (x : ConfigVar T) : Bytes := (c.toText x.val).getD []

/-- `FromStr()(val)`; what the casts throw is derived from `std::exception` -/
def convert (c : LexicalCast T) (val : Bytes) : Except Thrown T :=
  match c.fromText val with
  | some v => .ok v
  | none => .error .standard

/-- the value after a text that is read, under listeners that throw nothing -/
theorem fromString_val [BEq T] [LawfulBEq T] {x : ConfigVar T} (hquiet : ∀ v, ∀ e ∈ x.cbs.entries, e.2 x.val v = none)
    (val : Bytes) : (ConfigVar.fromString (convert c) x val).var.val = (c.fromText val).getD x.val := by
  have happlied : Applied (convert c) x val := by
    refine applied_of_quiet fun v _ => ?_
    split_ifs with heq
    · exact eq_of_beq heq
    · exact hquiet v
  cases hread : c.fromText val with
  | none => rw [(happlied.rejected .standard (by rw [convert, hread])).1, Option.getD_none]
  | some v => rw [(happlied.accepted v (by rw [convert, hread])).1, Option.getD_some]

/-- a variable takes from the text of another one what its elements come back as, and nothing if there is one that does
not; if an element cannot be printed, the variable is left without elements -/
theorem fromString_toString [BEq (List T)] [LawfulBEq (List T)] {x x' : ConfigVar (List T)}
    (hfaithful : SeqFaithful y c x.val) (hempty : y.load [] = some .null)
    (hquiet : ∀ v, ∀ e ∈ x'.cbs.entries, e.2 x'.val v = none) :
    (ConfigVar.fromString (convert (vector y c)) x' (toString (vector y c) x)).var.val =
      if x.val.mapM (item y c) = none then [] else (x.val.mapM (readBack y c)).getD x'.val := by
  rw [fromString_val hquiet, toString, ← readItems_printItems hfaithful]
  change ((readItems y c ((printItems y c x.val).getD [])).getD x'.val) = _
  cases hts : x.val.mapM (item y c) with
  | none =>
    have hread : readItems y c [] = some [] := by
      rw [readItems, hempty]
      rfl
    rw [printItems, hts, Option.map_none, Option.getD_none, hread]
    rfl
  | some ts =>
    rw [printItems, hts, Option.map_some, Option.getD_some, Option.bind_some, if_neg (Option.some_ne_none ts)]

end Variables

end LexicalCast

end Sylar
