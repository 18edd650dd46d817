/-
Registering configuration variables and loading a YAML document (`config.h`, `Config::Lookup`; `config.cpp`,
`ListAllMember` and `Config::LoadFromYaml`).

`ListAllMember` walks through the tree with the keys on the way joined by dots, and turns round where they have a
character that no name has; `LoadFromYaml` folds the case of what comes out and looks the variables up. The characters
are written down twice, both times without the 9, and both times in lower case.
- `listAllMember_eq`: the walk gives the nodes whose joined keys are a name.
- `registered_valid`: only names of these characters are ever registered.
- `load_iff`: a name can be registered exactly if it has no 9; and all variables that can be there are reached exactly
  if no path of keys without a 9 has an upper-case letter or begins with an empty key.
-/
import Mathlib.Tactic
import Sylar.Core.Run
import Sylar.Core.Text
import Sylar.Core.Words
import Sylar.Http.Params
import Sylar.Util.Trim
import Sylar.Config.Yaml

namespace Sylar.Config

open Sylar.Core Sylar.Http Sylar.Util

/-- the characters of a name, in `ListAllMember` and in `Lookup` -/
def nameChars : Bytes := ascii "abcdefghikjlmnopqrstuvwxyz._012345678"

/-- `find_first_not_of` finds nothing -/
def valid (s : Bytes) : Bool := findFirstNotOf s nameChars = none

/-! ## Registering -/

/-- a variable; `type` stands for its class -/
structure Var where
  name : Bytes
  type : ℕ
deriving DecidableEq, Repr

/-- `GetDatas()` -/
abbrev Datas := List (Bytes × Var)

def lookupBase (d : Datas) (name : Bytes) : Option Var := (d.find? (·.1 = name)).map (·.2)

/-- `Lookup<T>(name, default_value)`; the exception is `std::invalid_argument(name)`, and no variable is `nullptr` -/
def lookup (d : Datas) (name : Bytes) (type : ℕ) : Except Bytes (Option Var) × Datas :=
  match lookupBase d name with
  | some v => (.ok (if v.type = type then some v else none), d)
  | none =>
    if valid name then
      let v : Var := ⟨name.map tolower, type⟩
      (.ok (some v), (name, v) :: d)
    else (.error name, d)

/-- what is registered after these calls of `Lookup` -/
def registered (calls : List (Bytes × ℕ)) : Datas := run (fun d c => (lookup d c.1 c.2).2) [] calls

/-! ## Loading -/

mutual

/-- `ListAllMember`: the pairs it appends -/
def listAllMember (pre : Bytes) : Yaml → List (Bytes × Yaml)
  | .map entries => if valid pre then (pre, .map entries) :: listEntries pre entries else []
  | t => if valid pre then [(pre, t)] else []

def listEntries (pre : Bytes) : List (Bytes × Yaml) → List (Bytes × Yaml)
  | [] => []
  | (k, t) :: entries => listAllMember (if pre = [] then k else pre ++ 46 :: k) t ++ listEntries pre entries

end

/-- the text of a node -/
def nodeText (y : YamlCpp) : Yaml → Bytes
  | .scalar text => text
  | t => y.emit t

/-- `LoadFromYaml`: the calls of `fromString` -/
def loadFromYaml (y : YamlCpp) (d : Datas) (root : Yaml) : List (Var × Bytes) :=
  (listAllMember [] root).filterMap fun i =>
    if i.1 = [] then none else (lookupBase d (i.1.map tolower)).map fun var => (var, nodeText y i.2)

/-! ## What is meant -/

/-- `[0-9a-z_.]` -/
def documentedChar (c : UInt8) : Bool := (48 ≤ c ∧ c ≤ 57) ∨ (97 ≤ c ∧ c ≤ 122) ∨ c = 95 ∨ c = 46

/-- `[0-9a-zA-Z_.]` -/
def keyChar (c : UInt8) : Bool := documentedChar c ∨ (65 ≤ c ∧ c ≤ 90)

def dotted (path : List Bytes) : Bytes := [46].intercalate path

/-- the nodes below the root -/
def members (root : Yaml) : List (List Bytes × Yaml) := root.nodes.tail

/-- every node whose dotted path is, in lower case, a registered name, in pre-order -/
def matching (y : YamlCpp) (d : Datas) (root : Yaml) : List (Var × Bytes) :=
  (members root).filterMap fun e =>
    (lookupBase d ((dotted e.1).map tolower)).map fun var => (var, nodeText y e.2)

/-- no call of `Lookup` with this name throws, whatever was called before -/
def Registrable (name : Bytes) : Prop := ∀ calls type, ∃ v, (lookup (registered calls) name type).1 = .ok v

/-- whatever is registered, the calls of `fromString` are those with the matching nodes -/
def Reaches (y : YamlCpp) (root : Yaml) : Prop :=
  ∀ calls, loadFromYaml y (registered calls) root = matching y (registered calls) root

/-! ## Names -/

theorem valid_iff {s : Bytes} : valid s = true ↔ ∀ c ∈ s, c ∈ nameChars := by
  rw [valid, decide_eq_true_eq]
  constructor
  · exact findFirstNotOf_none
  · intro h
    rw [findFirstNotOf, List.findIdx?_eq_none_iff]
    intro c hc
    rw [decide_eq_false_iff_not, not_not]
    exact h c hc

theorem mem_nameChars (c : UInt8) : c ∈ nameChars ↔ documentedChar c = true ∧ c ≠ 57 := by
  revert c
  apply forall_byte
  decide +kernel

theorem tolower_nameChar {c : UInt8} (h : c ∈ nameChars) : tolower c = c := by
  have hall : ∀ c ∈ nameChars, tolower c = c := by decide
  exact hall c h

theorem map_tolower_valid {s : Bytes} (h : valid s = true) : s.map tolower = s := by
  conv_rhs => rw [← List.map_id s]
  exact List.map_congr_left fun c hc => tolower_nameChar (valid_iff.mp h c hc)

theorem mem_registered_iff {d : Datas} {name : Bytes} : (lookupBase d name).isSome ↔ ∃ e ∈ d, e.1 = name := by
  rw [lookupBase, Option.isSome_map, List.find?_isSome]
  simp

theorem lookup_registered (d : Datas) (name : Bytes) (type : ℕ) (other : Bytes) :
    (lookupBase (lookup d name type).2 other).isSome ↔
      (lookupBase d other).isSome ∨ other = name ∧ valid name = true := by
  unfold lookup
  cases h : lookupBase d name with
  | some v =>
    show (lookupBase d other).isSome ↔ _
    constructor
    · exact Or.inl
    · rintro (hother | ⟨rfl, -⟩)
      · exact hother
      · rw [h]
        rfl
  | none =>
    by_cases hvalid : valid name = true
    · simp only [if_pos hvalid]
      rw [mem_registered_iff, mem_registered_iff]
      simp only [List.mem_cons, exists_eq_or_imp, hvalid, and_true]
      rw [or_comm, @eq_comm _ name other]
    · simp only [if_neg hvalid]
      exact ⟨Or.inl, fun hother => hother.resolve_right fun hnew => hvalid hnew.2⟩

/-- **What is registered** is what `Lookup` was called with, if it is a name. -/
theorem registered_iff (calls : List (Bytes × ℕ)) (name : Bytes) :
    (lookupBase (registered calls) name).isSome ↔ valid name = true ∧ ∃ c ∈ calls, c.1 = name := by
  have hrun : ∀ d : Datas, (lookupBase (run (fun d c => (lookup d c.1 c.2).2) d calls) name).isSome ↔
      (lookupBase d name).isSome ∨ valid name = true ∧ ∃ c ∈ calls, c.1 = name := by
    induction calls with
    | nil => simp
    | cons c calls ih =>
      intro d
      rw [run_cons, ih, lookup_registered]
      simp only [List.mem_cons, exists_eq_or_imp]
      constructor
      · rintro ((h | ⟨rfl, hvalid⟩) | ⟨hvalid, h⟩)
        · exact Or.inl h
        · exact Or.inr ⟨hvalid, Or.inl rfl⟩
        · exact Or.inr ⟨hvalid, Or.inr h⟩
      · rintro (h | ⟨hvalid, rfl | h⟩)
        · exact Or.inl (Or.inl h)
        · exact Or.inl (Or.inr ⟨rfl, hvalid⟩)
        · exact Or.inr ⟨hvalid, h⟩
  rw [registered, hrun]
  simp [lookupBase]

theorem registrable_iff (name : Bytes) : Registrable name ↔ valid name = true := by
  constructor
  · intro h
    obtain ⟨v, hv⟩ := h [] 0
    by_contra hvalid
    have hthrow : (lookup (registered []) name 0).1 = .error name := by
      have hnone : lookupBase (registered []) name = none := rfl
      simp only [lookup, hnone, if_neg hvalid]
    rw [hthrow] at hv
    cases hv
  · intro hvalid calls type
    unfold lookup
    cases lookupBase (registered calls) name with
    | some v => exact ⟨_, rfl⟩
    | none =>
      simp only [if_pos hvalid]
      exact ⟨_, rfl⟩

/-! ## The walk -/

/-- the keys joined behind a prefix -/
def joined (pre : Bytes) (path : List Bytes) : Bytes :=
  path.foldl (fun q k => if q = [] then k else q ++ 46 :: k) pre

theorem prefix_joined (pre : Bytes) (path : List Bytes) : pre <+: joined pre path := by
  induction path generalizing pre with
  | nil => exact List.prefix_refl pre
  | cons k path ih =>
    refine List.IsPrefix.trans ?_ (ih _)
    dsimp only
    split_ifs with hpre
    · rw [hpre]
      exact List.nil_prefix
    · exact List.prefix_append _ _

theorem valid_of_joined {pre : Bytes} {path : List Bytes} (h : valid (joined pre path) = true) : valid pre = true := by
  rw [valid_iff] at h ⊢
  exact fun c hc => h c ((prefix_joined pre path).subset hc)

/-- what the walk gives for a list of nodes behind a prefix -/
def walked (pre : Bytes) (l : List (List Bytes × Yaml)) : List (Bytes × Yaml) :=
  (l.map fun e => (joined pre e.1, e.2)).filter fun e => valid e.1

theorem walked_of_not_valid {pre : Bytes} (h : ¬valid pre = true) (l : List (List Bytes × Yaml)) : walked pre l = [] := by
  rw [walked, List.filter_eq_nil_iff]
  intro e he hvalid
  obtain ⟨x, -, rfl⟩ := List.mem_map.mp he
  exact h (valid_of_joined hvalid)

theorem walked_root (pre : Bytes) (t : Yaml) (l : List (List Bytes × Yaml)) :
    walked pre (([], t) :: l) = if valid pre then (pre, t) :: walked pre l else [] := by
  split_ifs with h
  · rw [walked, List.map_cons, List.filter_cons_of_pos (by exact h)]
    rfl
  · exact walked_of_not_valid h _

theorem walked_entry (pre k : Bytes) (l l' : List (List Bytes × Yaml)) :
    walked pre (l.map (fun e => (k :: e.1, e.2)) ++ l') =
      walked (if pre = [] then k else pre ++ 46 :: k) l ++ walked pre l' := by
  rw [walked, List.map_append, List.filter_append, List.map_map]
  rfl

mutual

/-- the walk gives the nodes whose joined keys are a name -/
theorem listAllMember_eq (pre : Bytes) : (t : Yaml) → listAllMember pre t = walked pre t.nodes
  | .map entries => by
    rw [listAllMember, Yaml.nodes, walked_root, listEntries_eq pre entries]
  | .null => (walked_root pre _ []).symm
  | .scalar text => (walked_root pre _ []).symm
  | .seq items => (walked_root pre _ []).symm

theorem listEntries_eq (pre : Bytes) :
    (entries : List (Bytes × Yaml)) → listEntries pre entries = walked pre (Yaml.nodesOf entries)
  | [] => by
    rw [listEntries, Yaml.nodesOf]
    rfl
  | (k, t) :: entries => by
    rw [listEntries, Yaml.nodesOf, walked_entry, listAllMember_eq _ t, listEntries_eq pre entries]

end

/-! ## Joined and dotted keys -/

theorem joined_of_ne_nil {pre : Bytes} (h : pre ≠ []) (path : List Bytes) :
    joined pre path = pre ++ (path.map (46 :: ·)).flatten := by
  induction path generalizing pre with
  | nil => rw [List.map_nil, List.flatten_nil, List.append_nil]; rfl
  | cons k path ih =>
    have hstep : joined pre (k :: path) = joined (pre ++ 46 :: k) path := by
      rw [joined, List.foldl_cons, if_neg h]
      rfl
    rw [hstep, ih (by simp), List.map_cons, List.flatten_cons, List.append_assoc]

/-- behind a first key that is not empty the keys are joined as they should be -/
theorem joined_eq_dotted {path : List Bytes} (h : path.head? ≠ some []) : joined [] path = dotted path := by
  cases path with
  | nil => rfl
  | cons k path =>
    have hk : k ≠ [] := fun e => h (by rw [e]; rfl)
    rw [dotted, intercalate_cons_eq, ← joined_of_ne_nil hk]
    rfl

theorem joined_nil_cons (path : List Bytes) : joined [] ([] :: path) = joined [] path := rfl

theorem dotted_nil_cons {path : List Bytes} (h : path ≠ []) : dotted ([] :: path) = 46 :: dotted path := by
  rw [dotted, intercalate_cons_of_ne_nil 46 [] h]
  rfl

/-- an empty first key is lost, with its dot -/
theorem joined_short (path : List Bytes) :
    (joined [] path).length ≤ (dotted path).length ∧
      (path.head? = some [] → joined [] path ≠ [] → (joined [] path).length < (dotted path).length) ∧
      ∀ c ∈ dotted path, c ∈ joined [] path ∨ c = 46 := by
  induction path with
  | nil => exact ⟨le_rfl, nofun, fun c hc => Or.inl hc⟩
  | cons k path ih =>
    by_cases hk : k = []
    · subst hk
      rw [joined_nil_cons]
      by_cases hpath : path = []
      · subst hpath
        exact ⟨le_rfl, fun _ h => absurd rfl h, fun c hc => Or.inl hc⟩
      · obtain ⟨hle, -, hmem⟩ := ih
        rw [dotted_nil_cons hpath]
        refine ⟨?_, ?_, ?_⟩
        · rw [List.length_cons]
          omega
        · intro _ _
          rw [List.length_cons]
          omega
        · intro c hc
          rcases List.mem_cons.mp hc with rfl | hc
          · exact Or.inr rfl
          · exact hmem c hc
    · have hhead : (k :: path).head? ≠ some [] := fun h => hk (Option.some.inj h)
      rw [joined_eq_dotted hhead]
      exact ⟨le_rfl, fun h => absurd h hhead, fun c hc => Or.inl hc⟩

/-! ## Which nodes are reached -/

section
variable {α β : Type} {f g : α → Option β}

/-- a test that finds less makes a list that is not longer -/
theorem length_filterMap_le {l : List α} (hsub : ∀ a ∈ l, (f a).isSome → (g a).isSome) :
    (l.filterMap f).length ≤ (l.filterMap g).length := by
  induction l with
  | nil => exact le_rfl
  | cons a l ih =>
    have ih := ih fun b hb => hsub b (List.mem_cons_of_mem a hb)
    have ha := hsub a List.mem_cons_self
    cases hf : f a with
    | none =>
      rw [List.filterMap_cons_none hf]
      cases hg : g a with
      | none => rwa [List.filterMap_cons_none hg]
      | some y =>
        rw [List.filterMap_cons_some hg, List.length_cons]
        omega
    | some x =>
      rw [hf] at ha
      obtain ⟨y, hg⟩ := Option.isSome_iff_exists.mp (ha rfl)
      rw [List.filterMap_cons_some hf, List.filterMap_cons_some hg, List.length_cons, List.length_cons]
      omega

/-- and if both lists are the same, the tests agree -/
theorem filterMap_agree {l : List α} (hsub : ∀ a ∈ l, (f a).isSome → (g a).isSome)
    (h : l.filterMap f = l.filterMap g) : ∀ a ∈ l, f a = g a := by
  induction l with
  | nil => simp
  | cons a l ih =>
    have htail : ∀ b ∈ l, (f b).isSome → (g b).isSome := fun b hb => hsub b (List.mem_cons_of_mem a hb)
    have ha := hsub a List.mem_cons_self
    intro b hb
    cases hf : f a with
    | none =>
      cases hg : g a with
      | none =>
        rw [List.filterMap_cons_none hf, List.filterMap_cons_none hg] at h
        rcases List.mem_cons.mp hb with rfl | hb
        · rw [hf, hg]
        · exact ih htail h b hb
      | some y =>
        -- then the first list is too short
        rw [List.filterMap_cons_none hf, List.filterMap_cons_some hg] at h
        have hlen := length_filterMap_le htail
        rw [h, List.length_cons] at hlen
        omega
    | some x =>
      rw [hf] at ha
      obtain ⟨y, hg⟩ := Option.isSome_iff_exists.mp (ha rfl)
      rw [List.filterMap_cons_some hf, List.filterMap_cons_some hg, List.cons.injEq] at h
      rcases List.mem_cons.mp hb with rfl | hb
      · rw [hf, hg, h.1]
      · exact ih htail h.2 b hb

end

/-- what `LoadFromYaml` does with a node -/
def reached (y : YamlCpp) (d : Datas) (e : List Bytes × Yaml) : Option (Var × Bytes) :=
  if valid (joined [] e.1) ∧ joined [] e.1 ≠ [] then
    (lookupBase d (joined [] e.1)).map fun var => (var, nodeText y e.2)
  else none

/-- what it should do with it -/
def wanted (y : YamlCpp) (d : Datas) (e : List Bytes × Yaml) : Option (Var × Bytes) :=
  (lookupBase d ((dotted e.1).map tolower)).map fun var => (var, nodeText y e.2)

theorem nodes_eq (root : Yaml) : root.nodes = ([], root) :: members root := by
  cases root <;> simp [members, Yaml.nodes]

theorem path_ne_nil {root : Yaml} {e : List Bytes × Yaml} (he : e ∈ members root) : e.1 ≠ [] := by
  have hof : ∀ entries, ∀ e ∈ Yaml.nodesOf entries, e.1 ≠ [] := by
    intro entries
    induction entries with
    | nil => simp [Yaml.nodesOf]
    | cons kt entries ih =>
      obtain ⟨k, t⟩ := kt
      intro e he
      rw [Yaml.nodesOf, List.mem_append] at he
      rcases he with he | he
      · obtain ⟨x, -, rfl⟩ := List.mem_map.mp he
        exact List.cons_ne_nil _ _
      · exact ih e he
  cases root with
  | map entries => exact hof entries e (by simpa [members, Yaml.nodes] using he)
  | _ => simp [members, Yaml.nodes] at he

theorem loadFromYaml_eq (y : YamlCpp) (d : Datas) (root : Yaml) :
    loadFromYaml y d root = (members root).filterMap (reached y d) := by
  have hnode : ∀ e : List Bytes × Yaml, (if valid (joined [] e.1) then
      (if joined [] e.1 = [] then none else
        (lookupBase d ((joined [] e.1).map tolower)).map fun var => (var, nodeText y e.2)) else none) =
      reached y d e := by
    intro e
    by_cases hvalid : valid (joined [] e.1) = true
    · by_cases hnil : joined [] e.1 = []
      · simp [reached, hnil]
      · simp [reached, hvalid, hnil, map_tolower_valid hvalid]
    · simp [reached, hvalid]
  have hroot : reached y d ([], root) = none := by simp [reached, joined]
  rw [loadFromYaml, listAllMember_eq, walked, List.filterMap_filter, List.filterMap_map, nodes_eq]
  simp only [Function.comp_def, hnode]
  rw [List.filterMap_cons_none hroot]

theorem registered_name {calls : List (Bytes × ℕ)} {name : Bytes} {v : Var}
    (h : lookupBase (registered calls) name = some v) : v.name = name.map tolower := by
  have hstep : ∀ (d : Datas) (c : Bytes × ℕ), True → (∀ e ∈ d, e.2.name = e.1.map tolower) →
      ∀ e ∈ (lookup d c.1 c.2).2, e.2.name = e.1.map tolower := by
    intro d c _ hd
    unfold lookup
    cases lookupBase d c.1 with
    | some v => exact hd
    | none =>
      dsimp only
      split_ifs
      · intro e he
        rcases List.mem_cons.mp he with rfl | he
        · rfl
        · exact hd e he
      · exact hd
  obtain ⟨e, he, rfl⟩ := Option.map_eq_some_iff.mp h
  have hname : e.1 = name := by simpa using List.find?_some he
  have hnames := run_inv hstep calls (s := []) (by simp) (Along.of_forall (fun _ _ => trivial) _)
  rw [← hname]
  exact hnames e (List.mem_of_find?_eq_some he)

section
variable {root : Yaml} (hkeys : ∀ e ∈ members root, ∀ k ∈ e.1, ∀ c ∈ k, keyChar c = true)
include hkeys

theorem dotted_chars {e : List Bytes × Yaml} (he : e ∈ members root) : ∀ c ∈ dotted e.1, keyChar c = true := by
  have hpath : ∀ path : List Bytes, (∀ k ∈ path, ∀ c ∈ k, keyChar c = true) → ∀ c ∈ dotted path, keyChar c = true := by
    intro path hpath c hc
    cases path with
    | nil => cases hc
    | cons k path =>
      rw [dotted, intercalate_cons_eq, List.mem_append, List.mem_flatten] at hc
      rcases hc with hc | ⟨x, hx, hc⟩
      · exact hpath k List.mem_cons_self c hc
      · obtain ⟨k', hk', rfl⟩ := List.mem_map.mp hx
        rcases List.mem_cons.mp hc with rfl | hc
        · decide
        · exact hpath k' (List.mem_cons_of_mem k hk') c hc
  exact hpath e.1 (hkeys e he)

/-- in lower case it is a name if it has no 9 -/
theorem valid_folded {e : List Bytes × Yaml} (he : e ∈ members root) :
    valid ((dotted e.1).map tolower) = true ↔ 57 ∉ dotted e.1 := by
  have hchar : ∀ c, keyChar c = true → (tolower c ∈ nameChars ↔ c ≠ 57) := by
    apply forall_byte
    decide +kernel
  rw [valid_iff]
  constructor
  · intro h hnine
    exact (hchar 57 (by decide)).mp (h _ (List.mem_map_of_mem hnine)) rfl
  · intro h c hc
    obtain ⟨b, hb, rfl⟩ := List.mem_map.mp hc
    exact (hchar b (dotted_chars hkeys he b hb)).mpr fun e => h (e ▸ hb)

end

/-- a node that is reached is one that should be -/
theorem dotted_of_joined {path : List Bytes} (h : valid (joined [] path) = true) :
    valid (dotted path) = true := by
  rw [valid_iff] at h ⊢
  intro c hc
  rcases (joined_short path).2.2 c hc with hc | rfl
  · exact h c hc
  · decide

theorem dotted_ne_nil {path : List Bytes} (hpath : path ≠ []) (hhead : path.head? ≠ some []) : dotted path ≠ [] := by
  obtain ⟨k, path, rfl⟩ := List.exists_cons_of_ne_nil hpath
  have hk : k ≠ [] := fun e => hhead (by rw [e]; rfl)
  rw [dotted, intercalate_cons_eq]
  exact List.append_ne_nil_of_left_ne_nil hk _

/-- a capital is in no name, and the other bytes have no other case -/
theorem capital_iff {c : UInt8} : (65 ≤ c ∧ c ≤ 90 → c ∉ nameChars) ∧ (¬(65 ≤ c ∧ c ≤ 90) → tolower c = c) := by
  revert c
  apply forall_byte
  decide +kernel

/-- register all names that occur -/
def callsFor (root : Yaml) : List (Bytes × ℕ) := (members root).map fun e => ((dotted e.1).map tolower, 0)

theorem wanted_callsFor (y : YamlCpp) {root : Yaml} {e : List Bytes × Yaml} (he : e ∈ members root)
    (hvalid : valid ((dotted e.1).map tolower) = true) : (wanted y (registered (callsFor root)) e).isSome := by
  rw [wanted, Option.isSome_map, registered_iff]
  exact ⟨hvalid, _, List.mem_map_of_mem he, rfl⟩

/-- a variable that is found under two names has them both for its name -/
theorem same_name {calls : List (Bytes × ℕ)} {a b : Bytes} {v : Var} (ha : lookupBase (registered calls) a = some v)
    (hb : lookupBase (registered calls) b = some v) (hvalid : valid a = true ∧ valid b = true) : a = b :=
  calc a = a.map tolower := (map_tolower_valid hvalid.1).symm
    _ = v.name := (registered_name ha).symm
    _ = b.map tolower := registered_name hb
    _ = b := map_tolower_valid hvalid.2

section
variable {y : YamlCpp} {root : Yaml} (hkeys : ∀ e ∈ members root, ∀ k ∈ e.1, ∀ c ∈ k, keyChar c = true)
include hkeys

/-- if all is reached, whatever is registered, the paths are written as names -/
theorem path_of_reaches (h : Reaches y root) {e : List Bytes × Yaml} (he : e ∈ members root) (hnine : 57 ∉ dotted e.1) :
    e.1.head? ≠ some [] ∧ ∀ c ∈ dotted e.1, ¬(65 ≤ c ∧ c ≤ 90) := by
  have hsub : ∀ e ∈ members root, (reached y (registered (callsFor root)) e).isSome →
      (wanted y (registered (callsFor root)) e).isSome := by
    intro e he hsome
    unfold reached at hsome
    split_ifs at hsome with hcond
    · have hvalid := dotted_of_joined hcond.1
      exact wanted_callsFor y he (by rwa [map_tolower_valid hvalid])
    · cases hsome
  have hlist := h (callsFor root)
  rw [loadFromYaml_eq] at hlist
  have hagree := filterMap_agree hsub hlist e he
  have hvalid := (valid_folded hkeys he).mpr hnine
  obtain ⟨w, hw⟩ := Option.isSome_iff_exists.mp (wanted_callsFor y he hvalid)
  rw [hw] at hagree
  unfold reached at hagree
  split_ifs at hagree with hcond
  obtain ⟨v, hv, rfl⟩ := Option.map_eq_some_iff.mp hagree
  obtain ⟨v', hv', heq⟩ := Option.map_eq_some_iff.mp hw
  obtain rfl : v' = v := congrArg Prod.fst heq
  have hsame : joined [] e.1 = (dotted e.1).map tolower := same_name hv hv' ⟨hcond.1, hvalid⟩
  have hhead : e.1.head? ≠ some [] := by
    intro hhead
    have hlt := (joined_short e.1).2.1 hhead hcond.2
    rw [hsame, List.length_map] at hlt
    exact lt_irrefl _ hlt
  refine ⟨hhead, fun c hc hcapital => capital_iff.1 hcapital (valid_iff.mp hcond.1 c ?_)⟩
  rwa [joined_eq_dotted hhead]

/-- a node whose path is written as a name is treated as it should be -/
theorem reached_eq_wanted (calls : List (Bytes × ℕ)) {e : List Bytes × Yaml} (he : e ∈ members root)
    (hpath : 57 ∉ dotted e.1 → e.1.head? ≠ some [] ∧ ∀ c ∈ dotted e.1, ¬(65 ≤ c ∧ c ≤ 90)) :
    reached y (registered calls) e = wanted y (registered calls) e := by
  cases hfound : lookupBase (registered calls) ((dotted e.1).map tolower) with
  | some v =>
    have hvalid := ((registered_iff calls _).mp (by rw [hfound]; rfl)).1
    obtain ⟨hhead, hupper⟩ := hpath ((valid_folded hkeys he).mp hvalid)
    have hself : (dotted e.1).map tolower = dotted e.1 := by
      conv_rhs => rw [← List.map_id (dotted e.1)]
      exact List.map_congr_left fun c hc => capital_iff.2 (hupper c hc)
    have hne := dotted_ne_nil (path_ne_nil he) hhead
    rw [reached, wanted, joined_eq_dotted hhead, hself, if_pos ⟨hself ▸ hvalid, hne⟩]
  | none =>
    rw [wanted, hfound, Option.map_none, reached]
    split_ifs with hreach
    · by_cases hhead : e.1.head? = some []
      · exfalso
        have hnine : 57 ∈ dotted e.1 := by
          by_contra hno
          exact (hpath hno).1 hhead
        have hin := ((joined_short e.1).2.2 57 hnine).resolve_right (by decide)
        exact ((mem_nameChars 57).mp (valid_iff.mp hreach.1 57 hin)).2 rfl
      · rw [joined_eq_dotted hhead] at hreach ⊢
        rw [map_tolower_valid hreach.1] at hfound
        rw [hfound]
        rfl
    · rfl

end

/-- **Loading a document.** A name over `[0-9a-z_.]` can be registered exactly if it has no 9. And for every document
whose keys are over `[0-9a-zA-Z_.]`: whatever is registered, `LoadFromYaml` calls `fromString` for exactly the nodes
whose dotted path is a name in lower case, in pre-order, just if no path without a 9 begins with an empty key or has an
upper-case letter. -/
theorem load_iff (y : YamlCpp) {name : Bytes} (hname : ∀ c ∈ name, documentedChar c = true) {root : Yaml}
    (hkeys : ∀ e ∈ members root, ∀ k ∈ e.1, ∀ c ∈ k, keyChar c = true) :
    (Registrable name ↔ 57 ∉ name) ∧
      (Reaches y root ↔ ∀ e ∈ members root, 57 ∉ dotted e.1 →
        e.1.head? ≠ some [] ∧ ∀ c ∈ dotted e.1, ¬(65 ≤ c ∧ c ≤ 90)) := by
  refine ⟨?_, fun h e he hnine => path_of_reaches hkeys h he hnine, fun hcond calls => ?_⟩
  · rw [registrable_iff, valid_iff]
    constructor
    · intro h hnine
      exact ((mem_nameChars 57).mp (h 57 hnine)).2 rfl
    · intro h c hc
      exact (mem_nameChars c).mpr ⟨hname c hc, fun e => h (e ▸ hc)⟩
  · rw [loadFromYaml_eq, matching]
    apply List.filterMap_congr
    intro e he
    exact reached_eq_wanted hkeys calls he (hcond e he)

/-- scalars are printed and read as they are -/
def scalars : YamlCpp where
  emit
    | .scalar text => text
    | _ => []
  load s := some (.scalar s)

/-- `http:` and in it `port: 8080` -/
def portDocument : Yaml := .map [(ascii "http", .map [(ascii "port", .scalar (ascii "8080"))])]

theorem load_iff_port : Registrable (ascii "http.port") ∧ Reaches scalars portDocument := by
  have h := @load_iff scalars (ascii "http.port") (by decide) portDocument (by decide)
  exact ⟨h.1.mpr (by decide), h.2.mpr (by decide)⟩

/-- `port9` cannot be registered, and a key with an upper-case letter does not reach `port` -/
theorem port_not_reached :
    ((lookup [] (ascii "port9") 0).1 = .error (ascii "port9") ∧ ¬Registrable (ascii "port9")) ∧
      loadFromYaml scalars (registered [(ascii "port", 0)]) (.map [(ascii "Port", .scalar (ascii "8080"))]) = [] ∧
      matching scalars (registered [(ascii "port", 0)]) (.map [(ascii "Port", .scalar (ascii "8080"))]) =
        [(⟨ascii "port", 0⟩, ascii "8080")] ∧
      ¬Reaches scalars (.map [(ascii "Port", .scalar (ascii "8080"))]) := by
  have hload : loadFromYaml scalars (registered [(ascii "port", 0)]) (.map [(ascii "Port", .scalar (ascii "8080"))]) = [] := by
    decide +kernel
  have hmatch : matching scalars (registered [(ascii "port", 0)]) (.map [(ascii "Port", .scalar (ascii "8080"))]) =
      [(⟨ascii "port", 0⟩, ascii "8080")] := by
    decide +kernel
  refine ⟨⟨rfl, fun h => ?_⟩, hload, hmatch, fun h => ?_⟩
  · exact absurd ((registrable_iff _).mp h) (by decide)
  · have hcalls := h [(ascii "port", 0)]
    rw [hload, hmatch] at hcalls
    cases hcalls

end Sylar.Config
