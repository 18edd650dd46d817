/-
The table of fd contexts (`FdManager` of `sylar/fd_manager.cpp`).

`get` and `del` index a vector that the constructor makes 64 long and that nothing makes longer. A context is a
number, given out in order of creation; what it holds is in `Hook/Flags`. Each call is one step: `get` lets go of the
lock between the search and the creation, and what another thread does there is left out. An access beyond the vector
is `outOfRange`.

- `totalMap_iff`: over a whole sequence of calls the table answers like a map from all descriptors iff every
  descriptor that a context is to be created for is below 64.
- `get_64`: a context for descriptor 64.
-/
import Mathlib.Tactic
import Sylar.Core.Run
import Sylar.Core.Words

namespace Sylar

open Sylar.Core

structure FdManager where
  datas : List (Option ℕ)
  /-- how many contexts have been created -/
  created : ℕ
deriving DecidableEq, Repr

namespace FdManager

/-- `FdManager()` -/
def new : FdManager := { datas := List.replicate 64 none, created := 0 }

/-- a descriptor as an index, and as it is compared with `m_datas.size()`: an `int` converted to `size_t` -/
def index (fd : Int32) : ℕ := fd.toInt64.toUInt64.toNat

/-- what a call returns; `get` returns the context it found or created -/
inductive Ret where
  | null
  | found (ctx : ℕ)
  | created (ctx : ℕ)
  | done
  | outOfRange
deriving DecidableEq, Repr

/-- the write-locked part of `get` -/
def create (s : FdManager) (fd : Int32) : Ret × FdManager :=
  let ctx := s.created
  let s := { s with created := s.created + 1 }
  if index fd < s.datas.length then (.created ctx, { s with datas := s.datas.set (index fd) (some ctx) })
  else (.outOfRange, s)

def get (s : FdManager) (fd : Int32) (auto_create : Bool) : Ret × FdManager :=
  if s.datas.length ≤ index fd then
    if auto_create = false then (.null, s) else s.create fd
  else
    match s.datas[index fd]? with
    | none => (.outOfRange, s)
    | some (some ctx) => (.found ctx, s)
    | some none => if auto_create = false then (.null, s) else s.create fd

def del (s : FdManager) (fd : Int32) : Ret × FdManager :=
  if s.datas.length ≤ index fd then (.done, s)
  else if index fd < s.datas.length then (.done, { s with datas := s.datas.set (index fd) none })
  else (.outOfRange, s)

inductive Call where
  | get (fd : Int32) (auto_create : Bool)
  | del (fd : Int32)
deriving DecidableEq, Repr

def Call.fd : Call → Int32
  | .get fd _ | .del fd => fd

def call (s : FdManager) : Call → Ret × FdManager
  | .get fd auto_create => s.get fd auto_create
  | .del fd => s.del fd

/-! ## The map -/

/-- one call, with its entry in the trace -/
def event (s : FdManager) (c : Call) : (Call × Ret) × FdManager := ((c, (s.call c).1), (s.call c).2)

/-- the trace and the last state of a run -/
def history (calls : List Call) : List (Call × Ret) × FdManager := runOut event new calls

/-- what an entry of the trace says about the context of `fd` -/
def note (fd : Int32) (cur : Option ℕ) : Call × Ret → Option ℕ
  | (.get fd' _, .created ctx) => if fd' = fd then some ctx else cur
  | (.del fd', _) => if fd' = fd then none else cur
  | _ => cur

/-- the context that the last creating `get` since the last `del` made for `fd` -/
def latest (fd : Int32) (tr : List (Call × Ret)) : Option ℕ := tr.foldl (note fd) none

/-- the right answer to a call, where `cur` is the context of its descriptor -/
def Answers (cur : Option ℕ) : Call → Ret → Prop
  | .get _ true, r => ∃ ctx, (cur = some ctx ∧ r = .found ctx) ∨ (cur = none ∧ r = .created ctx)
  | .get _ false, r => r = cur.elim .null .found
  | .del _, r => r = .done

/-- every call of the run is answered by the context of its descriptor, which `get` with `auto_create` creates if
there is none -/
def TotalMap (calls : List Call) : Prop :=
  ∀ pre c post, calls = pre ++ c :: post → Answers (latest c.fd (history pre).1) c ((history pre).2.call c).1

/-- a context is to be created, and the descriptor has a slot -/
def Call.InTable : Call → Prop
  | .get fd true => 0 ≤ fd.toInt ∧ fd.toInt < 64
  | _ => True

instance : (c : Call) → Decidable c.InTable
  | .get _ true => inferInstanceAs (Decidable (_ ∧ _))
  | .get _ false | .del _ => isTrue trivial

/-! ## Indices -/

theorem index_lt_iff (fd : Int32) : index fd < 64 ↔ 0 ≤ fd.toInt ∧ fd.toInt < 64 := by
  have h : (index fd : ℤ) = fd.toInt % 2 ^ 64 := by
    rw [index, toNat_toUInt64, Int32.toInt_toInt64]
  have hlo := fd.le_toInt
  have hhi := fd.toInt_lt
  omega

theorem index_inj {fd fd' : Int32} (h : index fd = index fd') : fd = fd' := by
  have hcast : ∀ x : Int32, (index x : ℤ) = x.toInt % 2 ^ 64 := by
    intro x
    rw [index, toNat_toUInt64, Int32.toInt_toInt64]
  have h1 := hcast fd
  have h2 := hcast fd'
  have := fd.le_toInt
  have := fd.toInt_lt
  have := fd'.le_toInt
  have := fd'.toInt_lt
  apply Int32.toInt_inj.mp
  omega

/-! ## Runs -/

section
variable {s : FdManager} {fd : Int32}

@[simp] theorem create_length (s : FdManager) (fd : Int32) : (s.create fd).2.datas.length = s.datas.length := by
  dsimp only [create]
  split_ifs
  · simp
  · rfl

theorem call_length (s : FdManager) (c : Call) : (s.call c).2.datas.length = s.datas.length := by
  cases c with
  | get fd auto_create =>
    simp only [call, get]
    split_ifs
    · rfl
    · exact create_length s fd
    · split <;> rfl
    · split
      · rfl
      · rfl
      · exact create_length s fd
  | del fd =>
    simp only [call, del]
    split_ifs
    · rfl
    · simp
    · rfl

/-- the context in the slot of a descriptor, if it has one -/
def slot (s : FdManager) (fd : Int32) : Option ℕ := (s.datas[index fd]?).join

theorem slot_set {l : List (Option ℕ)} {fd : Int32} (h : index fd < l.length) (x : Option ℕ) (fd' : Int32) :
    ((l.set (index fd) x)[index fd']?).join = if fd = fd' then x else (l[index fd']?).join := by
  split_ifs with he
  · subst he
    simp [h]
  · have hne : index fd ≠ index fd' := fun hi => he (index_inj hi)
    rw [List.getElem?_set_ne hne]

/-- a context is created in a slot -/
theorem create_slot (h : index fd < s.datas.length) :
    (s.create fd).1 = .created s.created ∧
      ∀ fd', (s.create fd).2.slot fd' = if fd = fd' then some s.created else s.slot fd' := by
  simp only [create, if_pos h]
  exact ⟨trivial, fun fd' => slot_set h _ fd'⟩

/-- **Step lemma.** Where a context to be created has a slot, the answer is right for the slot of the descriptor, and
every slot afterwards is as the call and its answer say. -/
theorem call_slot (hlen : s.datas.length = 64) (c : Call) (hc : c.InTable) :
    Answers (s.slot c.fd) c (s.call c).1 ∧ ∀ fd, (s.call c).2.slot fd = note fd (s.slot fd) (c, (s.call c).1) := by
  cases c with
  | del fd =>
    simp only [call, del]
    split_ifs with hout hin
    · refine ⟨rfl, fun fd' => ?_⟩
      have hnone : s.slot fd = none := by simp [slot, hout]
      simp only [note]
      split_ifs with he
      · rw [← he, hnone]
      · rfl
    · exact ⟨rfl, fun fd' => slot_set hin none fd'⟩
    · omega
  | get fd auto_create =>
    have hslot : index fd < s.datas.length → s.datas[index fd]? = some (s.slot fd) := by
      intro h
      simp [slot, h]
    cases auto_create with
    | false =>
      simp only [call, get, if_true]
      split_ifs with hout
      · have hnone : s.slot fd = none := by simp [slot, hout]
        refine ⟨?_, fun fd' => rfl⟩
        rw [Call.fd, hnone]
        rfl
      · rw [hslot (by omega), Call.fd]
        cases hs : s.slot fd with
        | none => exact ⟨rfl, fun fd' => rfl⟩
        | some ctx => exact ⟨rfl, fun fd' => rfl⟩
    | true =>
      have hin : index fd < s.datas.length := by
        rw [hlen]
        exact (index_lt_iff fd).mpr hc
      obtain ⟨hret, hstate⟩ := create_slot hin
      simp only [call, get, if_neg (Nat.not_le.mpr hin), Bool.true_eq_false, if_false, hslot hin, Call.fd]
      cases hs : s.slot fd with
      | none =>
        dsimp only
        rw [hret]
        exact ⟨⟨s.created, .inr ⟨rfl, rfl⟩⟩, hstate⟩
      | some ctx => exact ⟨⟨ctx, .inl ⟨rfl, rfl⟩⟩, fun fd' => rfl⟩

/-- an answer to a `get` that creates beyond the table is wrong -/
theorem call_outside (hlen : s.datas.length = 64) {c : Call} (hc : ¬c.InTable) (cur : Option ℕ) :
    ¬Answers cur c (s.call c).1 := by
  cases c with
  | del fd => exact absurd trivial hc
  | get fd auto_create =>
    cases auto_create with
    | false => exact absurd trivial hc
    | true =>
      have hout : s.datas.length ≤ index fd := by
        rw [hlen]
        exact Nat.not_lt.mp fun h => hc ((index_lt_iff fd).mp h)
      have hret : (s.call (.get fd true)).1 = .outOfRange := by
        simp [call, get, create, hout, Nat.not_lt.mpr hout]
      rw [hret]
      rintro ⟨ctx, ⟨-, h⟩ | ⟨-, h⟩⟩
      · cases h
      · cases h

end

theorem history_snoc (calls : List Call) (c : Call) :
    history (calls ++ [c]) =
      ((history calls).1 ++ [(c, ((history calls).2.call c).1)], ((history calls).2.call c).2) := by
  rw [history, runOut_append]
  rfl

theorem history_length (calls : List Call) : (history calls).2.datas.length = 64 := by
  induction calls using List.reverseRecOn with
  | nil => rfl
  | append_singleton calls c ih =>
    rw [history_snoc, call_length]
    exact ih

/-- **Run lemma.** As long as no context is created beyond the table, the slots hold the latest contexts. -/
theorem history_slot (calls : List Call) (h : ∀ c ∈ calls, c.InTable) (fd : Int32) :
    (history calls).2.slot fd = latest fd (history calls).1 := by
  induction calls using List.reverseRecOn generalizing fd with
  | nil =>
    show ((List.replicate 64 none)[index fd]?).join = none
    rw [List.getElem?_replicate]
    split_ifs <;> rfl
  | append_singleton calls c ih =>
    have hslot := (call_slot (history_length calls) c (h c (by simp))).2 fd
    rw [history_snoc]
    dsimp only
    rw [hslot, ih (fun c' hc' => h c' (List.mem_append_left _ hc')), latest, latest, List.foldl_append]
    rfl

/-- **The table as a map.** For every sequence of calls: the answers are those of a map from all descriptors iff every
`get` with `auto_create` is for a descriptor from 0 to 63. -/
theorem totalMap_iff (calls : List Call) : TotalMap calls ↔ ∀ c ∈ calls, c.InTable := by
  constructor
  · intro h c hc
    obtain ⟨pre, post, rfl⟩ := List.append_of_mem hc
    by_contra hout
    exact call_outside (history_length pre) hout _ (h pre c post rfl)
  · rintro h pre c post rfl
    have hpre := history_slot pre (fun c' hc' => h c' (List.mem_append_left _ hc')) c.fd
    rw [← hpre]
    exact (call_slot (history_length pre) c (h c (by simp))).1

/-- **Descriptor 64** is just past the table: its context is stored out of range. -/
theorem get_64 : ¬TotalMap [.get 64 true] := by
  intro h
  have hret : ((history []).2.call (.get 64 true)).1 = .outOfRange := by decide
  have hanswer := h [] (.get 64 true) [] rfl
  rw [hret] at hanswer
  obtain ⟨ctx, ⟨-, hctx⟩ | ⟨-, hctx⟩⟩ := hanswer
  · cases hctx
  · cases hctx

end FdManager

end Sylar
