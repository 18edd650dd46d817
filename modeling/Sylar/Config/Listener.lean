/-
`ConfigVar::setValue` and a listener that keeps the value (`config.h`, `_RequestSizeIniter` in `http_parser.cpp`).

A call of `setValue` is two lock sections. Under the read lock it compares the new value with `m_val`, and calls the
listeners with the old and the new value if they differ; under the write lock it stores. Between the two other calls of
any number of threads may do either. A call is known by its number among the calls that notified (`waiting`).

The listener is a cache: it starts with the value of the variable and keeps the last value it is called with. The lock
sections of one call are in order, those of two calls need not be:
- `cache_agrees`: if of the calls that overlap the one that notified last is also the last to store, the cache holds the
  value of the variable whenever no call is in progress.
- `cache_drifts`: two calls that notify in one order and store in the other.
-/
import Mathlib.Tactic
import Sylar.Core.Run

namespace Sylar.Config

open Sylar.Core

structure ConfigVar (T : Type) where
  val : T
  /-- the old and the new value of each call of the listener -/
  delivered : List (T × T)
  /-- the calls of `setValue` between their two sections -/
  waiting : List (ℕ × T)
deriving DecidableEq, Repr

/-- the sections of the calls: a call enters with its value, the `i`-th waiting call stores -/
inductive Section (T : Type) where
  | notify (v : T)
  | store (i : ℕ)
deriving DecidableEq, Repr

variable {T : Type} [DecidableEq T]

def ConfigVar.new (v : T) : ConfigVar T := ⟨v, [], []⟩

/-- the read-locked section of `setValue(v)` -/
def ConfigVar.notify (x : ConfigVar T) (v : T) : ConfigVar T :=
  if v = x.val then x
  else { x with delivered := x.delivered ++ [(x.val, v)], waiting := x.waiting ++ [(x.delivered.length, v)] }

/-- the write-locked section of the `i`-th waiting call -/
def ConfigVar.store (x : ConfigVar T) (i : ℕ) : ConfigVar T :=
  match x.waiting[i]? with
  | none => x
  | some (_, v) => { x with val := v, waiting := x.waiting.eraseIdx i }

def ConfigVar.step (x : ConfigVar T) : Section T → ConfigVar T
  | .notify v => x.notify v
  | .store i => x.store i

/-- what the listener keeps, if the variable had the value `init` when it was added -/
def ConfigVar.cache (x : ConfigVar T) (init : T) : T := (x.delivered.getLast?.map (·.2)).getD init

/-- a store that leaves no call in progress is that of the call that notified last -/
def LastStores (x : ConfigVar T) : Section T → Prop
  | .notify _ => True
  | .store i => ∀ k v, x.waiting[i]? = some (k, v) → x.waiting.length = 1 → k + 1 = x.delivered.length

instance (x : ConfigVar T) (a : Section T) : Decidable (LastStores x a) :=
  match a with
  | .notify _ => isTrue trivial
  | .store i =>
    match h : x.waiting[i]? with
    | none => isTrue fun k v hk => by rw [h] at hk; cases hk
    | some (k, v) =>
      decidable_of_iff (x.waiting.length = 1 → k + 1 = x.delivered.length) <| by
        constructor
        · intro hlast k' v' hk
          rw [h, Option.some.injEq, Prod.mk.injEq] at hk
          obtain ⟨rfl, rfl⟩ := hk
          exact hlast
        · intro hlast
          exact hlast k v h

/-- the waiting calls have been delivered; with none of them the cache is right -/
structure Tracks (init : T) (x : ConfigVar T) : Prop where
  delivered : ∀ k v, (k, v) ∈ x.waiting → ∃ old, x.delivered[k]? = some (old, v)
  idle : x.waiting = [] → x.cache init = x.val

omit [DecidableEq T] in
theorem tracks_new (v : T) : Tracks v (ConfigVar.new v) := ⟨fun _ _ h => absurd h List.not_mem_nil, fun _ => rfl⟩

theorem Tracks.notify {init : T} {x : ConfigVar T} (h : Tracks init x) (v : T) : Tracks init (x.notify v) := by
  unfold ConfigVar.notify
  split_ifs
  · exact h
  · refine ⟨?_, fun hnil => absurd hnil (by simp)⟩
    intro k w hk
    rcases List.mem_append.mp hk with hk | hk
    · obtain ⟨old, hold⟩ := h.delivered k w hk
      have hlt : k < x.delivered.length := (List.getElem?_eq_some_iff.mp hold).1
      exact ⟨old, by rw [List.getElem?_append_left hlt]; exact hold⟩
    · rw [List.mem_singleton, Prod.mk.injEq] at hk
      obtain ⟨rfl, rfl⟩ := hk
      exact ⟨x.val, by simp⟩

omit [DecidableEq T] in
theorem Tracks.store {init : T} {x : ConfigVar T} (h : Tracks init x) {i : ℕ} (hlast : LastStores x (.store i)) :
    Tracks init (x.store i) := by
  unfold ConfigVar.store
  cases hi : x.waiting[i]? with
  | none => exact h
  | some c =>
    obtain ⟨k, v⟩ := c
    refine ⟨fun k' w hk => h.delivered k' w (List.mem_of_mem_eraseIdx hk), ?_⟩
    intro hnil
    have hlt : i < x.waiting.length := (List.getElem?_eq_some_iff.mp hi).1
    have hone : x.waiting.length = 1 := by
      have := congrArg List.length hnil
      rw [List.length_eraseIdx_of_lt hlt, List.length_nil] at this
      omega
    -- the call was the last to notify, so its value is the one delivered last
    obtain ⟨old, hold⟩ := h.delivered k v (List.mem_of_getElem? hi)
    have hk := hlast k v hi hone
    have hget : x.delivered.getLast? = some (old, v) := by
      rw [List.getLast?_eq_getElem?, ← hk, Nat.add_sub_cancel]
      exact hold
    show (x.delivered.getLast?.map (·.2)).getD init = v
    rw [hget]
    rfl

/-- **The cache agrees.** In every run of any calls in which of the calls that overlap the one that notified last is
also the last to store, whenever no call is in progress the listener has the value of the variable. -/
theorem cache_agrees (init : T) (run : List (Section T)) (h : Along LastStores ConfigVar.step (ConfigVar.new init) run)
    (hidle : (Core.run ConfigVar.step (ConfigVar.new init) run).waiting = []) :
    (Core.run ConfigVar.step (ConfigVar.new init) run).cache init = (Core.run ConfigVar.step (ConfigVar.new init) run).val := by
  have hstep : ∀ (x : ConfigVar T) (a : Section T), LastStores x a → Tracks init x → Tracks init (x.step a) := by
    intro x a ha hx
    cases a with
    | notify v => exact hx.notify v
    | store i => exact hx.store ha
  exact (run_inv hstep run (tracks_new init) h).idle hidle

/-- two calls that overlap and store in the order of their notifications -/
def inOrder : List (Section (BitVec 64)) := [.notify 1, .notify 2, .store 0, .store 0]

theorem cache_agrees_in_order : (Core.run ConfigVar.step (ConfigVar.new (4096 : BitVec 64)) inOrder).cache 4096 = 2 :=
  cache_agrees 4096 inOrder (by decide) (by decide)

/-- the same calls; the second stores first -/
def overtaken : List (Section (BitVec 64)) := [.notify 1, .notify 2, .store 1, .store 0]

/-- the variable is 1, the cache 2, and no call is in progress -/
theorem cache_drifts :
    (Core.run ConfigVar.step (ConfigVar.new (4096 : BitVec 64)) overtaken).waiting = [] ∧
    (Core.run ConfigVar.step (ConfigVar.new (4096 : BitVec 64)) overtaken).cache 4096 ≠
      (Core.run ConfigVar.step (ConfigVar.new (4096 : BitVec 64)) overtaken).val := by
  decide

end Sylar.Config
