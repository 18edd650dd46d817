/-
`ConfigVar::fromString`, `setValue` and the listeners (`config.h`), one call at a time.

A converter and a listener may throw, an exception that is derived from `std::exception` or another one. `fromString`
has a handler for the first kind around everything, and behind it one `return false`, which a call that succeeds also
comes to. `setValue` calls the listeners before it stores.
- `setValue_spec`: every listener is called once, in the order of the keys, and the value is stored, if none throws.
- `applied_of_quiet`: so it is with `fromString`.
- `fromString_iff`: but its result says so only of a text that the converter rejects.
-/
import Mathlib.Tactic
import Sylar.Http.Message

namespace Sylar.FromString

open Sylar.Http

/-- an exception: derived from `std::exception`, or not -/
inductive Thrown where
  | standard
  | foreign
deriving DecidableEq, Repr

/-- what a listener does when it is called with the old and the new value -/
abbrev OnChange (T : Type) := T → T → Option Thrown

/-- `std::map<uint64_t, on_change_cb>` -/
structure Listeners (T : Type) where
  entries : List (UInt64 × OnChange T)
  sorted : entries.Pairwise fun a b => a.1 < b.1

structure ConfigVar (T : Type) where
  val : T
  cbs : Listeners T

variable {T : Type}

namespace Listeners

def empty : Listeners T := ⟨[], List.Pairwise.nil⟩

/-- `m_cbs[key] = cb` -/
def assign (l : Listeners T) (key : UInt64) (cb : OnChange T) : Listeners T where
  entries := l.entries.filter (·.1 < key) ++ (key, cb) :: l.entries.filter (key < ·.1)
  sorted := by
    refine List.pairwise_append.mpr ⟨l.sorted.filter _, List.pairwise_cons.mpr ⟨?_, l.sorted.filter _⟩, ?_⟩
    · intro e he
      exact of_decide_eq_true (List.mem_filter.mp he).2
    · intro a ha b hb
      have hlt : a.1 < key := of_decide_eq_true (List.mem_filter.mp ha).2
      rcases List.mem_cons.mp hb with rfl | hb
      · exact hlt
      · exact UInt64.lt_trans hlt (of_decide_eq_true (List.mem_filter.mp hb).2)

/-- `m_cbs.erase(key)` -/
def erase (l : Listeners T) (key : UInt64) : Listeners T := ⟨l.entries.filter (·.1 ≠ key), l.sorted.filter _⟩

theorem keys_nodup (l : Listeners T) : (l.entries.map (·.1)).Nodup := by
  rw [List.Nodup, List.pairwise_map]
  exact l.sorted.imp fun h => UInt64.ne_of_lt h

theorem mem_assign {l : Listeners T} {key : UInt64} {cb : OnChange T} {e : UInt64 × OnChange T} :
    e ∈ (l.assign key cb).entries ↔ e = (key, cb) ∨ e ∈ l.entries ∧ e.1 ≠ key := by
  have hne : e.1 ≠ key ↔ e.1 < key ∨ key < e.1 := by
    rw [UInt64.lt_iff_toNat_lt, UInt64.lt_iff_toNat_lt, ne_eq, ← UInt64.toNat_inj]
    omega
  simp only [assign, List.mem_append, List.mem_cons, List.mem_filter, decide_eq_true_eq, hne]
  tauto

theorem mem_erase {l : Listeners T} {key : UInt64} {e : UInt64 × OnChange T} :
    e ∈ (l.erase key).entries ↔ e ∈ l.entries ∧ e.1 ≠ key := by
  rw [erase, List.mem_filter, decide_eq_true_eq]

end Listeners

/-- a call of a listener: its key, the old and the new value -/
abbrev Call (T : Type) := UInt64 × T × T

/-- the loop over the listeners: the calls it makes, and what a listener throws -/
def notify (old new : T) : List (UInt64 × OnChange T) → List (Call T) × Option Thrown
  | [] => ([], none)
  | (key, cb) :: rest =>
    match cb old new with
    | some e => ([(key, old, new)], some e)
    | none =>
      let r := notify old new rest
      ((key, old, new) :: r.1, r.2)

namespace ConfigVar

/-- `addListener(cb)`, where `s_fun_id` is the counter of the class; the key and the variable -/
def addListener (x : ConfigVar T) (funId : UInt64) (cb : OnChange T) : UInt64 × ConfigVar T :=
  (funId + 1, { x with cbs := x.cbs.assign (funId + 1) cb })

def delListener (x : ConfigVar T) (key : UInt64) : ConfigVar T := { x with cbs := x.cbs.erase key }

def clearListener (x : ConfigVar T) : ConfigVar T := { x with cbs := .empty }

variable [BEq T]

/-- `setValue(v)`: the calls of listeners, what is thrown, and the variable behind it -/
def setValue (x : ConfigVar T) (v : T) : List (Call T) × Option Thrown × ConfigVar T :=
  if v == x.val then ([], none, x)
  else
    match notify x.val v x.cbs.entries with
    | (calls, some e) => (calls, some e, x)
    | (calls, none) => (calls, none, { x with val := v })

/-- what a call of `fromString` does: the calls of listeners, its result or what it throws, and the variable -/
structure Outcome (T : Type) where
  calls : List (Call T)
  result : Except Thrown Bool
  var : ConfigVar T

/-- the handler of `fromString`, and the `return false` behind it -/
def handled : Option Thrown → Except Thrown Bool
  | some .foreign => .error .foreign
  | some .standard => .ok false
  | none => .ok false

/-- `fromString(val)` -/
def fromString (conv : Bytes → Except Thrown T) (x : ConfigVar T) (val : Bytes) : Outcome T :=
  match conv val with
  | .error e => ⟨[], handled (some e), x⟩
  | .ok v =>
    let r := x.setValue v
    ⟨r.1, handled r.2.1, r.2.2⟩

/-- each listener once, in the order of the keys -/
def allCalls (x : ConfigVar T) (v : T) : List (Call T) := x.cbs.entries.map fun e => (e.1, x.val, v)

end ConfigVar

/-! ## Storing a value -/

open ConfigVar

theorem allCalls_once (x : ConfigVar T) (v : T) : ((x.allCalls v).map (·.1)).Nodup := by
  rw [allCalls, List.map_map]
  exact x.cbs.keys_nodup

theorem mem_allCalls {x : ConfigVar T} {v : T} {c : Call T} :
    c ∈ x.allCalls v ↔ c.2 = (x.val, v) ∧ ∃ cb, (c.1, cb) ∈ x.cbs.entries := by
  obtain ⟨key, args⟩ := c
  simp only [allCalls, List.mem_map, Prod.mk.injEq, Prod.exists]
  constructor
  · rintro ⟨k, cb, he, rfl, rfl⟩
    exact ⟨rfl, cb, he⟩
  · rintro ⟨rfl, cb, he⟩
    exact ⟨key, cb, he, rfl, rfl⟩

/-- a listener is called from when it is added until it is deleted -/
theorem called_added (x : ConfigVar T) (funId : UInt64) (cb : OnChange T) (v : T) :
    (funId + 1, x.val, v) ∈ (x.addListener funId cb).2.allCalls v :=
  mem_allCalls.mpr ⟨rfl, cb, Listeners.mem_assign.mpr (Or.inl rfl)⟩

theorem not_called_deleted (x : ConfigVar T) (key : UInt64) (v : T) : ∀ c ∈ (x.delListener key).allCalls v, c.1 ≠ key := by
  intro c hc
  obtain ⟨-, cb, he⟩ := mem_allCalls.mp hc
  exact (Listeners.mem_erase.mp he).2

theorem not_called_cleared (x : ConfigVar T) (v : T) : x.clearListener.allCalls v = [] := rfl

theorem notify_quiet {old new : T} {l : List (UInt64 × OnChange T)} (h : ∀ e ∈ l, e.2 old new = none) :
    notify old new l = (l.map fun e => (e.1, old, new), none) := by
  induction l with
  | nil => rfl
  | cons e l ih =>
    obtain ⟨key, cb⟩ := e
    have hcb : cb old new = none := h _ List.mem_cons_self
    rw [notify, hcb, ih fun e he => h e (List.mem_cons_of_mem _ he)]
    rfl

/-- the first one that throws ends the loop -/
theorem notify_throws {old new : T} {l : List (UInt64 × OnChange T)} (h : ∃ e ∈ l, e.2 old new ≠ none) :
    (notify old new l).2 ≠ none := by
  induction l with
  | nil => simp at h
  | cons e l ih =>
    obtain ⟨key, cb⟩ := e
    cases hcb : cb old new with
    | some e =>
      rw [notify, hcb]
      exact Option.some_ne_none e
    | none =>
      obtain ⟨e, he, hne⟩ := h
      rcases List.mem_cons.mp he with rfl | he
      · exact absurd hcb hne
      · rw [notify, hcb]
        exact ih ⟨e, he, hne⟩

section
variable [BEq T] (x : ConfigVar T) (v : T)

theorem setValue_same (h : (v == x.val) = true) : x.setValue v = ([], none, x) := if_pos h

theorem setValue_spec (h : (v == x.val) = false) (hquiet : ∀ e ∈ x.cbs.entries, e.2 x.val v = none) :
    x.setValue v = (x.allCalls v, none, { x with val := v }) := by
  rw [setValue, h, notify_quiet hquiet]
  rfl

/-- a listener that throws keeps the value -/
theorem setValue_throws (h : (v == x.val) = false) (hthrows : ∃ e ∈ x.cbs.entries, e.2 x.val v ≠ none) :
    (x.setValue v).2.1 ≠ none ∧ (x.setValue v).2.2 = x := by
  have hne := notify_throws hthrows
  rw [setValue, h]
  rcases hn : notify x.val v x.cbs.entries with ⟨calls, e⟩
  rw [hn] at hne
  cases e with
  | none => exact absurd rfl hne
  | some e => exact ⟨hne, rfl⟩

end

/-! ## From a string -/

section
variable [BEq T] (conv : Bytes → Except Thrown T) (x : ConfigVar T) (s : Bytes)

/-- a text that is accepted is stored and told to every listener once if it changes the value, and one that is rejected
changes nothing -/
structure Applied : Prop where
  accepted : ∀ v, conv s = .ok v → (fromString conv x s).var = { x with val := v } ∧
    (fromString conv x s).calls = if v == x.val then [] else x.allCalls v
  rejected : ∀ e, conv s = .error e → (fromString conv x s).var = x ∧ (fromString conv x s).calls = []

/-- and the result says which -/
structure AllOrNothing : Prop extends Applied conv x s where
  yes : ∀ v, conv s = .ok v → (fromString conv x s).result = .ok true
  no : ∀ e, conv s = .error e → (fromString conv x s).result = .ok false

variable {conv x s}

theorem fromString_rejected {e : Thrown} (h : conv s = .error e) : fromString conv x s = ⟨[], handled (some e), x⟩ := by
  rw [fromString, h]

theorem fromString_accepted {v : T} (h : conv s = .ok v) :
    fromString conv x s = ⟨(x.setValue v).1, handled (x.setValue v).2.1, (x.setValue v).2.2⟩ := by
  rw [fromString, h]

/-- no call returns true -/
theorem result_ne_true : (fromString conv x s).result ≠ .ok true := by
  have hhandled : ∀ e, handled e ≠ .ok true := by
    intro e
    cases e with
    | none => simp [handled]
    | some e => cases e <;> simp [handled]
  cases h : conv s with
  | error e =>
    rw [fromString_rejected h]
    exact hhandled _
  | ok v =>
    rw [fromString_accepted h]
    exact hhandled _

theorem applied_of_error {e : Thrown} (h : conv s = .error e) : Applied conv x s := by
  refine ⟨fun v hv => ?_, fun _ _ => ?_⟩
  · rw [h] at hv
    cases hv
  · rw [fromString_rejected h]
    exact ⟨rfl, rfl⟩

/-- a text is applied unless it changes the value and a listener throws -/
theorem applied_of_quiet (h : ∀ v, conv s = .ok v →
    if v == x.val then v = x.val else ∀ e ∈ x.cbs.entries, e.2 x.val v = none) : Applied conv x s := by
  cases hs : conv s with
  | error e => exact applied_of_error hs
  | ok v =>
    have hv := h v hs
    refine ⟨fun w hw => ?_, fun e he => ?_⟩
    · rw [hs] at hw
      obtain rfl := Except.ok.inj hw
      rw [fromString_accepted hs]
      split_ifs at hv ⊢ with heq
      · rw [setValue_same x v heq]
        exact ⟨by rw [hv], rfl⟩
      · rw [Bool.not_eq_true] at heq
        rw [setValue_spec x v heq hv]
        exact ⟨rfl, rfl⟩
    · rw [hs] at he
      cases he

/-- **The result of `fromString`.** For every variable, converter and text: the result says whether the text was
applied, and it was, exactly if the converter throws an exception that is derived from `std::exception`. -/
theorem fromString_iff (conv : Bytes → Except Thrown T) (x : ConfigVar T) (s : Bytes) :
    AllOrNothing conv x s ↔ conv s = .error .standard := by
  constructor
  · intro h
    cases hs : conv s with
    | ok v => exact absurd (h.yes v hs) result_ne_true
    | error e =>
      have hno := h.no e hs
      rw [fromString_rejected hs] at hno
      cases e with
      | standard => rfl
      | foreign => cases hno
  · intro hs
    refine ⟨applied_of_error hs, fun v hv => ?_, fun e he => ?_⟩
    · rw [hs] at hv
      cases hv
    · rw [fromString_rejected hs]
      rfl

end

/-- a number that is read and stored, and the result is false -/
theorem false_on_success :
    (fromString (fun _ => .ok 7) ⟨3, Listeners.empty⟩ (ascii "7")).result = .ok false ∧
      (fromString (fun _ => .ok 7) ⟨3, Listeners.empty⟩ (ascii "7")).var.val = 7 ∧
      ¬AllOrNothing (fun _ => .ok 7) ⟨3, Listeners.empty⟩ (ascii "7") := by
  refine ⟨rfl, rfl, fun h => ?_⟩
  exact absurd (h.yes 7 rfl) result_ne_true

end Sylar.FromString
