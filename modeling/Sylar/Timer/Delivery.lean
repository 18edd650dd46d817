/-
Delivery of timers over whole runs.

Above the sorted set and the timer objects stands a `Pool`: which timers have a callback to deliver, and which recur.
Every operation of the manager is one of the six steps of `Pool.Step` (`call_refines`), which know nothing of due times,
addresses or clocks. A run leaves a trace of calls with their results, and `Hist` reads the pool off the trace: a timer
has a callback iff the trace added it, did not cancel it and, for a one-shot timer, did not emit it.

- `timer_delivery`: a one-shot timer is emitted at most once; nothing is emitted after a successful `cancel`; `cancel`
  returns `true` iff the timer is pending; a recurring timer is emitted at most once per call and stays pending until
  it is cancelled.
-/
import Mathlib.Tactic
import Sylar.Core.Run
import Sylar.Timer.Model
import Sylar.Timer.Invariant

namespace Sylar.TimerManager

open Sylar.Core

variable {β : Type}

/-! ## Traces -/

/-- a call and what it returned -/
abbrev Event (β : Type) := Op β × Ret β

/-- the call created timer `id` with callback `cb` -/
def Adds (e : Event β) (id : ℕ) (recurring : Bool) (cb : β) : Prop :=
  ∃ ms now addr front, e = (.addTimer ms cb recurring now addr, .added id front)

/-- `cancel` on timer `id` returned `true` -/
def Cancels (e : Event β) (id : ℕ) : Prop := e = (.cancel id, .bool true false)

/-- the callbacks the call pushed -/
def emits (e : Event β) : List (ℕ × Option β) :=
  match e.2 with
  | .cbs l => l
  | _ => []

def Added (tr : List (Event β)) (id : ℕ) (recurring : Bool) (cb : β) : Prop := ∃ e ∈ tr, Adds e id recurring cb

def Cancelled (tr : List (Event β)) (id : ℕ) : Prop := ∃ e ∈ tr, Cancels e id

/-- all callbacks pushed, in order -/
def emissions (tr : List (Event β)) : List (ℕ × Option β) := tr.flatMap emits

/-- the timers they were copied from -/
def emitted (tr : List (Event β)) : List ℕ := (emissions tr).map Prod.fst

/-- created, not cancelled, and not fired if it fires only once -/
def Pending (tr : List (Event β)) (id : ℕ) : Prop :=
  ∃ recurring cb, Added tr id recurring cb ∧ ¬Cancelled tr id ∧ (recurring = false → id ∉ emitted tr)

theorem added_snoc {tr : List (Event β)} {e : Event β} {id : ℕ} {r : Bool} {cb : β} :
    Added (tr ++ [e]) id r cb ↔ Added tr id r cb ∨ Adds e id r cb := by
  simp only [Added, List.mem_append, List.mem_singleton]
  constructor
  · rintro ⟨x, hx | rfl, hx'⟩
    · exact Or.inl ⟨x, hx, hx'⟩
    · exact Or.inr hx'
  · rintro (⟨x, hx, hx'⟩ | h)
    · exact ⟨x, Or.inl hx, hx'⟩
    · exact ⟨e, Or.inr rfl, h⟩

theorem cancelled_snoc {tr : List (Event β)} {e : Event β} {id : ℕ} :
    Cancelled (tr ++ [e]) id ↔ Cancelled tr id ∨ Cancels e id := by
  simp only [Cancelled, List.mem_append, List.mem_singleton]
  constructor
  · rintro ⟨x, hx | rfl, hx'⟩
    · exact Or.inl ⟨x, hx, hx'⟩
    · exact Or.inr hx'
  · rintro (⟨x, hx, hx'⟩ | h)
    · exact ⟨x, Or.inl hx, hx'⟩
    · exact ⟨e, Or.inr rfl, h⟩

theorem added_snoc_of_not {tr : List (Event β)} {e : Event β} (h : ∀ id r cb, ¬Adds e id r cb) (id : ℕ) (r : Bool)
    (cb : β) : Added (tr ++ [e]) id r cb ↔ Added tr id r cb := by
  rw [added_snoc, or_iff_left (h id r cb)]

theorem cancelled_snoc_of_not {tr : List (Event β)} {e : Event β} (h : ∀ id, ¬Cancels e id) (id : ℕ) :
    Cancelled (tr ++ [e]) id ↔ Cancelled tr id := by
  rw [cancelled_snoc, or_iff_left (h id)]

theorem emissions_snoc (tr : List (Event β)) (e : Event β) : emissions (tr ++ [e]) = emissions tr ++ emits e := by
  simp [emissions]

/-! ## The pool -/

/-- what the manager is for: the callbacks still to be delivered, and the timers that recur -/
structure Pool (β : Type) where
  armed : ℕ → Option β
  kind : ℕ → Option Bool

def view (s : TimerManager β) : Pool β := ⟨s.armed, s.kind⟩

namespace Pool

inductive Step : Pool β → Event β → Pool β → Prop
  | add {p : Pool β} (id : ℕ) (ms : UInt64) (cb : β) (r : Bool) (now : UInt64) (addr : ℕ) (front : Bool)
      (hnew : p.kind id = none) :
      Step p (.addTimer ms cb r now addr, .added id front)
        ⟨Function.update p.armed id (some cb), Function.update p.kind id (some r)⟩
  | cancel {p : Pool β} (id : ℕ) (h : (p.armed id).isSome) :
      Step p (.cancel id, .bool true false) ⟨Function.update p.armed id none, p.kind⟩
  | cancelNot {p : Pool β} (id : ℕ) (h : p.armed id = none) : Step p (.cancel id, .bool false false) p
  | refresh {p : Pool β} (id : ℕ) (now : UInt64) (b front : Bool) : Step p (.refresh id now, .bool b front) p
  | reset {p : Pool β} (id : ℕ) (ms : UInt64) (from_now : Bool) (now : UInt64) (b front : Bool) :
      Step p (.reset id ms from_now now, .bool b front) p
  | expire {p : Pool β} (now : UInt64) (addr : ℕ) {ids : List ℕ} (hnd : ids.Nodup)
      (harmed : ∀ id ∈ ids, (p.armed id).isSome) :
      Step p (.listExpiredCb now addr, .cbs (ids.map fun id => (id, p.armed id)))
        ⟨afterExpiry p.armed p.kind ids, p.kind⟩
  | next {p : Pool β} (now ms : UInt64) : Step p (.getNextTimer now, .next ms) p

inductive Run : Pool β → List (Event β) → Pool β → Prop
  | nil (p : Pool β) : Run p [] p
  | cons {p q r : Pool β} {e : Event β} {tr : List (Event β)} (h : Step p e q) (hs : Run q tr r) : Run p (e :: tr) r

theorem Run.append_inv {p q : Pool β} {a b : List (Event β)} (h : Run p (a ++ b) q) :
    ∃ m, Run p a m ∧ Run m b q := by
  induction a generalizing p with
  | nil => exact ⟨p, .nil p, h⟩
  | cons e a ih =>
    cases h with
    | cons h hs =>
      obtain ⟨m, h1, h2⟩ := ih hs
      exact ⟨m, .cons h h1, h2⟩

/-- a timer that was created and has no callback any more stays so, and the step does not emit it -/
theorem Step.dead {p q : Pool β} {e : Event β} (h : Step p e q) {id : ℕ} (hk : (p.kind id).isSome)
    (ha : p.armed id = none) : (q.kind id).isSome ∧ q.armed id = none ∧ id ∉ (emits e).map Prod.fst := by
  cases h with
  | add j ms cb r now addr front hnew =>
    have hne : id ≠ j := by
      rintro rfl
      rw [hnew] at hk
      cases hk
    exact ⟨by simpa [Function.update_of_ne hne] using hk, by simpa [Function.update_of_ne hne] using ha,
      by simp [emits]⟩
  | cancel j _ =>
    refine ⟨hk, ?_, by simp [emits]⟩
    by_cases hj : id = j
    · simp [hj]
    · simpa [Function.update_of_ne hj] using ha
  | cancelNot | refresh | reset | next => exact ⟨hk, ha, by simp [emits]⟩
  | expire now addr hnd harmed =>
    refine ⟨hk, by simp [afterExpiry, ha], ?_⟩
    intro hmem
    simp only [emits, List.map_map, Function.comp_def, List.map_id'] at hmem
    have := harmed id hmem
    rw [ha] at this
    cases this

/-- a timer gets its callback when it is created -/
theorem Step.armed_of {p q : Pool β} {o : Op β} {r : Ret β} (h : Step p (o, r) q) {id : ℕ} {c : β}
    (hq : q.armed id = some c) : p.armed id = some c ∨ p.kind id = none ∧ ∃ ms rec now addr, o = .addTimer ms c rec now addr := by
  cases h with
  | add j ms cb r now addr front hnew =>
    dsimp only at hq
    by_cases hj : id = j
    · subst hj
      rw [Function.update_self, Option.some.injEq] at hq
      subst hq
      exact Or.inr ⟨hnew, ms, r, now, addr, rfl⟩
    · rw [Function.update_of_ne hj] at hq
      exact Or.inl hq
  | cancel j _ =>
    dsimp only at hq
    by_cases hj : id = j
    · simp [hj] at hq
    · rw [Function.update_of_ne hj] at hq
      exact Or.inl hq
  | cancelNot | refresh | reset | next => exact Or.inl hq
  | expire now addr hnd harmed =>
    simp only [afterExpiry] at hq
    split_ifs at hq
    exact Or.inl hq

/-- and keeps what it was created as -/
theorem Step.kind_of {p q : Pool β} {e : Event β} (h : Step p e q) {id : ℕ} (hk : (p.kind id).isSome) :
    (q.kind id).isSome := by
  cases h with
  | add j ms cb r now addr front hnew =>
    by_cases hj : id = j
    · simp [hj]
    · simpa [Function.update_of_ne hj] using hk
  | cancel | cancelNot | refresh | reset | next | expire => exact hk

theorem Run.dead {p q : Pool β} {tr : List (Event β)} (h : Run p tr q) {id : ℕ} (hk : (p.kind id).isSome)
    (ha : p.armed id = none) : id ∉ emitted tr := by
  induction h with
  | nil => simp [emitted, emissions]
  | cons hstep _ ih =>
    obtain ⟨hk', ha', hem⟩ := hstep.dead hk ha
    simp only [emitted, emissions, List.flatMap_cons, List.map_append, List.mem_append, not_or]
    exact ⟨hem, ih hk' ha'⟩

/-- a step pushes each timer at most once -/
theorem Step.emits_nodup {p q : Pool β} {e : Event β} (h : Step p e q) : ((emits e).map Prod.fst).Nodup := by
  cases h with
  | expire now addr hnd harmed => simpa [emits, Function.comp_def] using hnd
  | _ => simp [emits]

theorem Run.emits_nodup {p q : Pool β} {tr : List (Event β)} (h : Run p tr q) :
    ∀ e ∈ tr, ((emits e).map Prod.fst).Nodup := by
  induction h with
  | nil => intro e he; cases he
  | cons hstep _ ih =>
    intro e he
    rcases List.mem_cons.1 he with rfl | he
    · exact hstep.emits_nodup
    · exact ih e he

end Pool

/-! ## The pool read off the trace -/

/-- the trace `tr`, started from nothing, left the pool `p` -/
structure Hist (tr : List (Event β)) (p : Pool β) : Prop where
  kind_iff : ∀ id r, p.kind id = some r ↔ ∃ cb, Added tr id r cb
  armed_iff : ∀ id cb, p.armed id = some cb ↔
    ∃ r, Added tr id r cb ∧ ¬Cancelled tr id ∧ (r = false → id ∉ emitted tr)
  once : ∀ id, p.kind id = some false → (emitted tr).count id ≤ 1
  emits_added : ∀ id c, (id, c) ∈ emissions tr → ∃ r cb, Added tr id r cb ∧ c = some cb
  cancelled_added : ∀ id, Cancelled tr id → (p.kind id).isSome

namespace Hist

variable {tr : List (Event β)} {p q : Pool β} {e : Event β}

theorem nil : Hist ([] : List (Event β)) ⟨fun _ => none, fun _ => none⟩ :=
  ⟨fun id r => by simp [Added], fun id cb => by simp [Added], fun id h => absurd h (by simp),
    fun id c h => absurd h (by simp [emissions]), fun id h => absurd h (by simp [Cancelled])⟩

theorem pending_iff (h : Hist tr p) (id : ℕ) : (p.armed id).isSome ↔ Pending tr id := by
  rw [Option.isSome_iff_exists]
  constructor
  · rintro ⟨cb, hcb⟩
    obtain ⟨r, hr⟩ := (h.armed_iff id cb).1 hcb
    exact ⟨r, cb, hr⟩
  · rintro ⟨r, cb, hr⟩
    exact ⟨cb, (h.armed_iff id cb).2 ⟨r, hr⟩⟩

theorem emitted_created (h : Hist tr p) {id : ℕ} (hid : id ∈ emitted tr) : (p.kind id).isSome := by
  obtain ⟨⟨j, c⟩, hj, rfl⟩ := List.mem_map.1 hid
  obtain ⟨r, cb, hadd, -⟩ := h.emits_added j c hj
  rw [(h.kind_iff j r).2 ⟨cb, hadd⟩]
  rfl

/-- nothing in the trace is about a handle that does not exist -/
theorem new_handle (h : Hist tr p) {id : ℕ} (hnew : p.kind id = none) :
    (∀ r cb, ¬Added tr id r cb) ∧ ¬Cancelled tr id ∧ id ∉ emitted tr := by
  refine ⟨?_, ?_, ?_⟩
  · intro r cb ha
    have := (h.kind_iff id r).2 ⟨cb, ha⟩
    rw [hnew] at this
    cases this
  · intro hc
    have := h.cancelled_added id hc
    rw [hnew] at this
    cases this
  · intro hm
    have := h.emitted_created hm
    rw [hnew] at this
    cases this

/-- a one-shot timer that still has its callback was not emitted -/
theorem not_emitted (h : Hist tr p) {id : ℕ} (ha : (p.armed id).isSome) (hk : p.kind id = some false) :
    id ∉ emitted tr := by
  obtain ⟨cb, hcb⟩ := Option.isSome_iff_exists.1 ha
  obtain ⟨r, hadd, -, hr⟩ := (h.armed_iff id cb).1 hcb
  have hkr := (h.kind_iff id r).2 ⟨cb, hadd⟩
  rw [hk, Option.some.injEq] at hkr
  exact hr hkr.symm

/-- a call that creates, cancels and emits nothing -/
theorem quiet (h : Hist tr p) (hadd : ∀ id r cb, ¬Adds e id r cb) (hcan : ∀ id, ¬Cancels e id) (hem : emits e = []) :
    Hist (tr ++ [e]) p := by
  have hA : ∀ id r cb, Added (tr ++ [e]) id r cb ↔ Added tr id r cb := added_snoc_of_not hadd
  have hC : ∀ id, Cancelled (tr ++ [e]) id ↔ Cancelled tr id := cancelled_snoc_of_not hcan
  have hE : emissions (tr ++ [e]) = emissions tr := by rw [emissions_snoc, hem, List.append_nil]
  refine ⟨fun id r => ?_, fun id cb => ?_, fun id hk => ?_, fun id c hm => ?_, fun id hc => ?_⟩
  · simp only [hA]; exact h.kind_iff id r
  · simp only [hA, hC, emitted, hE]; exact h.armed_iff id cb
  · rw [emitted, hE]; exact h.once id hk
  · rw [hE] at hm; simp only [hA]; exact h.emits_added id c hm
  · exact h.cancelled_added id ((hC id).1 hc)

theorem add (h : Hist tr p) {id : ℕ} (ms : UInt64) (cb : β) (r : Bool) (now : UInt64) (addr : ℕ) (front : Bool)
    (hnew : p.kind id = none) :
    Hist (tr ++ [(.addTimer ms cb r now addr, .added id front)])
      ⟨Function.update p.armed id (some cb), Function.update p.kind id (some r)⟩ := by
  set e : Event β := (.addTimer ms cb r now addr, .added id front) with he
  have hA : ∀ j r' cb', Added (tr ++ [e]) j r' cb' ↔ Added tr j r' cb' ∨ j = id ∧ r' = r ∧ cb' = cb := by
    intro j r' cb'
    rw [added_snoc]
    refine or_congr_right ⟨?_, ?_⟩
    · rintro ⟨ms', now', addr', front', heq⟩
      simp only [he, Prod.mk.injEq, Op.addTimer.injEq, Ret.added.injEq] at heq
      exact ⟨heq.2.1.symm, heq.1.2.2.1.symm, heq.1.2.1.symm⟩
    · rintro ⟨rfl, rfl, rfl⟩
      exact ⟨ms, now, addr, front, rfl⟩
  have hC : ∀ j, Cancelled (tr ++ [e]) j ↔ Cancelled tr j := cancelled_snoc_of_not (by simp [Cancels, he])
  have hE : emissions (tr ++ [e]) = emissions tr := by rw [emissions_snoc]; simp [emits, he]
  obtain ⟨hno, hnoC, hnoE⟩ := h.new_handle hnew
  refine ⟨fun j r' => ?_, fun j cb' => ?_, fun j hk => ?_, fun j c hm => ?_, fun j hc => ?_⟩
  · simp only [hA]
    by_cases hj : j = id
    · subst hj
      simp only [Function.update_self, Option.some.injEq, true_and]
      exact ⟨fun hr => ⟨cb, Or.inr ⟨hr.symm, rfl⟩⟩, fun ⟨cb', hh⟩ => (hh.resolve_left (hno r' cb')).1.symm⟩
    · simp only [Function.update_of_ne hj, hj, false_and, or_false]
      exact h.kind_iff j r'
  · simp only [hA, hC, emitted, hE]
    by_cases hj : j = id
    · subst hj
      simp only [Function.update_self, Option.some.injEq, true_and]
      constructor
      · rintro rfl
        exact ⟨r, Or.inr ⟨rfl, rfl⟩, hnoC, fun _ => hnoE⟩
      · rintro ⟨r', hh, -, -⟩
        exact (hh.resolve_left (hno r' cb')).2.symm
    · simp only [Function.update_of_ne hj, hj, false_and, or_false]
      exact h.armed_iff j cb'
  · rw [emitted, hE]
    by_cases hj : j = id
    · rw [hj]
      exact (List.count_eq_zero_of_not_mem hnoE).le.trans (Nat.zero_le 1)
    · simp only [Function.update_of_ne hj] at hk
      exact h.once j hk
  · rw [hE] at hm
    obtain ⟨r', cb', ha, hc⟩ := h.emits_added j c hm
    exact ⟨r', cb', (hA j r' cb').2 (Or.inl ha), hc⟩
  · have hk := h.cancelled_added j ((hC j).1 hc)
    by_cases hj : j = id
    · simp [hj]
    · simpa [Function.update_of_ne hj] using hk

theorem cancel (h : Hist tr p) {id : ℕ} (ha : (p.armed id).isSome) :
    Hist (tr ++ [(.cancel id, .bool true false)]) ⟨Function.update p.armed id none, p.kind⟩ := by
  set e : Event β := (.cancel id, .bool true false) with he
  have hA : ∀ j r cb, Added (tr ++ [e]) j r cb ↔ Added tr j r cb := by
    apply added_snoc_of_not
    rintro j r cb ⟨ms, now, addr, front, heq⟩
    simp [he] at heq
  have hC : ∀ j, Cancelled (tr ++ [e]) j ↔ Cancelled tr j ∨ j = id := by
    intro j
    rw [cancelled_snoc]
    simp [Cancels, he, eq_comm]
  have hE : emissions (tr ++ [e]) = emissions tr := by rw [emissions_snoc]; simp [emits, he]
  obtain ⟨r, cb, hadd, -, -⟩ := (h.pending_iff id).1 ha
  refine ⟨fun j r => ?_, fun j cb => ?_, fun j hk => ?_, fun j c hm => ?_, fun j hc => ?_⟩
  · simp only [hA]; exact h.kind_iff j r
  · simp only [hA, hC, emitted, hE]
    by_cases hj : j = id
    · simp [hj]
    · simp only [Function.update_of_ne hj, hj, or_false]
      exact h.armed_iff j cb
  · rw [emitted, hE]; exact h.once j hk
  · rw [hE] at hm; simp only [hA]; exact h.emits_added j c hm
  · rcases (hC j).1 hc with hc | rfl
    · exact h.cancelled_added j hc
    · rw [(h.kind_iff j r).2 ⟨cb, hadd⟩]
      rfl

theorem expire (h : Hist tr p) (now : UInt64) (addr : ℕ) {ids : List ℕ} (hnd : ids.Nodup)
    (harmed : ∀ id ∈ ids, (p.armed id).isSome) :
    Hist (tr ++ [(.listExpiredCb now addr, .cbs (ids.map fun id => (id, p.armed id)))])
      ⟨afterExpiry p.armed p.kind ids, p.kind⟩ := by
  set e : Event β := (.listExpiredCb now addr, .cbs (ids.map fun id => (id, p.armed id))) with he
  have hA : ∀ j r cb, Added (tr ++ [e]) j r cb ↔ Added tr j r cb := by
    apply added_snoc_of_not
    rintro j r cb ⟨ms, now, addr, front, heq⟩
    simp [he] at heq
  have hC : ∀ j, Cancelled (tr ++ [e]) j ↔ Cancelled tr j := cancelled_snoc_of_not (by simp [Cancels, he])
  have hE : emissions (tr ++ [e]) = emissions tr ++ ids.map fun id => (id, p.armed id) := by
    rw [emissions_snoc]; rfl
  have hids : emitted (tr ++ [e]) = emitted tr ++ ids := by
    rw [emitted, hE, List.map_append, List.map_map]
    simp [Function.comp_def, emitted]
  refine ⟨fun j r => ?_, fun j cb => ?_, fun j hk => ?_, fun j c hm => ?_, fun j hc => ?_⟩
  · simp only [hA]; exact h.kind_iff j r
  · simp only [hA, hC, hids, List.mem_append, not_or]
    by_cases hj : j ∈ ids
    · by_cases hk : p.kind j = some false
      · simp only [afterExpiry, hj, hk, and_self, if_true, reduceCtorEq, false_iff]
        rintro ⟨r, hadd, -, hr⟩
        have hkr := (h.kind_iff j r).2 ⟨cb, hadd⟩
        rw [hk, Option.some.injEq] at hkr
        exact (hr hkr.symm).2 trivial
      · simp only [afterExpiry, hk, and_false, if_false]
        rw [h.armed_iff j cb]
        refine exists_congr fun r => and_congr_right fun hadd => and_congr_right fun _ => ?_
        have hr : r ≠ false := by
          rintro rfl
          exact hk ((h.kind_iff j false).2 ⟨cb, hadd⟩)
        exact ⟨fun _ e => absurd e hr, fun _ e => absurd e hr⟩
    · simp only [afterExpiry, hj, false_and, if_false, not_false_eq_true, and_true]
      exact h.armed_iff j cb
  · rw [hids, List.count_append]
    by_cases hj : j ∈ ids
    · rw [List.count_eq_zero_of_not_mem (h.not_emitted (harmed j hj) hk), Nat.zero_add]
      exact List.nodup_iff_count_le_one.1 hnd j
    · rw [List.count_eq_zero_of_not_mem hj]
      exact h.once j hk
  · simp only [hA]
    rw [hE, List.mem_append] at hm
    rcases hm with hm | hm
    · exact h.emits_added j c hm
    · obtain ⟨i, hi, heq⟩ := List.mem_map.1 hm
      simp only [Prod.mk.injEq] at heq
      obtain ⟨rfl, rfl⟩ := heq
      obtain ⟨cb, hcb⟩ := Option.isSome_iff_exists.1 (harmed i hi)
      obtain ⟨r, hadd, -, -⟩ := (h.armed_iff i cb).1 hcb
      exact ⟨r, cb, hadd, hcb⟩
  · exact h.cancelled_added j ((hC j).1 hc)

theorem step (h : Hist tr p) (hs : Pool.Step p e q) : Hist (tr ++ [e]) q := by
  cases hs with
  | add id ms cb r now addr front hnew => exact h.add ms cb r now addr front hnew
  | cancel id ha => exact h.cancel ha
  | expire now addr hnd harmed => exact h.expire now addr hnd harmed
  | cancelNot | refresh | reset | next =>
    refine h.quiet ?_ (by simp [Cancels]) rfl
    rintro id r cb ⟨ms, now, addr, front, heq⟩
    simp at heq

theorem run {tr' : List (Event β)} (h : Hist tr p) (hs : Pool.Run p tr' q) : Hist (tr ++ tr') q := by
  induction hs generalizing tr with
  | nil => rwa [List.append_nil]
  | cons hstep _ ih =>
    have := ih (h.step hstep)
    rwa [List.append_assoc] at this

end Hist

/-! ## The manager refines the pool -/

theorem call_refines {s : TimerManager β} (h : Inv s) {o : Op β} (hok : o.Ok s) :
    Inv (s.call o).2 ∧ Pool.Step s.view (o, (s.call o).1) (s.call o).2.view := by
  cases o with
  | addTimer ms cb r now addr =>
    obtain ⟨h1, h2, h3, h4, front, h5⟩ := addTimer_spec h ms cb r now hok
    refine ⟨h1, ?_⟩
    simp only [call, view, h3, h4, h5]
    exact .add s.created ms cb r now addr front h2
  | cancel id =>
    by_cases ha : (s.armed id).isSome
    · obtain ⟨h1, h2, h3, h4⟩ := cancel_some h ha
      refine ⟨h1, ?_⟩
      simp only [call, view, h2, h3, h4]
      exact .cancel id ha
    · have hnone : s.armed id = none := by simpa using ha
      simp only [call, cancel_none hnone]
      exact ⟨h, .cancelNot id hnone⟩
  | refresh id now =>
    obtain ⟨h1, h2, h3, b, h4⟩ := refresh_spec h id now
    refine ⟨h1, ?_⟩
    simp only [call, view, h2, h3, h4]
    exact .refresh id now b false
  | reset id ms from_now now =>
    obtain ⟨h1, h2, h3, b, front, h4⟩ := reset_spec h id ms from_now now
    refine ⟨h1, ?_⟩
    simp only [call, view, h2, h3, h4]
    exact .reset id ms from_now now b front
  | listExpiredCb now addr =>
    obtain ⟨h1, h2, ids, h3, h4, h5, h6⟩ := listExpiredCb_spec h now addr
    refine ⟨h1, ?_⟩
    simp only [call, view, h2, h5, h6]
    exact .expire now addr h3 h4
  | getNextTimer now =>
    obtain ⟨h1, h2, h3, ms, h4⟩ := getNextTimer_spec h now
    refine ⟨h1, ?_⟩
    simp only [call, view, h2, h3, h4]
    exact .next now ms

/-- one call, with its entry in the trace -/
def event (s : TimerManager β) (o : Op β) : Event β × TimerManager β := ((o, (s.call o).1), (s.call o).2)

/-- the trace and the last state of a run -/
def history (s : TimerManager β) (ops : List (Op β)) : List (Event β) × TimerManager β := runOut event s ops

/-- every call of the run is one the allocator allows -/
def Admissible (s : TimerManager β) (ops : List (Op β)) : Prop :=
  Along (fun s o => o.Ok s) (fun s o => (s.call o).2) s ops

instance (s : TimerManager β) (ops : List (Op β)) : Decidable (Admissible s ops) :=
  inferInstanceAs (Decidable (Along _ _ s ops))

theorem run_refines (ops : List (Op β)) {s : TimerManager β} (h : Inv s) (hok : Admissible s ops) :
    Inv (history s ops).2 ∧ Pool.Run s.view (history s ops).1 (history s ops).2.view := by
  induction ops generalizing s with
  | nil => exact ⟨h, .nil _⟩
  | cons o ops ih =>
    obtain ⟨h1, h2⟩ := call_refines h hok.1
    obtain ⟨h3, h4⟩ := ih h1 hok.2
    exact ⟨h3, .cons h2 h4⟩

/-! ## Delivery -/

/-- what a trace that ends in state `s` guarantees about timer `id` -/
structure Delivery (tr : List (Event β)) (s : TimerManager β) (id : ℕ) : Prop where
  /-- a one-shot timer is emitted at most once -/
  one_shot : ∀ cb, Added tr id false cb → (emitted tr).count id ≤ 1
  /-- what is emitted for a timer is the callback it was added with -/
  callback : ∀ c, (id, c) ∈ emissions tr → ∃ recurring cb, Added tr id recurring cb ∧ c = some cb
  /-- nothing is emitted after a `cancel` that returned `true` -/
  cancelled : ∀ pre post, tr = pre ++ (.cancel id, .bool true false) :: post → id ∉ emitted post
  /-- `cancel` returns `true` iff the timer is pending, and `false` otherwise -/
  cancel_iff : ∀ pre post ret, tr = pre ++ (.cancel id, ret) :: post →
    (ret = .bool true false ↔ Pending pre id) ∧ (ret = .bool false false ↔ ¬Pending pre id)
  /-- no call emits a timer twice -/
  per_call : ∀ e ∈ tr, ((emits e).map Prod.fst).count id ≤ 1
  /-- a recurring timer is pending until it is cancelled -/
  recurring : ∀ cb, Added tr id true cb → ¬Cancelled tr id → Pending tr id ∧ id ∈ s.timers

/-- **Timer delivery.** In every run of the manager from its constructor, with any clock readings, every timer is
delivered as `Delivery` says. -/
theorem timer_delivery (now : UInt64) (ops : List (Op β)) (hok : Admissible (new now : TimerManager β) ops) (id : ℕ) :
    Delivery (history (new now) ops).1 (history (new now) ops).2 id := by
  obtain ⟨hinv, hrun⟩ := run_refines ops (inv_new now) hok
  set tr := (history (new now) ops).1
  set s := (history (new now) ops).2
  have hstart : Hist [] (new now : TimerManager β).view := Hist.nil
  have hist : Hist tr s.view := hstart.run hrun
  refine ⟨fun cb hadd => ?_, fun c hc => hist.emits_added id c hc, ?_, ?_, fun e he => ?_, fun cb hadd hcan => ?_⟩
  · exact hist.once id ((hist.kind_iff id false).2 ⟨cb, hadd⟩)
  · intro pre post htr
    rw [htr] at hrun
    obtain ⟨m, hpre, hrest⟩ := hrun.append_inv
    have hm : Hist pre m := hstart.run hpre
    cases hrest with
    | cons hstep hpost =>
      -- the step left a timer that is created and has no callback
      cases hstep with
      | cancel _ ha =>
        obtain ⟨r, cb, hadd, -⟩ := (hm.pending_iff id).1 ha
        refine hpost.dead ?_ (Function.update_self _ _ _)
        show (m.kind id).isSome
        rw [(hm.kind_iff id r).2 ⟨cb, hadd⟩]
        rfl
  · intro pre post ret htr
    rw [htr] at hrun
    obtain ⟨m, hpre, hrest⟩ := hrun.append_inv
    have hm : Hist pre m := hstart.run hpre
    rw [← hm.pending_iff id]
    cases hrest with
    | cons hstep _ =>
      cases hstep with
      | cancel _ ha => simp [ha]
      | cancelNot _ ha => simp [ha]
  · exact List.nodup_iff_count_le_one.1 (hrun.emits_nodup e he) id
  · have hp : Pending tr id := ⟨true, cb, hadd, hcan, fun hf => by cases hf⟩
    exact ⟨hp, (Inv.mem_timers hinv).2 ((hist.pending_iff id).2 hp)⟩

/-- a one-shot and a recurring timer due at the same time, fired twice and cancelled -/
theorem timer_delivery_two :
    Delivery (history (new 0) [.addTimer 10 () false 0 7, .addTimer 10 () true 0 3, .listExpiredCb 10 9, .cancel 0,
      .listExpiredCb 30 9, .cancel 1, .listExpiredCb 50 9]).1 (history (new 0) [.addTimer 10 () false 0 7,
      .addTimer 10 () true 0 3, .listExpiredCb 10 9, .cancel 0, .listExpiredCb 30 9, .cancel 1, .listExpiredCb 50 9]).2 0 :=
  timer_delivery 0 _ (by decide) 0

/-- the trace of that run -/
example : (history (new 0) [.addTimer 10 () false 0 7, .addTimer 10 () true 0 3, .listExpiredCb 10 9, .cancel 0,
    .listExpiredCb 30 9, .cancel 1, .listExpiredCb 50 9]).1.map Prod.snd =
    [.added 0 true, .added 1 false, .cbs [(1, some ()), (0, some ())], .bool false false, .cbs [(1, some ())],
      .bool true false, .cbs []] := by
  decide

end Sylar.TimerManager
