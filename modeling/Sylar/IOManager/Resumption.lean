/-
Who resumes a waiter, and how often.

`Hub` is the system behind `IOManager/Contexts`: the fd contexts, the masks the kernel holds for them, and the pairs
that `epoll_wait` has reported and `idle` has not handled yet. Any thread may take any step at any time; a failed
assertion or a null `Scheduler*` stops the process (`gone`). What happens to one direction of one context over a run
is a list of `SlotEvent`s: it is registered, the registration is deleted, or its task goes to a scheduler.

- `resumed_at_most_once`: over every run a registration is followed by nothing (and its bit is set), by its deletion
  alone, or by one enqueue of its task to its scheduler alone, before the direction is registered again; and every
  enqueue directly follows the registration of what it enqueues.
- `dispatch_registered_iff`: the assertion of `triggerEvent` holds at every call `idle` makes in a run iff, whenever a
  reported pair is handled, the directions `epoll_wait` reported are all still registered or there is nothing to
  trigger.
- `dispatch_after_delEvent`: a run in which it fails.
-/
import Mathlib.Tactic
import Sylar.Core.Run
import Sylar.IOManager.Events
import Sylar.IOManager.Accounting
import Sylar.IOManager.Contexts

namespace Sylar

open Sylar.Core IOManager

/-! ## The system -/

structure Hub where
  ctx : ℕ → FdContext
  /-- the kernel's mask of each context -/
  interest : ℕ → Option UInt32
  /-- what `epoll_wait` has reported -/
  ready : List (ℕ × UInt32)
  gone : Bool

inductive Move where
  /-- `epoll_wait` returns in some thread -/
  | wait (pairs : List (ℕ × UInt32))
  /-- a thread acts under the mutex of context `p` -/
  | act (p : ℕ) (a : Act)
deriving DecidableEq, Repr

namespace Hub

def start : Hub := { ctx := fun p => { fd := p }, interest := fun _ => none, ready := [], gone := false }

/-- a pair `epoll_wait` can report: within the interest mask, plus `ERR` and `HUP` -/
def reports (h : Hub) (pair : ℕ × UInt32) : Bool :=
  (h.interest pair.1).elim false fun m => decide (pair.2 &&& ~~~(m ||| EPOLLERR ||| EPOLLHUP) = 0)

/-- the process is there, and `idle` handles what was reported -/
def enabled (h : Hub) (p : ℕ) : Act → Bool
  | .dispatch revents _ => !h.gone && h.ready.contains (p, revents)
  | _ => !h.gone

/-- the mask after `epoll_ctl` with `new_events` -/
def ctlMask (new_events : UInt32) : Option UInt32 := if new_events ≠ 0 then some (EPOLLET ||| new_events) else none

/-- what the kernel holds for the context after the action -/
def interestAfter (c : FdContext) (old : Option UInt32) : Act → Option UInt32
  | .addEvent event _ _ true => some (EPOLLET ||| c.events ||| event.mask)
  | .delEvent event true | .cancelEvent event true =>
    if IOManager.not c.events &&& event.mask ≠ 0 then old else ctlMask (c.events &&& ~~~event.mask)
  | .cancelAll true => if c.events = 0 then old else none
  | .dispatch revents true =>
    if c.events &&& realEvents revents c.events = 0 then old else ctlMask (c.events &&& ~~~realEvents revents c.events)
  | _ => old

def readyAfter (h : Hub) (p : ℕ) : Act → List (ℕ × UInt32)
  | .dispatch revents _ => h.ready.erase (p, revents)
  | _ => h.ready

def step (h : Hub) : Move → Hub
  | .wait pairs => if !h.gone && pairs.all h.reports then { h with ready := h.ready ++ pairs } else h
  | .act p a =>
    if !h.enabled p a then h
    else
      match (h.ctx p).act a with
      | none => { h with gone := true }
      | some r =>
        { h with ctx := Function.update h.ctx p r.2.2,
                 interest := Function.update h.interest p (interestAfter (h.ctx p) (h.interest p) a),
                 ready := h.readyAfter p a }

end Hub

/-! ## Slots -/

/-- what happens to one direction of a context -/
inductive SlotEvent where
  | registered (sched : Option ℕ) (task : Task)
  /-- `delEvent` returned `true` for a set bit -/
  | deleted
  | enqueued (sched : ℕ) (task : Task)
deriving DecidableEq, Repr

/-- what `addEvent` is asked to resume -/
def taskOf (cb : Option ℕ) (who : Caller) : Task := cb.elim (.fiber who.fiber) .cb

/-- the enqueues of one direction -/
def enqueuesOf (tasks : List Enqueue) (e : Event) : List SlotEvent :=
  (tasks.filter fun t => t.1 = e).map fun t => .enqueued t.2.1 t.2.2

/-- what an action that returned `r` and enqueued `tasks` means for direction `e` -/
def slotEvents (c : FdContext) (a : Act) (r : Ret) (tasks : List Enqueue) (e : Event) : List SlotEvent :=
  match a with
  | .addEvent event cb who _ => if event = e ∧ r = .int 0 then [.registered who.scheduler (taskOf cb who)] else []
  | .delEvent event _ => if event = e ∧ has c.events e = true ∧ r = .bool true then [.deleted] else []
  | _ => enqueuesOf tasks e

namespace Hub

/-- what a move means for direction `e` of context `p` -/
def effects (h : Hub) (p : ℕ) (e : Event) : Move → List SlotEvent
  | .wait _ => []
  | .act q a =>
    if q = p ∧ h.enabled p a = true then ((h.ctx p).act a).elim [] fun r => slotEvents (h.ctx p) a r.1 r.2.1 e else []

/-- what a run means for it -/
def history (p : ℕ) (e : Event) : Hub → List Move → List SlotEvent
  | _, [] => []
  | h, m :: ms => h.effects p e m ++ history p e (h.step m) ms

end Hub

/-! ## The life of a registration -/

/-- from open registration to open registration: registered when there is none, then deleted or enqueued -/
inductive Follows : Option (Option ℕ × Task) → List SlotEvent → Option (Option ℕ × Task) → Prop
  | nil (x : Option (Option ℕ × Task)) : Follows x [] x
  | registered {k : Option ℕ} {t : Task} {l : List SlotEvent} {y : Option (Option ℕ × Task)}
      (h : Follows (some (k, t)) l y) : Follows none (.registered k t :: l) y
  | enqueued {k : ℕ} {t : Task} {l : List SlotEvent} {y : Option (Option ℕ × Task)} (h : Follows none l y) :
      Follows (some (some k, t)) (.enqueued k t :: l) y
  | deleted {x : Option ℕ × Task} {l : List SlotEvent} {y : Option (Option ℕ × Task)} (h : Follows none l y) :
      Follows (some x) (.deleted :: l) y

namespace Follows

variable {x y z : Option (Option ℕ × Task)} {a b : List SlotEvent}

theorem append (h : Follows x a y) (h' : Follows y b z) : Follows x (a ++ b) z := by
  induction h with
  | nil => exact h'
  | registered _ ih => exact .registered (ih h')
  | enqueued _ ih => exact .enqueued (ih h')
  | deleted _ ih => exact .deleted (ih h')

theorem split (h : Follows x (a ++ b) z) : ∃ y, Follows x a y ∧ Follows y b z := by
  induction a generalizing x with
  | nil => exact ⟨x, .nil x, h⟩
  | cons e a ih =>
    cases h with
    | registered h =>
      obtain ⟨y, h1, h2⟩ := ih h
      exact ⟨y, .registered h1, h2⟩
    | enqueued h =>
      obtain ⟨y, h1, h2⟩ := ih h
      exact ⟨y, .enqueued h1, h2⟩
    | deleted h =>
      obtain ⟨y, h1, h2⟩ := ih h
      exact ⟨y, .deleted h1, h2⟩

/-- an open registration is what happened last -/
theorem open_last {w : Option ℕ × Task} (h : Follows x a (some w)) :
    (a = [] ∧ x = some w) ∨ ∃ b, a = b ++ [.registered w.1 w.2] := by
  induction a generalizing x with
  | nil =>
    cases h
    exact Or.inl ⟨rfl, rfl⟩
  | cons e a ih =>
    right
    cases h with
    | registered h =>
      rcases ih h with ⟨rfl, hkt⟩ | ⟨b, rfl⟩
      · cases hkt
        exact ⟨[], rfl⟩
      · exact ⟨_ :: b, rfl⟩
    | enqueued h | deleted h =>
      rcases ih h with ⟨-, hno⟩ | ⟨b, rfl⟩
      · cases hno
      · exact ⟨_ :: b, rfl⟩

end Follows

/-- what happens to a registration until the direction is registered again -/
def outcome (after : List SlotEvent) : List SlotEvent :=
  after.takeWhile fun
    | .registered _ _ => false
    | _ => true

theorem outcome_of_none {after : List SlotEvent} {y : Option (Option ℕ × Task)} (h : Follows none after y) :
    outcome after = [] := by
  cases h with
  | nil => rfl
  | registered h => rfl

/-- the registrations of a direction, `bit` being its bit in the end -/
structure AtMostOnce (hist : List SlotEvent) (bit : Bool) : Prop where
  /-- a registration is pending and its bit is set, or it was deleted and led to no enqueue, or it led to exactly one
  enqueue, of its task into its scheduler -/
  registered : ∀ before sched task after, hist = before ++ .registered sched task :: after →
    (outcome after = [] ∧ after = [] ∧ bit = true) ∨ outcome after = [.deleted] ∨
      ∃ k, sched = some k ∧ outcome after = [.enqueued k task]
  /-- every enqueue is that of the registration right before it -/
  enqueued : ∀ before k task after, hist = before ++ .enqueued k task :: after →
    ∃ b, before = b ++ [.registered (some k) task]

theorem Follows.atMostOnce {hist : List SlotEvent} {y : Option (Option ℕ × Task)} (h : Follows none hist y) :
    AtMostOnce hist y.isSome := by
  constructor
  · rintro before sched task after rfl
    obtain ⟨m, -, hafter⟩ := h.split
    cases hafter with
    | registered hafter =>
      cases hafter with
      | nil => exact Or.inl ⟨rfl, rfl, rfl⟩
      | enqueued hrest =>
        refine Or.inr (Or.inr ⟨_, rfl, ?_⟩)
        show _ :: outcome _ = _
        rw [outcome_of_none hrest]
      | deleted hrest =>
        refine Or.inr (Or.inl ?_)
        show _ :: outcome _ = _
        rw [outcome_of_none hrest]
  · rintro before k task after rfl
    obtain ⟨m, hbefore, hafter⟩ := h.split
    cases hafter with
    | enqueued hrest =>
      rcases hbefore.open_last with ⟨-, hno⟩ | hlast
      · cases hno
      · exact hlast

/-! ## Contexts hold open registrations -/

/-- the `EventContext` of an open registration, empty if there is none -/
def content : Option (Option ℕ × Task) → EventContext
  | none => {}
  | some (sched, .cb f) => { scheduler := sched, cb := some f }
  | some (sched, .fiber f) => { scheduler := sched, fiber := some f }

/-- the open registration of a direction -/
def slot (c : FdContext) (e : Event) : Option (Option ℕ × Task) :=
  match (c.getContext e).cb, (c.getContext e).fiber with
  | some f, _ => some ((c.getContext e).scheduler, .cb f)
  | none, some f => some ((c.getContext e).scheduler, .fiber f)
  | none, none => none

theorem slot_of_content {c : FdContext} {e : Event} {x : Option (Option ℕ × Task)} (h : c.getContext e = content x) :
    slot c e = x := by
  unfold slot
  rw [h]
  match x with
  | none => rfl
  | some (_, .cb _) => rfl
  | some (_, .fiber _) => rfl

/-- a context whose bits say which directions are registered -/
structure Sound (c : FdContext) : Prop where
  valid : Valid c.events
  content : ∀ e, c.getContext e = content (slot c e)
  bit : ∀ e, has c.events e = (slot c e).isSome

/-- one direction changes -/
theorem Sound.change {c c' : FdContext} (h : Sound c) (e : Event) {m : UInt32} {x : Option (Option ℕ × Task)}
    (hc' : c' = ({ c with events := m } : FdContext).setContext e (Sylar.content x)) (hm : Valid m)
    (hbit : has m e = x.isSome) (hother : ∀ e', e' ≠ e → has m e' = has c.events e') :
    Sound c' ∧ slot c' e = x ∧ ∀ e', e' ≠ e → slot c' e' = slot c e' := by
  have hself : c'.getContext e = Sylar.content x := by rw [hc', getContext_setContext_self]
  have hne : ∀ e', e' ≠ e → c'.getContext e' = c.getContext e' := by
    intro e' he'
    rw [hc', getContext_setContext_ne _ _ he', getContext_events]
  have hslot : slot c' e = x := slot_of_content hself
  have hslot' : ∀ e', e' ≠ e → slot c' e' = slot c e' := by
    intro e' he'
    rw [slot, slot, hne e' he']
  have hev : c'.events = m := by rw [hc', setContext_events]
  refine ⟨⟨hev ▸ hm, fun e' => ?_, fun e' => ?_⟩, hslot, hslot'⟩
  · by_cases he : e' = e
    · rw [he, hslot, hself]
    · rw [hslot' e' he, hne e' he, h.content e']
  · by_cases he : e' = e
    · rw [he, hslot, hev, hbit]
    · rw [hslot' e' he, hev, hother e' he, h.bit e']

theorem enqueuesOf_append (a b : List Enqueue) (e : Event) :
    enqueuesOf (a ++ b) e = enqueuesOf a e ++ enqueuesOf b e := by
  simp [enqueuesOf]

/-- clearing a bit and its `EventContext` -/
theorem Sound.clear {c c' : FdContext} (h : Sound c) (e : Event)
    (hc' : c' = ({ c with events := c.events &&& ~~~e.mask } : FdContext).setContext e {}) :
    Sound c' ∧ slot c' e = none ∧ ∀ e', e' ≠ e → slot c' e' = slot c e' := by
  refine h.change e hc' (h.valid.clear e) ?_ fun e' he' => ?_
  · rw [h.valid.has_clear e e]
    simp
  · rw [h.valid.has_clear e e', decide_eq_true he', Bool.true_and]

/-- `triggerEvent` enqueues the open registration and closes it -/
theorem trigger_follows {c c' : FdContext} (h : Sound c) {e : Event} {tasks : List Enqueue}
    (ht : c.trigger e = some (tasks, c')) :
    Sound c' ∧ ∀ e', Follows (slot c e') (enqueuesOf tasks e') (slot c' e') := by
  obtain ⟨⟨ts, c1⟩, htrig, he⟩ := Option.map_eq_some_iff.1 ht
  simp only [Prod.mk.injEq] at he
  obtain ⟨rfl, rfl⟩ := he
  unfold FdContext.triggerEvent at htrig
  split_ifs at htrig with hbit
  have hset : (slot c e).isSome := by
    rw [← h.bit e]
    exact has_iff.2 hbit
  obtain ⟨⟨sched, task⟩, hslot⟩ := Option.isSome_iff_exists.1 hset
  have hctx : c.getContext e = content (some (sched, task)) := by rw [h.content e, hslot]
  simp only [getContext_events, hctx] at htrig
  -- the task is moved out, which empties the `EventContext`
  have hmoved : ∃ k, sched = some k ∧ ts = [(k, task)] ∧
      c1 = ({ c with events := c.events &&& ~~~e.mask } : FdContext).setContext e {} := by
    cases sched with
    | none => cases task <;> simp [content] at htrig
    | some k =>
      refine ⟨k, rfl, ?_⟩
      cases task with
      | cb f =>
        simp only [content, Option.some.injEq, Prod.mk.injEq] at htrig
        exact ⟨htrig.1.symm, htrig.2.symm⟩
      | fiber f =>
        simp only [content, Option.map_some, Option.toList_some, Option.some.injEq, Prod.mk.injEq] at htrig
        exact ⟨htrig.1.symm, htrig.2.symm⟩
  obtain ⟨k, rfl, rfl, hc1⟩ := hmoved
  obtain ⟨hs, hnone, hother⟩ := h.clear e hc1
  refine ⟨hs, fun e' => ?_⟩
  by_cases he' : e' = e
  · subst he'
    rw [hslot, hnone]
    simp only [enqueuesOf, List.map_cons, List.map_nil, decide_true, List.filter_cons_of_pos, List.filter_nil]
    exact .enqueued (.nil none)
  · rw [hother e' he']
    have hempty : enqueuesOf [(e, k, task)] e' = [] := by simp [enqueuesOf, Ne.symm he']
    rw [List.map_cons, List.map_nil, hempty]
    exact .nil _

theorem triggerIf_follows {c c' : FdContext} (h : Sound c) {mask : UInt32} {e : Event} {tasks : List Enqueue}
    (ht : c.triggerIf mask e = some (tasks, c')) :
    Sound c' ∧ ∀ e', Follows (slot c e') (enqueuesOf tasks e') (slot c' e') := by
  unfold FdContext.triggerIf at ht
  split_ifs at ht
  · exact trigger_follows h ht
  · cases ht
    exact ⟨h, fun e' => .nil _⟩

theorem triggerBoth_follows {c c' : FdContext} (h : Sound c) {mask : UInt32} {tasks : List Enqueue}
    (ht : c.triggerBoth mask = some (tasks, c')) :
    Sound c' ∧ ∀ e, Follows (slot c e) (enqueuesOf tasks e) (slot c' e) := by
  obtain ⟨⟨t1, c1⟩, h1, h2⟩ := Option.bind_eq_some_iff.1 ht
  obtain ⟨⟨t2, c2⟩, h3, h4⟩ := Option.map_eq_some_iff.1 h2
  cases h4
  obtain ⟨hs1, hf1⟩ := triggerIf_follows h h1
  obtain ⟨hs2, hf2⟩ := triggerIf_follows hs1 h3
  refine ⟨hs2, fun e => ?_⟩
  rw [enqueuesOf_append]
  exact (hf1 e).append (hf2 e)

/-- what `addEvent` can do and return -/
theorem addEvent_cases {c c' : FdContext} {event : Event} {cb : Option ℕ} {who : Caller} {ok : Bool} {r : Ret}
    (h : c.addEvent event cb who ok = some (r, c')) :
    (r = .int (-1) ∧ c' = c) ∨ (r = .int 0 ∧ has c.events event = false ∧
      c' = ({ c with events := c.events ||| event.mask } : FdContext).setContext event
        (content (some (who.scheduler, taskOf cb who)))) := by
  unfold FdContext.addEvent at h
  by_cases h1 : c.events &&& event.mask ≠ 0
  · rw [if_pos h1] at h
    cases h
  rw [if_neg h1] at h
  have hno : has c.events event = false := by
    rw [has, decide_eq_false_iff_not]
    exact h1
  cases ok with
  | false =>
    cases h
    exact Or.inl ⟨rfl, rfl⟩
  | true =>
    simp only [Bool.not_true, Bool.false_eq_true, if_false] at h
    right
    cases cb with
    | some f =>
      dsimp only at h
      split_ifs at h
      cases h
      exact ⟨rfl, hno, rfl⟩
    | none =>
      dsimp only at h
      split_ifs at h
      cases h
      exact ⟨rfl, hno, rfl⟩

/-- `addEvent` opens the direction, if it returns 0 -/
theorem addEvent_follows {c c' : FdContext} (h : Sound c) {event : Event} {cb : Option ℕ} {who : Caller} {ok : Bool}
    {r : Ret} (hadd : c.addEvent event cb who ok = some (r, c')) :
    Sound c' ∧ ∀ e, Follows (slot c e) (slotEvents c (.addEvent event cb who ok) r [] e) (slot c' e) := by
  simp only [slotEvents]
  rcases addEvent_cases hadd with ⟨rfl, rfl⟩ | ⟨rfl, hno, hc1⟩
  · exact ⟨h, fun e => by simpa using Follows.nil _⟩
  · have hclosed : slot c event = none := by
      have := h.bit event
      rw [hno] at this
      simpa using this.symm
    obtain ⟨hs, hopen, hother⟩ := h.change event hc1 (h.valid.or event)
      (by rw [h.valid.has_or event event]; simp) fun e' he' => by
        rw [h.valid.has_or event e', decide_eq_false he', Bool.false_or]
    refine ⟨hs, fun e => ?_⟩
    by_cases he : event = e
    · subst he
      rw [if_pos ⟨rfl, rfl⟩, hclosed, hopen]
      exact .registered (.nil _)
    · rw [if_neg fun hh => he hh.1, hother e (Ne.symm he)]
      exact .nil _

/-- `delEvent` closes the direction, and drops an open registration -/
theorem delEvent_follows {c : FdContext} (h : Sound c) (event : Event) (ok : Bool) :
    Sound (c.delEvent event ok).2 ∧
      ∀ e, Follows (slot c e) (slotEvents c (.delEvent event ok) (c.delEvent event ok).1 [] e)
        (slot (c.delEvent event ok).2 e) := by
  simp only [slotEvents, FdContext.delEvent]
  split_ifs with h1 h2
  · exact ⟨h, fun e => by simpa using Follows.nil _⟩
  · exact ⟨h, fun e => by simpa using Follows.nil _⟩
  · obtain ⟨hs, hclosed, hother⟩ := h.clear event rfl
    refine ⟨hs, fun e => ?_⟩
    by_cases he : event = e
    · subst he
      rw [FdContext.resetContext, hclosed]
      by_cases hb : has c.events event = true
      · rw [if_pos ⟨rfl, hb, rfl⟩]
        rw [h.bit event] at hb
        obtain ⟨x, hx⟩ := Option.isSome_iff_exists.1 hb
        rw [hx]
        exact .deleted (.nil _)
      · -- the guard lets a clear bit through; the `EventContext` is empty already
        rw [if_neg fun hh => hb hh.2.1]
        rw [h.bit event, Bool.not_eq_true, Option.isSome_eq_false_iff, Option.isNone_iff_eq_none] at hb
        rw [hb]
        exact .nil _
    · rw [if_neg fun hh => he hh.1, FdContext.resetContext, hother e (Ne.symm he)]
      exact .nil _

/-- **What an action does to a direction.** -/
theorem act_follows {c c' : FdContext} (h : Sound c) {a : Act} {r : Ret} {tasks : List Enqueue}
    (ha : c.act a = some (r, tasks, c')) :
    Sound c' ∧ ∀ e, Follows (slot c e) (slotEvents c a r tasks e) (slot c' e) := by
  have hnothing : Sound c ∧ ∀ e, Follows (slot c e) (enqueuesOf [] e) (slot c e) := ⟨h, fun e => .nil _⟩
  cases a with
  | addEvent event cb who ok =>
    obtain ⟨⟨r1, c1⟩, hadd, he⟩ := Option.map_eq_some_iff.1 ha
    cases he
    exact addEvent_follows h hadd
  | delEvent event ok =>
    simp only [FdContext.act, Option.some.injEq, Prod.mk.injEq] at ha
    obtain ⟨rfl, rfl, rfl⟩ := ha
    exact delEvent_follows h event ok
  | cancelEvent event ok =>
    simp only [FdContext.act, FdContext.cancelEvent] at ha
    split_ifs at ha
    · cases ha
      exact hnothing
    · cases ha
      exact hnothing
    · obtain ⟨⟨t1, c1⟩, ht, he⟩ := Option.map_eq_some_iff.1 ha
      cases he
      exact trigger_follows h ht
  | cancelAll ok =>
    simp only [FdContext.act, FdContext.cancelAll] at ha
    split_ifs at ha
    · cases ha
      exact hnothing
    · cases ha
      exact hnothing
    · cases ht : c.triggerBoth c.events with
      | none => simp [ht] at ha
      | some r1 =>
        simp only [ht] at ha
        split_ifs at ha
        cases ha
        exact triggerBoth_follows h ht
  | dispatch revents ok =>
    simp only [FdContext.act, FdContext.dispatch] at ha
    split_ifs at ha
    · cases ha
      exact hnothing
    · cases ha
      exact hnothing
    · obtain ⟨⟨t1, c1⟩, ht, he⟩ := Option.map_eq_some_iff.1 ha
      cases he
      exact triggerBoth_follows h ht

/-! ## Runs -/

namespace Hub

def Sound (h : Hub) : Prop := ∀ p, Sylar.Sound (h.ctx p)

theorem start_sound : start.Sound := by
  intro p
  refine ⟨Or.inl rfl, fun e => ?_, fun e => ?_⟩
  · cases e <;> rfl
  · rw [show (start.ctx p).events = 0 from rfl, has_zero]
    cases e <;> rfl

/-- what a move means for one direction of one context -/
theorem step_follows {h : Hub} (hs : h.Sound) (m : Move) :
    (h.step m).Sound ∧ ∀ p e, Follows (slot (h.ctx p) e) (h.effects p e m) (slot ((h.step m).ctx p) e) := by
  cases m with
  | wait pairs =>
    simp only [step, effects]
    split_ifs
    · exact ⟨hs, fun p e => .nil _⟩
    · exact ⟨hs, fun p e => .nil _⟩
  | act q a =>
    simp only [step, effects]
    by_cases hen : h.enabled q a = true
    · simp only [hen, Bool.not_true, Bool.false_eq_true, if_false]
      cases ha : (h.ctx q).act a with
      | none =>
        refine ⟨hs, fun p e => ?_⟩
        split_ifs with hq
        · rw [← hq.1, ha]
          exact .nil _
        · exact .nil _
      | some r =>
        obtain ⟨r1, tasks, c'⟩ := r
        obtain ⟨hs', hf⟩ := act_follows (hs q) ha
        constructor
        · intro p
          by_cases hp : p = q
          · subst hp
            simpa using hs'
          · simpa [Function.update_of_ne hp] using hs p
        · intro p e
          by_cases hp : p = q
          · subst hp
            rw [if_pos ⟨rfl, hen⟩, ha]
            simpa using hf e
          · rw [if_neg fun hh => hp hh.1.symm]
            simpa [Function.update_of_ne hp] using Follows.nil (slot (h.ctx p) e)
    · simp only [hen, Bool.not_false, if_true]
      refine ⟨hs, fun p e => ?_⟩
      have hother : ¬(q = p ∧ h.enabled p a = true) := by
        rintro ⟨rfl, hp⟩
        exact hen hp
      rw [if_neg hother]
      exact .nil _

theorem history_follows (ms : List Move) {h : Hub} (hs : h.Sound) (p : ℕ) (e : Event) :
    (run step h ms).Sound ∧ Follows (slot (h.ctx p) e) (history p e h ms) (slot ((run step h ms).ctx p) e) := by
  induction ms generalizing h with
  | nil => exact ⟨hs, .nil _⟩
  | cons m ms ih =>
    obtain ⟨hs', hf⟩ := step_follows hs m
    obtain ⟨hs'', hf'⟩ := ih hs'
    exact ⟨hs'', (hf p e).append hf'⟩

/-- **A registration is resumed at most once.** In every run, whatever the threads do in whatever order and whatever
`epoll_ctl` answers, the registrations of every direction of every context are as `AtMostOnce` says. -/
theorem resumed_at_most_once (ms : List Move) (p : ℕ) (e : Event) :
    AtMostOnce (history p e start ms) (has ((run step start ms).ctx p).events e) := by
  obtain ⟨hs, hf⟩ := history_follows ms start_sound p e
  rw [(hs p).bit e]
  have hclosed : slot (start.ctx p) e = none := by cases e <;> rfl
  rw [hclosed] at hf
  exact hf.atMostOnce

/-! ## The handling of reported pairs -/

end Hub

theorem Event.forall_iff {P : Event → Prop} : (∀ e, P e) ↔ P .read ∧ P .write :=
  ⟨fun h => ⟨h _, h _⟩, fun h e => by cases e; exacts [h.1, h.2]⟩

theorem has_or_any (a b : UInt32) (e : Event) : has (a ||| b) e = (has a e || has b e) := by
  have hdist : (a ||| b) &&& e.mask = (a &&& e.mask) ||| (b &&& e.mask) := by
    apply UInt32.toBitVec_inj.1
    ext i hi
    simp [Bool.and_or_distrib_right]
  rw [Bool.eq_iff_iff, Bool.or_eq_true, has_iff, has_iff, has_iff, hdist, Ne, UInt32.or_eq_zero_iff]
  tauto

theorem has_both_and (m : UInt32) (e : Event) : has ((0x1 ||| 0x4) &&& m) e = has m e := by
  have hmask : ((0x1 ||| 0x4) &&& m) &&& e.mask = m &&& e.mask := by
    rw [UInt32.and_comm (0x1 ||| 0x4), UInt32.and_assoc]
    cases e <;> rfl
  rw [has, has, hmask]

/-- what `idle` triggers: the reported directions, and on an error every registered one -/
theorem has_realEvents {revents events : UInt32} (e : Event) :
    has (realEvents revents events) e =
      (has revents e || (decide (revents &&& (EPOLLERR ||| EPOLLHUP) ≠ 0) && has events e)) := by
  have hpick : ∀ m : UInt32, has ((if m &&& 0x1 ≠ 0 then 0x1 else 0) ||| (if m &&& 0x4 ≠ 0 then 0x4 else 0)) e =
      has m e := by
    intro m
    have hread : has m .read = decide (m &&& 0x1 ≠ 0) := rfl
    have hwrite : has m .write = decide (m &&& 0x4 ≠ 0) := rfl
    cases e with
    | read =>
      rw [hread]
      split_ifs with h1 h2 h2 <;> simp [h1] <;> decide
    | write =>
      rw [hwrite]
      split_ifs with h1 h2 h2 <;> simp [h2] <;> decide
  rw [realEvents, hpick]
  split_ifs with herr
  · rw [has_or_any, has_both_and, decide_eq_true herr, Bool.true_and]
  · rw [decide_eq_false herr, Bool.false_and, Bool.or_false]

theorem and_eq_zero_iff {a b : UInt32} (ha : Valid a) (hb : Valid b) :
    a &&& b = 0 ↔ ∀ e, has a e = true → has b e = false := by
  rw [Event.forall_iff]
  rcases ha with rfl | rfl | rfl | rfl <;> rcases hb with rfl | rfl | rfl | rfl <;> decide

namespace Hub

/-- the `triggerEvent` calls `idle` makes for a pair, each with the mask `events` has at the call -/
def idleTriggers (c : FdContext) (revents : UInt32) (ok : Bool) : List (UInt32 × Event) :=
  let real_events := realEvents revents c.events
  if c.events &&& real_events = 0 then []
  else if !ok then []
  else
    (if has real_events .read then [(c.events, .read)] else []) ++
      (if has real_events .write then
        [(if has real_events .read then c.events &&& ~~~Event.read.mask else c.events, .write)]
      else [])

/-- a `triggerEvent` that returns has passed its assertion -/
theorem trigger_pass {c c' : FdContext} {e : Event} {tasks : List Enqueue} (h : c.trigger e = some (tasks, c')) :
    has c.events e = true ∧ c'.events = c.events &&& ~~~e.mask := by
  obtain ⟨⟨t1, c1⟩, htrig, he⟩ := Option.map_eq_some_iff.1 h
  cases he
  unfold FdContext.triggerEvent at htrig
  split_ifs at htrig with hbit
  refine ⟨has_iff.2 hbit, ?_⟩
  dsimp only at htrig
  split at htrig
  · cases htrig
  · split at htrig <;> cases htrig <;> simp

/-- `if (mask & event) triggerEvent(event)` -/
theorem triggerIf_pass {c c' : FdContext} {mask : UInt32} {e : Event} {tasks : List Enqueue}
    (h : c.triggerIf mask e = some (tasks, c')) :
    (has mask e = true → has c.events e = true) ∧
      c'.events = if has mask e then c.events &&& ~~~e.mask else c.events := by
  unfold FdContext.triggerIf at h
  by_cases hm : mask &&& e.mask ≠ 0
  · rw [if_pos hm] at h
    obtain ⟨h1, h2⟩ := trigger_pass h
    rw [if_pos (has_iff.2 hm)]
    exact ⟨fun _ => h1, h2⟩
  · rw [if_neg hm] at h
    cases h
    rw [if_neg fun hh => hm (has_iff.1 hh)]
    exact ⟨fun hh => absurd (has_iff.1 hh) hm, rfl⟩

/-- a handling that goes through has passed every assertion -/
theorem idleTriggers_of_dispatch {c : FdContext} {revents : UInt32} {ok : Bool} {r : Ret × List Enqueue × FdContext}
    (h : c.dispatch revents ok = some r) : ∀ x ∈ idleTriggers c revents ok, has x.1 x.2 = true := by
  simp only [FdContext.dispatch, idleTriggers] at h ⊢
  by_cases h1 : c.events &&& realEvents revents c.events = 0
  · simp [h1]
  cases ok with
  | false => simp
  | true =>
    simp only [h1, Bool.not_true, Bool.false_eq_true, if_false] at h ⊢
    obtain ⟨r1, hboth, -⟩ := Option.map_eq_some_iff.1 h
    obtain ⟨⟨t1, c1⟩, hread, hrest⟩ := Option.bind_eq_some_iff.1 hboth
    obtain ⟨⟨t2, c2⟩, hwrite, -⟩ := Option.map_eq_some_iff.1 hrest
    obtain ⟨hr1, hr2⟩ := triggerIf_pass hread
    obtain ⟨hw1, -⟩ := triggerIf_pass hwrite
    rw [hr2] at hw1
    intro x hx
    rcases List.mem_append.1 hx with hx | hx
    · split_ifs at hx with hr
      · rw [List.mem_singleton.1 hx]
        exact hr1 hr
      · cases hx
    · by_cases hw : has (realEvents revents c.events) .write = true
      · rw [if_pos hw] at hx
        rw [List.mem_singleton.1 hx]
        exact hw1 hw
      · rw [if_neg hw] at hx
        cases hx

/-- the assertion `events & event` holds at every `triggerEvent` call the move makes from `idle` -/
def AssertsHold (h : Hub) : Move → Prop
  | .act p (.dispatch revents ok) =>
    h.enabled p (.dispatch revents ok) = true → ∀ x ∈ idleTriggers (h.ctx p) revents ok, has x.1 x.2 = true
  | _ => True

/-- the directions `epoll_wait` reported are all still registered, or there is nothing to trigger: none of them is,
and no `ERR` or `HUP` stands for what else is registered -/
def StillRegistered (c : FdContext) (revents : UInt32) : Prop :=
  (∀ e, has revents e = true → has c.events e = true) ∨
    ((∀ e, has revents e = true → has c.events e = false) ∧
      (revents &&& (EPOLLERR ||| EPOLLHUP) = 0 ∨ ∀ e, has c.events e = false))

/-- the condition on a move: a pair whose mask the kernel accepts is handled while it is `StillRegistered` -/
def HandlesRegistered (h : Hub) : Move → Prop
  | .act p (.dispatch revents true) =>
    h.enabled p (.dispatch revents true) = true → StillRegistered (h.ctx p) revents
  | _ => True

theorem idleTriggers_hold_iff {c : FdContext} (hc : Sylar.Sound c) (revents : UInt32) :
    (∀ x ∈ idleTriggers c revents true, has x.1 x.2 = true) ↔ StillRegistered c revents := by
  have hwrite : has (if has (realEvents revents c.events) .read = true then c.events &&& ~~~Event.read.mask else c.events)
      .write = has c.events .write := by
    split_ifs
    · rw [hc.valid.has_clear .read .write, decide_eq_true (by decide), Bool.true_and]
    · rfl
  have hcalls : (∀ x ∈ idleTriggers c revents true, has x.1 x.2 = true) ↔
      (c.events &&& realEvents revents c.events = 0 ∨
        ∀ e, has (realEvents revents c.events) e = true → has c.events e = true) := by
    rw [Event.forall_iff]
    simp only [idleTriggers, Bool.not_true, Bool.false_eq_true, if_false]
    by_cases h1 : c.events &&& realEvents revents c.events = 0
    · simp [h1]
    · rw [if_neg h1, List.forall_mem_append, or_iff_right h1]
      refine and_congr ?_ ?_
      · split_ifs with hr <;> simp [hr]
      · by_cases hw : has (realEvents revents c.events) .write = true
        · simp only [hw, if_true, List.forall_mem_singleton, hwrite, true_imp_iff]
        · simp [hw]
  rw [hcalls, and_eq_zero_iff hc.valid (realEvents_valid _ _), StillRegistered]
  simp only [has_realEvents, Event.forall_iff]
  by_cases herr : revents &&& (EPOLLERR ||| EPOLLHUP) = 0
  · simp only [herr, ne_eq, not_true_eq_false, decide_false, Bool.false_and, Bool.or_false, true_or, and_true]
    cases has revents .read <;> cases has revents .write <;> cases has c.events .read <;> cases has c.events .write <;>
      decide
  · simp only [herr, ne_eq, not_false_eq_true, decide_true, Bool.true_and, false_or]
    cases has revents .read <;> cases has revents .write <;> cases has c.events .read <;> cases has c.events .write <;>
      decide
theorem assertsHold_iff {h : Hub} (hs : h.Sound) (m : Move) : AssertsHold h m ↔ HandlesRegistered h m := by
  cases m with
  | wait pairs => exact Iff.rfl
  | act p a =>
    cases a with
    | dispatch revents ok =>
      cases ok with
      | true => exact imp_congr Iff.rfl (idleTriggers_hold_iff (hs p) revents)
      | false =>
        refine iff_of_true (fun _ x hx => ?_) trivial
        simp [idleTriggers] at hx
    | _ => exact Iff.rfl

/-- **Dispatch and registrations.** In every run, the assertion of `triggerEvent` holds at every call `idle` makes iff
every reported pair is handled while its reported directions are all still registered, or nothing is left to trigger.
-/
theorem dispatch_registered_iff (ms : List Move) :
    Along AssertsHold step start ms ↔ Along HandlesRegistered step start ms := by
  have hall : ∀ (ms : List Move) {h : Hub}, h.Sound →
      (Along AssertsHold step h ms ↔ Along HandlesRegistered step h ms) := by
    intro ms
    induction ms with
    | nil => exact fun _ => Iff.rfl
    | cons m ms ih => exact fun hs => and_congr (assertsHold_iff hs m) (ih (step_follows hs m).1)
  exact hall ms start_sound

/-- the run of the failing input: both directions wait, both are reported, and one is deleted before `idle` gets to it
-/
def deletedInBetween : List Move :=
  [.act 7 (.addEvent .read (some 1) ⟨some 0, 0, true⟩ true), .act 7 (.addEvent .write (some 2) ⟨some 0, 0, true⟩ true),
    .wait [(7, 0x5)], .act 7 (.delEvent .read true), .act 7 (.dispatch 0x5 true)]

theorem dispatch_after_delEvent : ¬Along AssertsHold step start deletedInBetween := by
  intro hall
  have hlast := hall.2.2.2.2.1 (by decide) (4, .read) (by decide)
  revert hlast
  decide

end Hub

end Sylar
