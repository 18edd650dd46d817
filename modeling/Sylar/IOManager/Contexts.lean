/-
The fd contexts as objects.

Every operation on events does its work under the mutex of one `FdContext`; here that part is a function of the object
alone (`act`), with the answer of `epoll_ctl` as an argument, so that a result about it holds for every table of
contexts, every interleaving and every failure of the kernel. `none` is a failed assertion or a null `Scheduler*`, as in
`IOManager/Events`.

- `call_act`: a call on the table of `IOManager/Events` is `act` on the context of its fd, with the kernel's answer.
-/
import Mathlib.Tactic
import Sylar.IOManager.Events
import Sylar.IOManager.Accounting

namespace Sylar

open IOManager

/-- a task put into a scheduler's queue by the trigger of an event -/
abbrev Enqueue := Event × ℕ × Task

/-- what a thread does under the mutex of an `FdContext`; `ok` says that `epoll_ctl` returns 0 -/
inductive Act where
  | addEvent (event : Event) (cb : Option ℕ) (who : Caller) (ok : Bool)
  | delEvent (event : Event) (ok : Bool)
  | cancelEvent (event : Event) (ok : Bool)
  | cancelAll (ok : Bool)
  | dispatch (revents : UInt32) (ok : Bool)
deriving DecidableEq, Repr

namespace FdContext

/-- `triggerEvent`, with the event in what it enqueues -/
def trigger (c : FdContext) (event : Event) : Option (List Enqueue × FdContext) :=
  (c.triggerEvent event).map fun r => (r.1.map fun t => (event, t), r.2)

def triggerIf (c : FdContext) (mask : UInt32) (event : Event) : Option (List Enqueue × FdContext) :=
  if mask &&& event.mask ≠ 0 then c.trigger event else some ([], c)

/-- the events of `mask`, `READ` first -/
def triggerBoth (c : FdContext) (mask : UInt32) : Option (List Enqueue × FdContext) :=
  (c.triggerIf mask .read).bind fun r => (r.2.triggerIf mask .write).map fun r' => (r.1 ++ r'.1, r'.2)

/-- `addEvent` from the lock on -/
def addEvent (c : FdContext) (event : Event) (cb : Option ℕ) (who : Caller) (ok : Bool) : Option (Ret × FdContext) :=
  if c.events &&& event.mask ≠ 0 then none
  else if !ok then some (.int (-1), c)
  else
    let c := { c with events := c.events ||| event.mask }
    let event_ctx := c.getContext event
    if event_ctx.scheduler.isSome ∨ event_ctx.fiber.isSome ∨ event_ctx.cb.isSome then none
    else
      match cb with
      | some f => some (.int 0, c.setContext event { scheduler := who.scheduler, cb := some f })
      | none =>
        if who.exec then some (.int 0, c.setContext event { scheduler := who.scheduler, fiber := some who.fiber }) else none

/-- `delEvent` from the lock on -/
def delEvent (c : FdContext) (event : Event) (ok : Bool) : Ret × FdContext :=
  if IOManager.not c.events &&& event.mask ≠ 0 then (.bool false, c)
  else if !ok then (.bool false, c)
  else (.bool true, ({ c with events := c.events &&& ~~~event.mask }).resetContext event)

/-- `cancelEvent` from the lock on -/
def cancelEvent (c : FdContext) (event : Event) (ok : Bool) : Option (Ret × List Enqueue × FdContext) :=
  if IOManager.not c.events &&& event.mask ≠ 0 then some (.bool false, [], c)
  else if !ok then some (.bool false, [], c)
  else (c.trigger event).map fun r => (.bool true, r)

/-- `cancelAll` from the lock on -/
def cancelAll (c : FdContext) (ok : Bool) : Option (Ret × List Enqueue × FdContext) :=
  if c.events = 0 then some (.bool false, [], c)
  else if !ok then some (.bool false, [], c)
  else
    match c.triggerBoth c.events with
    | none => none
    | some r => if r.2.events = 0 then some (.bool true, r) else none

/-- the handling of a ready pair in `idle` -/
def dispatch (c : FdContext) (revents : UInt32) (ok : Bool) : Option (Ret × List Enqueue × FdContext) :=
  let real_events := realEvents revents c.events
  if c.events &&& real_events = 0 then some (.unit, [], c)
  else if !ok then some (.unit, [], c)
  else (c.triggerBoth real_events).map fun r => (.unit, r)

def act (c : FdContext) : Act → Option (Ret × List Enqueue × FdContext)
  | .addEvent event cb who ok => (c.addEvent event cb who ok).map fun r => (r.1, [], r.2)
  | .delEvent event ok => some ((c.delEvent event ok).1, [], (c.delEvent event ok).2)
  | .cancelEvent event ok => c.cancelEvent event ok
  | .cancelAll ok => c.cancelAll ok
  | .dispatch revents ok => c.dispatch revents ok

end FdContext

/-! ## The table of contexts -/

namespace IOManager

/-- the fd a call is about -/
def Op.fd : Op → ℕ
  | .addEvent fd _ _ _ | .delEvent fd _ | .cancelEvent fd _ | .cancelAll fd | .dispatch fd _ => fd

/-- what a call does under the lock of its context -/
def Op.act (ok : Bool) : Op → Act
  | .addEvent _ event cb who => .addEvent event cb who ok
  | .delEvent _ event => .delEvent event ok
  | .cancelEvent _ event => .cancelEvent event ok
  | .cancelAll _ => .cancelAll ok
  | .dispatch _ revents => .dispatch revents ok

/-- the contexts and the queues after an action on the context of `fd` -/
def Acted (s s' : IOManager) (fd : ℕ) (tasks : List Enqueue) (c' : FdContext) : Prop :=
  s'.fdContexts = s.fdContexts.set fd c' ∧ s'.scheduled = s.scheduled ++ tasks.map Prod.snd

theorem Acted.nothing {s s' : IOManager} {fd : ℕ} {c : FdContext} (hc : s.fdContexts[fd]? = some c)
    (hctx : s'.fdContexts = s.fdContexts) (hq : s'.scheduled = s.scheduled) : Acted s s' fd [] c := by
  obtain ⟨hi, hget⟩ := List.getElem?_eq_some_iff.1 hc
  refine ⟨?_, by rw [hq, List.map_nil, List.append_nil]⟩
  rw [hctx, ← hget, List.set_getElem_self]

theorem Acted.get {s s' : IOManager} {fd : ℕ} {tasks : List Enqueue} {c c' : FdContext} (h : Acted s s' fd tasks c')
    (hc : s.fdContexts[fd]? = some c) : s'.fdContexts[fd]? = some c' := by
  rw [h.1, List.getElem?_set_self (List.getElem?_eq_some_iff.1 hc).1]

theorem Acted.trans {s s' s'' : IOManager} {fd : ℕ} {t t' : List Enqueue} {c c' : FdContext} (h : Acted s s' fd t c)
    (h' : Acted s' s'' fd t' c') : Acted s s'' fd (t ++ t') c' := by
  refine ⟨?_, ?_⟩
  · rw [h'.1, h.1, List.set_set]
  · rw [h'.2, h.2, List.append_assoc, List.map_append]

/-- the kernel has no hand in the contexts and the queues -/
theorem epollCtl_frame {s s' : IOManager} {op : CtlOp} {fd : ℕ} {m : UInt32} {ok : Bool}
    (h : s.epollCtl op fd m = (ok, s')) : s'.fdContexts = s.fdContexts ∧ s'.scheduled = s.scheduled := by
  unfold epollCtl at h
  split at h <;> cases h <;> exact ⟨rfl, rfl⟩

/-- a change of the context after the kernel has answered -/
theorem Acted.after_ctl {s s1 s' : IOManager} {fd : ℕ} {tasks : List Enqueue} {c' : FdContext}
    (hf : s1.fdContexts = s.fdContexts ∧ s1.scheduled = s.scheduled) (h : Acted s1 s' fd tasks c') :
    Acted s s' fd tasks c' := by
  obtain ⟨h1, h2⟩ := h
  rw [hf.1] at h1
  rw [hf.2] at h2
  exact ⟨h1, h2⟩

theorem trigger_act {s s' : IOManager} {fd : ℕ} {e : Event} {c : FdContext} (hc : s.fdContexts[fd]? = some c)
    (h : s.trigger fd e = some s') : ∃ tasks c', c.trigger e = some (tasks, c') ∧ Acted s s' fd tasks c' := by
  simp only [IOManager.trigger, hc] at h
  cases ht : c.triggerEvent e with
  | none => simp [ht] at h
  | some r =>
    obtain ⟨tasks, c'⟩ := r
    simp only [ht, Option.some.injEq] at h
    subst h
    refine ⟨tasks.map fun t => (e, t), c', by rw [FdContext.trigger, ht]; rfl, rfl, ?_⟩
    rw [List.map_map]
    simp [Function.comp_def]

theorem triggerIf_act {s s' : IOManager} {fd : ℕ} {mask : UInt32} {e : Event} {c : FdContext}
    (hc : s.fdContexts[fd]? = some c) (h : s.triggerIf fd mask e = some s') :
    ∃ tasks c', c.triggerIf mask e = some (tasks, c') ∧ Acted s s' fd tasks c' := by
  simp only [IOManager.triggerIf] at h
  simp only [FdContext.triggerIf]
  split_ifs at h ⊢
  · exact trigger_act hc h
  · cases h
    exact ⟨[], c, rfl, .nothing hc rfl rfl⟩

theorem triggerBoth_act {s s' : IOManager} {fd : ℕ} {mask : UInt32} {c : FdContext} (hc : s.fdContexts[fd]? = some c)
    (h : s.triggerBoth fd mask = some s') :
    ∃ tasks c', c.triggerBoth mask = some (tasks, c') ∧ Acted s s' fd tasks c' := by
  obtain ⟨s1, h1, h2⟩ := Option.bind_eq_some_iff.1 h
  obtain ⟨t1, c1, e1, a1⟩ := triggerIf_act hc h1
  obtain ⟨t2, c2, e2, a2⟩ := triggerIf_act (a1.get hc) h2
  exact ⟨t1 ++ t2, c2, by simp [FdContext.triggerBoth, e1, e2], a1.trans a2⟩

/-- the common part of `delEvent` and `cancelEvent` on an fd the table has -/
theorem removeEvent_eq {s : IOManager} {fd : ℕ} {e : Event} {c : FdContext} (hin : intGt s.fdContexts.length fd)
    (hc : s.fdContexts[fd]? = some c) :
    ∃ ok s1, (s1.fdContexts = s.fdContexts ∧ s1.scheduled = s.scheduled) ∧ s.removeEvent fd e =
      if IOManager.not c.events &&& e.mask ≠ 0 then some (.inl (.bool false))
      else if !ok then some (.inl (.bool false)) else some (.inr (c, s1)) := by
  rcases hr : s.epollCtl (if c.events &&& ~~~e.mask ≠ 0 then .mod else .del) fd (EPOLLET ||| c.events &&& ~~~e.mask) with
    ⟨ok, s1⟩
  refine ⟨ok, s1, epollCtl_frame hr, ?_⟩
  simp only [removeEvent, not_not.2 hin, if_false, hc, hr]

section

variable {s s' : IOManager} {fd : ℕ} {r : Ret} {c : FdContext}

theorem addEvent_act {e : Event} {cb : Option ℕ} {who : Caller} (hin : intGt s.fdContexts.length fd)
    (hc : s.fdContexts[fd]? = some c) (h : s.addEvent fd e cb who = some (r, s')) :
    ∃ ok c', c.addEvent e cb who ok = some (r, c') ∧ Acted s s' fd [] c' := by
  have htable : s.tableFor fd = s := by rw [tableFor, if_pos hin]
  simp only [IOManager.addEvent, htable, hc, addEventLocked] at h
  rcases hr : s.epollCtl (if c.events ≠ 0 then .mod else .add) fd (EPOLLET ||| c.events ||| e.mask) with ⟨ok, s1⟩
  have hf := epollCtl_frame hr
  rw [hr] at h
  by_cases h1 : c.events &&& e.mask ≠ 0
  · rw [if_pos h1] at h
    cases h
  rw [if_neg h1] at h
  cases ok with
  | false =>
    cases h
    exact ⟨false, c, by simp [FdContext.addEvent, h1], .nothing hc hf.1 hf.2⟩
  | true =>
    simp only [Bool.not_true, Bool.false_eq_true, if_false] at h
    refine ⟨true, ?_⟩
    simp only [FdContext.addEvent, if_neg h1, Bool.not_true, Bool.false_eq_true, if_false]
    cases cb with
    | some f =>
      dsimp only at h ⊢
      split_ifs at h ⊢
      cases h
      exact ⟨_, rfl, .after_ctl hf ⟨rfl, by simp [setFdContext]⟩⟩
    | none =>
      dsimp only at h ⊢
      split_ifs at h ⊢
      cases h
      exact ⟨_, rfl, .after_ctl hf ⟨rfl, by simp [setFdContext]⟩⟩

theorem delEvent_act {e : Event} (hin : intGt s.fdContexts.length fd) (hc : s.fdContexts[fd]? = some c)
    (h : s.delEvent fd e = some (r, s')) :
    ∃ ok, (c.delEvent e ok).1 = r ∧ Acted s s' fd [] (c.delEvent e ok).2 := by
  obtain ⟨ok, s1, hf, hrem⟩ := removeEvent_eq (e := e) hin hc
  simp only [IOManager.delEvent] at h
  refine ⟨ok, ?_⟩
  simp only [FdContext.delEvent]
  split_ifs at hrem ⊢ with h1 h2
  · rw [hrem] at h
    cases h
    exact ⟨rfl, .nothing hc rfl rfl⟩
  · rw [hrem] at h
    cases h
    exact ⟨rfl, .nothing hc rfl rfl⟩
  · rw [hrem] at h
    cases h
    exact ⟨rfl, .after_ctl hf ⟨rfl, by simp [setFdContext]⟩⟩

theorem cancelEvent_act {e : Event} (hin : intGt s.fdContexts.length fd) (hc : s.fdContexts[fd]? = some c)
    (h : s.cancelEvent fd e = some (r, s')) :
    ∃ ok tasks c', c.cancelEvent e ok = some (r, tasks, c') ∧ Acted s s' fd tasks c' := by
  obtain ⟨ok, s1, hf, hrem⟩ := removeEvent_eq (e := e) hin hc
  simp only [IOManager.cancelEvent] at h
  refine ⟨ok, ?_⟩
  simp only [FdContext.cancelEvent]
  split_ifs at hrem ⊢ with h1 h2
  · rw [hrem] at h
    cases h
    exact ⟨_, _, rfl, .nothing hc rfl rfl⟩
  · rw [hrem] at h
    cases h
    exact ⟨_, _, rfl, .nothing hc rfl rfl⟩
  · rw [hrem] at h
    obtain ⟨s2, ht, he⟩ := Option.map_eq_some_iff.1 h
    obtain ⟨tasks, c', e1, a1⟩ := trigger_act (hf.1 ▸ hc) ht
    cases he
    exact ⟨tasks, c', by rw [e1]; rfl, a1.after_ctl hf⟩

theorem cancelAll_act (hin : intGt s.fdContexts.length fd) (hc : s.fdContexts[fd]? = some c)
    (h : s.cancelAll fd = some (r, s')) :
    ∃ ok tasks c', c.cancelAll ok = some (r, tasks, c') ∧ Acted s s' fd tasks c' := by
  simp only [IOManager.cancelAll, not_not.2 hin, if_false, hc] at h
  rcases hr : s.epollCtl .del fd 0 with ⟨ok, s1⟩
  have hf := epollCtl_frame hr
  rw [hr] at h
  split_ifs at h with h1 h2
  · cases h
    exact ⟨false, [], c, by simp [FdContext.cancelAll, h1], .nothing hc rfl rfl⟩
  · cases h
    exact ⟨false, [], c, by simp [FdContext.cancelAll, h1], .nothing hc hf.1 hf.2⟩
  · cases ht : s1.triggerBoth fd c.events with
    | none => simp [ht] at h
    | some s2 =>
      obtain ⟨tasks, c', e1, a1⟩ := triggerBoth_act (hf.1 ▸ hc) ht
      have hget := a1.get (hf.1 ▸ hc)
      simp only [ht, hget] at h
      split_ifs at h with h3
      cases h
      exact ⟨true, tasks, c', by simp [FdContext.cancelAll, h1, e1, h3], a1.after_ctl hf⟩

theorem dispatch_act {revents : UInt32} (hc : s.fdContexts[fd]? = some c)
    (h : s.dispatch fd revents = some (r, s')) :
    ∃ ok tasks c', c.dispatch revents ok = some (r, tasks, c') ∧ Acted s s' fd tasks c' := by
  simp only [IOManager.dispatch, hc] at h
  rcases hr : s.epollCtl (if c.events &&& ~~~realEvents revents c.events ≠ 0 then .mod else .del) c.fd
    (EPOLLET ||| c.events &&& ~~~realEvents revents c.events) with ⟨ok, s1⟩
  have hf := epollCtl_frame hr
  rw [hr] at h
  split_ifs at h with h1 h2
  · cases h
    exact ⟨false, [], c, by simp [FdContext.dispatch, h1], .nothing hc rfl rfl⟩
  · cases h
    exact ⟨false, [], c, by simp [FdContext.dispatch], .nothing hc hf.1 hf.2⟩
  · obtain ⟨s2, ht, he⟩ := Option.map_eq_some_iff.1 h
    obtain ⟨tasks, c', e1, a1⟩ := triggerBoth_act (hf.1 ▸ hc) ht
    cases he
    exact ⟨true, tasks, c', by simp [FdContext.dispatch, h1, e1], a1.after_ctl hf⟩

/-- **The table does what the objects do.** A call on an fd the table has is the action on its context, for the answer
the kernel gives. -/
theorem call_act {o : Op} (hin : intGt s.fdContexts.length o.fd) (hc : s.fdContexts[o.fd]? = some c)
    (h : s.call o = some (r, s')) :
    ∃ ok tasks c', c.act (o.act ok) = some (r, tasks, c') ∧ Acted s s' o.fd tasks c' := by
  cases o with
  | addEvent fd e cb who =>
    obtain ⟨ok, c', hact, hacted⟩ := addEvent_act hin hc h
    exact ⟨ok, [], c', by simp only [Op.act, FdContext.act, hact]; rfl, hacted⟩
  | delEvent fd e =>
    obtain ⟨ok, hret, hacted⟩ := delEvent_act hin hc h
    exact ⟨ok, [], (c.delEvent e ok).2, by simp only [Op.act, FdContext.act, hret], hacted⟩
  | cancelEvent fd e => exact cancelEvent_act hin hc h
  | cancelAll fd => exact cancelAll_act hin hc h
  | dispatch fd revents => exact dispatch_act hc h

end

end IOManager

end Sylar
