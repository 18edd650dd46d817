/-
Switching contexts on one thread (`sylar/fiber.cpp`, and what `scheduler.cpp` does with it).

`swapcontext` saves the code that runs in one `ucontext_t` and goes on with what another one holds: the start of
`MainFunc` or `CallerMainFunc`, or the place where some code was saved. `call`, `back`, `swapIn` and `swapOut` take these
two contexts from `this` and from thread-local pointers, and none of them asks who is running. Here the code of a fiber
and the fiber have the same number; 0 is the thread's own code. A context that has been resumed holds nothing any more,
and to go on with it is the end (`lost`), as is a null pointer or a failed assertion.

The purpose of it all are coroutines (`Coro`): whoever is resumed starts or goes on where it left, and whoever leaves
gives control back to the one that resumed it.
- `switches_refine`: in every run in which the thread's own code calls, the scheduler's fiber swaps in, and a fiber
  leaves towards the one that resumed it (`Coro.Ok`), every switch lands where the coroutines say, and `t_fiber` is the
  fiber that runs.
- `call_loses_thread`: a fiber another one has resumed uses `call()`. The place where the thread's own code waits (on a
  thread of the pool, in `run()`) is overwritten, and nothing that is done later brings it back.
-/
import Mathlib.Tactic
import Sylar.Core.Run
import Sylar.Scheduler.Fibers

namespace Sylar.Switch

open Sylar.Core Sylar.Fibers

/-! ## The contexts of a thread -/

/-- what a `ucontext_t` holds -/
inductive Context where
  /-- what `getcontext` put there, or a place that has been resumed -/
  | used
  /-- the start of `CallerMainFunc` or of `MainFunc` -/
  | entry (use_caller : Bool)
  /-- where the code of fiber `f` called `swapcontext` -/
  | saved (f : ℕ)
deriving DecidableEq, Repr

/-- a `Fiber` object -/
structure Fib where
  state : State
  /-- `m_stack` is not null -/
  stack : Bool
  ctx : Context
deriving DecidableEq, Repr

structure Thread where
  fibers : ℕ → Option Fib
  tFiber : Option ℕ
  tThreadFiber : Option ℕ
  tSchedulerFiber : Option ℕ
  /-- whose code runs -/
  running : ℕ
  /-- the local `cur` of `MainFunc` or `CallerMainFunc`, and which of the two it is -/
  cur : ℕ → Option (ℕ × Bool)
  gone : Bool

def Thread.start : Thread :=
  { fibers := fun _ => none, tFiber := none, tThreadFiber := none, tSchedulerFiber := none, running := 0
    cur := fun _ => none, gone := false }

/-- where control is after a step -/
inductive Landing where
  | stays
  | starts (f : ℕ)
  | continues (f : ℕ)
  | lost
deriving DecidableEq, Repr

namespace Thread

def lose (s : Thread) : Landing × Thread := (.lost, { s with gone := true })

def setFiber (s : Thread) (f : ℕ) (x : Fib) : Thread := { s with fibers := Function.update s.fibers f (some x) }

/-- go on with the context of `f` -/
def resume (s : Thread) (f : ℕ) : Landing × Thread :=
  match s.fibers f with
  | none => s.lose
  | some x =>
    let s' := s.setFiber f { x with ctx := .used }
    match x.ctx with
    | .used => s.lose
    -- the first thing the entry function does is `cur = GetThis()`
    | .entry use_caller =>
      (.starts f, { s' with running := f, cur := Function.update s.cur f (s.tFiber.map fun g => (g, use_caller)) })
    | .saved g => (.continues g, { s' with running := g })

/-- `swapcontext(&save->m_ctx, &load->m_ctx)` -/
def swapcontext (s : Thread) (save load : ℕ) : Landing × Thread :=
  match s.fibers save with
  | none => s.lose
  | some x => (s.setFiber save { x with ctx := .saved s.running }).resume load

def setState (s : Thread) (f : ℕ) (st : State) : Thread :=
  match s.fibers f with
  | none => s
  | some x => s.setFiber f { x with state := st }

/-- `GetThis()`: the main fiber of the thread is made when it is asked for first -/
def getThis (s : Thread) : Thread :=
  match s.tFiber with
  | some _ => s
  | none =>
    { s.setFiber s.running { state := .exec, stack := false, ctx := .used } with
      tFiber := some s.running, tThreadFiber := some s.running }

def call (s : Thread) (f : ℕ) : Landing × Thread :=
  let s := ({ s with tFiber := some f } : Thread).setState f .exec
  match s.tThreadFiber with
  | none => s.lose
  | some t => s.swapcontext t f

def back (s : Thread) (f : ℕ) : Landing × Thread :=
  let s : Thread := { s with tFiber := s.tThreadFiber }
  match s.tThreadFiber with
  | none => s.lose
  | some t => s.swapcontext f t

def swapIn (s : Thread) (f : ℕ) : Landing × Thread :=
  let s : Thread := { s with tFiber := some f }
  if (s.fibers f).any fun x => x.state = .exec then s.lose
  else
    let s := s.setState f .exec
    match s.tSchedulerFiber with
    | none => s.lose
    | some t => s.swapcontext t f

def swapOut (s : Thread) (f : ℕ) : Landing × Thread :=
  let s : Thread := { s with tFiber := s.tSchedulerFiber }
  match s.tSchedulerFiber with
  | none => s.lose
  | some t => s.swapcontext f t

/-- `YieldToReady()` and `YieldToHold()` -/
def yield (s : Thread) (st : State) : Landing × Thread :=
  let s := s.getThis
  match s.tFiber with
  | none => s.lose
  | some f => (s.setState f st).swapOut f

/-- the end of `MainFunc` or `CallerMainFunc` -/
def finish (s : Thread) (st : State) : Landing × Thread :=
  match s.cur s.running with
  | none => s.lose
  | some (f, use_caller) => if use_caller then (s.setState f st).back f else (s.setState f st).swapOut f

/-- `Fiber::reset` -/
def reset (s : Thread) (f : ℕ) : Landing × Thread :=
  match s.fibers f with
  | none => s.lose
  | some x =>
    if x.stack = true ∧ (x.state = .term ∨ x.state = .init ∨ x.state = .except) then
      (.stays, s.setFiber f { x with state := .init, ctx := .entry false })
    else s.lose

end Thread

/-- what the code that runs does next -/
inductive Op where
  | getThis
  /-- `new Fiber(cb, stacksize, use_caller)` -/
  | create (f : ℕ) (use_caller : Bool)
  | reset (f : ℕ)
  /-- `t_scheduler_fiber = f`, in the constructor of the scheduler or in `run()` -/
  | setScheduler (f : ℕ)
  | call (f : ℕ)
  | back (f : ℕ)
  | swapIn (f : ℕ)
  | swapOut (f : ℕ)
  /-- `YieldToReady()`, or `YieldToHold()` -/
  | yield (ready : Bool)
  /-- the function of the fiber returns, or throws -/
  | finish (throws : Bool)
  /-- `m_state = HOLD` in `run()` -/
  | hold (f : ℕ)
deriving DecidableEq, Repr

def yieldState (ready : Bool) : State := if ready then .ready else .hold

def finishState (throws : Bool) : State := if throws then .except else .term

def Thread.stepAlive (s : Thread) : Op → Landing × Thread
  | .getThis => (.stays, s.getThis)
  | .create f use_caller => (.stays, s.setFiber f { state := .init, stack := true, ctx := .entry use_caller })
  | .reset f => s.reset f
  | .setScheduler f => (.stays, { s with tSchedulerFiber := some f })
  | .call f => s.call f
  | .back f => s.back f
  | .swapIn f => s.swapIn f
  | .swapOut f => s.swapOut f
  | .yield ready => s.yield (yieldState ready)
  | .finish throws => s.finish (finishState throws)
  | .hold f => (.stays, s.setState f .hold)

def Thread.step (s : Thread) (o : Op) : Landing × Thread := if s.gone then (.lost, s) else s.stepAlive o

/-! ## Coroutines -/

/-- what has become of a fiber -/
inductive Life where
  | unborn
  /-- its function has not been started -/
  | fresh
  | live
  | done
deriving DecidableEq, Repr

/-- the purpose: `stack` is who runs, and behind it who has resumed whom -/
structure Coro where
  stack : List ℕ
  life : ℕ → Life
  /-- it is called, not swapped in -/
  caller : ℕ → Bool
  state : ℕ → State
  scheduler : Option ℕ
  /-- the thread has a main fiber -/
  known : Bool

def Coro.start : Coro :=
  { stack := [0], life := fun f => if f = 0 then .live else .unborn, caller := fun _ => false, state := fun _ => .exec
    scheduler := none, known := false }

namespace Coro

/-- `f` starts, or goes on where it left, and will give control back -/
def enter (c : Coro) (f : ℕ) : Landing × Coro :=
  (if c.life f = .fresh then .starts f else .continues f,
    { c with stack := f :: c.stack, life := Function.update c.life f .live, state := Function.update c.state f .exec })

/-- control goes back -/
def leave (c : Coro) : Landing × Coro :=
  match c.stack with
  | _ :: g :: rest => (.continues g, { c with stack := g :: rest })
  | _ => (.lost, c)

/-- whoever runs is marked, as it is about to leave -/
def mark (c : Coro) (st : State) (life : Life) : Coro :=
  match c.stack with
  | f :: _ => { c with state := Function.update c.state f st, life := Function.update c.life f life }
  | [] => c

def step (c : Coro) : Op → Landing × Coro
  | .getThis => (.stays, { c with known := true })
  | .create f use_caller =>
    (.stays, { c with life := Function.update c.life f .fresh, state := Function.update c.state f .init
                      caller := Function.update c.caller f use_caller })
  | .reset f =>
    (.stays, { c with life := Function.update c.life f .fresh, state := Function.update c.state f .init
                      caller := Function.update c.caller f false })
  | .setScheduler f => (.stays, { c with scheduler := some f })
  | .call f | .swapIn f => c.enter f
  | .back _ | .swapOut _ => c.leave
  | .yield ready => (c.mark (yieldState ready) .live).leave
  | .finish throws => (c.mark (finishState throws) .done).leave
  | .hold f => (.stays, { c with state := Function.update c.state f .hold })

/-- `f` can be resumed -/
def Ready (c : Coro) (f : ℕ) : Prop := (c.life f = .fresh ∨ c.life f = .live) ∧ f ∉ c.stack

/-- whoever runs has been swapped in by the scheduler's fiber -/
def Inside (c : Coro) : Prop := ∃ f g rest, c.stack = f :: g :: rest ∧ c.scheduler = some g

/-- whoever runs has been called by the thread's own code -/
def Called (c : Coro) : Prop := ∃ f, c.stack = [f, 0]

/-- how the program uses the operations -/
def Ok (c : Coro) : Op → Prop
  | .getThis => True
  | .create f _ => c.life f = .unborn
  | .reset f => (c.life f = .fresh ∨ c.life f = .done) ∧ f ∉ c.stack
  | .setScheduler _ => c.known = true
  | .call f => c.known = true ∧ c.stack = [0] ∧ c.Ready f
  | .back f => c.stack.head? = some f ∧ c.Called
  | .swapIn f => c.known = true ∧ c.scheduler = c.stack.head? ∧ c.Ready f ∧ c.state f ≠ .exec
  | .swapOut f => c.stack.head? = some f ∧ c.Inside
  | .yield _ => c.Inside
  | .finish _ => ∃ f, c.stack.head? = some f ∧ if c.caller f then c.Called else c.Inside
  | .hold f => c.life f = .live ∧ f ∉ c.stack

end Coro

/-! ## The relation -/

/-- what the contexts of the thread hold -/
structure Rel (s : Thread) (c : Coro) : Prop where
  gone : s.gone = false
  running : c.stack.head? = some s.running
  bottom : c.stack.getLast? = some 0
  nodup : c.stack.Nodup
  scheduler : s.tSchedulerFiber = c.scheduler
  alone : c.known = false → c.stack = [0]
  this : s.tFiber = if c.known then some s.running else none
  threadFiber : s.tThreadFiber = if c.known then some 0 else none
  exist : ∀ f, c.life f ≠ .unborn → (f = 0 → c.known = true) → (s.fibers f).isSome
  state : ∀ f x, s.fibers f = some x → f ≠ 0 → x.state = c.state f ∧ x.stack = true
  /-- a fiber nobody has resumed: its entry, or the place where it left -/
  fresh : ∀ f x, s.fibers f = some x → c.life f = .fresh → x.ctx = .entry (c.caller f) ∧ x.state = .init
  parked : ∀ f x, s.fibers f = some x → c.life f = .live → f ≠ s.running → x.ctx = .saved f
  done : ∀ f, c.life f = .done → c.state f = .term ∨ c.state f = .except
  live : ∀ f ∈ c.stack, c.life f = .live
  cur : ∀ f, c.life f = .live → f ≠ 0 → s.cur f = some (f, c.caller f)
  /-- nobody's place is kept by another -/
  own : ∀ f x i, s.fibers f = some x → x.ctx = .saved i → i = f
  main : ∀ x, s.fibers 0 = some x → x.stack = false

theorem rel_start : Rel Thread.start Coro.start := by
  refine ⟨rfl, rfl, rfl, by decide, rfl, fun _ => rfl, rfl, rfl, ?_, ?_, ?_, ?_, ?_, ?_, ?_, ?_, nofun⟩
  · intro f hf h0
    by_cases hz : f = 0
    · have := h0 hz
      cases this
    · simp [Coro.start, hz] at hf
  · intro f x hf
    cases hf
  · intro f x hf
    cases hf
  · intro f x hf
    cases hf
  · intro f hf
    simp only [Coro.start] at hf
    split_ifs at hf
  · intro f hf
    rw [List.mem_singleton.mp hf]
    rfl
  · intro f hf h0
    simp [Coro.start, h0] at hf
  · intro f x i hf
    cases hf

section Steps

variable {s : Thread} {c : Coro} {f g : ℕ} {rest : List ℕ}

/-- who is on the stack behind the first is not the first -/
theorem Rel.ne_of_stack (h : Rel s c) (hstack : c.stack = f :: g :: rest) :
    f = s.running ∧ g ≠ f ∧ f ≠ 0 ∧ f ∉ g :: rest := by
  have hrun := h.running
  have hnodup := h.nodup
  have hlast := h.bottom
  rw [hstack] at hrun hnodup hlast
  have hnot := (List.nodup_cons.mp hnodup).1
  have h0 : 0 ∈ g :: rest := by
    rw [List.getLast?_cons_cons] at hlast
    exact List.mem_of_getLast? hlast
  refine ⟨Option.some.inj hrun, ?_, ?_, hnot⟩
  · rintro rfl
    exact hnot List.mem_cons_self
  · rintro rfl
    exact hnot h0

theorem Rel.known_of_stack (h : Rel s c) (hstack : c.stack = f :: g :: rest) : c.known = true := by
  by_contra hk
  have := h.alone (by simpa using hk)
  rw [hstack] at this
  cases this

/-- the objects of the fibers on the stack -/
theorem Rel.object (h : Rel s c) (hknown : c.known = true) (hf : c.life f ≠ .unborn) : ∃ x, s.fibers f = some x :=
  Option.isSome_iff_exists.mp (h.exist f hf fun _ => hknown)

/-- **Leaving.** The fiber that runs, marked with a state, saves itself, and the one behind it on the stack goes on. -/
theorem Rel.leave (h : Rel s c) (hstack : c.stack = f :: g :: rest) (st : State) {life : Life}
    (hlife : life = .live ∨ life = .done ∧ (st = .term ∨ st = .except)) :
    (({ s.setState f st with tFiber := some g } : Thread).swapcontext f g).1 = (c.mark st life).leave.1 ∧
      Rel (({ s.setState f st with tFiber := some g } : Thread).swapcontext f g).2 (c.mark st life).leave.2 := by
  obtain ⟨hfrun, hgf, hf0, hnot⟩ := h.ne_of_stack hstack
  have hknown := h.known_of_stack hstack
  have hlivef : c.life f = .live := h.live f (by simp [hstack])
  have hliveg : c.life g = .live := h.live g (by simp [hstack])
  obtain ⟨x, hx⟩ := h.object hknown (f := f) (by simp [hlivef])
  obtain ⟨y, hy⟩ := h.object hknown (f := g) (by simp [hliveg])
  have hctx : y.ctx = .saved g := h.parked g y hy hliveg (by rw [← hfrun]; exact hgf)
  have hset : s.setState f st = s.setFiber f { x with state := st } := by simp [Thread.setState, hx]
  have hswap : ({ s.setState f st with tFiber := some g } : Thread).swapcontext f g = (.continues g,
      { s with fibers := Function.update (Function.update s.fibers f (some { x with state := st, ctx := .saved f })) g
                 (some { y with ctx := .used })
               tFiber := some g, running := g }) := by
    simp [hset, Thread.swapcontext, Thread.setFiber, Thread.resume, Function.update_of_ne hgf, hy, hctx, ← hfrun]
  have hleave : (c.mark st life).leave = (.continues g, { c with stack := g :: rest, state := Function.update c.state f st
                                                                 life := Function.update c.life f life }) := by
    simp [Coro.mark, Coro.leave, hstack]
  rw [hswap, hleave]
  have hbottom := h.bottom
  have hnodup := h.nodup
  rw [hstack] at hbottom hnodup
  have hgnot : g ∉ rest := (List.nodup_cons.mp (List.nodup_cons.mp hnodup).2).1
  -- an object after the switch
  have hobj : ∀ i z, Function.update (Function.update s.fibers f (some { x with state := st, ctx := .saved f })) g
      (some { y with ctx := .used }) i = some z → (i = g ∧ z = { y with ctx := .used }) ∨
        (i = f ∧ z = { x with state := st, ctx := .saved f }) ∨ (i ≠ g ∧ i ≠ f ∧ s.fibers i = some z) := by
    intro i z hz
    by_cases hig : i = g
    · subst hig
      rw [Function.update_self] at hz
      exact Or.inl ⟨rfl, (Option.some.inj hz).symm⟩
    · rw [Function.update_of_ne hig] at hz
      by_cases hif : i = f
      · subst hif
        rw [Function.update_self] at hz
        exact Or.inr (Or.inl ⟨rfl, (Option.some.inj hz).symm⟩)
      · rw [Function.update_of_ne hif] at hz
        exact Or.inr (Or.inr ⟨hig, hif, hz⟩)
  refine ⟨rfl, ⟨h.gone, rfl, ?_, ?_, h.scheduler, fun hk => ?_, ?_, h.threadFiber, fun i hi h0 => ?_, fun i z hz h0 => ?_,
    fun i z hz hl => ?_, fun i z hz hl hr => ?_, fun i hl => ?_, fun i hi => ?_, fun i hl h0 => ?_,
    fun i z j hz hj => ?_, fun z hz => ?_⟩⟩
  · rwa [List.getLast?_cons_cons] at hbottom
  · exact (List.nodup_cons.mp hnodup).2
  · rw [hknown] at hk
    cases hk
  · simp [hknown]
  · by_cases hig : i = g
    · simp [hig]
    · by_cases hif : i = f
      · simp [hif, Function.update_of_ne (Ne.symm hgf)]
      · simp only [Function.update_of_ne hig, Function.update_of_ne hif]
        refine h.exist i ?_ h0
        simpa [Function.update_of_ne hif] using hi
  · rcases hobj i z hz with ⟨rfl, rfl⟩ | ⟨rfl, rfl⟩ | ⟨hig, hif, hz'⟩
    · simpa [Function.update_of_ne hgf] using h.state i y hy h0
    · simpa using (h.state i x hx h0).2
    · simpa [Function.update_of_ne hif] using h.state i z hz' h0
  · rcases hobj i z hz with ⟨rfl, rfl⟩ | ⟨rfl, rfl⟩ | ⟨hig, hif, hz'⟩
    · simp [Function.update_of_ne hgf, hliveg] at hl
    · simp only [Function.update_self] at hl
      rcases hlife with rfl | ⟨rfl, -⟩ <;> cases hl
    · simp only [Function.update_of_ne hif] at hl
      exact h.fresh i z hz' hl
  · rcases hobj i z hz with ⟨rfl, rfl⟩ | ⟨rfl, rfl⟩ | ⟨hig, hif, hz'⟩
    · exact absurd rfl hr
    · rfl
    · simp only [Function.update_of_ne hif] at hl
      exact h.parked i z hz' hl (by rw [← hfrun]; exact hif)
  · by_cases hif : i = f
    · subst hif
      simp only [Function.update_self] at hl ⊢
      rcases hlife with rfl | ⟨-, hst⟩
      · cases hl
      · exact hst
    · simp only [Function.update_of_ne hif] at hl ⊢
      exact h.done i hl
  · have hif : i ≠ f := by
      rintro rfl
      exact hnot hi
    simp only [Function.update_of_ne hif]
    exact h.live i (by rw [hstack]; exact List.mem_cons_of_mem _ hi)
  · by_cases hif : i = f
    · subst hif
      exact h.cur i hlivef h0
    · simp only [Function.update_of_ne hif] at hl
      exact h.cur i hl h0
  · rcases hobj i z hz with ⟨rfl, rfl⟩ | ⟨rfl, rfl⟩ | ⟨hig, hif, hz'⟩
    · cases hj
    · exact (Context.saved.inj hj).symm
    · exact h.own i z j hz' hj
  · rcases hobj 0 z hz with ⟨rfl, rfl⟩ | ⟨rfl, rfl⟩ | ⟨-, -, hz'⟩
    · exact h.main y hy
    · exact h.main x hx
    · exact h.main z hz'

/-- **Entering.** Whoever runs saves itself, and `f` starts or goes on. -/
theorem Rel.enter (h : Rel s c) (hknown : c.known = true) (hready : c.Ready f) :
    ((({ s with tFiber := some f } : Thread).setState f .exec).swapcontext s.running f).1 = (c.enter f).1 ∧
      Rel (({ s with tFiber := some f } : Thread).setState f .exec |>.swapcontext s.running f).2 (c.enter f).2 := by
  obtain ⟨hlife, hnot⟩ := hready
  have hmem : s.running ∈ c.stack := List.mem_of_mem_head? h.running
  have hliver : c.life s.running = .live := h.live _ hmem
  have hfr : f ≠ s.running := by
    rintro rfl
    exact hnot hmem
  have hf0 : f ≠ 0 := by
    rintro rfl
    exact hnot (List.mem_of_getLast? h.bottom)
  obtain ⟨x, hx⟩ := h.object hknown (f := f) (by rcases hlife with hl | hl <;> simp [hl])
  obtain ⟨y, hy⟩ := h.object hknown (f := s.running) (by simp [hliver])
  -- where `f` starts, or goes on
  obtain ⟨landing, cur, hland, hres, hcur⟩ : ∃ landing cur, (c.enter f).1 = landing ∧
      ((({ s with tFiber := some f } : Thread).setState f .exec).swapcontext s.running f) = (landing,
        { s with fibers := Function.update (Function.update s.fibers s.running (some { y with ctx := .saved s.running })) f
                   (some { x with state := .exec, ctx := .used })
                 tFiber := some f, running := f, cur := cur }) ∧
      cur f = some (f, c.caller f) ∧ ∀ i, i ≠ f → cur i = s.cur i := by
    rcases hlife with hl | hl
    · have hctx := (h.fresh f x hx hl).1
      refine ⟨.starts f, Function.update s.cur f (some (f, c.caller f)), by simp [Coro.enter, hl], ?_, by simp,
        fun i hi => Function.update_of_ne hi _ _⟩
      simp [Thread.setState, hx, Thread.swapcontext, Thread.setFiber, Thread.resume, Function.update_of_ne (Ne.symm hfr), hy,
        hctx, Function.update_comm hfr]
    · have hctx := h.parked f x hx hl hfr
      refine ⟨.continues f, s.cur, by simp [Coro.enter, hl], ?_, h.cur f hl hf0, fun _ _ => rfl⟩
      simp [Thread.setState, hx, Thread.swapcontext, Thread.setFiber, Thread.resume, Function.update_of_ne (Ne.symm hfr), hy,
        hctx, Function.update_comm hfr]
  rw [hres, hland]
  obtain ⟨hcurf, hcuri⟩ := hcur
  have hobj : ∀ i z, Function.update (Function.update s.fibers s.running (some { y with ctx := .saved s.running })) f
      (some { x with state := .exec, ctx := .used }) i = some z → (i = f ∧ z = { x with state := .exec, ctx := .used }) ∨
        (i = s.running ∧ z = { y with ctx := .saved s.running }) ∨ (i ≠ f ∧ i ≠ s.running ∧ s.fibers i = some z) := by
    intro i z hz
    by_cases hif : i = f
    · subst hif
      rw [Function.update_self] at hz
      exact Or.inl ⟨rfl, (Option.some.inj hz).symm⟩
    · rw [Function.update_of_ne hif] at hz
      by_cases hir : i = s.running
      · subst hir
        rw [Function.update_self] at hz
        exact Or.inr (Or.inl ⟨rfl, (Option.some.inj hz).symm⟩)
      · rw [Function.update_of_ne hir] at hz
        exact Or.inr (Or.inr ⟨hif, hir, hz⟩)
  have hlifei : ∀ i, i ≠ f → (c.enter f).2.life i = c.life i := fun i hi => by simp [Coro.enter, hi]
  have hstatei : ∀ i, i ≠ f → (c.enter f).2.state i = c.state i := fun i hi => by simp [Coro.enter, hi]
  have hlivef : (c.enter f).2.life f = .live := by simp [Coro.enter]
  refine ⟨rfl, ⟨h.gone, rfl, ?_, List.nodup_cons.mpr ⟨hnot, h.nodup⟩, h.scheduler, fun hk => ?_, ?_, h.threadFiber,
    fun i hi h0 => ?_, fun i z hz h0 => ?_, fun i z hz hl => ?_, fun i z hz hl hr => ?_, fun i hl => ?_, fun i hi => ?_,
    fun i hl h0 => ?_,
    fun i z j hz hj => ?_, fun z hz => ?_⟩⟩
  · show (f :: c.stack).getLast? = some 0
    rw [List.getLast?_cons, h.bottom]
    rfl
  · rw [show (c.enter f).2.known = c.known from rfl, hknown] at hk
    cases hk
  · show some f = if c.known then some f else none
    rw [hknown]
    rfl
  · by_cases hif : i = f
    · simp [hif]
    · by_cases hir : i = s.running
      · simp [hir, Function.update_of_ne (Ne.symm hfr)]
      · simp only [Function.update_of_ne hif, Function.update_of_ne hir]
        exact h.exist i (by rwa [hlifei i hif] at hi) h0
  · rcases hobj i z hz with ⟨rfl, rfl⟩ | ⟨rfl, rfl⟩ | ⟨hif, -, hz'⟩
    · exact ⟨by simp [Coro.enter], (h.state i x hx h0).2⟩
    · rw [hstatei _ (Ne.symm hfr)]
      exact h.state _ y hy h0
    · rw [hstatei i hif]
      exact h.state i z hz' h0
  · rcases hobj i z hz with ⟨rfl, rfl⟩ | ⟨rfl, rfl⟩ | ⟨hif, -, hz'⟩
    · rw [hlivef] at hl
      cases hl
    · rw [hlifei _ (Ne.symm hfr), hliver] at hl
      cases hl
    · rw [hlifei i hif] at hl
      exact h.fresh i z hz' hl
  · rcases hobj i z hz with ⟨rfl, rfl⟩ | ⟨rfl, rfl⟩ | ⟨hif, hir, hz'⟩
    · exact absurd rfl hr
    · rfl
    · rw [hlifei i hif] at hl
      exact h.parked i z hz' hl hir
  · by_cases hif : i = f
    · subst hif
      rw [hlivef] at hl
      cases hl
    · rw [hlifei i hif] at hl
      rw [hstatei i hif]
      exact h.done i hl
  · rcases List.mem_cons.mp hi with rfl | hin
    · exact hlivef
    · have hif : i ≠ f := by
        rintro rfl
        exact hnot hin
      rw [hlifei i hif]
      exact h.live i hin
  · by_cases hif : i = f
    · subst hif
      exact hcurf
    · rw [hlifei i hif] at hl
      exact (hcuri i hif).trans (h.cur i hl h0)
  · rcases hobj i z hz with ⟨rfl, rfl⟩ | ⟨rfl, rfl⟩ | ⟨hif, -, hz'⟩
    · cases hj
    · exact (Context.saved.inj hj).symm
    · exact h.own i z j hz' hj
  · rcases hobj 0 z hz with ⟨rfl, rfl⟩ | ⟨hr, rfl⟩ | ⟨-, -, hz'⟩
    · exact h.main x hx
    · exact h.main y (hr ▸ hy)
    · exact h.main z hz'

/-- a fiber that is not on the stack is made or made again -/
theorem Rel.renew (h : Rel s c) (hnot : f ∉ c.stack) (use_caller : Bool) :
    Rel (s.setFiber f { state := .init, stack := true, ctx := .entry use_caller })
      { c with life := Function.update c.life f .fresh, state := Function.update c.state f .init
               caller := Function.update c.caller f use_caller } := by
  have hne : ∀ i ∈ c.stack, i ≠ f := by
    rintro i hi rfl
    exact hnot hi
  have hrun : s.running ≠ f := hne _ (List.mem_of_mem_head? h.running)
  have hobj : ∀ i z, (s.setFiber f { state := .init, stack := true, ctx := .entry use_caller }).fibers i = some z →
      (i = f ∧ z = { state := .init, stack := true, ctx := .entry use_caller }) ∨ (i ≠ f ∧ s.fibers i = some z) := by
    intro i z hz
    by_cases hif : i = f
    · subst hif
      simp only [Thread.setFiber, Function.update_self, Option.some.injEq] at hz
      exact Or.inl ⟨rfl, hz.symm⟩
    · exact Or.inr ⟨hif, by simpa [Thread.setFiber, Function.update_of_ne hif] using hz⟩
  refine ⟨h.gone, h.running, h.bottom, h.nodup, h.scheduler, h.alone, h.this, h.threadFiber, fun i hi h0 => ?_,
    fun i z hz h0 => ?_, fun i z hz hl => ?_, fun i z hz hl hr => ?_, fun i hl => ?_, fun i hi => ?_, fun i hl h0 => ?_,
    fun i z j hz hj => ?_, fun z hz => ?_⟩
  · by_cases hif : i = f
    · simp [hif, Thread.setFiber]
    · simp only [Thread.setFiber, Function.update_of_ne hif]
      exact h.exist i (by simpa [Function.update_of_ne hif] using hi) h0
  · rcases hobj i z hz with ⟨rfl, rfl⟩ | ⟨hif, hz'⟩
    · simp
    · simpa [Function.update_of_ne hif] using h.state i z hz' h0
  · rcases hobj i z hz with ⟨rfl, rfl⟩ | ⟨hif, hz'⟩
    · simp
    · simp only [Function.update_of_ne hif] at hl ⊢
      exact h.fresh i z hz' hl
  · rcases hobj i z hz with ⟨rfl, rfl⟩ | ⟨hif, hz'⟩
    · simp at hl
    · simp only [Function.update_of_ne hif] at hl
      exact h.parked i z hz' hl hr
  · by_cases hif : i = f
    · simp [hif] at hl
    · simp only [Function.update_of_ne hif] at hl ⊢
      exact h.done i hl
  · simp only [Function.update_of_ne (hne i hi)]
    exact h.live i hi
  · by_cases hif : i = f
    · simp [hif] at hl
    · simp only [Function.update_of_ne hif] at hl ⊢
      exact h.cur i hl h0
  · rcases hobj i z hz with ⟨rfl, rfl⟩ | ⟨hif, hz'⟩
    · cases hj
    · exact h.own i z j hz' hj
  · have hf0 : 0 ≠ f := hne 0 (List.mem_of_getLast? h.bottom)
    rcases hobj 0 z hz with ⟨h0, -⟩ | ⟨-, hz'⟩
    · exact absurd h0 hf0
    · exact h.main z hz'

/-- `GetThis()`, which makes the main fiber of the thread if there is none -/
theorem Rel.getThis (h : Rel s c) : Rel s.getThis { c with known := true } := by
  by_cases hknown : c.known = true
  · have hthis : s.getThis = s := by simp [Thread.getThis, h.this, hknown]
    have hsame : ({ c with known := true } : Coro) = c := by
      cases c
      simp_all
    rw [hthis, hsame]
    exact h
  · have hstack := h.alone (by simpa using hknown)
    have hrun : s.running = 0 := by
      have := h.running
      rw [hstack] at this
      exact (Option.some.inj this).symm
    have hthis : s.getThis = { s.setFiber 0 { state := .exec, stack := false, ctx := .used } with
        tFiber := some 0, tThreadFiber := some 0 } := by
      simp [Thread.getThis, h.this, hknown, hrun]
    have hlive0 : c.life 0 = .live := h.live 0 (by simp [hstack])
    have hother : ∀ i, i ≠ 0 → s.getThis.fibers i = s.fibers i := fun i hi => by
      rw [hthis]
      simp [Thread.setFiber, Function.update_of_ne hi]
    refine ⟨?_, ?_, h.bottom, h.nodup, ?_, nofun, ?_, ?_, fun i hi _ => ?_, fun i z hz h0 => ?_,
      fun i z hz hl => ?_, fun i z hz hl hr => ?_, h.done, h.live, fun i hl h0 => ?_,
      fun i z j hz hj => ?_, fun z hz => ?_⟩
    · rw [hthis]
      exact h.gone
    · rw [hthis]
      exact h.running
    · rw [hthis]
      exact h.scheduler
    · rw [hthis]
      simp [Thread.setFiber, hrun]
    · rw [hthis]
      simp
    · by_cases hi0 : i = 0
      · rw [hthis]
        simp [hi0, Thread.setFiber]
      · rw [hother i hi0]
        exact h.exist i hi fun hz => absurd hz hi0
    · rw [hother i h0] at hz
      exact h.state i z hz h0
    · have hi0 : i ≠ 0 := by
        rintro rfl
        rw [hlive0] at hl
        cases hl
      rw [hother i hi0] at hz
      exact h.fresh i z hz hl
    · have hr' : i ≠ s.running := by
        rw [hthis] at hr
        exact hr
      have hi0 : i ≠ 0 := by rwa [hrun] at hr'
      rw [hother i hi0] at hz
      exact h.parked i z hz hl hr'
    · rw [hthis]
      exact h.cur i hl h0
    · by_cases hi0 : i = 0
      · rw [hi0, hthis] at hz
        simp only [Thread.setFiber, Function.update_self, Option.some.injEq] at hz
        rw [← hz] at hj
        cases hj
      · rw [hother i hi0] at hz
        exact h.own i z j hz hj
    · rw [hthis] at hz
      simp only [Thread.setFiber, Function.update_self, Option.some.injEq] at hz
      rw [← hz]

/-- `m_state = HOLD` of a fiber that has left -/
theorem Rel.hold (h : Rel s c) (hlive : c.life f = .live) (hnot : f ∉ c.stack) :
    Rel (s.setState f .hold) { c with state := Function.update c.state f .hold } := by
  cases hx : s.fibers f with
  | none =>
    have hknown : c.known = false := by
      by_contra hk
      obtain ⟨x, hx'⟩ := h.object (f := f) (by simpa using hk) (by simp [hlive])
      rw [hx] at hx'
      cases hx'
    have hf0 : f ≠ 0 := by
      rintro rfl
      exact hnot (List.mem_of_getLast? h.bottom)
    have := h.exist f (by simp [hlive]) fun h0 => absurd h0 hf0
    rw [hx] at this
    cases this
  | some x =>
    have hset : s.setState f .hold = s.setFiber f { x with state := .hold } := by simp [Thread.setState, hx]
    rw [hset]
    have hobj : ∀ i z, (s.setFiber f { x with state := .hold }).fibers i = some z →
        (i = f ∧ z = { x with state := .hold }) ∨ (i ≠ f ∧ s.fibers i = some z) := by
      intro i z hz
      by_cases hif : i = f
      · subst hif
        simp only [Thread.setFiber, Function.update_self, Option.some.injEq] at hz
        exact Or.inl ⟨rfl, hz.symm⟩
      · exact Or.inr ⟨hif, by simpa [Thread.setFiber, Function.update_of_ne hif] using hz⟩
    refine ⟨h.gone, h.running, h.bottom, h.nodup, h.scheduler, h.alone, h.this, h.threadFiber, fun i hi h0 => ?_,
      fun i z hz h0 => ?_, fun i z hz hl => ?_, fun i z hz hl hr => ?_, fun i hl => ?_, h.live, h.cur,
      fun i z j hz hj => ?_, fun z hz => ?_⟩
    · by_cases hif : i = f
      · simp [hif, Thread.setFiber]
      · simp only [Thread.setFiber, Function.update_of_ne hif]
        exact h.exist i hi h0
    · rcases hobj i z hz with ⟨rfl, rfl⟩ | ⟨hif, hz'⟩
      · exact ⟨by simp, (h.state i x hx h0).2⟩
      · simpa [Function.update_of_ne hif] using h.state i z hz' h0
    · rcases hobj i z hz with ⟨rfl, rfl⟩ | ⟨hif, hz'⟩
      · rw [hlive] at hl
        cases hl
      · exact h.fresh i z hz' hl
    · rcases hobj i z hz with ⟨rfl, rfl⟩ | ⟨hif, hz'⟩
      · exact h.parked i x hx hl hr
      · exact h.parked i z hz' hl hr
    · have hif : i ≠ f := by
        rintro rfl
        rw [hlive] at hl
        cases hl
      simp only [Function.update_of_ne hif]
      exact h.done i hl
    · rcases hobj i z hz with ⟨rfl, rfl⟩ | ⟨hif, hz'⟩
      · exact h.own i x j hx hj
      · exact h.own i z j hz' hj
    · rcases hobj 0 z hz with ⟨rfl, rfl⟩ | ⟨-, hz'⟩
      · exact h.main x hx
      · exact h.main z hz'

theorem Thread.setState_tThreadFiber (s : Thread) (f : ℕ) (st : State) :
    (s.setState f st).tThreadFiber = s.tThreadFiber := by
  unfold Thread.setState
  split <;> rfl

theorem Thread.setState_tSchedulerFiber (s : Thread) (f : ℕ) (st : State) :
    (s.setState f st).tSchedulerFiber = s.tSchedulerFiber := by
  unfold Thread.setState
  split <;> rfl

@[simp] theorem Thread.setState_cur (s : Thread) (f : ℕ) (st : State) : (s.setState f st).cur = s.cur := by
  unfold Thread.setState
  split <;> rfl

theorem Thread.setState_own {x : Fib} (hx : s.fibers f = some x) : s.setState f x.state = s := by
  have hsame : Function.update s.fibers f (some x) = s.fibers := by rw [← hx, Function.update_eq_self]
  simp [Thread.setState, hx, Thread.setFiber, hsame]

theorem Coro.mark_own (hstack : c.stack = f :: g :: rest) (hlive : c.life f = .live) : c.mark (c.state f) .live = c := by
  have hsame : Function.update c.life f .live = c.life := by rw [← hlive, Function.update_eq_self]
  cases c
  simp_all [Coro.mark]

/-- **Every operation, used as the program uses it, does what it does to coroutines.** -/
theorem Rel.step (h : Rel s c) (o : Op) (hok : c.Ok o) : (s.step o).1 = (c.step o).1 ∧ Rel (s.step o).2 (c.step o).2 := by
  have hstep : ∀ o, s.step o = s.stepAlive o := fun o => by simp [Thread.step, h.gone]
  -- a fiber that leaves for the scheduler's fiber, and one that leaves for the thread's own code
  have hout : ∀ (st : State) (life : Life), c.Inside → (life = .live ∨ life = .done ∧ (st = .term ∨ st = .except)) →
      ((s.setState s.running st).swapOut s.running).1 = (c.mark st life).leave.1 ∧
        Rel ((s.setState s.running st).swapOut s.running).2 (c.mark st life).leave.2 := by
    rintro st life ⟨f, g, rest, hstack, hsched⟩ hlife
    obtain ⟨rfl, -⟩ := h.ne_of_stack hstack
    have hg : (s.setState s.running st).tSchedulerFiber = some g := by
      rw [Thread.setState_tSchedulerFiber, h.scheduler, hsched]
    rw [show (s.setState s.running st).swapOut s.running =
      ({ s.setState s.running st with tFiber := some g } : Thread).swapcontext s.running g by simp [Thread.swapOut, hg]]
    exact h.leave hstack st hlife
  have hback : ∀ (st : State) (life : Life), c.Called → (life = .live ∨ life = .done ∧ (st = .term ∨ st = .except)) →
      ((s.setState s.running st).back s.running).1 = (c.mark st life).leave.1 ∧
        Rel ((s.setState s.running st).back s.running).2 (c.mark st life).leave.2 := by
    rintro st life ⟨f, hstack⟩ hlife
    obtain ⟨rfl, -⟩ := h.ne_of_stack hstack
    have h0 : (s.setState s.running st).tThreadFiber = some 0 := by
      have hthread := h.threadFiber
      rw [h.known_of_stack hstack, if_pos rfl] at hthread
      rw [Thread.setState_tThreadFiber, hthread]
    rw [show (s.setState s.running st).back s.running =
      ({ s.setState s.running st with tFiber := some 0 } : Thread).swapcontext s.running 0 by simp [Thread.back, h0]]
    exact h.leave hstack st hlife
  rw [hstep]
  cases o with
  | getThis => exact ⟨rfl, h.getThis⟩
  | create f use_caller =>
    have hok : c.life f = .unborn := hok
    refine ⟨rfl, h.renew (fun hf => ?_) use_caller⟩
    rw [h.live f hf] at hok
    cases hok
  | reset f =>
    obtain ⟨hlife, hnot⟩ := hok
    have hf0 : f ≠ 0 := by
      rintro rfl
      exact hnot (List.mem_of_getLast? h.bottom)
    obtain ⟨x, hx⟩ := Option.isSome_iff_exists.mp
      (h.exist f (by rcases hlife with hl | hl <;> simp [hl]) fun h0 => absurd h0 hf0)
    obtain ⟨hstate, hstack⟩ := h.state f x hx hf0
    -- a fiber that has ended, or has not been started, passes the assertions
    have hpass : x.stack = true ∧ (x.state = .term ∨ x.state = .init ∨ x.state = .except) := by
      refine ⟨hstack, ?_⟩
      rcases hlife with hl | hl
      · exact Or.inr (Or.inl (h.fresh f x hx hl).2)
      · rw [hstate]
        rcases h.done f hl with hd | hd <;> simp [hd]
    have hreset : s.reset f = (.stays, s.setFiber f { state := .init, stack := true, ctx := .entry false }) := by
      simp [Thread.reset, hx, hpass.2, hstack]
    refine ⟨by simp [Thread.stepAlive, hreset, Coro.step], ?_⟩
    simp only [Thread.stepAlive, hreset]
    exact h.renew hnot false
  | setScheduler f =>
    exact ⟨rfl, h.gone, h.running, h.bottom, h.nodup, rfl, h.alone, h.this, h.threadFiber, h.exist, h.state, h.fresh,
      h.parked, h.done, h.live, h.cur, h.own, h.main⟩
  | call f =>
    obtain ⟨hknown, hstack, hready⟩ := hok
    have hrun : s.running = 0 := by
      have := h.running
      rw [hstack] at this
      exact (Option.some.inj this).symm
    have hthread : (({ s with tFiber := some f } : Thread).setState f .exec).tThreadFiber = some s.running := by
      rw [Thread.setState_tThreadFiber, h.threadFiber, hknown, if_pos rfl, hrun]
    have hcall : s.call f = (({ s with tFiber := some f } : Thread).setState f .exec).swapcontext s.running f := by
      simp only [Thread.call, hthread]
    simp only [Thread.stepAlive, hcall]
    exact h.enter hknown hready
  | back f =>
    obtain ⟨hhead, f', hstack⟩ := hok
    obtain rfl : f' = f := by
      rw [hstack] at hhead
      exact Option.some.inj hhead
    obtain ⟨rfl, -, h0, -⟩ := h.ne_of_stack hstack
    have hlive := h.live s.running (by simp [hstack])
    obtain ⟨x, hx⟩ := h.object (h.known_of_stack hstack) (f := s.running) (by simp [hlive])
    have hleave := hback x.state .live ⟨_, hstack⟩ (Or.inl rfl)
    rw [Thread.setState_own hx, (h.state _ x hx h0).1, Coro.mark_own hstack hlive] at hleave
    exact hleave
  | swapIn f =>
    obtain ⟨hknown, hsched, hready, hstate⟩ := hok
    have hf0 : f ≠ 0 := by
      rintro rfl
      exact hready.2 (List.mem_of_getLast? h.bottom)
    have hnot : (s.fibers f).any (fun x => x.state = .exec) = false := by
      cases hx : s.fibers f with
      | none => rfl
      | some x => simpa [(h.state f x hx hf0).1] using hstate
    have hsched' : (({ s with tFiber := some f } : Thread).setState f .exec).tSchedulerFiber = some s.running := by
      rw [Thread.setState_tSchedulerFiber, h.scheduler, hsched, h.running]
    have hswap : s.swapIn f = (({ s with tFiber := some f } : Thread).setState f .exec).swapcontext s.running f := by
      simp only [Thread.swapIn, hnot, hsched', Bool.false_eq_true, if_false]
    simp only [Thread.stepAlive, hswap]
    exact h.enter hknown hready
  | swapOut f =>
    obtain ⟨hhead, f', g, rest, hstack, hsched⟩ := hok
    obtain rfl : f' = f := by
      rw [hstack] at hhead
      exact Option.some.inj hhead
    obtain ⟨rfl, -, h0, -⟩ := h.ne_of_stack hstack
    have hlive := h.live s.running (by simp [hstack])
    obtain ⟨x, hx⟩ := h.object (h.known_of_stack hstack) (f := s.running) (by simp [hlive])
    have hleave := hout x.state .live ⟨_, _, _, hstack, hsched⟩ (Or.inl rfl)
    rw [Thread.setState_own hx, (h.state _ x hx h0).1, Coro.mark_own hstack hlive] at hleave
    exact hleave
  | yield ready =>
    obtain ⟨f, g, rest, hstack, hsched⟩ := hok
    have hthis : s.getThis = s := by simp [Thread.getThis, h.this, h.known_of_stack hstack]
    have hf : s.tFiber = some s.running := by simp [h.this, h.known_of_stack hstack]
    simp only [Thread.stepAlive, Thread.yield, hthis, hf]
    exact hout (yieldState ready) .live ⟨f, g, rest, hstack, hsched⟩ (Or.inl rfl)
  | finish throws =>
    obtain ⟨f, hhead, hok⟩ := hok
    have hend : finishState throws = .term ∨ finishState throws = .except := by
      cases throws
      · exact Or.inl rfl
      · exact Or.inr rfl
    -- what `cur` is, whichever way it leaves
    have hcur : ∀ {g : ℕ} {rest : List ℕ}, c.stack = f :: g :: rest →
        f = s.running ∧ s.cur s.running = some (s.running, c.caller f) := by
      intro g rest hstack
      obtain ⟨rfl, -, h0, -⟩ := h.ne_of_stack hstack
      exact ⟨rfl, h.cur _ (h.live _ (by simp [hstack])) h0⟩
    by_cases hcaller : c.caller f = true
    · rw [if_pos hcaller] at hok
      obtain ⟨f', hstack⟩ := hok
      obtain rfl : f' = f := by
        rw [hstack] at hhead
        exact Option.some.inj hhead
      obtain ⟨rfl, hcur⟩ := hcur hstack
      simp only [Thread.stepAlive, Thread.finish, hcur, hcaller, if_true]
      exact hback (finishState throws) .done ⟨_, hstack⟩ (Or.inr ⟨rfl, hend⟩)
    · rw [if_neg hcaller] at hok
      obtain ⟨f', g, rest, hstack, hsched⟩ := hok
      obtain rfl : f' = f := by
        rw [hstack] at hhead
        exact Option.some.inj hhead
      obtain ⟨rfl, hcur⟩ := hcur hstack
      simp only [Thread.stepAlive, Thread.finish, hcur, hcaller]
      exact hout (finishState throws) .done ⟨_, _, _, hstack, hsched⟩ (Or.inr ⟨rfl, hend⟩)
  | hold f => exact ⟨rfl, h.hold hok.1 hok.2⟩

end Steps

theorem Coro.leave_ne_lost {c : Coro} {f g : ℕ} {rest : List ℕ} (hstack : c.stack = f :: g :: rest) (st : State)
    (life : Life) : (c.mark st life).leave.1 ≠ .lost ∧ c.leave.1 ≠ .lost := by
  simp [Coro.mark, Coro.leave, hstack]

theorem Coro.step_ne_lost {c : Coro} {o : Op} (hok : c.Ok o) : (c.step o).1 ≠ .lost := by
  have henter : ∀ f, (c.enter f).1 ≠ .lost := by
    intro f
    unfold Coro.enter
    split_ifs <;> simp
  cases o with
  | call f => exact henter f
  | swapIn f => exact henter f
  | back f =>
    obtain ⟨-, g, hstack⟩ := hok
    exact (Coro.leave_ne_lost hstack .init .live).2
  | swapOut f =>
    obtain ⟨-, g, k, rest, hstack, -⟩ := hok
    exact (Coro.leave_ne_lost hstack .init .live).2
  | yield ready =>
    obtain ⟨g, k, rest, hstack, -⟩ := hok
    exact (Coro.leave_ne_lost hstack _ _).1
  | finish throws =>
    obtain ⟨f, -, hok⟩ := hok
    split_ifs at hok
    · obtain ⟨g, hstack⟩ := hok
      exact (Coro.leave_ne_lost hstack _ _).1
    · obtain ⟨g, k, rest, hstack, -⟩ := hok
      exact (Coro.leave_ne_lost hstack _ _).1
  | _ => nofun

/-- **The switches of a thread are those of coroutines.** Whatever the fibers do, as long as each leaves towards the one
that resumed it: every switch goes where the coroutines go, nothing is lost, and `t_fiber` is the fiber that runs. -/
theorem switches_refine (ops : List Op) (hok : Along Coro.Ok (fun c o => (c.step o).2) Coro.start ops) :
    (runOut Thread.step Thread.start ops).1 = (runOut Coro.step Coro.start ops).1 ∧
      .lost ∉ (runOut Thread.step Thread.start ops).1 ∧
      (runOut Coro.step Coro.start ops).2.stack.head? = some (runOut Thread.step Thread.start ops).2.running ∧
      ((runOut Coro.step Coro.start ops).2.known = true →
        (runOut Thread.step Thread.start ops).2.tFiber = some (runOut Thread.step Thread.start ops).2.running) := by
  obtain ⟨hout, hrel⟩ := runOut_sim (R := Rel) (fun s c o hok h => h.step o hok) ops rel_start hok
  refine ⟨hout, ?_, hrel.running, fun hknown => ?_⟩
  · rw [hout]
    intro hlost
    exact runOut_forall (P := fun _ => True) (q := (· ≠ .lost)) (fun c o hok _ => ⟨Coro.step_ne_lost hok, trivial⟩) ops trivial
      hok .lost hlost rfl
  · rw [hrel.this, if_pos hknown]

/-- a thread of the pool: `run()` swaps in two tasks, the first yields, the second ends and its fiber is used again -/
theorem switches_refine_pool : Along Coro.Ok (fun c o => (c.step o).2) Coro.start
      [.getThis, .setScheduler 0, .create 1 false, .swapIn 1, .yield true, .create 2 false, .swapIn 2, .finish false,
        .swapIn 1, .finish true, .reset 2, .swapIn 2] ∧
    (runOut Thread.step Thread.start [.getThis, .setScheduler 0, .create 1 false, .swapIn 1, .yield true, .create 2 false,
        .swapIn 2, .finish false, .swapIn 1, .finish true, .reset 2, .swapIn 2]).1 =
      [.stays, .stays, .stays, .starts 1, .continues 0, .stays, .starts 2, .continues 0, .continues 1, .continues 0, .stays,
        .starts 2] := by
  have hok : Along Coro.Ok (fun c o => (c.step o).2) Coro.start
      [.getThis, .setScheduler 0, .create 1 false, .swapIn 1, .yield true, .create 2 false, .swapIn 2, .finish false,
        .swapIn 1, .finish true, .reset 2, .swapIn 2] := by
    refine ⟨trivial, rfl, rfl, ⟨rfl, rfl, ⟨Or.inl rfl, by decide⟩, by decide⟩, ⟨1, 0, [], rfl, rfl⟩, rfl,
      ⟨rfl, rfl, ⟨Or.inl rfl, by decide⟩, by decide⟩, ⟨2, rfl, ⟨2, 0, [], rfl, rfl⟩⟩,
      ⟨rfl, rfl, ⟨Or.inr rfl, by decide⟩, by decide⟩, ⟨1, rfl, ⟨1, 0, [], rfl, rfl⟩⟩, ⟨Or.inr rfl, by decide⟩,
      ⟨rfl, rfl, ⟨Or.inl rfl, by decide⟩, by decide⟩, trivial⟩
  exact ⟨hok, (switches_refine _ hok).1.trans (by decide)⟩

/-! ## Where `call()` does not belong -/

/-- no context holds the place of the thread's own code, which does not run -/
structure Stranded (s : Thread) : Prop where
  running : s.running ≠ 0
  nowhere : ∀ f x, s.fibers f = some x → x.ctx ≠ .saved 0
  main : ∀ x, s.fibers 0 = some x → x.stack = false ∧ ∀ use_caller, x.ctx ≠ .entry use_caller

/-- the thread's own code goes on -/
def Landing.back (l : Landing) : Prop := l = .continues 0 ∨ l = .starts 0

namespace Stranded

variable {s : Thread} {f g : ℕ}

theorem setFiber (h : Stranded s) {x : Fib} (hctx : x.ctx ≠ .saved 0)
    (hmain : f = 0 → x.stack = false ∧ ∀ use_caller, x.ctx ≠ .entry use_caller) : Stranded (s.setFiber f x) := by
  refine ⟨h.running, fun i z hz => ?_, fun z hz => ?_⟩
  · by_cases hif : i = f
    · simp only [Thread.setFiber, hif, Function.update_self, Option.some.injEq] at hz
      rwa [← hz]
    · exact h.nowhere i z (by simpa [Thread.setFiber, Function.update_of_ne hif] using hz)
  · by_cases hif : 0 = f
    · simp only [Thread.setFiber, hif, Function.update_self, Option.some.injEq] at hz
      rw [← hz]
      exact hmain hif.symm
    · exact h.main z (by simpa [Thread.setFiber, Function.update_of_ne hif] using hz)

theorem setState (h : Stranded s) (f : ℕ) (st : State) : Stranded (s.setState f st) := by
  unfold Thread.setState
  cases hx : s.fibers f with
  | none => exact h
  | some x => exact h.setFiber (h.nowhere f x hx) (by rintro rfl; exact h.main x hx)

theorem lose (h : Stranded s) : ¬s.lose.1.back ∧ Stranded s.lose.2 :=
  ⟨by simp [Thread.lose, Landing.back], h.running, h.nowhere, h.main⟩

/-- `t_fiber` and the others only say where to go -/
theorem pointers (h : Stranded s) (a b c : Option ℕ) :
    Stranded { s with tFiber := a, tThreadFiber := b, tSchedulerFiber := c } := ⟨h.running, h.nowhere, h.main⟩

theorem resume (h : Stranded s) (f : ℕ) : ¬(s.resume f).1.back ∧ Stranded (s.resume f).2 := by
  unfold Thread.resume
  cases hx : s.fibers f with
  | none => exact h.lose
  | some x =>
    have hset : Stranded (s.setFiber f { x with ctx := .used }) :=
      h.setFiber (by simp) fun h0 => ⟨(h.main x (h0 ▸ hx)).1, by simp⟩
    cases hctx : x.ctx with
    | used =>
      simp only [hctx]
      exact h.lose
    | entry use_caller =>
      have hf0 : f ≠ 0 := by
        rintro rfl
        exact (h.main x hx).2 use_caller hctx
      simp only [hctx]
      exact ⟨by simp [Landing.back, hf0], hf0, hset.nowhere, hset.main⟩
    | saved g =>
      have hg0 : g ≠ 0 := by
        rintro rfl
        exact h.nowhere f x hx hctx
      simp only [hctx]
      exact ⟨by simp [Landing.back, hg0], hg0, hset.nowhere, hset.main⟩

theorem swapcontext (h : Stranded s) (f g : ℕ) : ¬(s.swapcontext f g).1.back ∧ Stranded (s.swapcontext f g).2 := by
  unfold Thread.swapcontext
  cases hx : s.fibers f with
  | none => exact h.lose
  | some x =>
    refine resume (h.setFiber (x := { x with ctx := .saved s.running }) ?_ fun h0 => ⟨(h.main x (h0 ▸ hx)).1, by simp⟩) g
    simpa using h.running

theorem back (h : Stranded s) (f : ℕ) : ¬(s.back f).1.back ∧ Stranded (s.back f).2 := by
  unfold Thread.back
  cases ht : s.tThreadFiber with
  | none => exact (h.pointers none none s.tSchedulerFiber).lose
  | some t => exact (h.pointers (some t) (some t) s.tSchedulerFiber).swapcontext f t

theorem swapOut (h : Stranded s) (f : ℕ) : ¬(s.swapOut f).1.back ∧ Stranded (s.swapOut f).2 := by
  unfold Thread.swapOut
  cases ht : s.tSchedulerFiber with
  | none => exact (h.pointers none s.tThreadFiber none).lose
  | some t => exact (h.pointers (some t) s.tThreadFiber (some t)).swapcontext f t

theorem getThis (h : Stranded s) : Stranded s.getThis := by
  unfold Thread.getThis
  cases ht : s.tFiber with
  | some f => exact h
  | none =>
    have hset := h.setFiber (f := s.running) (x := { state := .exec, stack := false, ctx := .used }) (by simp)
      fun _ => ⟨rfl, by simp⟩
    exact hset.pointers _ _ s.tSchedulerFiber

/-- **Nothing brings it back**: whatever the code that runs does next. -/
theorem step (h : Stranded s) {o : Op} (ho : ∀ use_caller, o ≠ .create 0 use_caller) :
    ¬(s.step o).1.back ∧ Stranded (s.step o).2 := by
  have hstays : ∀ {s' : Thread}, Stranded s' → ¬Landing.stays.back ∧ Stranded s' := fun h => ⟨by simp [Landing.back], h⟩
  unfold Thread.step
  split_ifs with hgone
  · exact ⟨by simp [Landing.back], h⟩
  cases o with
  | getThis => exact hstays h.getThis
  | create f use_caller =>
    refine hstays (h.setFiber (by simp) ?_)
    rintro rfl
    exact absurd rfl (ho use_caller)
  | reset f =>
    simp only [Thread.stepAlive, Thread.reset]
    cases hx : s.fibers f with
    | none => exact h.lose
    | some x =>
      simp only
      split_ifs with hpass
      · refine hstays (h.setFiber (by simp) ?_)
        -- the main fiber has no stack, and does not pass
        rintro rfl
        rw [(h.main x hx).1] at hpass
        cases hpass.1
      · exact h.lose
  | setScheduler f => exact hstays (h.pointers _ _ (some f))
  | call f =>
    have hset := (h.pointers (some f) s.tThreadFiber s.tSchedulerFiber).setState f .exec
    simp only [Thread.stepAlive, Thread.call]
    split
    · exact hset.lose
    · exact hset.swapcontext _ f
  | back f => exact h.back f
  | swapIn f =>
    have hthis := h.pointers (some f) s.tThreadFiber s.tSchedulerFiber
    simp only [Thread.stepAlive, Thread.swapIn]
    split_ifs
    · exact hthis.lose
    · split
      · exact (hthis.setState f .exec).lose
      · exact (hthis.setState f .exec).swapcontext _ f
  | swapOut f => exact h.swapOut f
  | yield ready =>
    simp only [Thread.stepAlive, Thread.yield]
    split
    · exact h.getThis.lose
    · exact (h.getThis.setState _ _).swapOut _
  | finish throws =>
    simp only [Thread.stepAlive, Thread.finish]
    split
    · exact h.lose
    · split_ifs
      · exact (h.setState _ _).back _
      · exact (h.setState _ _).swapOut _
  | hold f => exact hstays (h.setState f .hold)

end Stranded

/-- who calls `f` while it is not the thread's own code saves itself where the thread's own code waits -/
theorem Rel.stranded {s : Thread} {c : Coro} {f g k : ℕ} {rest : List ℕ} (h : Rel s c) (hstack : c.stack = g :: k :: rest)
    (hready : c.Ready f) : ¬(s.step (.call f)).1.back ∧ Stranded (s.step (.call f)).2 := by
  obtain ⟨hg, -, hg0, -⟩ := h.ne_of_stack hstack
  have hknown := h.known_of_stack hstack
  have hlive0 : c.life 0 = .live := h.live 0 (List.mem_of_getLast? h.bottom)
  have hf0 : f ≠ 0 := by
    rintro rfl
    exact hready.2 (List.mem_of_getLast? h.bottom)
  obtain ⟨x, hx⟩ := h.object hknown (f := f) (by rcases hready.1 with hl | hl <;> simp [hl])
  obtain ⟨y, hy⟩ := h.object hknown (f := 0) (by simp [hlive0])
  have hset : ({ s with tFiber := some f } : Thread).setState f .exec =
      ({ s with tFiber := some f } : Thread).setFiber f { x with state := .exec } := by simp [Thread.setState, hx]
  -- where the code of `g` is saved, the place of the thread's own code was kept, and nowhere else
  have hsaved : Stranded ((({ s with tFiber := some f } : Thread).setState f .exec).setFiber 0
      { y with ctx := .saved s.running }) := by
    rw [hset]
    refine ⟨hg ▸ hg0, fun i z hz hctx => ?_, fun z hz => ?_⟩
    · by_cases hi0 : i = 0
      · simp only [Thread.setFiber, hi0, Function.update_self, Option.some.injEq] at hz
        rw [← hz] at hctx
        exact hg0 (hg.trans (Context.saved.inj hctx))
      · by_cases hif : i = f
        · subst hif
          simp only [Thread.setFiber, Function.update_of_ne hi0, Function.update_self, Option.some.injEq] at hz
          rw [← hz] at hctx
          exact hf0 (h.own i x 0 hx hctx).symm
        · simp only [Thread.setFiber, Function.update_of_ne hi0, Function.update_of_ne hif] at hz
          exact hi0 (h.own i z 0 hz hctx).symm
    · simp only [Thread.setFiber, Function.update_self, Option.some.injEq] at hz
      rw [← hz]
      exact ⟨h.main y hy, by simp⟩
  have hcall : s.step (.call f) = ((({ s with tFiber := some f } : Thread).setState f .exec).setFiber 0
      { y with ctx := .saved s.running }).resume f := by
    have hthread : (({ s with tFiber := some f } : Thread).setState f .exec).tThreadFiber = some 0 := by
      rw [Thread.setState_tThreadFiber, h.threadFiber, hknown, if_pos rfl]
    have hmain : (({ s with tFiber := some f } : Thread).setState f .exec).fibers 0 = some y := by
      rw [hset]
      simp [Thread.setFiber, Function.update_of_ne (Ne.symm hf0), hy]
    have hrun : (({ s with tFiber := some f } : Thread).setState f .exec).running = s.running := by
      rw [hset]
      rfl
    have hstep : s.step (.call f) = s.call f := by
      rw [Thread.step, h.gone]
      rfl
    have hcall : s.call f = (({ s with tFiber := some f } : Thread).setState f .exec).swapcontext 0 f := by
      simp only [Thread.call, hthread]
    rw [hstep, hcall, Thread.swapcontext, hmain, hrun]
  rw [hcall]
  exact hsaved.resume f

/-- **`call()` in a task loses the thread.** Where fibers have been used as the program uses them, and a fiber that
another one has resumed calls a third: the place where the thread's own code waits is overwritten, and whatever is done
on the thread from then on, that code (on a thread of the pool, `run()`) never goes on. -/
theorem call_loses_thread {ops : List Op} {f g k : ℕ} {rest : List ℕ}
    (hok : Along Coro.Ok (fun c o => (c.step o).2) Coro.start ops)
    (hstack : (runOut Coro.step Coro.start ops).2.stack = g :: k :: rest)
    (hready : (runOut Coro.step Coro.start ops).2.Ready f) (later : List Op)
    (hlater : ∀ use_caller, .create 0 use_caller ∉ later) :
    ∀ l ∈ (runOut Thread.step (runOut Thread.step Thread.start ops).2 (.call f :: later)).1, ¬l.back := by
  obtain ⟨-, hrel⟩ := runOut_sim (R := Rel) (fun s c o hok h => h.step o hok) ops rel_start hok
  obtain ⟨hcall, hstranded⟩ := hrel.stranded hstack hready
  intro l hl
  rcases List.mem_cons.mp hl with rfl | hl
  · exact hcall
  · have hstep : ∀ s o, (∀ use_caller, o ≠ .create 0 use_caller) → Stranded s →
        ¬(Thread.step s o).1.back ∧ Stranded (Thread.step s o).2 := fun s o ho h => h.step ho
    refine runOut_forall (q := fun l => ¬l.back) hstep later hstranded (Along.of_forall (fun o ho use_caller h => ?_) _) l hl
    exact hlater use_caller (h ▸ ho)

/-- a task of a thread of the pool calls a fiber, which yields -/
theorem call_loses_thread_pool : ∀ l ∈ (runOut Thread.step (runOut Thread.step Thread.start
    [.getThis, .setScheduler 0, .create 1 false, .swapIn 1, .create 2 true]).2 [.call 2, .yield true, .yield false]).1,
    ¬l.back := by
  have hok : Along Coro.Ok (fun c o => (c.step o).2) Coro.start
      [.getThis, .setScheduler 0, .create 1 false, .swapIn 1, .create 2 true] :=
    ⟨trivial, rfl, rfl, ⟨rfl, rfl, ⟨Or.inl rfl, by decide⟩, by decide⟩, rfl, trivial⟩
  exact call_loses_thread (g := 1) (k := 0) hok rfl ⟨Or.inl rfl, by decide⟩ _ (by decide)

-- the fiber that yields lands in the task, which has become the scheduler's fiber of its own thread
example : (runOut Thread.step (runOut Thread.step Thread.start
    [.getThis, .setScheduler 0, .create 1 false, .swapIn 1, .create 2 true]).2 [.call 2, .yield true, .yield false]).1 =
    [.starts 2, .continues 1, .continues 1] := by decide

end Sylar.Switch
