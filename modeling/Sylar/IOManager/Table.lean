/-
The table of fd contexts under concurrent `addEvent` calls.

`addEvent` tests the size of `m_fdContexts` under a read lock and, if it is too small, grows the table under a write
lock taken later. Here these are two steps of a thread, with any number of threads and any interleaving. Contexts are
pointers, numbered in order of creation; `handed` is the list of those that finished lookups have returned, with their
fds. The write-locked section resizes to `fd * 1.5` whatever the size is by then, and the size test casts the size to
`int`.

- `contexts_kept_iff`: in a run the table never shrinks, no stored context is replaced, every access is in range and
  every context handed out can be found again, iff every write-locked section finds a table no longer than the one it
  makes, and makes one whose size is an `int`.
- `second_grower_shrinks`: two growers, the one with the smaller fd last.
-/
import Mathlib.Tactic
import Sylar.Core.Run
import Sylar.IOManager.Events

namespace Sylar.FdTable

open Sylar.Core IOManager

/-- where a thread is in `addEvent(fd, ...)` -/
inductive Phase where
  | outside
  /-- before the size test -/
  | entered (fd : ℕ)
  /-- the size test found the table too small -/
  | small (fd : ℕ)
deriving DecidableEq, Repr

structure St where
  /-- `m_fdContexts` -/
  contexts : List ℕ
  created : ℕ
  threads : ℕ → Phase
  /-- what lookups have returned, with the fd -/
  handed : List (ℕ × ℕ)

inductive Label where
  /-- thread `t` calls `addEvent` on `fd` -/
  | enter (t fd : ℕ)
  /-- the read-locked section of thread `t` -/
  | readLocked (t : ℕ)
  /-- the write-locked section of thread `t` -/
  | writeLocked (t : ℕ)
deriving DecidableEq, Repr

/-- `contextResize(size)` -/
def St.contextResize (s : St) (size : ℕ) : St :=
  let kept := s.contexts.take size
  { s with contexts := kept ++ List.range' s.created (size - kept.length), created := s.created + (size - kept.length) }

/-- the state after the constructor -/
def start : St := St.contextResize { contexts := [], created := 0, threads := fun _ => .outside, handed := [] } 32

def St.goto (s : St) (t : ℕ) (p : Phase) : St := { s with threads := Function.update s.threads t p }

/-- `fd_ctx = m_fdContexts[fd]`; past the end there is nothing to hand out -/
def St.take (s : St) (t fd : ℕ) : St :=
  { s.goto t .outside with handed := s.handed ++ (s.contexts[fd]?.map fun p => (fd, p)).toList }

def step (s : St) : Label → St
  | .enter t fd => if s.threads t = .outside ∧ fd < 2147483648 then s.goto t (.entered fd) else s
  | .readLocked t =>
    match s.threads t with
    | .entered fd => if intGt s.contexts.length fd then s.take t fd else s.goto t (.small fd)
    | _ => s
  | .writeLocked t =>
    match s.threads t with
    | .small fd => (s.contextResize (fd * 3 / 2)).take t fd
    | _ => s

/-- the access a step makes to `m_fdContexts`: the index, and the size at that moment -/
def access (s : St) : Label → Option (ℕ × ℕ)
  | .enter _ _ => none
  | .readLocked t =>
    match s.threads t with
    | .entered fd => if intGt s.contexts.length fd then some (fd, s.contexts.length) else none
    | _ => none
  | .writeLocked t =>
    match s.threads t with
    | .small fd => some (fd, (s.contextResize (fd * 3 / 2)).contexts.length)
    | _ => none

/-- the lookup of `delEvent`, `cancelEvent` and `cancelAll` -/
def St.lookup (s : St) (fd : ℕ) : Option ℕ := if intGt s.contexts.length fd then s.contexts[fd]? else none

/-- no context is lost by the step -/
structure Kept (s : St) (l : Label) : Prop where
  grows : s.contexts.length ≤ (step s l).contexts.length
  stays : ∀ fd p : ℕ, s.contexts[fd]? = some p → (step s l).contexts[fd]? = some p
  in_range : ∀ x ∈ access s l, x.1 < x.2
  found : ∀ x ∈ (step s l).handed, (step s l).lookup x.1 = some x.2

/-- a write-locked section finds a table no longer than the one it makes, of a size that is an `int` -/
def Fits (s : St) : Label → Prop
  | .writeLocked t =>
    match s.threads t with
    | .small fd => s.contexts.length ≤ fd * 3 / 2 ∧ fd * 3 / 2 < 2147483648
    | _ => True
  | _ => True

/-! ## Resizing -/

theorem contextResize_length (s : St) (size : ℕ) : (s.contextResize size).contexts.length = size := by
  simp only [St.contextResize, List.length_append, List.length_range', List.length_take]
  omega

/-- a resize that does not shrink the table keeps what is in it -/
theorem contextResize_get {s : St} {size : ℕ} (h : s.contexts.length ≤ size) {fd p : ℕ}
    (hp : s.contexts[fd]? = some p) :
    (s.contextResize size).contexts[fd]? = some p := by
  have hlt : fd < s.contexts.length := (List.getElem?_eq_some_iff.1 hp).1
  simp only [St.contextResize, List.take_of_length_le h]
  rw [List.getElem?_append_left hlt, hp]

/-! ## The invariant -/

structure Inv (s : St) : Prop where
  len_ge : 32 ≤ s.contexts.length
  len_lt : s.contexts.length < 2147483648
  fd_lt : ∀ t fd, s.threads t = .entered fd ∨ s.threads t = .small fd → fd < 2147483648
  handed : ∀ x ∈ s.handed, s.contexts[x.1]? = some x.2

theorem start_inv : Inv start := by
  refine ⟨?_, ?_, ?_, ?_⟩
  · rw [start, contextResize_length]
  · rw [start, contextResize_length]
    norm_num
  · intro t fd h
    rcases h with h | h <;> cases h
  · intro x hx
    cases hx

theorem intGt_iff_of_lt {size : ℕ} (h : size < 2147483648) (fd : ℕ) : intGt size fd ↔ fd < size := by
  have hmod : size % 2 ^ 32 = size := Nat.mod_eq_of_lt (by omega)
  rw [intGt, hmod]
  omega

theorem Inv.lookup {s : St} (h : Inv s) : ∀ x ∈ s.handed, s.lookup x.1 = some x.2 := by
  intro x hx
  have hget := h.handed x hx
  have hlt : x.1 < s.contexts.length := (List.getElem?_eq_some_iff.1 hget).1
  rw [St.lookup, if_pos ((intGt_iff_of_lt h.len_lt x.1).2 hlt), hget]

theorem Inv.goto {s : St} (h : Inv s) (t : ℕ) {p : Phase}
    (hp : ∀ fd, p = .entered fd ∨ p = .small fd → fd < 2147483648) :
    Inv (s.goto t p) := by
  refine ⟨h.len_ge, h.len_lt, fun u fd hu => ?_, h.handed⟩
  by_cases hut : u = t
  · subst hut
    simp only [St.goto, Function.update_self] at hu
    exact hp fd hu
  · simp only [St.goto, Function.update_of_ne hut] at hu
    exact h.fd_lt u fd hu

/-- the lookup hands out what is in the table -/
theorem Inv.take {s : St} (h : Inv s) (t fd : ℕ) : Inv (s.take t fd) := by
  have hg := h.goto t (p := .outside) (by rintro fd (h | h) <;> cases h)
  refine ⟨hg.len_ge, hg.len_lt, hg.fd_lt, fun x hx => ?_⟩
  rcases List.mem_append.1 hx with hx | hx
  · exact h.handed x hx
  · obtain ⟨p, hp, rfl⟩ := Option.map_eq_some_iff.1 (Option.mem_toList.1 hx)
    exact hp

theorem Inv.resize {s : St} (h : Inv s) {size : ℕ} (hle : s.contexts.length ≤ size) (hlt : size < 2147483648) :
    Inv (s.contextResize size) := by
  have hge := h.len_ge
  refine ⟨?_, ?_, h.fd_lt, fun x hx => contextResize_get hle (h.handed x hx)⟩
  · rw [contextResize_length]
    omega
  · rw [contextResize_length]
    omega

/-- **One step.** Under the invariant, a step loses no context iff its write-locked section fits; and then the
invariant holds again. -/
theorem step_kept {s : St} (h : Inv s) (l : Label) (hf : Fits s l) : Kept s l ∧ Inv (step s l) := by
  have hsame : ∀ s' : St, s'.contexts = s.contexts → Inv s' → step s l = s' → (∀ x ∈ access s l, x.1 < x.2) →
      Kept s l ∧ Inv (step s l) := by
    intro s' hctx hi he hr
    rw [he]
    refine ⟨⟨?_, ?_, hr, ?_⟩, hi⟩
    · rw [he, hctx]
    · rw [he, hctx]
      exact fun _ _ hp => hp
    · rw [he]
      exact hi.lookup
  cases l with
  | enter t fd =>
    by_cases hen : s.threads t = .outside ∧ fd < 2147483648
    · refine hsame (s.goto t (.entered fd)) rfl (h.goto t ?_) (if_pos hen) (by simp [access])
      rintro fd' (hp | hp)
      · cases hp
        exact hen.2
      · cases hp
    · exact hsame s rfl h (if_neg hen) (by simp [access])
  | readLocked t =>
    cases ht : s.threads t with
    | entered fd =>
      by_cases hgt : intGt s.contexts.length fd
      · refine hsame (s.take t fd) rfl (h.take t fd) ?_ ?_
        · simp only [step, ht, if_pos hgt]
        · simp only [access, ht, if_pos hgt, Option.mem_some_iff, forall_eq']
          exact (intGt_iff_of_lt h.len_lt fd).1 hgt
      · refine hsame (s.goto t (.small fd)) rfl (h.goto t ?_) ?_ ?_
        · rintro fd' (hp | hp)
          · cases hp
          · cases hp
            exact h.fd_lt t fd (Or.inl ht)
        · simp only [step, ht, if_neg hgt]
        · simp [access, ht, hgt]
    | outside => exact hsame s rfl h (by simp only [step, ht]) (by simp [access, ht])
    | small fd => exact hsame s rfl h (by simp only [step, ht]) (by simp [access, ht])
  | writeLocked t =>
    cases ht : s.threads t with
    | outside => exact hsame s rfl h (by simp only [step, ht]) (by simp [access, ht])
    | entered fd => exact hsame s rfl h (by simp only [step, ht]) (by simp [access, ht])
    | small fd =>
      simp only [Fits, ht] at hf
      have hstep : step s (.writeLocked t) = (s.contextResize (fd * 3 / 2)).take t fd := by simp only [step, ht]
      have hi : Inv ((s.contextResize (fd * 3 / 2)).take t fd) := (h.resize hf.1 hf.2).take t fd
      have hge := h.len_ge
      rw [hstep]
      refine ⟨⟨?_, ?_, ?_, ?_⟩, hi⟩
      · rw [hstep]
        show _ ≤ (s.contextResize (fd * 3 / 2)).contexts.length
        rw [contextResize_length]
        exact hf.1
      · rw [hstep]
        exact fun fd' p hp => contextResize_get hf.1 hp
      · simp only [access, ht, Option.mem_some_iff, forall_eq', contextResize_length]
        omega
      · rw [hstep]
        exact hi.lookup

/-- a step that loses no context fits -/
theorem fits_of_kept {s : St} (h : Inv s) (l : Label) (hk : Kept s l) : Fits s l := by
  cases l with
  | enter t fd => trivial
  | readLocked t => trivial
  | writeLocked t =>
    cases ht : s.threads t with
    | outside => simp only [Fits, ht]
    | entered fd => simp only [Fits, ht]
    | small fd =>
      simp only [Fits, ht]
      have hstep : step s (.writeLocked t) = (s.contextResize (fd * 3 / 2)).take t fd := by simp only [step, ht]
      have hctx : (step s (.writeLocked t)).contexts.length = fd * 3 / 2 := by
        rw [hstep]
        exact contextResize_length s _
      have hle := hk.grows
      rw [hctx] at hle
      refine ⟨hle, ?_⟩
      -- the context just handed out is found, so the size test passes
      have hin : fd < fd * 3 / 2 := by
        have := hk.in_range (fd, fd * 3 / 2) (by simp [access, ht, contextResize_length])
        exact this
      obtain ⟨p, hp⟩ : ∃ p, (s.contextResize (fd * 3 / 2)).contexts[fd]? = some p :=
        ⟨_, List.getElem?_eq_getElem (by rw [contextResize_length]; exact hin)⟩
      have hfound := hk.found (fd, p) (by rw [hstep]; simp [St.take, hp])
      rw [St.lookup, hctx] at hfound
      split_ifs at hfound with hgt
      have hfd := h.fd_lt t fd (Or.inr ht)
      have hmod : fd * 3 / 2 % 2 ^ 32 = fd * 3 / 2 := Nat.mod_eq_of_lt (by omega)
      rw [intGt, hmod] at hgt
      omega

/-- **Contexts are kept iff every growth fits.** In every run of any number of threads, no step loses a context iff
every write-locked section finds a table no longer than `fd * 1.5`, and `fd * 1.5` is an `int`. -/
theorem contexts_kept_iff (ls : List Label) : Along Kept step start ls ↔ Along Fits step start ls := by
  have hall : ∀ (ls : List Label) {s : St}, Inv s → (Along Kept step s ls ↔ Along Fits step s ls) := by
    intro ls
    induction ls with
    | nil => exact fun _ => Iff.rfl
    | cons l ls ih =>
      intro s h
      constructor
      · rintro ⟨hk, hrest⟩
        have hf := fits_of_kept h l hk
        exact ⟨hf, (ih (step_kept h l hf).2).1 hrest⟩
      · rintro ⟨hf, hrest⟩
        obtain ⟨hk, hi⟩ := step_kept h l hf
        exact ⟨hk, (ih hi).2 hrest⟩
  exact hall ls start_inv

/-- two threads find the table too small for fds 100 and 40; the second resize drops the contexts from 60 on -/
theorem second_grower_shrinks :
    ¬Along Kept step start [.enter 0 100, .enter 1 40, .readLocked 0, .readLocked 1, .writeLocked 0, .writeLocked 1] := by
  intro h
  have hgrows := h.2.2.2.2.2.1.grows
  revert hgrows
  decide +kernel

end Sylar.FdTable
