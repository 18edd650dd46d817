/-
Scanners: a finite machine over input symbols whose transitions carry actions.

This is the code a scanner generator writes. A transition names a target state and a list of actions; an action works
on the data `δ` of the scan at the current position, and may end the scan there (`fbreak`) or raise an exception.
`exec` reads symbols from a position on until the input ends, an action ends it, or the target is the error state; the
position it returns is the one behind the last symbol read, or that of the symbol that led to the error state.

The control of a scan does not depend on the data. `reads` and `halts` are the paths of the machine alone: `reads`
goes through the whole input without an error and without an action that ends the scan, `halts` does so up to the last
symbol, whose transition ends it. `Ends` says which actions end the scan.
- `exec_of_reads`, `exec_of_halts`: where a scan is after such an input, whatever its data.
- `halts_split`: a cut of an accepted input is a `reads` and a `halts`.
- `exec_append_of_halts`, `exec_agree`: what follows an accepted input, and what a machine does off the path, does not
  show.
- `exec_invariant`, `exec_frame`: what the actions keep, and what they do not touch.
- `exec_labels`: labels of the states that the transitions respect hold of the data of a whole scan, which raises
  nothing.
- `exec_follow`: the same with a value that is computed along the path (`follow`) instead of one for each state.
- `exec_reading`: a relation between the text read so far, the state and the data.
- `Walks`: pre- and postconditions for the pieces of a text.
- `exec_pair`: a scan with the actions of two scans at once is both, so that a relation between them is a property of
  one.
-/
import Mathlib.Tactic

namespace Sylar.Core.Scan

/-- what an action does to the scan: go on, end it, or raise -/
inductive Flow (ε δ : Type) where
  | go (d : δ)
  | fbreak (d : δ)
  | raise (e : ε)

/-- an action that may raise and otherwise goes on -/
def Flow.ofExcept {ε δ : Type} : Except ε δ → Flow ε δ
  | .ok d => .go d
  | .error e => .raise e

@[simp] theorem Flow.ofExcept_eq_go {ε δ : Type} {x : Except ε δ} {d : δ} : Flow.ofExcept x = .go d ↔ x = .ok d := by
  cases x <;> simp [Flow.ofExcept]

@[simp] theorem Flow.ofExcept_eq_raise {ε δ : Type} {x : Except ε δ} {e : ε} :
    Flow.ofExcept x = .raise e ↔ x = .error e := by
  cases x <;> simp [Flow.ofExcept]

@[simp] theorem Flow.ofExcept_ne_fbreak {ε δ : Type} {x : Except ε δ} {d : δ} : Flow.ofExcept x ≠ .fbreak d := by
  cases x <;> simp [Flow.ofExcept]

structure Machine (σ α ι : Type) where
  next : σ → α → σ × List ι
  error : σ

section
variable {σ α ι ε δ : Type}

/-- the actions of one transition, in order -/
def perform (act : ι → δ → Flow ε δ) : List ι → δ → Flow ε δ
  | [], d => .go d
  | i :: is, d =>
    match act i d with
    | .go d' => perform act is d'
    | .fbreak d' => .fbreak d'
    | .raise e => .raise e

/-- scan `w` from position `p` and state `cs` on: the position, the state and the data it ends with -/
def exec [DecidableEq σ] (M : Machine σ α ι) (act : ι → ℕ → δ → Flow ε δ) :
    List α → ℕ → σ → δ → Except ε (ℕ × σ × δ)
  | [], p, cs, d => .ok (p, cs, d)
  | c :: w, p, cs, d =>
    match perform (fun i => act i p) (M.next cs c).2 d with
    | .raise e => .error e
    | .fbreak d' => .ok (p + 1, (M.next cs c).1, d')
    | .go d' => if (M.next cs c).1 = M.error then .ok (p, M.error, d') else exec M act w (p + 1) (M.next cs c).1 d'

/-! ## Paths -/

/-- the state after `w`, if no transition leads to the error state or has an action of `brk` -/
def reads [DecidableEq σ] (M : Machine σ α ι) (brk : ι → Bool) : σ → List α → Option σ
  | cs, [] => some cs
  | cs, c :: w =>
    if (M.next cs c).2.any brk ∨ (M.next cs c).1 = M.error then none else reads M brk (M.next cs c).1 w

/-- the state after `w`, if its last transition is the first one with an action of `brk` and none leads to the error
state -/
def halts [DecidableEq σ] (M : Machine σ α ι) (brk : ι → Bool) : σ → List α → Option σ
  | _, [] => none
  | cs, c :: w =>
    if (M.next cs c).1 = M.error then none
    else if (M.next cs c).2.any brk then (if w.isEmpty then some (M.next cs c).1 else none)
    else halts M brk (M.next cs c).1 w

variable [DecidableEq σ] {M : Machine σ α ι} {brk : ι → Bool}

theorem halts_split {cs f : σ} {u v : List α} (h : halts M brk cs (u ++ v) = some f) (hv : v ≠ []) :
    ∃ cs', reads M brk cs u = some cs' ∧ halts M brk cs' v = some f := by
  induction u generalizing cs with
  | nil => exact ⟨cs, rfl, h⟩
  | cons c u ih =>
    have hne : (u ++ v).isEmpty = false := by
      cases u <;> cases v <;> simp_all
    simp only [List.cons_append, halts] at h
    split_ifs at h with herr hbrk hemp
    · rw [hne] at hemp; exact absurd hemp (by decide)
    · obtain ⟨cs', h1, h2⟩ := ih h
      refine ⟨cs', ?_, h2⟩
      rw [reads, if_neg (not_or.mpr ⟨hbrk, herr⟩), h1]

/-! ## Scans along a path -/

/-- `brk` are the actions that end the scan -/
structure Ends (act : ι → ℕ → δ → Flow ε δ) (brk : ι → Bool) : Prop where
  go : ∀ i p d d', act i p d = .go d' → brk i = false
  fbreak : ∀ i p d d', act i p d = .fbreak d' → brk i = true

variable {act : ι → ℕ → δ → Flow ε δ}

theorem perform_go (hE : Ends act brk) {is : List ι} {p : ℕ} {d d' : δ}
    (h : perform (fun i => act i p) is d = .go d') : is.any brk = false := by
  induction is generalizing d with
  | nil => rfl
  | cons i is ih =>
    simp only [perform] at h
    cases ha : act i p d with
    | go d1 =>
      rw [ha] at h
      simp only [List.any_cons, hE.go i p d d1 ha, ih h, Bool.or_self]
    | fbreak d1 => rw [ha] at h; exact absurd h (by simp)
    | raise e => rw [ha] at h; exact absurd h (by simp)

theorem perform_fbreak (hE : Ends act brk) {is : List ι} {p : ℕ} {d d' : δ}
    (h : perform (fun i => act i p) is d = .fbreak d') : is.any brk = true := by
  induction is generalizing d with
  | nil => exact absurd h (by simp [perform])
  | cons i is ih =>
    simp only [perform] at h
    cases ha : act i p d with
    | go d1 => rw [ha] at h; simp only [List.any_cons, ih h, Bool.or_true]
    | fbreak d1 => simp only [List.any_cons, hE.fbreak i p d d1 ha, Bool.true_or]
    | raise e => rw [ha] at h; exact absurd h (by simp)

/-- a scan of a path without an end goes through it -/
theorem exec_of_reads (hE : Ends act brk) {cs cs' : σ} {u v : List α} (h : reads M brk cs u = some cs') {p : ℕ} {d : δ}
    {r : ℕ × σ × δ} (hr : exec M act (u ++ v) p cs d = .ok r) :
    ∃ d', exec M act u p cs d = .ok (p + u.length, cs', d') ∧ exec M act v (p + u.length) cs' d' = .ok r := by
  induction u generalizing cs p d with
  | nil =>
    obtain rfl : cs = cs' := by simpa [reads] using h
    exact ⟨d, rfl, hr⟩
  | cons c u ih =>
    simp only [reads] at h
    split_ifs at h with hstop
    obtain ⟨hany, herr⟩ := not_or.mp hstop
    simp only [List.cons_append, exec] at hr ⊢
    cases hp : perform (fun i => act i p) (M.next cs c).2 d with
    | raise e => rw [hp] at hr; exact absurd hr (by simp)
    | fbreak d1 => exact absurd (perform_fbreak hE hp) hany
    | go d1 =>
      rw [hp] at hr
      simp only [herr, if_false] at hr ⊢
      obtain ⟨d', h1, h2⟩ := ih h hr
      have hlen : p + 1 + u.length = p + (c :: u).length := by simp only [List.length_cons]; omega
      rw [hlen] at h1 h2
      exact ⟨d', h1, h2⟩

/-- a scan of an accepted input ends behind it, whatever follows -/
theorem exec_of_halts (hE : Ends act brk) {cs f : σ} {u v : List α} (h : halts M brk cs u = some f) {p : ℕ} {d : δ}
    {r : ℕ × σ × δ} (hr : exec M act (u ++ v) p cs d = .ok r) :
    r.1 = p + u.length ∧ r.2.1 = f ∧ exec M act u p cs d = .ok r := by
  induction u generalizing cs p d with
  | nil => exact absurd h (by simp [halts])
  | cons c u ih =>
    simp only [halts] at h
    split_ifs at h with herr hbrk hemp
    · -- the last symbol
      obtain rfl : u = [] := List.isEmpty_iff.mp hemp
      simp only [List.cons_append, exec] at hr ⊢
      cases hp : perform (fun i => act i p) (M.next cs c).2 d with
      | raise e => rw [hp] at hr; exact absurd hr (by simp)
      | fbreak d1 =>
        rw [hp] at hr
        obtain rfl := Except.ok.inj hr
        exact ⟨rfl, Option.some.inj h, rfl⟩
      | go d1 => rw [perform_go hE hp] at hbrk; exact absurd hbrk (by decide)
    · simp only [List.cons_append, exec] at hr ⊢
      cases hp : perform (fun i => act i p) (M.next cs c).2 d with
      | raise e => rw [hp] at hr; exact absurd hr (by simp)
      | fbreak d1 => exact absurd (perform_fbreak hE hp) hbrk
      | go d1 =>
        rw [hp] at hr
        simp only [herr, if_false] at hr ⊢
        obtain ⟨h1, h2, h3⟩ := ih h hr
        refine ⟨?_, h2, h3⟩
        simp only [List.length_cons]
        omega

omit [DecidableEq σ] in
theorem perform_invariant {P : ι → Bool} {I : δ → Prop} {p : ℕ}
    (hI : ∀ i d d', P i = true → (act i p d = .go d' ∨ act i p d = .fbreak d') → I d → I d') {is : List ι}
    (his : is.all P = true) {d d' : δ}
    (h : perform (fun i => act i p) is d = .go d' ∨ perform (fun i => act i p) is d = .fbreak d') (hd : I d) : I d' := by
  induction is generalizing d with
  | nil =>
    simp only [perform, Flow.go.injEq, reduceCtorEq, or_false] at h
    rwa [← h]
  | cons i is ih =>
    simp only [List.all_cons, Bool.and_eq_true] at his
    simp only [perform] at h
    cases ha : act i p d with
    | go d1 => rw [ha] at h; exact ih his.2 h (hI i d d1 his.1 (.inl ha) hd)
    | fbreak d1 =>
      rw [ha] at h
      simp only [reduceCtorEq, Flow.fbreak.injEq, false_or] at h
      rw [← h]
      exact hI i d d1 his.1 (.inr ha) hd
    | raise e => rw [ha] at h; simp at h

/-- **Invariant rule.** In a set `S` of states closed under the transitions, what the actions `P` keep holds behind a
scan if only such actions happen there. -/
theorem exec_invariant {S : σ → Bool} {P : ι → Bool} {I : δ → Prop}
    (hS : ∀ cs c, S cs = true → S (M.next cs c).1 = true ∧ (M.next cs c).2.all P = true)
    (hI : ∀ i p d d', P i = true → (act i p d = .go d' ∨ act i p d = .fbreak d') → I d → I d')
    {w : List α} {p : ℕ} {cs : σ} {d : δ} {r : ℕ × σ × δ} (h : exec M act w p cs d = .ok r) (hcs : S cs = true) (hd : I d) :
    S r.2.1 = true ∧ I r.2.2 := by
  induction w generalizing p cs d with
  | nil =>
    rw [← Except.ok.inj h]
    exact ⟨hcs, hd⟩
  | cons c w ih =>
    obtain ⟨hnext, hacts⟩ := hS cs c hcs
    have hkeep : ∀ {d'}, perform (fun i => act i p) (M.next cs c).2 d = .go d' ∨
        perform (fun i => act i p) (M.next cs c).2 d = .fbreak d' → I d' :=
      fun h' => perform_invariant (fun i d d' hi => hI i p d d' hi) hacts h' hd
    simp only [exec] at h
    cases hp : perform (fun i => act i p) (M.next cs c).2 d with
    | raise e => rw [hp] at h; exact absurd h (by simp)
    | fbreak d1 =>
      rw [hp] at h
      rw [← Except.ok.inj h]
      exact ⟨hnext, hkeep (.inr hp)⟩
    | go d1 =>
      rw [hp] at h
      dsimp only at h
      split_ifs at h with herr
      · rw [← Except.ok.inj h]
        exact ⟨herr ▸ hnext, hkeep (.inl hp)⟩
      · exact ih h hnext (hkeep (.inl hp))

/-- what no action changes, a scan does not change -/
theorem exec_frame {β : Type} {f : δ → β} (hf : ∀ i p d d', act i p d = .go d' ∨ act i p d = .fbreak d' → f d' = f d)
    {w : List α} {p : ℕ} {cs : σ} {d : δ} {r : ℕ × σ × δ} (h : exec M act w p cs d = .ok r) : f r.2.2 = f d := by
  have hI : ∀ i p x x', true = true → (act i p x = .go x' ∨ act i p x = .fbreak x') → f x = f d → f x' = f d :=
    fun i p x x' _ hx hd => (hf i p x x' hx).trans hd
  exact (exec_invariant (S := fun _ => true) (P := fun _ => true) (fun _ _ _ => ⟨rfl, by simp⟩) hI h rfl rfl).2

omit [DecidableEq σ] in
theorem perform_raise {is : List ι} {p : ℕ} {d : δ} {e : ε} (h : perform (fun i => act i p) is d = .raise e) :
    ∃ i d', act i p d' = .raise e := by
  induction is generalizing d with
  | nil => cases h
  | cons i is ih =>
    simp only [perform] at h
    cases ha : act i p d with
    | go d' => rw [ha] at h; exact ih h
    | fbreak d' => rw [ha] at h; cases h
    | raise e' => rw [ha] at h; exact ⟨i, d, ha.trans h⟩

/-- what a scan raises, some action raises -/
theorem exec_raise {w : List α} {p : ℕ} {cs : σ} {d : δ} {e : ε} (h : exec M act w p cs d = .error e) :
    ∃ i q d', act i q d' = .raise e := by
  induction w generalizing p cs d with
  | nil => cases h
  | cons c w ih =>
    simp only [exec] at h
    cases hp : perform (fun i => act i p) (M.next cs c).2 d with
    | raise e' =>
      rw [hp] at h
      obtain ⟨i, d', hi⟩ := perform_raise hp
      exact ⟨i, p, d', by rw [hi, Except.error.inj h]⟩
    | fbreak d' => rw [hp] at h; cases h
    | go d' =>
      rw [hp] at h
      dsimp only at h
      split_ifs at h
      exact ih h

theorem exec_le {w : List α} {p : ℕ} {cs : σ} {d : δ} {r : ℕ × σ × δ} (h : exec M act w p cs d = .ok r) : p ≤ r.1 := by
  induction w generalizing p cs d with
  | nil => rw [← Except.ok.inj h]
  | cons c w ih =>
    simp only [exec] at h
    cases hp : perform (fun i => act i p) (M.next cs c).2 d with
    | raise e => rw [hp] at h; cases h
    | fbreak d' =>
      rw [hp] at h
      rw [← Except.ok.inj h]
      exact Nat.le_succ p
    | go d' =>
      rw [hp] at h
      dsimp only at h
      split_ifs at h with herr
      · rw [← Except.ok.inj h]
      · exact (Nat.le_succ p).trans (ih h)

/-- a scan that does not end in the error state reads the first symbol -/
theorem exec_progress {c : α} {w : List α} {p : ℕ} {cs : σ} {d : δ} {r : ℕ × σ × δ}
    (h : exec M act (c :: w) p cs d = .ok r) (herr : r.2.1 ≠ M.error) : p < r.1 := by
  simp only [exec] at h
  cases hp : perform (fun i => act i p) (M.next cs c).2 d with
  | raise e => rw [hp] at h; cases h
  | fbreak d' =>
    rw [hp] at h
    rw [← Except.ok.inj h]
    exact Nat.lt_succ_self p
  | go d' =>
    rw [hp] at h
    dsimp only at h
    split_ifs at h with hend
    · rw [← Except.ok.inj h] at herr
      exact absurd rfl herr
    · exact exec_le h

/-- what only the end of a scan changes is as it was behind a path without an end -/
theorem exec_reads_frame (hE : Ends act brk) {β : Type} {f : δ → β} (hf : ∀ i p d d', act i p d = .go d' → f d' = f d)
    {cs cs' : σ} {u : List α} (hu : reads M brk cs u = some cs') {p : ℕ} {d : δ} {r : ℕ × σ × δ}
    (h : exec M act u p cs d = .ok r) : f r.2.2 = f d := by
  induction u generalizing cs p d with
  | nil => rw [← Except.ok.inj h]
  | cons c u ih =>
    simp only [reads] at hu
    split_ifs at hu with hstop
    obtain ⟨hany, herr⟩ := not_or.mp hstop
    have hkeep : ∀ {is : List ι} {x x' : δ}, perform (fun i => act i p) is x = .go x' → f x' = f x := by
      intro is
      induction is with
      | nil => intro x x' hx; rw [← Flow.go.inj hx]
      | cons i is ihs =>
        intro x x' hx
        simp only [perform] at hx
        cases ha : act i p x with
        | go x1 => rw [ha] at hx; rw [ihs hx, hf i p x x1 ha]
        | fbreak x1 => rw [ha] at hx; exact absurd hx (by simp)
        | raise e => rw [ha] at hx; exact absurd hx (by simp)
    simp only [exec] at h
    cases hp : perform (fun i => act i p) (M.next cs c).2 d with
    | raise e => rw [hp] at h; exact absurd h (by simp)
    | fbreak d1 => exact absurd (perform_fbreak hE hp) hany
    | go d1 =>
      rw [hp] at h
      simp only [herr, if_false] at h
      rw [ih hu h, hkeep hp]

/-- a scan goes on behind a path without an end -/
theorem exec_append_of_reads (hE : Ends act brk) {cs cs' : σ} {u : List α} (hu : reads M brk cs u = some cs') {p : ℕ}
    {d : δ}
    {r : ℕ × σ × δ} (h : exec M act u p cs d = .ok r) (v : List α) :
    exec M act (u ++ v) p cs d = exec M act v r.1 r.2.1 r.2.2 := by
  induction u generalizing cs p d with
  | nil =>
    rw [← Except.ok.inj h]
    rfl
  | cons c u ih =>
    simp only [reads] at hu
    split_ifs at hu with hstop
    obtain ⟨hany, herr⟩ := not_or.mp hstop
    simp only [List.cons_append, exec] at h ⊢
    cases hp : perform (fun i => act i p) (M.next cs c).2 d with
    | raise e => rw [hp] at h; exact absurd h (by simp)
    | fbreak d1 => exact absurd (perform_fbreak hE hp) hany
    | go d1 =>
      rw [hp] at h
      simp only [herr, if_false] at h ⊢
      exact ih hu h

/-- an accepted input ends the scan, so the scan does not depend on what follows -/
theorem exec_append_of_halts (hE : Ends act brk) {cs f : σ} {u : List α} (h : halts M brk cs u = some f) (v : List α)
    (p : ℕ) (d : δ) : exec M act (u ++ v) p cs d = exec M act u p cs d := by
  induction u generalizing cs p d with
  | nil => exact absurd h (by simp [halts])
  | cons c u ih =>
    simp only [halts] at h
    simp only [List.cons_append, exec]
    cases hp : perform (fun i => act i p) (M.next cs c).2 d with
    | raise e => rfl
    | fbreak d1 => rfl
    | go d1 =>
      simp only [perform_go hE hp, Bool.false_eq_true, if_false] at h
      split_ifs at h with herr
      simp only [herr, if_false]
      exact ih h (p + 1) d1

/-- a machine that has the same transitions wherever the first one has one scans an accepted input in the same way -/
theorem exec_agree (M' : Machine σ α ι) (herror : M'.error = M.error)
    (hnext : ∀ cs c, (M.next cs c).1 ≠ M.error → M'.next cs c = M.next cs c) {cs f : σ} {u : List α}
    (h : halts M brk cs u = some f) :
    halts M' brk cs u = some f ∧ ∀ p (d : δ), exec M' act u p cs d = exec M act u p cs d := by
  induction u generalizing cs with
  | nil => exact absurd h (by simp [halts])
  | cons c u ih =>
    simp only [halts] at h
    split_ifs at h with herr hbrk hemp
    · obtain rfl : u = [] := List.isEmpty_iff.mp hemp
      refine ⟨?_, fun p d => ?_⟩
      · simp only [halts, hnext cs c herr, herror, herr, hbrk, if_false, if_true]
        exact h
      · simp only [exec, hnext cs c herr, herror]
    · obtain ⟨h1, h2⟩ := ih h
      refine ⟨?_, fun p d => ?_⟩
      · rw [halts, hnext cs c herr, herror, if_neg herr, if_neg hbrk, h1]
      · simp only [exec, hnext cs c herr, herror, h2]

/-! ## What has been read -/

omit [DecidableEq σ] in
theorem perform_append (f : ι → δ → Flow ε δ) (is js : List ι) (d : δ) :
    perform f (is ++ js) d = match perform f is d with
      | .go d' => perform f js d'
      | .fbreak d' => .fbreak d'
      | .raise e => .raise e := by
  induction is generalizing d with
  | nil => rfl
  | cons i is ih =>
    simp only [List.cons_append, perform]
    cases f i d with
    | go d1 => exact ih d1
    | fbreak d1 => rfl
    | raise e => rfl

omit [DecidableEq σ] in
theorem perform_ne_fbreak {f : ι → δ → Flow ε δ} (hf : ∀ i d d', f i d ≠ .fbreak d') (is : List ι) (d d' : δ) :
    perform f is d ≠ .fbreak d' := by
  induction is generalizing d with
  | nil => simp [perform]
  | cons i is ih =>
    simp only [perform]
    cases hi : f i d with
    | go d1 => exact ih d1
    | fbreak d1 => exact absurd hi (hf i d d1)
    | raise e => simp

/-- **Invariant rule for the text read so far.** If no action ends the scan, a relation between the text read, the
state and the data that every transition keeps holds at the end of a scan without error, and all is read. -/
theorem exec_reading {R : List α → σ → δ → Prop} {text : List α} (hgo : ∀ i p d d', act i p d ≠ .fbreak d')
    (hstep : ∀ pre c rest cs d d', text = pre ++ c :: rest → R pre cs d → (M.next cs c).1 ≠ M.error →
      perform (fun i => act i pre.length) (M.next cs c).2 d = .go d' → R (pre ++ [c]) (M.next cs c).1 d')
    {pre w : List α} {cs : σ} {d : δ} (htext : text = pre ++ w) (hR : R pre cs d) {r : ℕ × σ × δ}
    (h : exec M act w pre.length cs d = .ok r) (hr : r.2.1 ≠ M.error) : r.1 = text.length ∧ R text r.2.1 r.2.2 := by
  induction w generalizing pre cs d with
  | nil =>
    rw [List.append_nil] at htext
    rw [← Except.ok.inj h, htext]
    exact ⟨rfl, hR⟩
  | cons c w ih =>
    simp only [exec] at h
    cases hp : perform (fun i => act i pre.length) (M.next cs c).2 d with
    | raise e => rw [hp] at h; cases h
    | fbreak d1 => exact absurd hp (perform_ne_fbreak (fun i d d' => hgo i pre.length d d') _ d d1)
    | go d1 =>
      rw [hp] at h
      dsimp only at h
      split_ifs at h with herr
      · rw [← Except.ok.inj h] at hr
        exact absurd rfl hr
      · have hlen : pre.length + 1 = (pre ++ [c]).length := by simp
        rw [hlen] at h
        exact ih (by rw [htext]; simp) (hstep pre c w cs d d1 htext hR herr hp) h

/-! ## Walks

Pre- and postconditions of pieces of a text: `I` and `J` are about the position and the data. -/

/-- the piece `u`, wherever it stands in `text`, takes the scan from `cs` with `I` to `cs'` with `J` -/
def Walks (M : Machine σ α ι) (act : ι → ℕ → δ → Flow ε δ) (text : List α) (cs : σ) (I : ℕ → δ → Prop) (u : List α)
    (cs' : σ)
    (J : ℕ → δ → Prop) : Prop :=
  ∀ p d w, text.drop p = u ++ w → I p d →
    ∃ d', exec M act (u ++ w) p cs d = exec M act w (p + u.length) cs' d' ∧ J (p + u.length) d'

section
variable {text u v : List α} {cs cs₁ cs₂ : σ} {I J K : ℕ → δ → Prop}

theorem Walks.nil (cs : σ) (h : ∀ p d, I p d → J p d) : Walks M act text cs I [] cs J :=
  fun p d _ _ hI => ⟨d, rfl, h p d hI⟩

theorem Walks.append (h1 : Walks M act text cs I u cs₁ J) (h2 : Walks M act text cs₁ J v cs₂ K) :
    Walks M act text cs I (u ++ v) cs₂ K := by
  intro p d w hw hI
  rw [List.append_assoc] at hw ⊢
  obtain ⟨d1, hd1, hJ⟩ := h1 p d (v ++ w) hw hI
  have hrest : text.drop (p + u.length) = v ++ w := by
    rw [← List.drop_drop, hw, List.drop_left]
  obtain ⟨d2, hd2, hK⟩ := h2 (p + u.length) d1 w hrest hJ
  rw [List.length_append, ← Nat.add_assoc]
  exact ⟨d2, hd1.trans hd2, hK⟩

theorem Walks.cons {c : α} (h1 : Walks M act text cs I [c] cs₁ J) (h2 : Walks M act text cs₁ J v cs₂ K) :
    Walks M act text cs I (c :: v) cs₂ K := h1.append h2

theorem Walks.imp {I' J' : ℕ → δ → Prop} (h : Walks M act text cs I u cs₁ J) (hI : ∀ p d, I' p d → I p d)
    (hJ : ∀ p d, J p d → J' p d) : Walks M act text cs I' u cs₁ J' := by
  intro p d w hw hp
  obtain ⟨d', hd', hj⟩ := h p d w hw (hI p d hp)
  exact ⟨d', hd', hJ _ _ hj⟩

/-- one symbol -/
theorem Walks.one {c : α} {is : List ι} (hnext : M.next cs c = (cs₁, is)) (herr : cs₁ ≠ M.error)
    (h : ∀ p d, p < text.length → I p d → ∃ d', perform (fun i => act i p) is d = .go d' ∧ J (p + 1) d') :
    Walks M act text cs I [c] cs₁ J := by
  intro p d w hw hI
  have hp : p < text.length := by
    by_contra hge
    rw [List.drop_eq_nil_of_le (not_lt.mp hge)] at hw
    cases hw
  obtain ⟨d', hd', hJ⟩ := h p d hp hI
  refine ⟨d', ?_, hJ⟩
  simp only [List.cons_append, List.nil_append, exec, hnext, hd', herr, if_false, List.length_singleton]

/-- one symbol without an action -/
theorem Walks.still {c : α} (hnext : M.next cs c = (cs₁, [])) (herr : cs₁ ≠ M.error) (h : ∀ p d, I p d → J (p + 1) d) :
    Walks M act text cs I [c] cs₁ J :=
  Walks.one hnext herr fun p d _ hI => ⟨d, rfl, h p d hI⟩

/-- what is known of the place may be used along the piece -/
theorem Walks.here (h : ∀ p w, text.drop p = u ++ w → Walks M act text cs (fun q d => q = p ∧ I q d) u cs₁ J) :
    Walks M act text cs I u cs₁ J :=
  fun p d w hw hI => h p w hw p d w hw ⟨rfl, hI⟩

/-- the state after `u`, if no transition has an action or leads to the error state -/
def quiet (M : Machine σ α ι) : σ → List α → Option σ
  | cs, [] => some cs
  | cs, c :: w => if (M.next cs c).2.isEmpty ∧ (M.next cs c).1 ≠ M.error then quiet M (M.next cs c).1 w else none

/-- nothing happens to the data along a quiet piece -/
theorem Walks.quiet (h : quiet M cs u = some cs₁) :
    Walks M act text cs I u cs₁ fun q d => ∃ p, q = p + u.length ∧ I p d := by
  induction u generalizing cs I with
  | nil =>
    obtain rfl : cs = cs₁ := by simpa [Scan.quiet] using h
    exact Walks.nil cs fun p d hI => ⟨p, rfl, hI⟩
  | cons c u ih =>
    simp only [Scan.quiet] at h
    split_ifs at h with hc
    obtain ⟨hemp, herr⟩ := hc
    have hnext : M.next cs c = ((M.next cs c).1, []) := Prod.ext rfl (List.isEmpty_iff.mp hemp)
    have hfirst : Walks M act text cs I [c] (M.next cs c).1 fun q d => ∃ p, q = p + 1 ∧ I p d :=
      Walks.still hnext herr fun p d hI => ⟨p, rfl, hI⟩
    refine (hfirst.cons (ih h)).imp (fun _ _ => id) ?_
    intro q d hq
    obtain ⟨p', hp', p, hp, hI⟩ := hq
    refine ⟨p, ?_, hI⟩
    rw [List.length_cons]
    omega

/-- **Rule for a piece.** A piece that an action opens at its first symbol and others close at the symbol behind it;
`K` is about the place where it was opened. -/
theorem Walks.piece {cs₃ : σ} {c x : α} {i : ι} {is : List ι} (hopen : M.next cs c = (cs₁, [i]))
    (hquiet : Scan.quiet M cs₁ u = some cs₂) (hclose : M.next cs₂ x = (cs₃, is)) (h1 : cs₁ ≠ M.error) (h3 : cs₃ ≠ M.error)
    (hI : ∀ p d, p < text.length → I p d → ∃ d', act i p d = .go d' ∧ K p d')
    (hJ : ∀ p d w, text.drop p = c :: u ++ x :: w → p + (c :: u).length < text.length → K p d →
      ∃ d', perform (fun i => act i (p + (c :: u).length)) is d = .go d' ∧ J (p + (c :: u).length + 1) d') :
    Walks M act text cs I (c :: u ++ [x]) cs₃ J := by
  refine Walks.here ?_
  intro p₀ w hw
  have hfirst : Walks M act text cs (fun q d => q = p₀ ∧ I q d) [c] cs₁ (fun q d => q = p₀ + 1 ∧ K p₀ d) := by
    refine Walks.one hopen h1 ?_
    intro q d hq h
    obtain ⟨rfl, h⟩ := h
    obtain ⟨d', hd', hk⟩ := hI q d hq h
    exact ⟨d', by simp only [perform, hd'], rfl, hk⟩
  have hlast : Walks M act text cs₂ (fun q d => ∃ p, q = p + u.length ∧ p = p₀ + 1 ∧ K p₀ d) [x] cs₃ J := by
    refine Walks.one hclose h3 ?_
    intro q d hq h
    obtain ⟨p, rfl, rfl, hk⟩ := h
    have hlen : p₀ + 1 + u.length = p₀ + (c :: u).length := by
      rw [List.length_cons]
      omega
    rw [hlen] at hq ⊢
    exact hJ p₀ d w (by rw [hw, List.append_assoc, List.singleton_append]) hq hk
  exact (hfirst.cons (Walks.quiet hquiet)).append hlast

end

/-! ## Tracking

An abstract value that goes along with the scan. `tr c` is what an action at symbol `c` does to it (`none` if the action
must not happen there), and `holds a p d` is what the value says of the data at position `p`; it is only kept where `sym`
has a symbol. -/

/-- the actions of one transition up to the one that ends the scan, on the abstract value -/
def track {A : Type} (brk : ι → Bool) (tr : ι → A → Option A) : List ι → A → Option A
  | [], a => some a
  | i :: is, a => (tr i a).bind fun a' => if brk i then some a' else track brk tr is a'

structure Tracking (act : ι → ℕ → δ → Flow ε δ) (brk : ι → Bool) (α A : Type) where
  tr : α → ι → A → Option A
  holds : A → ℕ → δ → Prop
  /-- the symbols of the input by position -/
  sym : ℕ → Option α
  ends : Ends act brk
  sound : ∀ i a a' p c d, sym p = some c → holds a p d → tr c i a = some a' →
    ∃ d', (act i p d = .go d' ∨ act i p d = .fbreak d') ∧ holds a' p d'

section
variable {A : Type} (T : Tracking act brk α A)

omit [DecidableEq σ] in
theorem perform_track {is : List ι} {a a' : A} {p : ℕ} {c : α} {d : δ} (hp : T.sym p = some c) (ha : T.holds a p d)
    (h : track brk (T.tr c) is a = some a') :
    ∃ d', (perform (fun i => act i p) is d = .go d' ∨ perform (fun i => act i p) is d = .fbreak d') ∧
      T.holds a' p d' := by
  induction is generalizing a d with
  | nil =>
    obtain rfl : a = a' := by simpa [track] using h
    exact ⟨d, .inl rfl, ha⟩
  | cons i is ih =>
    simp only [track, Option.bind_eq_some_iff] at h
    obtain ⟨a1, h1, h2⟩ := h
    obtain ⟨d1, hd1 | hd1, hh⟩ := T.sound i a a1 p c d hp ha h1
    · rw [T.ends.go i p d d1 hd1] at h2
      simp only [perform, hd1]
      exact ih hh h2
    · rw [T.ends.fbreak i p d d1 hd1] at h2
      obtain rfl : a1 = a' := by simpa using h2
      simp only [perform, hd1]
      exact ⟨d1, .inr rfl, hh⟩

/-- the value behind `w`, if its actions may happen -/
def follow {A : Type} (M : Machine σ α ι) (brk : ι → Bool) (tr : α → ι → A → Option A) : σ → List α → A → Option A
  | _, [], a => some a
  | cs, c :: w, a => (track brk (tr c) (M.next cs c).2 a).bind (follow M brk tr (M.next cs c).1 w)

theorem follow_append {A : Type} {tr : α → ι → A → Option A} {cs cs' : σ} {u v : List α} {a a' : A}
    (hu : reads M brk cs u = some cs') (h : follow M brk tr cs (u ++ v) a = some a') :
    ∃ b, follow M brk tr cs u a = some b ∧ follow M brk tr cs' v b = some a' := by
  induction u generalizing cs a with
  | nil =>
    obtain rfl : cs = cs' := by simpa [reads] using hu
    exact ⟨a, rfl, h⟩
  | cons c u ih =>
    simp only [reads] at hu
    split_ifs at hu
    simp only [List.cons_append, follow, Option.bind_eq_some_iff] at h ⊢
    obtain ⟨a1, h1, h2⟩ := h
    obtain ⟨b, h3, h4⟩ := ih hu h2
    exact ⟨b, ⟨a1, h1, h3⟩, h4⟩

/-- **Tracking rule.** A scan of a path whose actions may all happen raises nothing, and what the value says holds
behind it. -/
theorem exec_follow (hadv : ∀ a p c d, T.sym p = some c → T.holds a p d → T.holds a (p + 1) d) {cs cs' : σ} {u : List α}
    (hu : reads M brk cs u = some cs' ∨ halts M brk cs u = some cs') {a a' : A}
    (hf : follow M brk T.tr cs u a = some a') {p : ℕ} {d : δ} (hsym : ∀ k c, u[k]? = some c → T.sym (p + k) = some c)
    (h : T.holds a p d) :
    ∃ d', exec M act u p cs d = .ok (p + u.length, cs', d') ∧ T.holds a' (p + u.length) d' := by
  induction u generalizing cs a p d with
  | nil =>
    obtain rfl : cs = cs' := by simpa [reads, halts] using hu
    obtain rfl : a = a' := by simpa [follow] using hf
    exact ⟨d, rfl, h⟩
  | cons c u ih =>
    have hlen : p + (c :: u).length = p + 1 + u.length := by simp only [List.length_cons]; omega
    have hc : T.sym p = some c := hsym 0 c rfl
    have hrest : ∀ k x, u[k]? = some x → T.sym (p + 1 + k) = some x := by
      intro k x hx
      rw [show p + 1 + k = p + (k + 1) by omega]
      exact hsym (k + 1) x hx
    rw [hlen]
    simp only [follow, Option.bind_eq_some_iff] at hf
    obtain ⟨a1, ha1, hf⟩ := hf
    have herr : (M.next cs c).1 ≠ M.error := by
      intro he
      simp only [reads, halts, he, or_true, if_true] at hu
      rcases hu with hu | hu <;> cases hu
    obtain ⟨d1, hd1 | hd1, hh⟩ := perform_track T hc h ha1
    · -- the scan goes on
      have hbrk := perform_go T.ends hd1
      have hu' : reads M brk (M.next cs c).1 u = some cs' ∨ halts M brk (M.next cs c).1 u = some cs' := by
        simpa only [reads, halts, hbrk, herr, Bool.false_eq_true, or_self, if_false] using hu
      obtain ⟨d2, h1, h2⟩ := ih hu' hf hrest (hadv _ _ _ _ hc hh)
      exact ⟨d2, by simp only [exec, hd1, herr, if_false, h1], h2⟩
    · -- it ends here, with the last symbol
      have hbrk := perform_fbreak T.ends hd1
      simp only [reads, halts, hbrk, herr, true_or, if_true, if_false, reduceCtorEq, false_or] at hu
      split_ifs at hu with hemp
      obtain rfl : u = [] := List.isEmpty_iff.mp hemp
      obtain rfl := Option.some.inj hu
      obtain rfl : a1 = a' := by simpa [follow] using hf
      exact ⟨d1, by simp only [exec, hd1, List.length_nil, Nat.add_zero], hadv _ _ _ _ hc hh⟩

end

/-! ## Labels

A value for every state, checked on the transitions alone: `le c a b` says that `a` becomes `b` behind `c`. -/

structure Labels (M : Machine σ α ι) (act : ι → ℕ → δ → Flow ε δ) (brk : ι → Bool) (A : Type) where
  label : σ → A
  tr : α → ι → A → Option A
  le : α → A → A → Bool
  holds : A → ℕ → δ → Prop
  /-- the symbols of the input by position -/
  sym : ℕ → Option α
  ends : Ends act brk
  checked : ∀ cs c, (M.next cs c).1 ≠ M.error →
    ∃ a, track brk (tr c) (M.next cs c).2 (label cs) = some a ∧ le c a (label (M.next cs c).1) = true
  sound : ∀ i a a' p c d, sym p = some c → holds a p d → tr c i a = some a' →
    ∃ d', (act i p d = .go d' ∨ act i p d = .fbreak d') ∧ holds a' p d'
  advance : ∀ a b p c d, sym p = some c → holds a p d → le c a b = true → holds b (p + 1) d

section
variable {A : Type} (L : Labels M act brk A)

def Labels.tracking : Tracking act brk α A := ⟨L.tr, L.holds, L.sym, L.ends, L.sound⟩

/-- **Label rule.** A scan of an accepted input raises nothing, and what the labels say holds at its last symbol. -/
theorem exec_labels {cs f : σ} {u : List α} (hu : halts M brk cs u = some f) {p : ℕ} {d : δ}
    (hsym : ∀ k c, u[k]? = some c → L.sym (p + k) = some c) (h : L.holds (L.label cs) p d) :
    ∃ a d', exec M act u p cs d = .ok (p + u.length, f, d') ∧ L.holds a (p + u.length - 1) d' := by
  induction u generalizing cs p d with
  | nil => exact absurd hu (by simp [halts])
  | cons c u ih =>
    have hlen : p + (c :: u).length = p + 1 + u.length := by simp only [List.length_cons]; omega
    have hc : L.sym p = some c := hsym 0 c rfl
    have hrest : ∀ k x, u[k]? = some x → L.sym (p + 1 + k) = some x := by
      intro k x hx
      rw [show p + 1 + k = p + (k + 1) by omega]
      exact hsym (k + 1) x hx
    rw [hlen]
    simp only [halts] at hu
    split_ifs at hu with herr hbrk hemp
    · obtain ⟨a, ha, -⟩ := L.checked cs c herr
      obtain ⟨d', hd' | hd', hh⟩ := perform_track L.tracking hc h ha
      · rw [perform_go L.ends hd'] at hbrk; exact absurd hbrk (by decide)
      · obtain rfl : u = [] := List.isEmpty_iff.mp hemp
        obtain rfl := Option.some.inj hu
        exact ⟨a, d', by simp only [exec, hd', List.length_nil, Nat.add_zero], hh⟩
    · obtain ⟨a, ha, hle⟩ := L.checked cs c herr
      obtain ⟨d', hd' | hd', hh⟩ := perform_track L.tracking hc h ha
      · obtain ⟨a2, d2, h1, h2⟩ := ih hu hrest (L.advance _ _ _ _ _ hc hh hle)
        exact ⟨a2, d2, by simp only [exec, hd', herr, if_false, h1], h2⟩
      · exact absurd (perform_fbreak L.ends hd') hbrk

end

/-! ## Two scans at once -/

/-- the actions of two scans, the second `k` positions ahead; where they do not go the same way, there is no action -/
def pair {ε₁ ε₂ δ₁ δ₂ : Type} (act₁ : ι → ℕ → δ₁ → Flow ε₁ δ₁) (act₂ : ι → ℕ → δ₂ → Flow ε₂ δ₂) (k : ℕ) (i : ι) (p : ℕ)
    (d : δ₁ × δ₂) : Flow Unit (δ₁ × δ₂) :=
  match act₁ i p d.1, act₂ i (p + k) d.2 with
  | .go a, .go b => .go (a, b)
  | .fbreak a, .fbreak b => .fbreak (a, b)
  | _, _ => .raise ()

section
variable {ε₁ ε₂ δ₁ δ₂ : Type} {act₁ : ι → ℕ → δ₁ → Flow ε₁ δ₁} {act₂ : ι → ℕ → δ₂ → Flow ε₂ δ₂} {k : ℕ}

theorem pair_go {i : ι} {p : ℕ} {d e : δ₁ × δ₂} :
    pair act₁ act₂ k i p d = .go e ↔ act₁ i p d.1 = .go e.1 ∧ act₂ i (p + k) d.2 = .go e.2 := by
  unfold pair
  cases act₁ i p d.1 <;> cases act₂ i (p + k) d.2 <;> simp [Prod.ext_iff]

theorem pair_fbreak {i : ι} {p : ℕ} {d e : δ₁ × δ₂} :
    pair act₁ act₂ k i p d = .fbreak e ↔ act₁ i p d.1 = .fbreak e.1 ∧ act₂ i (p + k) d.2 = .fbreak e.2 := by
  unfold pair
  cases act₁ i p d.1 <;> cases act₂ i (p + k) d.2 <;> simp [Prod.ext_iff]

theorem pair_ends (h : Ends act₁ brk) : Ends (pair act₁ act₂ k) brk where
  go := fun i p d d' hd => h.go i p d.1 d'.1 (pair_go.mp hd).1
  fbreak := fun i p d d' hd => h.fbreak i p d.1 d'.1 (pair_fbreak.mp hd).1

theorem perform_pair {is : List ι} {p : ℕ} {d : δ₁ × δ₂} :
    (∀ e, perform (fun i => pair act₁ act₂ k i p) is d = .go e →
      perform (fun i => act₁ i p) is d.1 = .go e.1 ∧ perform (fun i => act₂ i (p + k)) is d.2 = .go e.2) ∧
    ∀ e, perform (fun i => pair act₁ act₂ k i p) is d = .fbreak e →
      perform (fun i => act₁ i p) is d.1 = .fbreak e.1 ∧ perform (fun i => act₂ i (p + k)) is d.2 = .fbreak e.2 := by
  induction is generalizing d with
  | nil =>
    refine ⟨fun e he => ?_, fun e he => absurd he (by simp [perform])⟩
    rw [← Flow.go.inj he]
    exact ⟨rfl, rfl⟩
  | cons i is ih =>
    simp only [perform]
    cases hp : pair act₁ act₂ k i p d with
    | go d1 =>
      obtain ⟨h1, h2⟩ := pair_go.mp hp
      simp only [h1, h2]
      exact ih
    | fbreak d1 =>
      obtain ⟨h1, h2⟩ := pair_fbreak.mp hp
      simp only [h1, h2]
      refine ⟨fun e he => absurd he (by simp), fun e he => ?_⟩
      rw [Flow.fbreak.inj he]
      exact ⟨rfl, rfl⟩
    | raise x => exact ⟨fun e he => absurd he (by simp), fun e he => absurd he (by simp)⟩

/-- **Pair rule.** A scan with both actions is a scan with each of them. -/
theorem exec_pair {w : List α} {p q : ℕ} {cs cs' : σ} {d e : δ₁ × δ₂}
    (h : exec M (pair act₁ act₂ k) w p cs d = .ok (q, cs', e)) :
    exec M act₁ w p cs d.1 = .ok (q, cs', e.1) ∧ exec M act₂ w (p + k) cs d.2 = .ok (q + k, cs', e.2) := by
  induction w generalizing p cs d with
  | nil =>
    simp only [exec, Except.ok.injEq, Prod.mk.injEq] at h ⊢
    obtain ⟨rfl, rfl, rfl⟩ := h
    exact ⟨⟨rfl, rfl, rfl⟩, rfl, rfl, rfl⟩
  | cons c w ih =>
    obtain ⟨hgo, hbreak⟩ := @perform_pair ι ε₁ ε₂ δ₁ δ₂ act₁ act₂ k (M.next cs c).2 p d
    simp only [exec] at h ⊢
    have hpos : p + k + 1 = p + 1 + k := by omega
    cases hp : perform (fun i => pair act₁ act₂ k i p) (M.next cs c).2 d with
    | raise x => rw [hp] at h; exact absurd h (by simp)
    | fbreak d1 =>
      obtain ⟨h1, h2⟩ := hbreak d1 hp
      rw [hp] at h
      simp only [h1, h2, Except.ok.injEq, Prod.mk.injEq] at h ⊢
      obtain ⟨rfl, rfl, rfl⟩ := h
      exact ⟨⟨rfl, rfl, rfl⟩, hpos, rfl, rfl⟩
    | go d1 =>
      obtain ⟨h1, h2⟩ := hgo d1 hp
      rw [hp] at h
      simp only [h1, h2, hpos] at h ⊢
      split_ifs at h ⊢ with herr
      · simp only [Except.ok.injEq, Prod.mk.injEq] at h ⊢
        obtain ⟨rfl, rfl, rfl⟩ := h
        exact ⟨⟨rfl, rfl, rfl⟩, rfl, rfl, rfl⟩
      · exact ih h

end

end

end Sylar.Core.Scan
