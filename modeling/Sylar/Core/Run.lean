/-
Runs of a deterministic step function, with and without outputs.

A system is a step function on a state; a run feeds it a list of inputs (calls, or the labels of an interleaving).
`Along ok` says that every input of a run meets a condition in the state it is applied to. Six rules carry the
whole-run results of a development:
- `run_inv`: what one admissible step preserves, an admissible run preserves;
- `run_along`: and what it gives at one step holds at every step of the run;
- `along_congr`: two conditions that it makes equivalent hold along the same runs;
- `along_of_prefixes`: a condition that holds at the end of every good part of a run holds along it;
- `runOut_sim`: two machines whose steps agree on outputs and keep a relation have the same output trace;
- `runOut_forall`: what every admissible step answers, every answer of an admissible run is.
`perm_cons_eraseIdx` brings the one of many parties that takes a step to the front.
-/
import Mathlib.Tactic

namespace Sylar.Core

variable {σ τ ι ο : Type}

def run (step : σ → ι → σ) (s : σ) (is : List ι) : σ := is.foldl step s

@[simp] theorem run_nil (step : σ → ι → σ) (s : σ) : run step s [] = s := rfl

@[simp] theorem run_cons (step : σ → ι → σ) (s : σ) (i : ι) (is : List ι) :
    run step s (i :: is) = run step (step s i) is := rfl

theorem run_append (step : σ → ι → σ) (s : σ) (is js : List ι) :
    run step s (is ++ js) = run step (run step s is) js := by
  simp [run, List.foldl_append]

/-- every input of the run meets `ok` in the state it is applied to -/
def Along (ok : σ → ι → Prop) (step : σ → ι → σ) : σ → List ι → Prop
  | _, [] => True
  | s, i :: is => ok s i ∧ Along ok step (step s i) is

instance Along.dec (ok : σ → ι → Prop) [∀ s i, Decidable (ok s i)] (step : σ → ι → σ) :
    ∀ s is, Decidable (Along ok step s is)
  | _, [] => isTrue trivial
  | s, i :: is => @instDecidableAnd _ _ _ (Along.dec ok step (step s i) is)

theorem Along.append {ok : σ → ι → Prop} {step : σ → ι → σ} {s : σ} {is js : List ι}
    (h : Along ok step s (is ++ js)) : Along ok step s is ∧ Along ok step (run step s is) js := by
  induction is generalizing s with
  | nil => exact ⟨trivial, h⟩
  | cons i is ih =>
    obtain ⟨h1, h2⟩ := h
    obtain ⟨h3, h4⟩ := ih h2
    exact ⟨⟨h1, h3⟩, h4⟩

/-- **Invariant rule.** -/
theorem run_inv {P : σ → Prop} {ok : σ → ι → Prop} {step : σ → ι → σ}
    (hstep : ∀ s i, ok s i → P s → P (step s i)) {s : σ} (is : List ι) (hs : P s) (h : Along ok step s is) :
    P (run step s is) := by
  induction is generalizing s with
  | nil => exact hs
  | cons i is ih => exact ih (hstep s i h.1 hs) h.2

/-- **Invariant rule, with what the invariant gives at every step.** -/
theorem run_along {P : σ → Prop} {ok q : σ → ι → Prop} {step : σ → ι → σ}
    (hstep : ∀ s i, ok s i → P s → P (step s i)) (hq : ∀ s i, ok s i → P s → q s i) {s : σ} (is : List ι) (hs : P s)
    (h : Along ok step s is) : Along q step s is ∧ P (run step s is) := by
  induction is generalizing s with
  | nil => exact ⟨trivial, hs⟩
  | cons i is ih =>
    obtain ⟨h1, h2⟩ := ih (hstep s i h.1 hs) h.2
    exact ⟨⟨hq s i h.1 hs, h1⟩, h2⟩

theorem Along.of_forall {q : ι → Prop} {step : σ → ι → σ} {is : List ι} (h : ∀ i ∈ is, q i) (s : σ) :
    Along (fun _ i => q i) step s is := by
  induction is generalizing s with
  | nil => exact trivial
  | cons i is ih => exact ⟨h i List.mem_cons_self, ih (fun j hj => h j (List.mem_cons_of_mem _ hj)) _⟩

/-- **Congruence rule.** Conditions that agree under the invariant hold along the same runs. -/
theorem along_congr {P : σ → Prop} {ok p q : σ → ι → Prop} {step : σ → ι → σ}
    (hstep : ∀ s i, ok s i → P s → P (step s i)) (hpq : ∀ s i, ok s i → P s → (p s i ↔ q s i)) {s : σ} (is : List ι)
    (hs : P s) (h : Along ok step s is) : Along p step s is ↔ Along q step s is := by
  induction is generalizing s with
  | nil => exact Iff.rfl
  | cons i is ih => exact and_congr (hpq s i h.1 hs) (ih (hstep s i h.1 hs) h.2)

/-- a condition holds along a run if it holds at the end of every part of the run along which it holds -/
theorem along_of_prefixes {ok : σ → ι → Prop} {step : σ → ι → σ} {s : σ} {is : List ι}
    (h : ∀ pre i, pre ++ [i] <+: is → Along ok step s pre → ok (run step s pre) i) : Along ok step s is := by
  induction is generalizing s with
  | nil => exact trivial
  | cons i is ih =>
    have hi : ok s i := h [] i (List.prefix_append [i] is) trivial
    refine ⟨hi, ih fun pre j hpre hok => ?_⟩
    exact h (i :: pre) j ((List.prefix_cons_inj i).mpr hpre) ⟨hi, hok⟩

theorem perm_cons_eraseIdx {l : List σ} {k : ℕ} {a : σ} (hk : l[k]? = some a) : l.Perm (a :: l.eraseIdx k) := by
  obtain ⟨hlt, rfl⟩ := List.getElem?_eq_some_iff.mp hk
  exact (List.getElem_cons_eraseIdx_perm hlt).symm

/-! ## Machines with outputs -/

/-- the outputs of a run, in order, and the state it ends in -/
def runOut (step : σ → ι → ο × σ) : σ → List ι → List ο × σ
  | s, [] => ([], s)
  | s, i :: is =>
    let r := step s i
    let rs := runOut step r.2 is
    (r.1 :: rs.1, rs.2)

theorem runOut_snd (step : σ → ι → ο × σ) (s : σ) (is : List ι) :
    (runOut step s is).2 = run (fun s i => (step s i).2) s is := by
  induction is generalizing s with
  | nil => rfl
  | cons i is ih => exact ih _

theorem runOut_append (step : σ → ι → ο × σ) (s : σ) (is js : List ι) :
    runOut step s (is ++ js) =
      ((runOut step s is).1 ++ (runOut step (runOut step s is).2 js).1, (runOut step (runOut step s is).2 js).2) := by
  induction is generalizing s with
  | nil => rfl
  | cons i is ih => simp only [List.cons_append, runOut, ih]

/-- **Simulation rule.** If related states answer every admissible input alike and stay related, so do whole runs. -/
theorem runOut_sim {R : σ → τ → Prop} {ok : τ → ι → Prop} {f : σ → ι → ο × σ} {g : τ → ι → ο × τ}
    (hstep : ∀ s t i, ok t i → R s t → (f s i).1 = (g t i).1 ∧ R (f s i).2 (g t i).2) {s : σ} {t : τ} (is : List ι)
    (hR : R s t) (h : Along ok (fun t i => (g t i).2) t is) :
    (runOut f s is).1 = (runOut g t is).1 ∧ R (runOut f s is).2 (runOut g t is).2 := by
  induction is generalizing s t with
  | nil => exact ⟨rfl, hR⟩
  | cons i is ih =>
    obtain ⟨h1, h2⟩ := hstep s t i h.1 hR
    obtain ⟨h3, h4⟩ := ih h2 h.2
    exact ⟨by simp only [runOut, h1, h3], h4⟩

/-- **Output rule.** -/
theorem runOut_forall {P : σ → Prop} {q : ο → Prop} {ok : σ → ι → Prop} {step : σ → ι → ο × σ}
    (hstep : ∀ s i, ok s i → P s → q (step s i).1 ∧ P (step s i).2) {s : σ} (is : List ι) (hs : P s)
    (h : Along ok (fun s i => (step s i).2) s is) : ∀ o ∈ (runOut step s is).1, q o := by
  induction is generalizing s with
  | nil => nofun
  | cons i is ih =>
    obtain ⟨h1, h2⟩ := hstep s i h.1 hs
    intro o ho
    rcases List.mem_cons.mp ho with rfl | ho
    · exact h1
    · exact ih h2 h.2 o ho

end Sylar.Core
