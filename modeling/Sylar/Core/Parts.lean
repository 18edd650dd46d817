/-
What a scan that went through has read: its text, cut at the symbols whose transitions have actions.

This is the converse of `Walks`. A scan comes by a place if the rest of it, from there on, ends as the whole does
(`At`); what lies between two places is quiet. Where a machine reports the parts of its input by actions, a chain of
such steps takes an accepted text apart, without anything being known of the text before.
- `At.step`: the next symbol.
- `At.part`: the quiet part up to the next symbol with actions, or up to the end of the text.
- `quiet_mem`: a set of states that quiet transitions do not leave.
-/
import Mathlib.Tactic
import Sylar.Core.Scan

namespace Sylar.Core.Scan

variable {σ α ι ε δ : Type} [DecidableEq σ] {M : Machine σ α ι} {act : ι → ℕ → δ → Flow ε δ} {text : List α}
  {r : ℕ × σ × δ} {cs : σ} {p : ℕ} {d : δ}

/-- the scan of `text` that ends with `r` is in `cs` at `p`, with the data `d` -/
structure At (M : Machine σ α ι) (act : ι → ℕ → δ → Flow ε δ) (text : List α) (r : ℕ × σ × δ) (cs : σ) (p : ℕ) (d : δ) :
    Prop where
  rest : exec M act (text.drop p) p cs d = .ok r
  sound : r.2.1 ≠ M.error

/-- the scan goes on behind the transition at `p`, or ends there -/
inductive After (M : Machine σ α ι) (act : ι → ℕ → δ → Flow ε δ) (text : List α) (r : ℕ × σ × δ) (p : ℕ) (d : δ)
    (e : σ × List ι) : Prop where
  | go (d' : δ) (perform : perform (fun i => act i p) e.2 d = .go d') (rest : At M act text r e.1 (p + 1) d')
  | done (d' : δ) (perform : perform (fun i => act i p) e.2 d = .fbreak d') (last : r = (p + 1, e.1, d'))

/-- **Next symbol.** At the end of the text the scan ends as it is; else it takes the transition of the symbol. -/
theorem At.step (h : At M act text r cs p d) :
    text.drop p = [] ∧ r = (p, cs, d) ∨
      ∃ c w, text.drop p = c :: w ∧ (M.next cs c).1 ≠ M.error ∧ After M act text r p d (M.next cs c) := by
  have hrest := h.rest
  cases htext : text.drop p with
  | nil =>
    rw [htext] at hrest
    exact .inl ⟨rfl, (Except.ok.inj hrest).symm⟩
  | cons c w =>
    refine .inr ⟨c, w, rfl, ?_⟩
    rw [htext] at hrest
    simp only [exec] at hrest
    have htail : text.drop (p + 1) = w := by rw [← List.tail_drop, htext, List.tail_cons]
    cases hp : perform (fun i => act i p) (M.next cs c).2 d with
    | raise e => rw [hp] at hrest; cases hrest
    | fbreak d' =>
      rw [hp] at hrest
      have hr := (Except.ok.inj hrest).symm
      refine ⟨?_, .done d' hp hr⟩
      have hsound := h.sound
      rwa [hr] at hsound
    | go d' =>
      rw [hp] at hrest
      dsimp only at hrest
      split_ifs at hrest with herr
      · exact absurd (by rw [← Except.ok.inj hrest]) h.sound
      · exact ⟨herr, .go d' hp ⟨by rw [htail]; exact hrest, h.sound⟩⟩

/-- a quiet part that ends at the symbol `c`, or with the text -/
inductive Part (M : Machine σ α ι) (act : ι → ℕ → δ → Flow ε δ) (text : List α) (r : ℕ × σ × δ) (cs : σ) (p : ℕ) (d : δ) :
    Prop where
  | ends (quiet : quiet M cs (text.drop p) = some r.2.1)
  | cut (u w : List α) (c : α) (s : σ) (here : text.drop p = u ++ c :: w) (quiet : quiet M cs u = some s)
    (place : At M act text r s (p + u.length) d) (acts : (M.next s c).2 ≠ []) (sound : (M.next s c).1 ≠ M.error)
    (after : After M act text r (p + u.length) d (M.next s c))

/-- **Next part.** -/
theorem At.part (h : At M act text r cs p d) : Part M act text r cs p d := by
  generalize hw : text.drop p = w
  induction w generalizing cs p with
  | nil =>
    rcases h.step with ⟨hnil, hr⟩ | ⟨c, w', hcons, -⟩
    · refine .ends ?_
      rw [hnil, hr]
      rfl
    · exact absurd (hw.symm.trans hcons) (by simp)
  | cons c w ih =>
    rcases h.step with ⟨hnil, -⟩ | ⟨c', w', hcons, herr, hafter⟩
    · exact absurd (hw.symm.trans hnil) (by simp)
    obtain ⟨rfl, rfl⟩ := List.cons_eq_cons.mp (hw.symm.trans hcons)
    by_cases hacts : (M.next cs c).2 = []
    · -- the part goes on behind this symbol
      have hcond : (M.next cs c).2.isEmpty = true ∧ (M.next cs c).1 ≠ M.error := ⟨List.isEmpty_iff.mpr hacts, herr⟩
      have hnext : At M act text r (M.next cs c).1 (p + 1) d := by
        cases hafter with
        | go d' hp hrest =>
          rw [hacts] at hp
          obtain rfl := Flow.go.inj hp
          exact hrest
        | done d' hp =>
          rw [hacts] at hp
          cases hp
      have htail : text.drop (p + 1) = w := by rw [← List.tail_drop, hw, List.tail_cons]
      cases ih hnext htail with
      | ends hq =>
        refine .ends ?_
        rw [hw, quiet, if_pos hcond, ← htail, hq]
      | cut u w' x s htext hq hplace hx hs hend =>
        have hlen : p + (c :: u).length = p + 1 + u.length := by
          rw [List.length_cons, Nat.add_comm u.length, ← Nat.add_assoc]
        refine .cut (c :: u) w' x s (by rw [hw, ← htail, htext, List.cons_append]) ?_ (hlen ▸ hplace) hx hs (hlen ▸ hend)
        rw [quiet, if_pos hcond, hq]
    · exact .cut [] w c cs hw rfl h hacts herr hafter

/-- a set of states that quiet transitions do not leave -/
theorem quiet_mem {S : σ → Prop}
    (hS : ∀ s c, S s → (M.next s c).2 = [] → (M.next s c).1 ≠ M.error → S (M.next s c).1) {u : List α} {s : σ} (hcs : S cs) (h : quiet M cs u = some s) : S s := by
  induction u generalizing cs with
  | nil => rwa [← Option.some.inj h]
  | cons c u ih =>
    rw [quiet] at h
    split_ifs at h with hc
    exact ih (hS cs c hcs (List.isEmpty_iff.mp hc.1) hc.2) h

end Sylar.Core.Scan
