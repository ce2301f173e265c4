import Mathlib.Tactic

/-!
A loop whose body goes on with a new state or breaks.
-/

namespace Loop

variable {σ : Type*} (body : σ → Option σ)

/-- The state in which the loop breaks, if it does so within `n` rounds. -/
def run : ℕ → σ → Option σ
  | 0, _ => none
  | n + 1, s => match body s with
    | none => some s
    | some t => run n t

/-- The loop breaks after finitely many rounds. -/
def Ends (s : σ) : Prop := ∃ n t, run body n s = some t

variable {body}

lemma ends_of_break {s : σ} (h : body s = none) : Ends body s := ⟨1, s, by simp [run, h]⟩

lemma ends_of_step {s t : σ} (h : body s = some t) (ht : Ends body t) : Ends body s := by
  obtain ⟨n, u, hu⟩ := ht
  exact ⟨n + 1, u, by simp [run, h, hu]⟩

/-- **A measure that every round makes smaller** ends the loop. -/
theorem ends_of_measure {I : σ → Prop} (m : σ → ℕ)
    (h : ∀ s t, I s → body s = some t → I t ∧ m t < m s) {s : σ} (hs : I s) : Ends body s := by
  induction hm : m s using Nat.strong_induction_on generalizing s with
  | _ k ih =>
    cases hb : body s with
    | none => exact ends_of_break hb
    | some t =>
      obtain ⟨ht, hlt⟩ := h s t hs hb
      exact ends_of_step hb (ih (m t) (by omega) ht rfl)

/-- **An invariant under which no round breaks** keeps the loop going. -/
theorem not_ends_of_inv {I : σ → Prop} (h : ∀ s, I s → ∃ t, body s = some t ∧ I t) {s : σ}
    (hs : I s) : ¬ Ends body s := by
  rintro ⟨n, u, hu⟩
  induction n generalizing s with
  | zero => cases hu
  | succ n ih =>
    obtain ⟨t, hb, ht⟩ := h s hs
    rw [run, hb] at hu
    exact ih ht hu

end Loop
