import Mathlib.Order.Nat

/-!
# Attempts within a budget

A loop repeats what fails, as long as its budget lasts. `stop fails budget` is the number of the
last attempt, counted from zero: the first one that does not fail, or the one that has used the
budget up.
-/

namespace DittoClient

namespace Transition

/-- The last attempt of a loop that may repeat an attempt `budget` times. -/
def stop (fails : ℕ → Bool) (budget : ℕ) : ℕ :=
  Nat.find (⟨budget, Or.inr le_rfl⟩ : ∃ n, fails n = false ∨ budget ≤ n)

section Stop

variable {fails : ℕ → Bool} {budget i : ℕ}

theorem stop_spec (fails : ℕ → Bool) (budget : ℕ) :
    fails (stop fails budget) = false ∨ budget ≤ stop fails budget :=
  Nat.find_spec (⟨budget, Or.inr le_rfl⟩ : ∃ n, fails n = false ∨ budget ≤ n)

theorem stop_le (fails : ℕ → Bool) (budget : ℕ) : stop fails budget ≤ budget :=
  Nat.find_min' _ (Or.inr le_rfl)

/-- All attempts but the last one fail. -/
theorem fails_of_lt_stop (h : i < stop fails budget) : fails i = true := by
  have hnot := Nat.find_min _ h
  simpa using (not_or.mp hnot).1

/-- An attempt that fails within the budget is not the last. -/
theorem lt_stop (h : i ≤ stop fails budget) (hfails : fails i = true) (hi : i < budget) :
    i < stop fails budget := by
  refine lt_of_le_of_ne h ?_
  rintro rfl
  rcases stop_spec fails budget with hstop | hstop
  · rw [hfails] at hstop
    cases hstop
  · exact absurd hi (Nat.not_lt.mpr hstop)

/-- An attempt that does not fail, or has used the budget up, is the last. -/
theorem stop_eq_of_le (h : i ≤ stop fails budget) (hi : fails i = false ∨ budget ≤ i) :
    stop fails budget = i :=
  le_antisymm (Nat.find_min' _ hi) h

/-- The loop stops at the first attempt that does not fail, if the budget lasts. -/
theorem stop_eq_min (hfails : ∀ j < i, fails j = true) (hi : fails i = false) :
    stop fails budget = min i budget := by
  refine stop_eq_of_le (le_of_not_gt fun hlt => ?_) ?_
  · rcases Nat.lt_min.mp hlt with ⟨hi', hbudget⟩
    rcases stop_spec fails budget with hstop | hstop
    · rw [hfails _ hi'] at hstop
      cases hstop
    · exact absurd hbudget (Nat.not_lt.mpr hstop)
  · rcases le_total i budget with hle | hle
    · rw [min_eq_left hle]
      exact Or.inl hi
    · rw [min_eq_right hle]
      exact Or.inr le_rfl

theorem stop_of_forall (hfails : ∀ j, fails j = true) : stop fails budget = budget := by
  refine stop_eq_of_le (le_of_not_gt fun hlt => ?_) (Or.inr le_rfl)
  rcases stop_spec fails budget with hstop | hstop
  · rw [hfails] at hstop
    cases hstop
  · exact absurd hlt (Nat.not_lt.mpr hstop)

end Stop

end Transition

end DittoClient
