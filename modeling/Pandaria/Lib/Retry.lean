import Mathlib.Data.List.Range

/-!
# Trying again

Attempts are made one after the other, and after one that calls for another there
is a wait. With a bound on how often, the run ends at the first attempt that does
not call for another, or at the last that is allowed. Every attempt is kept, with
the wait that follows it.
-/

namespace Pandaria.Lib

variable {β δ : Type _}

/-- The attempts from number `n` on, of which `left` may be followed by another. -/
def attempts (again : β → Bool) (wait : Nat → δ) (attempt : Nat → β) : Nat → Nat → List (β × δ) × β
  | 0, n => ([], attempt n)
  | left + 1, n =>
      if again (attempt n) then
        let rest := attempts again wait attempt left (n + 1)
        ((attempt n, wait n) :: rest.1, rest.2)
      else ([], attempt n)

/-- The run ends with attempt number `k`: all before it called for another, and it
did not, or it was the last. -/
structure EndsAt (again : β → Bool) (attempt : Nat → β) (left k : Nat) : Prop where
  le : k ≤ left
  before : ∀ j < k, again (attempt j) = true
  stop : k = left ∨ again (attempt k) = false

theorem exists_attempts_eq (again : β → Bool) (wait : Nat → δ) (attempt : Nat → β) (left : Nat) :
    ∀ n, ∃ k, EndsAt again (fun j => attempt (n + j)) left k ∧
      attempts again wait attempt left n =
        ((List.range k).map fun j => (attempt (n + j), wait (n + j)), attempt (n + k)) := by
  induction left with
  | zero =>
      intro n
      exact ⟨0, ⟨Nat.le_refl _, by omega, .inl rfl⟩, rfl⟩
  | succ left ih =>
      intro n
      rw [attempts]
      split
      · next hagain =>
          obtain ⟨k, hends, hrest⟩ := ih (n + 1)
          have hshift : ∀ j, n + 1 + j = n + (j + 1) := by omega
          refine ⟨k + 1, ⟨Nat.succ_le_succ hends.le, ?_, ?_⟩, ?_⟩
          · intro j hj
            cases j with
            | zero => exact hagain
            | succ j =>
                have h := hends.before j (by omega)
                rwa [hshift] at h
          · rcases hends.stop with hlast | hstop
            · exact .inl (by omega)
            · rw [hshift] at hstop
              exact .inr hstop
          · simp [hrest, hshift, List.range_succ_eq_map, Function.comp_def]
      · next hagain =>
          exact ⟨0, ⟨Nat.zero_le _, by omega, .inr (by simpa using hagain)⟩, rfl⟩

/-- A run is the attempts up to the one it ends with. -/
theorem attempts_eq (again : β → Bool) (wait : Nat → δ) (attempt : Nat → β) (left : Nat) :
    ∃ k, EndsAt again attempt left k ∧
      attempts again wait attempt left 0 =
        ((List.range k).map fun j => (attempt j, wait j), attempt k) := by
  simpa using exists_attempts_eq again wait attempt left 0

end Pandaria.Lib
