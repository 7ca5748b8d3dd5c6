import GrokPi.Shared.Runs

set_option autoImplicit false

universe u v

section FirstFit

def firstFit (measure : Nat → Nat) (target : Nat) : Nat → Nat
  | 0 => 0
  | count + 1 =>
      if measure 0 ≤ target then 0
      else firstFit (fun position => measure (position + 1)) target count + 1

variable {measure : Nat → Nat} {target : Nat}

theorem firstFit_le (measure : Nat → Nat) (target count : Nat) : firstFit measure target count ≤ count := by
  induction count generalizing measure with
  | zero => exact Nat.le_refl 0
  | succ count ih =>
      have later := ih fun position => measure (position + 1)
      simp only [firstFit]
      split <;> omega

theorem firstFit_eq_iff {count found : Nat} :
    firstFit measure target count = found ↔
      found ≤ count ∧ (∀ position < found, target < measure position) ∧
        (found < count → measure found ≤ target) := by
  induction count generalizing measure found with
  | zero =>
      simp only [firstFit, Nat.le_zero]
      constructor
      · rintro rfl
        exact ⟨rfl, by simp, by simp⟩
      · exact fun only => only.1.symm
  | succ count ih =>
      simp only [firstFit]
      split
      next fits =>
        constructor
        · rintro rfl
          exact ⟨by omega, by simp, fun _ => fits⟩
        · -- a later position would have had to pass the first one
          rintro ⟨-, above, -⟩
          by_contra later
          have first := above 0 (by omega)
          omega
      next misses =>
        cases found with
        | zero =>
            simp only [Nat.add_eq_zero_iff, Nat.one_ne_zero, and_false, false_iff, not_and]
            intro _ _ fits
            exact misses (fits (by omega))
        | succ found =>
            rw [Nat.add_left_inj, ih]
            constructor
            · rintro ⟨within, above, fits⟩
              refine ⟨by omega, ?_, fun more => fits (by omega)⟩
              intro position before
              cases position with
              | zero => omega
              | succ position => exact above position (by omega)
            · rintro ⟨within, above, fits⟩
              exact ⟨by omega, fun position before => above (position + 1) (by omega),
                fun more => fits (by omega)⟩

end FirstFit

section Stopping

variable {S : Type u} {C : Type v}

def runUntil (step : S → C → S) (measure : S → Nat) (target : Nat) : S → List C → S
  | state, [] => state
  | state, command :: rest =>
      if measure state ≤ target then state
      else runUntil step measure target (step state command) rest

theorem runUntil_eq (step : S → C → S) (measure : S → Nat) (target : Nat) (state : S)
    (commands : List C) :
    runUntil step measure target state commands =
      Runs.run step state (commands.take
        (firstFit (fun position => measure (Runs.run step state (commands.take position))) target
          commands.length)) := by
  induction commands generalizing state with
  | nil => rfl
  | cons command rest ih =>
      rw [runUntil, List.length_cons, firstFit, List.take_zero, Runs.run_nil]
      by_cases fits : measure state ≤ target
      · rw [if_pos fits, if_pos fits, List.take_zero, Runs.run_nil]
      · rw [if_neg fits, if_neg fits, ih, List.take_succ_cons, Runs.run_cons]
        simp only [List.take_succ_cons, Runs.run_cons]

end Stopping
