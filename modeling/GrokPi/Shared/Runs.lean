import Mathlib

set_option autoImplicit false

namespace Runs

universe u v w

variable {S : Type u} {C : Type v} (step : S → C → S)

def run (state : S) (commands : List C) : S :=
  commands.foldl step state

@[simp] theorem run_nil (state : S) : run step state [] = state := rfl

@[simp] theorem run_cons (state : S) (command : C) (rest : List C) :
    run step state (command :: rest) = run step (step state command) rest := rfl

@[simp] theorem run_append (state : S) (first second : List C) :
    run step state (first ++ second) = run step (run step state first) second := by
  simp [run, List.foldl_append]

def Along (guard : S → C → Prop) : S → List C → Prop
  | _, [] => True
  | state, command :: rest => guard state command ∧ Along guard (step state command) rest

instance along_decidable (guard : S → C → Prop) [∀ state command, Decidable (guard state command)] :
    ∀ (state : S) (commands : List C), Decidable (Along step guard state commands)
  | _, [] => inferInstanceAs (Decidable True)
  | state, command :: rest =>
      have := along_decidable guard (step state command) rest
      inferInstanceAs (Decidable (guard state command ∧ Along step guard (step state command) rest))

theorem along_append (guard : S → C → Prop) (state : S) (first second : List C) :
    Along step guard state (first ++ second) ↔
      Along step guard state first ∧ Along step guard (run step state first) second := by
  induction first generalizing state with
  | nil => simp [Along]
  | cons command rest ih => simp [Along, ih, and_assoc]

theorem along_of_forall {good : C → Prop} (state : S) {commands : List C} (each : ∀ command ∈ commands, good command) :
    Along step (fun _ command => good command) state commands := by
  induction commands generalizing state with
  | nil => trivial
  | cons command rest ih =>
      rw [List.forall_mem_cons] at each
      exact ⟨each.1, ih (step state command) each.2⟩

theorem along_invariant {guard : S → C → Prop} {invariant : S → Prop}
    (preserved : ∀ state command, invariant state → guard state command →
      invariant (step state command))
    (state : S) (commands : List C) (initial : invariant state)
    (guarded : Along step guard state commands) :
    invariant (run step state commands) := by
  induction commands generalizing state with
  | nil => exact initial
  | cons command rest ih =>
      exact ih (step state command) (preserved state command initial guarded.1) guarded.2

theorem run_invariant {invariant : S → Prop}
    (preserved : ∀ state command, invariant state → invariant (step state command))
    (state : S) (commands : List C) (initial : invariant state) :
    invariant (run step state commands) := by
  induction commands generalizing state with
  | nil => exact initial
  | cons command rest ih => exact ih (step state command) (preserved state command initial)

theorem along_follows {guard good : S → C → Prop} {invariant : S → Prop}
    (preserved : ∀ state command, invariant state → guard state command →
      invariant (step state command))
    (follows : ∀ state command, invariant state → guard state command → good state command)
    (state : S) (commands : List C) (initial : invariant state)
    (guarded : Along step guard state commands) : Along step good state commands := by
  induction commands generalizing state with
  | nil => trivial
  | cons command rest ih =>
      have next := preserved state command initial guarded.1
      exact ⟨follows state command initial guarded.1, ih _ next guarded.2⟩

theorem along_iff {possible good kept : S → C → Prop} {invariant : S → Prop}
    (exact : ∀ state command, invariant state → possible state command →
      (good state command ↔ kept state command))
    (preserved : ∀ state command, invariant state → possible state command →
      kept state command → invariant (step state command))
    (state : S) (commands : List C) (initial : invariant state)
    (possibly : Along step possible state commands) :
    Along step good state commands ↔ Along step kept state commands := by
  induction commands generalizing state with
  | nil => exact Iff.rfl
  | cons command rest ih =>
      have here := exact state command initial possibly.1
      constructor
      · intro ⟨now, later⟩
        have next := preserved state command initial possibly.1 (here.mp now)
        exact ⟨here.mp now, (ih _ next possibly.2).mp later⟩
      · intro ⟨now, later⟩
        have next := preserved state command initial possibly.1 now
        exact ⟨here.mpr now, (ih _ next possibly.2).mpr later⟩

theorem along_iff_always {good kept : S → C → Prop} {invariant : S → Prop}
    (exact : ∀ state command, invariant state → (good state command ↔ kept state command))
    (preserved : ∀ state command, invariant state → kept state command → invariant (step state command))
    (state : S) (commands : List C) (initial : invariant state) :
    Along step good state commands ↔ Along step kept state commands := by
  have always : Along step (fun _ _ => True) state commands := by
    clear initial
    induction commands generalizing state with
    | nil => trivial
    | cons command rest ih => exact ⟨trivial, ih (step state command)⟩
  exact along_iff step (fun state command holds _ => exact state command holds)
    (fun state command holds _ => preserved state command holds) state commands initial always

section Partial

variable (partial' : S → C → Option S)

def runPartial : S → List C → Option S
  | state, [] => some state
  | state, command :: rest => (partial' state command).bind fun next => runPartial next rest

def AlongPartial (guard : S → C → Prop) : S → List C → Prop
  | _, [] => True
  | state, command :: rest =>
      guard state command ∧ ∀ next, partial' state command = some next → AlongPartial guard next rest

instance alongPartial_decidable (guard : S → C → Prop) [∀ state command, Decidable (guard state command)] :
    ∀ (state : S) (commands : List C), Decidable (AlongPartial partial' guard state commands)
  | _, [] => inferInstanceAs (Decidable True)
  | state, command :: rest =>
      have := fun next => alongPartial_decidable guard next rest
      inferInstanceAs (Decidable
        (guard state command ∧ ∀ next ∈ partial' state command, AlongPartial partial' guard next rest))

theorem alongPartial_invariant {guard : S → C → Prop} {invariant : S → Prop}
    (preserved : ∀ state command next, invariant state → guard state command → partial' state command = some next →
      invariant next)
    {state last : S} {commands : List C} (initial : invariant state)
    (guarded : AlongPartial partial' guard state commands) (ran : runPartial partial' state commands = some last) :
    invariant last := by
  induction commands generalizing state with
  | nil => exact Option.some.inj ran ▸ initial
  | cons command rest ih =>
      obtain ⟨next, stepped, later⟩ := Option.bind_eq_some_iff.mp ran
      exact ih (preserved state command next initial guarded.1 stepped) (guarded.2 next stepped) later

theorem alongPartial_follows {guard good : S → C → Prop} {invariant : S → Prop}
    (preserved : ∀ state command next, invariant state → guard state command → partial' state command = some next →
      invariant next)
    (follows : ∀ state command, invariant state → guard state command → good state command)
    {state : S} {commands : List C} (initial : invariant state)
    (guarded : AlongPartial partial' guard state commands) : AlongPartial partial' good state commands := by
  induction commands generalizing state with
  | nil => trivial
  | cons command rest ih =>
      exact ⟨follows state command initial guarded.1, fun next stepped =>
        ih (preserved state command next initial guarded.1 stepped) (guarded.2 next stepped)⟩

theorem alongPartial_and {guard : S → C → Prop} {good : C → Prop} {state : S} {commands : List C}
    (each : ∀ command ∈ commands, good command) (guarded : AlongPartial partial' guard state commands) :
    AlongPartial partial' (fun state command => good command ∧ guard state command) state commands := by
  induction commands generalizing state with
  | nil => trivial
  | cons command rest ih =>
      rw [List.forall_mem_cons] at each
      exact ⟨⟨each.1, guarded.1⟩, fun next stepped => ih each.2 (guarded.2 next stepped)⟩

end Partial

end Runs
