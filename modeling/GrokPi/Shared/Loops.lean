import Mathlib

set_option autoImplicit false

namespace Loops

universe u v

inductive Pass (S : Type u) (R : Type v) where
  | again (state : S)
  | leave (result : R)

variable {S : Type u} {R : Type v}

/-- `none` where the body fails, and where the passes do not suffice. -/
def loop (body : S → Option (Pass S R)) : Nat → S → Option R
  | 0, _ => none
  | passes + 1, state =>
      (body state).bind fun
        | .again next => loop body passes next
        | .leave result => some result

theorem loop_again {body : S → Option (Pass S R)} {state next : S} (pass : body state = some (.again next))
    (passes : Nat) : loop body (passes + 1) state = loop body passes next := by
  rw [loop, pass]
  rfl

theorem loop_leave {body : S → Option (Pass S R)} {state : S} {result : R}
    (pass : body state = some (.leave result)) (passes : Nat) : loop body (passes + 1) state = some result := by
  rw [loop, pass]
  rfl

/-- One pass: it keeps the invariant under a lower rank, or it leaves with a good result.
A body with a loop of its own needs `least` passes for that one. -/
def Advances (body : Nat → S → Option (Pass S R)) (least : Nat) (invariant : S → Prop) (rank : S → Nat)
    (good : R → Prop) (state : S) : Prop :=
  (∃ next, (∀ inner, least ≤ inner → body inner state = some (.again next)) ∧
      invariant next ∧ rank next < rank state) ∨
    ∃ result, (∀ inner, least ≤ inner → body inner state = some (.leave result)) ∧ good result

/-- The result does not depend on how many passes are allowed beyond the rank. -/
theorem loop_leaves {body : Nat → S → Option (Pass S R)} {least : Nat} {invariant : S → Prop}
    (rank : S → Nat) {good : R → Prop}
    (advances : ∀ state, invariant state → Advances body least invariant rank good state)
    {state : S} (initial : invariant state) :
    ∃ result, good result ∧
      ∀ inner, least ≤ inner → ∀ passes, rank state < passes → loop (body inner) passes state = some result := by
  -- The induction is on the rank, for all states at once.
  induction measured : rank state using Nat.strong_induction_on generalizing state with
  | _ current ih =>
      rcases advances state initial with ⟨next, pass, kept, falls⟩ | ⟨result, pass, holds⟩
      · obtain ⟨result, holds, later⟩ := ih (rank next) (measured ▸ falls) kept rfl
        refine ⟨result, holds, fun inner enough passes bound => ?_⟩
        obtain ⟨passes, rfl⟩ : ∃ fewer, passes = fewer + 1 := ⟨passes - 1, by omega⟩
        rw [loop_again (pass inner enough)]
        exact later inner enough passes (by omega)
      · refine ⟨result, holds, fun inner enough passes bound => ?_⟩
        obtain ⟨passes, rfl⟩ : ∃ fewer, passes = fewer + 1 := ⟨passes - 1, by omega⟩
        exact loop_leave (pass inner enough) passes

end Loops
