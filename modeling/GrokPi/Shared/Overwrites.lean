import Mathlib

set_option autoImplicit false

namespace Overwrites

universe u v

variable {Place : Type u} {Value : Type v} [DecidableEq Place]

def assign (store : Place → Value) (writes : List (Place × Value)) : Place → Value :=
  writes.foldl (fun current write => Function.update current write.1 write.2) store

theorem assign_untouched (store : Place → Value) (writes : List (Place × Value)) {place : Place}
    (untouched : place ∉ writes.map Prod.fst) : assign store writes place = store place := by
  induction writes generalizing store with
  | nil => rfl
  | cons write rest ih =>
      have ⟨other, later⟩ := not_or.mp (mt List.mem_cons.mpr untouched)
      change assign (Function.update store write.1 write.2) rest place = _
      rw [ih _ later, Function.update_of_ne other]

theorem assign_once (store : Place → Value) {writes : List (Place × Value)}
    (once : (writes.map Prod.fst).Nodup) {place : Place} {value : Value}
    (member : (place, value) ∈ writes) : assign store writes place = value := by
  induction writes generalizing store with
  | nil => simp at member
  | cons write rest ih =>
      have ⟨absent, later⟩ := List.nodup_cons.mp once
      change assign (Function.update store write.1 write.2) rest place = value
      rcases List.mem_cons.mp member with rfl | inRest
      · rw [assign_untouched _ _ absent, Function.update_self]
      · exact ih _ later inRest

/-- Two values for each of the same places, which agree where nothing is written later. -/
def LastAgree (later : List Place) : List (Place × Value × Value) → Prop
  | [] => True
  | (place, first, second) :: rest =>
      (place ∉ rest.map Prod.fst ++ later → first = second) ∧ LastAgree later rest

def firstWrites (pairs : List (Place × Value × Value)) : List (Place × Value) :=
  pairs.map fun pair => (pair.1, pair.2.1)

def secondWrites (pairs : List (Place × Value × Value)) : List (Place × Value) :=
  pairs.map fun pair => (pair.1, pair.2.2)

theorem assign_agree (later : List Place) (pairs : List (Place × Value × Value))
    (first second : Place → Value) :
    (∀ place ∉ later, assign first (firstWrites pairs) place = assign second (secondWrites pairs) place) ↔
      LastAgree later pairs ∧ ∀ place ∉ pairs.map Prod.fst ++ later, first place = second place := by
  induction pairs generalizing first second with
  | nil => simp [assign, firstWrites, secondWrites, LastAgree]
  | cons pair rest ih =>
      obtain ⟨here, a, b⟩ := pair
      have step := ih (Function.update first here a) (Function.update second here b)
      change (∀ place ∉ later, assign (Function.update first here a) (firstWrites rest) place =
        assign (Function.update second here b) (secondWrites rest) place) ↔ _
      rw [step]
      simp only [LastAgree, List.map_cons, List.cons_append, List.mem_cons, not_or]
      constructor
      · intro ⟨agree, same⟩
        refine ⟨⟨?_, agree⟩, ?_⟩
        · intro last
          simpa using same here last
        · intro place ⟨other, untouched⟩
          simpa [other] using same place untouched
      · intro ⟨⟨last, agree⟩, same⟩
        refine ⟨agree, ?_⟩
        intro place untouched
        by_cases at' : place = here
        · subst at'
          simpa using last untouched
        · simpa [at'] using same place ⟨at', untouched⟩

end Overwrites
