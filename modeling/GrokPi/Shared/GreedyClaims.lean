import Mathlib

set_option autoImplicit false

universe u v

namespace GreedyClaims

variable {Item : Type u} {Kind : Type v} [BEq Item] [LawfulBEq Item] [DecidableEq Kind] (kind : Item → Kind)

def ofKind (offers : List Item) (wish : Item) : Option Item := offers.find? fun offer => kind offer = kind wish

def exactClaims : List Item → List Item → List Item
  | _, [] => []
  | offers, wish :: later =>
      if wish ∈ offers then wish :: exactClaims (offers.erase wish) later
      else
        match ofKind kind offers wish with
        | none => exactClaims offers later
        | some other => exactClaims (offers.erase other) later

/-- An offer goes to another wish only while enough of the same remain for the wishes that come later. -/
def Spares : List Item → List Item → Prop
  | _, [] => True
  | offers, wish :: later =>
      if wish ∈ offers then Spares (offers.erase wish) later
      else
        match ofKind kind offers wish with
        | none => Spares offers later
        | some other => later.count other ≤ (offers.erase other).count other ∧ Spares (offers.erase other) later

instance decidableSpares : ∀ offers wishes, Decidable (Spares kind offers wishes)
  | _, [] => inferInstanceAs (Decidable True)
  | offers, wish :: later =>
      if held : wish ∈ offers then
        have := decidableSpares (offers.erase wish) later
        decidable_of_iff (Spares kind (offers.erase wish) later) (by rw [Spares, if_pos held])
      else
        match found : ofKind kind offers wish with
        | none =>
            have := decidableSpares offers later
            decidable_of_iff (Spares kind offers later) (by rw [Spares, if_neg held, found])
        | some other =>
            have := decidableSpares (offers.erase other) later
            decidable_of_iff
              (later.count other ≤ (offers.erase other).count other ∧ Spares kind (offers.erase other) later)
              (by rw [Spares, if_neg held, found])

example : Spares (fun _ : Nat => ()) [1, 2] [3, 2] ∧ ¬ Spares (fun _ : Nat => ()) [1, 2] [3, 1] := by decide

variable {kind} {offers wishes later : List Item} {wish other item : Item}

omit [BEq Item] [LawfulBEq Item] in
theorem ofKind_mem (found : ofKind kind offers wish = some other) : other ∈ offers :=
  List.mem_of_find?_eq_some found

theorem count_exactClaims_le (offers wishes : List Item) (item : Item) :
    (exactClaims kind offers wishes).count item ≤ min (offers.count item) (wishes.count item) := by
  induction wishes generalizing offers with
  | nil => simp [exactClaims]
  | cons wish later ih =>
      rw [exactClaims]
      split
      next held =>
        have rest := ih (offers.erase wish)
        have some' := List.count_pos_iff.mpr held
        by_cases same : wish = item
        · subst same
          rw [List.count_erase_self] at rest
          rw [List.count_cons_self, List.count_cons_self]
          omega
        · rw [List.count_erase_of_ne (Ne.symm same)] at rest
          rw [List.count_cons_of_ne same, List.count_cons_of_ne same]
          exact rest
      next =>
        -- Here no claim is counted, and what is left only shrinks.
        have more : later.count item ≤ (wish :: later).count item := List.count_le_count_cons
        split
        next =>
          have rest := ih offers
          omega
        next other _ =>
          have rest := ih (offers.erase other)
          have fewer : (offers.erase other).count item ≤ offers.count item := List.erase_sublist.count_le item
          omega

theorem exactClaims_iff (offers wishes : List Item) :
    (∀ item, (exactClaims kind offers wishes).count item = min (offers.count item) (wishes.count item)) ↔
      Spares kind offers wishes := by
  induction wishes generalizing offers with
  | nil => simp [exactClaims, Spares]
  | cons wish later ih =>
      rw [exactClaims, Spares]
      by_cases held : wish ∈ offers
      · rw [if_pos held, if_pos held, ← ih]
        refine forall_congr' ?_
        intro item
        have some' := List.count_pos_iff.mpr held
        by_cases same : wish = item
        · subst same
          rw [List.count_cons_self, List.count_cons_self, List.count_erase_self]
          omega
        · rw [List.count_cons_of_ne same, List.count_cons_of_ne same, List.count_erase_of_ne (Ne.symm same)]
      · rw [if_neg held, if_neg held]
        have missing := List.count_eq_zero_of_not_mem held
        cases found : ofKind kind offers wish with
        | none =>
            dsimp only
            rw [← ih]
            refine forall_congr' ?_
            intro item
            by_cases same : wish = item
            · subst same
              rw [missing, Nat.zero_min, Nat.zero_min]
            · rw [List.count_cons_of_ne same]
        | some other =>
            dsimp only
            have offered := List.count_pos_iff.mpr (ofKind_mem found)
            have apart : wish ≠ other := fun same => held (same ▸ ofKind_mem found)
            have one := List.count_erase_self (a := other) (l := offers)
            rw [← ih]
            -- Only the offer that is taken, and the wish that takes it, count differently afterwards.
            have differ : ∀ item, item ≠ other →
                min ((offers.erase other).count item) (later.count item) =
                  min (offers.count item) ((wish :: later).count item) := by
              intro item different
              rw [List.count_erase_of_ne different]
              by_cases same : wish = item
              · subst same
                rw [missing, Nat.zero_min, Nat.zero_min]
              · rw [List.count_cons_of_ne same]
            constructor
            · intro claims
              have bound := @count_exactClaims_le _ _ _ _ _ kind (offers.erase other) later other
              have here := claims other
              rw [List.count_cons_of_ne apart] at here
              refine ⟨by omega, ?_⟩
              intro item
              by_cases same : item = other
              · subst same
                omega
              · rw [claims item, differ item same]
            · rintro ⟨enough, claims⟩ item
              by_cases same : item = other
              · subst same
                have here := claims item
                rw [List.count_cons_of_ne apart]
                omega
              · rw [claims item, differ item same]

end GreedyClaims
