import Mathlib

set_option autoImplicit false

namespace Numbering

universe u v w

variable {σ : Type u} {τ : Type w} {α : Type v} (number : σ → α → Option Nat × σ)

def reaches (target : Nat) : Option Nat → Bool
  | some index => target ≤ index
  | none => false

def keep (target : Nat) : σ → List α → Nat
  | _, [] => 0
  | state, item :: rest =>
      if reaches target (number state item).1 then 0
      else keep target (number state item).2 rest + 1

@[simp] theorem keep_nil (target : Nat) (state : σ) : keep number target state [] = 0 := rfl

theorem keep_cons (target : Nat) (state : σ) (item : α) (rest : List α) :
    keep number target state (item :: rest) =
      if reaches target (number state item).1 then 0
      else keep number target (number state item).2 rest + 1 := rfl

theorem reaches_mono {earlier later : Nat} (before : earlier ≤ later) {index : Option Nat}
    (reached : reaches later index = true) : reaches earlier index = true := by
  cases index with
  | none => exact reached
  | some index =>
      simp only [reaches, decide_eq_true_eq] at reached ⊢
      exact Nat.le_trans before reached

theorem keep_le_length (target : Nat) (state : σ) (items : List α) :
    keep number target state items ≤ items.length := by
  induction items generalizing state with
  | nil => exact Nat.le_refl _
  | cons item rest ih =>
      rw [keep_cons]
      split
      · exact Nat.zero_le _
      · exact Nat.succ_le_succ (ih _)

theorem keep_mono {earlier later : Nat} (before : earlier ≤ later) (state : σ) (items : List α) :
    keep number earlier state items ≤ keep number later state items := by
  induction items generalizing state with
  | nil => exact Nat.le_refl _
  | cons item rest ih =>
      rw [keep_cons, keep_cons]
      split
      next => exact Nat.zero_le _
      next below =>
        rw [if_neg fun reached => below (reaches_mono before reached)]
        exact Nat.succ_le_succ (ih _)

theorem keep_take (target count : Nat) (state : σ) (items : List α) :
    keep number target state (items.take count) = min (keep number target state items) count := by
  induction items generalizing state count with
  | nil => simp
  | cons item rest ih =>
      cases count with
      | zero => simp
      | succ count =>
          rw [List.take_succ_cons, keep_cons, keep_cons, ih]
          split
          · exact (Nat.zero_min _).symm
          · exact Nat.add_min_add_right .. |>.symm

theorem keep_follow {number} (other : τ → α → Option Nat × τ) (image : σ → τ) (target : Nat)
    (state : σ) (items : List α)
    (follows : ∀ item ∈ items, ∀ state : σ,
      other (image state) item = ((number state item).1, image (number state item).2)) :
    keep other target (image state) items = keep number target state items := by
  -- A second numbering that follows the first on these items cuts them in the same place.
  induction items generalizing state with
  | nil => rfl
  | cons item rest ih =>
      rw [keep_cons, keep_cons, follows item List.mem_cons_self state]
      split
      · rfl
      · rw [ih _ fun item member => follows item (List.mem_cons_of_mem _ member)]

end Numbering
