import Mathlib

set_option autoImplicit false

namespace Peeling

universe u

variable {α : Type u} (strip : α → Option α)

def peel : Nat → α → Option α
  | 0, item => some item
  | count + 1, item => (strip item).bind (peel count)

@[simp] theorem peel_zero (item : α) : peel strip 0 item = some item := rfl

theorem peel_succ (count : Nat) (item : α) :
    peel strip (count + 1) item = (strip item).bind (peel strip count) := rfl

theorem peel_add (first second : Nat) (item : α) :
    peel strip (first + second) item = (peel strip first item).bind (peel strip second) := by
  induction first generalizing item with
  | zero => simp
  | succ first ih =>
      rw [Nat.succ_add, peel_succ, peel_succ, Option.bind_assoc]
      exact Option.bind_congr fun inner _ => ih inner

structure Core (count : Nat) (item core : α) : Prop where
  peeled : peel strip count item = some core
  bare : strip core = none

variable {strip}

theorem Core.count_le {count reached : Nat} {item core inner : α} (whole : Core strip count item core)
    (peeled : peel strip reached item = some inner) : reached ≤ count := by
  by_contra beyond
  obtain ⟨extra, rfl⟩ : ∃ extra, reached = count + (extra + 1) := ⟨reached - count - 1, by omega⟩
  rw [peel_add, whole.peeled, Option.bind_some, peel_succ, whole.bare] at peeled
  simp at peeled

theorem Core.unique {first second : Nat} {item core other : α} (left : Core strip first item core)
    (right : Core strip second item other) : first = second ∧ core = other := by
  have counts : first = second := by
    have below := left.count_le right.peeled
    have above := right.count_le left.peeled
    omega
  subst counts
  exact ⟨rfl, Option.some.inj (left.peeled.symm.trans right.peeled)⟩

theorem Core.succ {count : Nat} {item inner core : α} (layer : strip item = some inner)
    (rest : Core strip count inner core) : Core strip (count + 1) item core :=
  ⟨by rw [peel_succ, layer, Option.bind_some, rest.peeled], rest.bare⟩

theorem peel_transfer {other : α → Option α}
    (layer : ∀ item inner, strip item = some inner → other item = some inner)
    {count : Nat} {item inner : α} (peeled : peel strip count item = some inner) :
    peel other count item = some inner := by
  induction count generalizing item with
  | zero => exact peeled
  | succ count ih =>
      obtain ⟨middle, outer, rest⟩ := Option.bind_eq_some_iff.mp peeled
      rw [peel_succ, layer _ _ outer, Option.bind_some]
      exact ih rest

theorem peel_related (related : α → α → Prop) (same : ∀ item, related item item)
    (chain : ∀ outer middle inner, related outer middle → related middle inner → related outer inner)
    (layer : ∀ item inner, strip item = some inner → related item inner)
    {count : Nat} {item inner : α} (peeled : peel strip count item = some inner) :
    related item inner := by
  induction count generalizing item with
  | zero => exact Option.some.inj peeled ▸ same item
  | succ count ih =>
      obtain ⟨middle, outer, rest⟩ := Option.bind_eq_some_iff.mp peeled
      exact chain _ _ _ (layer _ _ outer) (ih rest)

end Peeling
