import Mathlib

set_option autoImplicit false

namespace GrokPi.Shared

def saturatingAdd (a b : UInt32) : UInt32 :=
  UInt32.ofNat (min (a.toNat + b.toNat) (UInt32.size - 1))

def saturatingSum (counts : List UInt32) : UInt32 :=
  counts.foldl saturatingAdd 0

def total (counts : List UInt32) : Nat :=
  (counts.map UInt32.toNat).sum

@[simp] theorem saturatingAdd_toNat (a b : UInt32) :
    (saturatingAdd a b).toNat = min (a.toNat + b.toNat) (UInt32.size - 1) := by
  rw [saturatingAdd, UInt32.toNat_ofNat_of_lt']
  have bound := Nat.min_le_right (a.toNat + b.toNat) (UInt32.size - 1)
  simp only [UInt32.size] at bound ⊢
  omega

theorem foldl_saturatingAdd (counts : List UInt32) (start : UInt32) :
    (counts.foldl saturatingAdd start).toNat =
      min (start.toNat + total counts) (UInt32.size - 1) := by
  induction counts generalizing start with
  | nil =>
      have bound := start.toNat_lt
      simp only [List.foldl_nil, total, List.map_nil, List.sum_nil, UInt32.size]
      omega
  | cons count rest ih =>
      simp only [List.foldl_cons, ih, saturatingAdd_toNat, total, List.map_cons, List.sum_cons]
      omega

@[simp] theorem saturatingSum_toNat (counts : List UInt32) :
    (saturatingSum counts).toNat = min (total counts) (UInt32.size - 1) := by
  rw [saturatingSum, foldl_saturatingAdd]
  simp

@[simp] theorem total_nil : total [] = 0 := rfl

@[simp] theorem total_cons (count : UInt32) (rest : List UInt32) :
    total (count :: rest) = count.toNat + total rest := rfl

@[simp] theorem total_append (front back : List UInt32) :
    total (front ++ back) = total front + total back := by
  simp [total]

@[simp] theorem saturatingAdd_zero : saturatingAdd 0 0 = 0 := rfl

@[simp] theorem saturatingSum_nil : saturatingSum [] = 0 := rfl

theorem saturatingSum_append (front back : List UInt32) :
    saturatingSum (front ++ back) = saturatingAdd (saturatingSum front) (saturatingSum back) := by
  apply UInt32.toNat_inj.mp
  simp only [saturatingSum_toNat, saturatingAdd_toNat, total_append]
  omega

theorem total_drop_mono (counts : List UInt32) {first second : Nat} (later : first ≤ second) :
    total (counts.drop second) ≤ total (counts.drop first) := by
  have split := congrArg total (List.take_append_drop (second - first) (counts.drop first))
  rw [total_append, List.drop_drop, Nat.add_sub_cancel' later] at split
  omega

theorem saturatingSum_drop_mono (counts : List UInt32) {first second : Nat}
    (later : first ≤ second) :
    saturatingSum (counts.drop second) ≤ saturatingSum (counts.drop first) := by
  have smaller := total_drop_mono counts later
  simp only [UInt32.le_iff_toNat_le, saturatingSum_toNat]
  omega

end GrokPi.Shared
