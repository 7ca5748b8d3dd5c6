import Mathlib

set_option autoImplicit false

universe u v

structure Timeline (Value : Type u) where
  past : List Value
  now : Value
  future : List Value

namespace Timeline

variable {Value : Type u} {Other : Type v} (line : Timeline Value)

def undo : Timeline Value :=
  match line.past.getLast? with
  | none => line
  | some value =>
      { past := line.past.dropLast
        now := value
        future := line.future ++ [line.now] }

def redo : Timeline Value :=
  match line.future.getLast? with
  | none => line
  | some value =>
      { past := line.past ++ [line.now]
        now := value
        future := line.future.dropLast }

def undoAll : Nat → Timeline Value → Timeline Value
  | 0, line => line
  | fuel + 1, line => if line.past = [] then line else undoAll fuel line.undo

def redoAll : Nat → Timeline Value → Timeline Value
  | 0, line => line
  | fuel + 1, line => if line.future = [] then line else redoAll fuel line.redo

def frames : List Value := line.past ++ line.now :: line.future.reverse

def flip : Timeline Value :=
  { past := line.future
    now := line.now
    future := line.past }

section Steps

theorem undo_flip : line.flip.undo = line.redo.flip := by
  unfold undo redo flip
  cases line.future.getLast? <;> rfl

theorem frames_flip : line.flip.frames = line.frames.reverse := by
  simp [frames, flip]

theorem undo_concat {earlier : List Value} {value : Value} (past : line.past = earlier ++ [value]) :
    line.undo =
      { past := earlier
        now := value
        future := line.future ++ [line.now] } := by
  simp [undo, past]

theorem undo_frames : line.undo.frames = line.frames := by
  rcases List.eq_nil_or_concat' line.past with none' | ⟨earlier, value, past⟩
  · simp [undo, none']
  · rw [line.undo_concat past]
    simp [frames, past]

end Steps

section Repeated

theorem undoAll_spec {fuel : Nat} (enough : line.past.length ≤ fuel) :
    (undoAll fuel line).past = [] ∧ (undoAll fuel line).frames = line.frames := by
  induction fuel generalizing line with
  | zero => exact ⟨List.length_eq_zero_iff.mp (Nat.le_zero.mp enough), rfl⟩
  | succ fuel ih =>
      rw [undoAll]
      split
      next none' => exact ⟨none', rfl⟩
      next some' =>
        obtain ⟨earlier, value, past⟩ := List.eq_nil_or_concat' line.past |>.resolve_left some'
        have shorter : line.undo.past.length ≤ fuel := by
          rw [line.undo_concat past]
          rw [past, List.length_append] at enough
          exact Nat.le_of_succ_le_succ enough
        obtain ⟨empty, frames⟩ := ih line.undo shorter
        exact ⟨empty, frames.trans line.undo_frames⟩

theorem redoAll_flip (fuel : Nat) : redoAll fuel line = (undoAll fuel line.flip).flip := by
  induction fuel generalizing line with
  | zero => rfl
  | succ fuel ih =>
      rw [redoAll, undoAll, undo_flip]
      change _ = (if line.future = [] then line.flip else undoAll fuel line.redo.flip).flip
      split
      · rfl
      · exact ih line.redo

theorem redoAll_spec {fuel : Nat} (enough : line.future.length ≤ fuel) :
    (redoAll fuel line).future = [] ∧ (redoAll fuel line).frames = line.frames := by
  obtain ⟨empty, frames⟩ := line.flip.undoAll_spec enough
  rw [redoAll_flip]
  refine ⟨empty, ?_⟩
  rw [frames_flip, frames, frames_flip, List.reverse_reverse]

theorem undoAll_now {fuel : Nat} (enough : line.past.length ≤ fuel) :
    line.frames.head? = some (undoAll fuel line).now := by
  obtain ⟨empty, frames⟩ := line.undoAll_spec enough
  rw [← frames, Timeline.frames, empty]
  rfl

theorem redoAll_now {fuel : Nat} (enough : line.future.length ≤ fuel) :
    line.frames.getLast? = some (redoAll fuel line).now := by
  obtain ⟨empty, frames⟩ := line.redoAll_spec enough
  rw [← frames, Timeline.frames, empty]
  simp

theorem redoAll_undoAll {fuel fuel' : Nat} (latest : line.future = []) (enough : line.past.length ≤ fuel)
    (enough' : (undoAll fuel line).future.length ≤ fuel') : (redoAll fuel' (undoAll fuel line)).now = line.now := by
  have last := (undoAll fuel line).redoAll_now enough'
  rw [(line.undoAll_spec enough).2, frames, latest] at last
  simpa using last.symm

end Repeated

end Timeline
