import GrokPi.HunkTracker.Inversion

set_option autoImplicit false

namespace GrokPi.HunkTracker

open LineEdit (Block group)

section Intervals

def linesFrom (lines : List Text) (start count : Nat) : List Text := (lines.drop (start - 1)).take count

structure Names (oldLines newLines : List Text) (hunk : Hunk) : Prop where
  positive : 0 < hunk.lineInfo.oldStart ∧ 0 < hunk.lineInfo.newStart
  withinOld : hunk.lineInfo.oldStart - 1 + hunk.lineInfo.oldCount ≤ oldLines.length
  withinNew : hunk.lineInfo.newStart - 1 + hunk.lineInfo.newCount ≤ newLines.length
  oldText : hunk.oldText = if hunk.lineInfo.oldCount = 0 then none
    else some (linesFrom oldLines hunk.lineInfo.oldStart hunk.lineInfo.oldCount).flatten
  newText : hunk.newText = (linesFrom newLines hunk.lineInfo.newStart hunk.lineInfo.newCount).flatten

structure Apart (oldLines newLines : List Text) (first second : Hunk) : Prop where
  old : first.lineInfo.oldStart + first.lineInfo.oldCount < second.lineInfo.oldStart
  new : first.lineInfo.newStart + first.lineInfo.newCount < second.lineInfo.newStart
  kept : ∃ line, oldLines[first.lineInfo.oldStart - 1 + first.lineInfo.oldCount]? = some line ∧
    newLines[first.lineInfo.newStart - 1 + first.lineInfo.newCount]? = some line

def replaced (oldLines : List Text) : Nat → List Hunk → Text
  | from', [] => (oldLines.drop from').flatten
  | from', hunk :: rest =>
      ((oldLines.drop from').take (hunk.lineInfo.oldStart - 1 - from')).flatten ++ hunk.newText ++
        replaced oldLines (hunk.lineInfo.oldStart - 1 + hunk.lineInfo.oldCount) rest

variable {path : Text} {source : HunkSource} {oldLines newLines : List Text} {block : Block Text}

theorem linesFrom_middle {front middle back : List Text} {start count : Nat} (first : start = front.length + 1)
    (length : count = middle.length) : linesFrom (front ++ middle ++ back) start count = middle := by
  rw [linesFrom, first, length, Nat.add_sub_cancel, List.append_assoc, List.drop_left, List.take_left]

theorem build_names (located : LineEdit.Located block oldLines newLines) (id : HunkId) :
    Names oldLines newLines (build id path source block) := by
  obtain ⟨⟨oldFront, oldBack, oldStart, rfl⟩, newFront, newBack, newStart, rfl⟩ := located
  constructor <;> dsimp only [build]
  · omega
  · simp [oldStart]
  · simp [newStart]
  · rw [linesFrom_middle oldStart rfl]
    simp
  · rw [linesFrom_middle newStart rfl]

theorem build_apart {other : Block Text} (before : block.Before other) (kept : block.KeptBehind oldLines newLines)
    (id later : HunkId) : Apart oldLines newLines (build id path source block) (build later path source other) :=
  ⟨before.1, before.2, kept⟩

theorem replaced_build (lines : List Text) (from' : Nat) (blocks : List (Block Text)) (id : HunkId) :
    replaced lines from' (blocks.mapIdx fun index block => build (id + index) path source block) =
      (LineEdit.rebuild lines from' blocks).flatten := by
  induction blocks generalizing from' id with
  | nil => rfl
  | cons block rest ih =>
      have later := ih (block.oldStart - 1 + block.oldLines.length) (id + 1)
      simp only [List.mapIdx_cons, Nat.add_zero, replaced, LineEdit.rebuild, List.flatten_append]
      rw [← later]
      simp only [build, Nat.add_assoc, Nat.add_comm 1]

end Intervals

section Computed

variable {diff : LineDiff} {baseline current : Text}

/--
The hunks are apart, name their lines, and lead from the one text to the other unless there is a
difference and `compute_hunks` gives up on it.
-/
theorem compute_hunks_groups (laws : diff.Lawful) (whole : ∀ text, (diff.tokens text).flatten = text) (nextId : HunkId)
    (path baseline current : Text) (source : HunkSource) :
    (computeHunks diff nextId path baseline current source).Pairwise (Apart (diff.tokens baseline) (diff.tokens current)) ∧
    (∀ hunk ∈ computeHunks diff nextId path baseline current source,
      Names (diff.tokens baseline) (diff.tokens current) hunk) ∧
    (replaced (diff.tokens baseline) 0 (computeHunks diff nextId path baseline current source) = current ↔
      baseline = current ∨ Diffed diff baseline current) ∧
    (¬ Diffed diff baseline current → computeHunks diff nextId path baseline current source = []) := by
  by_cases diffed : Diffed diff baseline current
  · have oldSide := laws.oldSide baseline current
    have newSide := laws.newSide baseline current
    have apart : (diffBlocks diff baseline current).Pairwise fun first second =>
        first.Before second ∧ first.KeptBehind (diff.tokens baseline) (diff.tokens current) := by
      have before := LineEdit.group_before (diff.changes baseline current) (LineEdit.openAt_none 1 1)
      have kept := LineEdit.group_kept (diff.changes baseline current) [] [] (LineEdit.openAt_none 1 1)
      simp only [LineEdit.openOld, LineEdit.openNew, Option.elim_none, List.nil_append, oldSide, newSide] at kept
      exact before.and kept
    rw [computeHunks_diffed diffed]
    refine ⟨?_, ?_, ?_, fun undiffed => absurd diffed undiffed⟩
    · rw [List.pairwise_iff_getElem] at apart ⊢
      intro i j first second order
      simp only [List.length_mapIdx] at first second
      obtain ⟨before, kept⟩ := apart i j first second order
      simp only [List.getElem_mapIdx]
      exact build_apart before kept _ _
    · intro hunk member
      obtain ⟨index, listed, rfl⟩ := List.mem_mapIdx.mp member
      have located := LineEdit.located_script _ _ (List.getElem_mem listed)
      rw [oldSide, newSide] at located
      exact build_names located _
    · rw [replaced_build, diffBlocks, ← oldSide, LineEdit.rebuild_script, newSide, whole]
      exact iff_of_true rfl (.inr diffed)
  · rw [computeHunks_undiffed diffed]
    refine ⟨List.Pairwise.nil, fun hunk member => absurd member List.not_mem_nil, ?_, fun _ => rfl⟩
    rw [replaced, List.drop_zero, whole]
    exact ⟨.inl, fun either => either.resolve_right diffed⟩

theorem changed_line_grouped :
    replaced (LineDiff.plain.tokens "a\nb".toList) 0
      (computeHunks LineDiff.plain 0 ['f'] "a\nb".toList "a\nc\n".toList .external) = "a\nc\n".toList := by
  have diffed : Diffed LineDiff.plain "a\nb".toList "a\nc\n".toList := ⟨by decide, by decide, by decide, rfl⟩
  exact ((compute_hunks_groups LineDiff.plain_lawful (Text.splitInclusive_flatten '\n') 0 ['f'] _ _ .external).2.2.1).mpr
    (.inr diffed)

theorem large_text_ungrouped :
    computeHunks LineDiff.plain 0 ['f'] [] (List.replicate (maxDiffFileSize + 1) 'a') .external = [] ∧
      replaced (LineDiff.plain.tokens []) 0 [] ≠ List.replicate (maxDiffFileSize + 1) 'a' := by
  constructor
  · apply computeHunks_undiffed
    intro diffed
    have small := diffed.smallNew
    rw [byteLen, List.map_replicate, List.sum_replicate, show Char.utf8Size 'a' = 1 by decide, smul_eq_mul, Nat.mul_one] at small
    exact absurd small (Nat.not_succ_le_self _)
  · rw [List.replicate_succ]
    exact List.cons_ne_nil _ _ |>.symm

end Computed

end GrokPi.HunkTracker
