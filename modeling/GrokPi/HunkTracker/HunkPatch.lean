import GrokPi.HunkTracker.Inversion
import GrokPi.Shared.Numerals

set_option autoImplicit false

namespace GrokPi.HunkTracker

open LineEdit (Block Located oldSide newSide group)
open Text (stripTerminator)

section Fragments

def contextLines : Nat := 3

structure PatchHeader where
  oldStart : Nat
  totalOldLines : Nat
  newStart : Nat
  totalNewLines : Nat
  deriving DecidableEq

def PatchHeader.text (header : PatchHeader) : Text :=
  "@@ -".toList ++ (Nat.toDigits 10 header.oldStart ++ ',' :: (Nat.toDigits 10 header.totalOldLines ++
    ' ' :: '+' :: (Nat.toDigits 10 header.newStart ++ ',' :: (Nat.toDigits 10 header.totalNewLines ++ " @@".toList))))

def patchHeader (oldLines newLines : List Text) (lineInfo : HunkLineInfo) : PatchHeader :=
  let oldStartIdx := lineInfo.oldStart - 1
  let newStartIdx := lineInfo.newStart - 1
  let contextBeforeStart := oldStartIdx - contextLines
  let contextBeforeEnd := oldStartIdx
  let changesEndNew := newStartIdx + lineInfo.newCount
  let contextAfterEnd := min (changesEndNew + contextLines) newLines.length
  let changesEndOld := oldStartIdx + lineInfo.oldCount
  let contextAfterEndOld := min (changesEndOld + contextLines) oldLines.length
  { oldStart := contextBeforeStart + 1
    totalOldLines := (contextBeforeEnd - contextBeforeStart) + lineInfo.oldCount + (contextAfterEndOld - changesEndOld)
    -- Counted from the old start as well.
    newStart := contextBeforeStart + 1
    totalNewLines := (contextBeforeEnd - contextBeforeStart) + lineInfo.newCount + (contextAfterEnd - changesEndNew) }

def patchBody (oldLines newLines : List Text) (hunk : Hunk) : List Text :=
  let oldStartIdx := hunk.lineInfo.oldStart - 1
  let newStartIdx := hunk.lineInfo.newStart - 1
  let contextBeforeStart := oldStartIdx - contextLines
  let contextBeforeEnd := oldStartIdx
  let contextAfterStart := newStartIdx + hunk.lineInfo.newCount
  let contextAfterEnd := min (contextAfterStart + contextLines) newLines.length
  let deleted := (hunk.oldText.map Text.lines).getD []
  ((oldLines.drop contextBeforeStart).take (contextBeforeEnd - contextBeforeStart)).map (' ' :: ·) ++
    deleted.map ('-' :: ·) ++ (Text.lines hunk.newText).map ('+' :: ·) ++
    -- The context behind the change is that of the new file.
    ((newLines.drop contextAfterStart).take (contextAfterEnd - contextAfterStart)).map (' ' :: ·)

def generateHunkPatch (baseline current : Text) (hunk : Hunk) : Text :=
  let oldLines := Text.lines baseline
  let newLines := Text.lines current
  Text.unlines ((patchHeader oldLines newLines hunk.lineInfo).text :: patchBody oldLines newLines hunk)

end Fragments

section Validity

def sideOf (sign : Char) (body : List Text) : List Text :=
  (body.filter fun line => line.head? = some ' ' ∨ line.head? = some sign).map List.tail

def SideValid (sign : Char) (body : List Text) (text : Text) (start count : Nat) : Prop :=
  (sideOf sign body).length = count ∧ sideOf sign body = ((Text.lines text).drop (start - 1)).take count

def ValidFragment (patch baseline current : Text) : Prop :=
  ∃ (header : PatchHeader) (body : List Text), Text.lines patch = header.text :: body ∧
    SideValid '-' body baseline header.oldStart header.totalOldLines ∧
    SideValid '+' body current header.newStart header.totalNewLines

/-- Around the change both files read the same, and so does the new file from the old start on and
from the new start on. -/
structure Aligned (oldLines newLines : List Text) (lineInfo : HunkLineInfo) : Prop where
  behind : (newLines.drop (lineInfo.newStart - 1 + lineInfo.newCount)).take contextLines =
    (oldLines.drop (lineInfo.oldStart - 1 + lineInfo.oldCount)).take contextLines
  front : (newLines.drop (lineInfo.oldStart - 1 - contextLines)).take (min contextLines (lineInfo.oldStart - 1)) =
    (oldLines.drop (lineInfo.oldStart - 1 - contextLines)).take (min contextLines (lineInfo.oldStart - 1))
  unshifted :
    let reach := lineInfo.newCount + ((newLines.drop (lineInfo.newStart - 1 + lineInfo.newCount)).take contextLines).length
    (newLines.drop (lineInfo.oldStart - 1)).take reach = (newLines.drop (lineInfo.newStart - 1)).take reach

variable {baseline current patch path : Text} {header other : PatchHeader} {body : List Text}

theorem header_injective (same : header.text = other.text) : header = other := by
  obtain ⟨oldStart, rest⟩ := Text.toDigits_split (by decide) (by decide) (List.append_cancel_left same)
  obtain ⟨oldCount, rest⟩ := Text.toDigits_split (by decide) (by decide) rest
  obtain ⟨newStart, rest⟩ := Text.toDigits_split (by decide) (by decide) (List.cons.inj rest).2
  obtain ⟨newCount, -⟩ := @Text.toDigits_split _ _ _ _ "@@".toList "@@".toList (by decide) (by decide) rest
  cases header
  cases other
  simp_all

theorem header_plain (header : PatchHeader) : Text.Plain header.text := by
  have digits (n : Nat) {c : Char} (other : c.isDigit = false) : c ∉ Nat.toDigits 10 n :=
    fun member => by simpa [other] using Text.toDigits_isDigit n c member
  constructor <;> simp [PatchHeader.text, digits]

@[simp]
theorem sideOf_append (sign : Char) (first second : List Text) :
    sideOf sign (first ++ second) = sideOf sign first ++ sideOf sign second := by
  simp [sideOf]

theorem sideOf_signed (sign : Char) (lines : List Text) {mark : Char} (shown : mark = ' ' ∨ mark = sign) :
    sideOf sign (lines.map (mark :: ·)) = lines := by
  have all : ∀ line ∈ lines.map (mark :: ·), (decide (line.head? = some ' ' ∨ line.head? = some sign)) = true := by
    intro line member
    obtain ⟨rest, -, rfl⟩ := List.mem_map.mp member
    simpa using shown
  rw [sideOf, List.filter_eq_self.mpr all, List.map_map]
  exact List.map_id _

theorem sideOf_unsigned (sign : Char) (lines : List Text) {mark : Char} (blank : mark ≠ ' ') (other : mark ≠ sign) :
    sideOf sign (lines.map (mark :: ·)) = [] := by
  simp [sideOf, List.filter_map, Function.comp_def, blank, other]

theorem patch_read_back (plainOld : ∀ line ∈ Text.lines baseline, Text.Plain line)
    (plainNew : ∀ line ∈ Text.lines current, Text.Plain line) {hunk : Hunk}
    (plainDeleted : ∀ line ∈ (hunk.oldText.map Text.lines).getD [], Text.Plain line)
    (plainAdded : ∀ line ∈ Text.lines hunk.newText, Text.Plain line) :
    Text.lines (generateHunkPatch baseline current hunk) =
      (patchHeader (Text.lines baseline) (Text.lines current) hunk.lineInfo).text ::
        patchBody (Text.lines baseline) (Text.lines current) hunk := by
  have marked {mark : Char} {lines : List Text} (newline : mark ≠ '\n') (return' : mark ≠ '\r')
      (plain : ∀ line ∈ lines, Text.Plain line) : ∀ line ∈ lines.map (mark :: ·), Text.Plain line := by
    intro line member
    obtain ⟨rest, within, rfl⟩ := List.mem_map.mp member
    exact ⟨by simpa [Ne.symm newline] using (plain rest within).1, by simpa [Ne.symm return'] using (plain rest within).2⟩
  refine Text.lines_unlines fun line member => Text.Plain.unbroken ?_
  rcases List.mem_cons.mp member with rfl | within
  · exact header_plain _
  · simp only [patchBody, List.mem_append] at within
    rcases within with ((before | deleted) | added) | after
    · exact marked (by decide) (by decide)
        (fun line member => plainOld line (List.mem_of_mem_drop (List.mem_of_mem_take member))) line before
    · exact marked (by decide) (by decide) plainDeleted line deleted
    · exact marked (by decide) (by decide) plainAdded line added
    · exact marked (by decide) (by decide)
        (fun line member => plainNew line (List.mem_of_mem_drop (List.mem_of_mem_take member))) line after

theorem validFragment_iff (read : Text.lines patch = header.text :: body) :
    ValidFragment patch baseline current ↔
      SideValid '-' body baseline header.oldStart header.totalOldLines ∧
        SideValid '+' body current header.newStart header.totalNewLines := by
  constructor
  · rintro ⟨shown, body', read', old, new⟩
    obtain ⟨first, rfl⟩ := List.cons.inj (read.symm.trans read')
    obtain rfl := header_injective first
    exact ⟨old, new⟩
  · rintro ⟨old, new⟩
    exact ⟨header, body, read, old, new⟩

structure Placed (hunk : Hunk) (oldFront oldBack newFront newBack : List Text) (oldLines newLines : List Text) : Prop where
  oldStart : hunk.lineInfo.oldStart = oldFront.length + 1
  newStart : hunk.lineInfo.newStart = newFront.length + 1
  oldCount : hunk.lineInfo.oldCount = ((hunk.oldText.map Text.lines).getD []).length
  newCount : hunk.lineInfo.newCount = (Text.lines hunk.newText).length
  old : oldLines = oldFront ++ ((hunk.oldText.map Text.lines).getD [] ++ oldBack)
  new : newLines = newFront ++ (Text.lines hunk.newText ++ newBack)

variable {hunk : Hunk} {oldFront oldBack newFront newBack oldLines newLines : List Text}

theorem taken_behind (front back : List Text) (count : Nat) :
    (((front ++ back).drop front.length).take (min (front.length + count) (front ++ back).length - front.length)) = back.take count := by
  rw [List.drop_left, List.length_append]
  rcases Nat.le_total count back.length with short | long
  · congr 1
    omega
  · rw [List.take_of_length_le long, List.take_of_length_le (by omega)]

theorem Placed.oldBehind (placed : Placed hunk oldFront oldBack newFront newBack oldLines newLines) :
    oldLines.drop (hunk.lineInfo.oldStart - 1 + hunk.lineInfo.oldCount) = oldBack := by
  rw [placed.oldStart, placed.oldCount, placed.old, Nat.add_sub_cancel, ← List.drop_drop, List.drop_left, List.drop_left]

theorem Placed.newBehind (placed : Placed hunk oldFront oldBack newFront newBack oldLines newLines) :
    newLines.drop (hunk.lineInfo.newStart - 1 + hunk.lineInfo.newCount) = newBack := by
  rw [placed.newStart, placed.newCount, placed.new, Nat.add_sub_cancel, ← List.drop_drop, List.drop_left, List.drop_left]

theorem Placed.body_eq (placed : Placed hunk oldFront oldBack newFront newBack oldLines newLines) :
    patchBody oldLines newLines hunk =
      (oldFront.drop (oldFront.length - contextLines)).map (' ' :: ·) ++
        ((hunk.oldText.map Text.lines).getD []).map ('-' :: ·) ++ (Text.lines hunk.newText).map ('+' :: ·) ++
        (newBack.take contextLines).map (' ' :: ·) := by
  have before : (oldLines.drop (oldFront.length - contextLines)).take
      (oldFront.length - (oldFront.length - contextLines)) = oldFront.drop (oldFront.length - contextLines) := by
    rw [placed.old, List.drop_append_of_le_length (Nat.sub_le ..), List.take_append_of_le_length (by simp),
      List.take_of_length_le (by simp)]
  have after := taken_behind (newFront ++ Text.lines hunk.newText) newBack contextLines
  rw [List.length_append, List.append_assoc, ← placed.new] at after
  simp only [patchBody, placed.oldStart, placed.newStart, placed.newCount, Nat.add_sub_cancel, before, after]

theorem Placed.header_eq (placed : Placed hunk oldFront oldBack newFront newBack oldLines newLines) :
    patchHeader oldLines newLines hunk.lineInfo =
      { oldStart := oldFront.length - contextLines + 1
        totalOldLines := min contextLines oldFront.length + ((hunk.oldText.map Text.lines).getD []).length +
          (oldBack.take contextLines).length
        newStart := oldFront.length - contextLines + 1
        totalNewLines := min contextLines oldFront.length + (Text.lines hunk.newText).length +
          (newBack.take contextLines).length } := by
  have lengthOld := congrArg List.length placed.old
  have lengthNew := congrArg List.length placed.new
  simp only [List.length_append] at lengthOld lengthNew
  simp only [patchHeader, placed.oldStart, placed.newStart, placed.oldCount, placed.newCount, Nat.add_sub_cancel,
    PatchHeader.mk.injEq, List.length_take, true_and]
  refine ⟨?_, ?_⟩ <;> omega

theorem Placed.old_valid (placed : Placed hunk oldFront oldBack newFront newBack oldLines newLines)
    (lines : oldLines = Text.lines baseline) :
    SideValid '-' (patchBody oldLines newLines hunk) baseline (patchHeader oldLines newLines hunk.lineInfo).oldStart
        (patchHeader oldLines newLines hunk.lineInfo).totalOldLines ↔
      newBack.take contextLines = oldBack.take contextLines := by
  have side : sideOf '-' (patchBody oldLines newLines hunk) = oldFront.drop (oldFront.length - contextLines) ++
      ((hunk.oldText.map Text.lines).getD [] ++ newBack.take contextLines) := by
    rw [placed.body_eq, sideOf_append, sideOf_append, sideOf_append, sideOf_signed _ _ (.inl rfl),
      sideOf_signed _ _ (.inr rfl), sideOf_unsigned _ _ (by decide) (by decide), sideOf_signed _ _ (.inl rfl)]
    simp
  have shown : (oldLines.drop (oldFront.length - contextLines)).take (min contextLines oldFront.length +
      ((hunk.oldText.map Text.lines).getD []).length + (oldBack.take contextLines).length) =
        oldFront.drop (oldFront.length - contextLines) ++
          ((hunk.oldText.map Text.lines).getD [] ++ oldBack.take contextLines) := by
    have count : (oldFront.drop (oldFront.length - contextLines)).length = min contextLines oldFront.length := by
      rw [List.length_drop]
      omega
    rw [placed.old, List.drop_append_of_le_length (Nat.sub_le ..), ← count, Nat.add_assoc, List.take_length_add_append,
      List.take_length_add_append, List.length_take, ← List.take_take, List.take_length]
  rw [SideValid, side, placed.header_eq, ← lines, Nat.add_sub_cancel, shown, List.append_cancel_left_eq,
    List.append_cancel_left_eq]
  refine ⟨fun valid => valid.2, fun same => ⟨?_, same⟩⟩
  rw [same]
  simp only [List.length_append, List.length_drop]
  omega

theorem Placed.new_valid (placed : Placed hunk oldFront oldBack newFront newBack oldLines newLines)
    (lines : newLines = Text.lines current) :
    SideValid '+' (patchBody oldLines newLines hunk) current (patchHeader oldLines newLines hunk.lineInfo).newStart
        (patchHeader oldLines newLines hunk.lineInfo).totalNewLines ↔
      (newLines.drop (oldFront.length - contextLines)).take (min contextLines oldFront.length) =
          oldFront.drop (oldFront.length - contextLines) ∧
        (newLines.drop oldFront.length).take ((Text.lines hunk.newText).length + (newBack.take contextLines).length) =
          Text.lines hunk.newText ++ newBack.take contextLines := by
  have side : sideOf '+' (patchBody oldLines newLines hunk) = oldFront.drop (oldFront.length - contextLines) ++
      (Text.lines hunk.newText ++ newBack.take contextLines) := by
    rw [placed.body_eq, sideOf_append, sideOf_append, sideOf_append, sideOf_signed _ _ (.inl rfl),
      sideOf_unsigned _ _ (by decide) (by decide), sideOf_signed _ _ (.inr rfl), sideOf_signed _ _ (.inl rfl)]
    simp
  have count : (oldFront.drop (oldFront.length - contextLines)).length = min contextLines oldFront.length := by
    rw [List.length_drop]
    omega
  have later : oldFront.length - contextLines + min contextLines oldFront.length = oldFront.length := by omega
  have whole : (newLines.drop (oldFront.length - contextLines)).take (min contextLines oldFront.length +
      (Text.lines hunk.newText).length + (newBack.take contextLines).length) =
        (newLines.drop (oldFront.length - contextLines)).take (min contextLines oldFront.length) ++
          (newLines.drop oldFront.length).take ((Text.lines hunk.newText).length + (newBack.take contextLines).length) := by
    rw [Nat.add_assoc, List.take_add, List.drop_drop, later]
  rw [SideValid, side, placed.header_eq, ← lines, Nat.add_sub_cancel, whole]
  constructor
  · rintro ⟨-, same⟩
    have lengths := congrArg List.length same
    simp only [List.length_append, List.length_take, List.length_drop] at lengths
    obtain ⟨front, rest⟩ := List.append_inj same (by
      simp only [List.length_take, List.length_drop]
      omega)
    exact ⟨front.symm, rest.symm⟩
  · rintro ⟨front, rest⟩
    rw [front, rest]
    refine ⟨?_, rfl⟩
    rw [List.length_append, count, List.length_append]
    exact (Nat.add_assoc ..).symm

theorem Placed.aligned_iff (placed : Placed hunk oldFront oldBack newFront newBack oldLines newLines) :
    Aligned oldLines newLines hunk.lineInfo ↔
      newBack.take contextLines = oldBack.take contextLines ∧
        (newLines.drop (oldFront.length - contextLines)).take (min contextLines oldFront.length) =
          oldFront.drop (oldFront.length - contextLines) ∧
        (newLines.drop oldFront.length).take ((Text.lines hunk.newText).length + (newBack.take contextLines).length) =
          Text.lines hunk.newText ++ newBack.take contextLines := by
  have before : (oldLines.drop (oldFront.length - contextLines)).take (min contextLines oldFront.length) =
      oldFront.drop (oldFront.length - contextLines) := by
    rw [placed.old, List.drop_append_of_le_length (Nat.sub_le ..), List.take_append_of_le_length (by simp; omega),
      List.take_of_length_le (by simp; omega)]
  have own : (newLines.drop newFront.length).take ((Text.lines hunk.newText).length + (newBack.take contextLines).length) =
      Text.lines hunk.newText ++ newBack.take contextLines := by
    rw [placed.new, List.drop_left, List.take_length_add_append, List.length_take, ← List.take_take, List.take_length]
  constructor
  · rintro ⟨behind, front, unshifted⟩
    rw [placed.oldBehind, placed.newBehind] at behind
    rw [placed.oldStart, Nat.add_sub_cancel, before] at front
    simp only [placed.newBehind] at unshifted
    rw [placed.oldStart, placed.newStart, placed.newCount, Nat.add_sub_cancel, Nat.add_sub_cancel, own] at unshifted
    exact ⟨behind, front, unshifted⟩
  · rintro ⟨behind, front, unshifted⟩
    refine ⟨?_, ?_, ?_⟩
    · rw [placed.oldBehind, placed.newBehind]
      exact behind
    · rw [placed.oldStart, Nat.add_sub_cancel, before]
      exact front
    · simp only [placed.newBehind]
      rw [placed.oldStart, placed.newStart, placed.newCount, Nat.add_sub_cancel, Nat.add_sub_cancel, own]
      exact unshifted

end Validity

section Computed

variable {baseline current path : Text} {hunk : Hunk} {diff : LineDiff} {source : HunkSource} {nextId : HunkId}

theorem computed_block (member : hunk ∈ computeHunks diff nextId path baseline current source) :
    ∃ block ∈ diffBlocks diff baseline current, ∃ id, hunk = build id path source block := by
  by_cases diffed : Diffed diff baseline current
  · rw [computeHunks_diffed diffed, List.mem_mapIdx] at member
    obtain ⟨index, within, rfl⟩ := member
    exact ⟨_, List.getElem_mem within, _, rfl⟩
  · rw [computeHunks_undiffed diffed] at member
    cases member

theorem build_lines (leads : ScriptOf (diff.changes baseline current) baseline current) {block : Block Text}
    (listed : block ∈ diffBlocks diff baseline current) (id : HunkId) :
    ((build id path source block).oldText.map Text.lines).getD [] = block.oldLines.map stripTerminator ∧
      Text.lines (build id path source block).newText = block.newLines.map stripTerminator := by
  have within := LineEdit.group_lines _ block listed
  simp only [LineEdit.openOld, LineEdit.openNew, Option.elim_none, List.nil_append, leads.old, leads.new] at within
  constructor
  · by_cases none' : block.oldLines = []
    · simp [build, none']
    · simp only [build, if_neg none', Option.map_some, Option.getD_some]
      exact Text.lines_of_pieces (Text.pieces_part within.1 (Text.splitInclusive_pieces baseline))
  · exact Text.lines_of_pieces (Text.pieces_part within.2 (Text.splitInclusive_pieces current))

theorem build_placed (leads : ScriptOf (diff.changes baseline current) baseline current) {block : Block Text}
    (listed : block ∈ diffBlocks diff baseline current) (id : HunkId) :
    ∃ oldFront oldBack newFront newBack, Placed (build id path source block) oldFront oldBack newFront newBack
      (Text.lines baseline) (Text.lines current) := by
  have located := (LineEdit.located_script _ block listed).map stripTerminator
  rw [leads.old, leads.new] at located
  obtain ⟨⟨oldFront, oldBack, oldStart, old⟩, newFront, newBack, newStart, new⟩ := located
  obtain ⟨deleted, added⟩ := @build_lines _ _ path _ source leads _ listed id
  refine ⟨oldFront, oldBack, newFront, newBack, oldStart, newStart, ?_, ?_, ?_, ?_⟩
  · rw [deleted, List.length_map]
    rfl
  · rw [added, List.length_map]
    rfl
  · rw [deleted, ← List.append_assoc]
    exact old
  · rw [added, ← List.append_assoc]
    exact new

/--
The patch of a computed hunk is a valid fragment exactly when both files read the same in front of
the change and behind it, and the hunks before it shift no line that its new side shows.
-/
theorem hunk_patch_valid_iff (laws : diff.Lawful) (endsOld : Text.returnsEndLines baseline = true)
    (endsNew : Text.returnsEndLines current = true)
    (member : hunk ∈ computeHunks diff nextId path baseline current source) :
    ValidFragment (generateHunkPatch baseline current hunk) baseline current ↔
      Aligned (Text.lines baseline) (Text.lines current) hunk.lineInfo := by
  obtain ⟨block, listed, id, rfl⟩ := computed_block member
  have leads := laws.script endsOld endsNew
  obtain ⟨oldFront, oldBack, newFront, newBack, placed⟩ := @build_placed _ _ path _ source leads _ listed id
  have plainOld := Text.lines_plain endsOld
  have plainNew := Text.lines_plain endsNew
  have read := @patch_read_back _ _ plainOld plainNew (build id path source block)
    (fun line member => plainOld line (by rw [placed.old]; simp [member]))
    (fun line member => plainNew line (by rw [placed.new]; simp [member]))
  rw [validFragment_iff read, placed.old_valid rfl, placed.new_valid rfl, placed.aligned_iff]

theorem lone_change_valid :
    ValidFragment (generateHunkPatch "a\nb\nc\n".toList "a\nx\nc\n".toList
      ⟨0, ['f'], ⟨2, 1, 2, 1⟩, .external, some "b\n".toList, "x\n".toList⟩) "a\nb\nc\n".toList "a\nx\nc\n".toList :=
  (@hunk_patch_valid_iff _ _ ['f'] _ .plain .external 0 LineDiff.plain_lawful (by decide) (by decide)
    (by decide +kernel)).mpr ⟨by decide, by decide, by decide⟩

theorem near_change_shown :
    (⟨0, ['f'], ⟨1, 1, 1, 1⟩, .external, some "a\n".toList, "x\n".toList⟩ : Hunk) ∈
        computeHunks .plain 0 ['f'] "a\nb\nc\n".toList "x\nb\ny\n".toList .external ∧
      generateHunkPatch "a\nb\nc\n".toList "x\nb\ny\n".toList
          ⟨0, ['f'], ⟨1, 1, 1, 1⟩, .external, some "a\n".toList, "x\n".toList⟩ =
        "@@ -1,3 +1,3 @@\n-a\n+x\n b\n y\n".toList ∧
      ¬ ValidFragment "@@ -1,3 +1,3 @@\n-a\n+x\n b\n y\n".toList "a\nb\nc\n".toList "x\nb\ny\n".toList := by
  refine ⟨by decide +kernel, by decide +kernel, fun valid => ?_⟩
  have read : Text.lines "@@ -1,3 +1,3 @@\n-a\n+x\n b\n y\n".toList = PatchHeader.text ⟨1, 3, 1, 3⟩ ::
      ["-a".toList, "+x".toList, " b".toList, " y".toList] := by decide +kernel
  exact absurd ((validFragment_iff read).mp valid).1.2 (by decide +kernel)

end Computed

end GrokPi.HunkTracker
