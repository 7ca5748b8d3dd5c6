import Mathlib
import GrokPi.Shared.LineEdit
import GrokPi.Shared.TextLines

set_option autoImplicit false

namespace GrokPi.HunkTracker

open LineEdit (Change Block)

abbrev HunkId := Nat

structure HunkLineInfo where
  oldStart : Nat
  oldCount : Nat
  newStart : Nat
  newCount : Nat
  deriving DecidableEq

inductive HunkSource where
  | agentEdit (promptIndex : Nat)
  | externalEditOnAgentFile
  | external
  deriving DecidableEq

def HunkSource.isAgentEdit : HunkSource → Bool
  | .agentEdit _ => true
  | _ => false

def HunkSource.isExternal : HunkSource → Bool
  | .external | .externalEditOnAgentFile => true
  | .agentEdit _ => false

def HunkSource.promptIndex : HunkSource → Option Nat
  | .agentEdit promptIndex => some promptIndex
  | _ => none

structure Hunk where
  id : HunkId
  path : Text
  lineInfo : HunkLineInfo
  source : HunkSource
  oldText : Option Text
  newText : Text
  deriving DecidableEq

def Hunk.fileCreated (id : HunkId) (path content : Text) (source : HunkSource) : Hunk :=
  { id := id
    path := path
    lineInfo :=
      { oldStart := 0
        oldCount := 0
        newStart := 1
        newCount := max (Text.lines content).length 1 }
    source := source
    oldText := none
    newText := content }

def Hunk.fileDeleted (id : HunkId) (path content : Text) (source : HunkSource) : Hunk :=
  { id := id
    path := path
    lineInfo :=
      { oldStart := 1
        oldCount := max (Text.lines content).length 1
        newStart := 0
        newCount := 0 }
    source := source
    oldText := some content
    newText := [] }

def byteLen (text : Text) : Nat := (text.map Char.utf8Size).sum

def maxDiffFileSize : Nat := 1024 * 1024

/-- The line diff of the similar crate, and whether it took longer than the limit. -/
structure LineDiff where
  tokens : Text → List Text
  changes : Text → Text → List (Change Text)
  timedOut : Text → Text → Bool

/-- The changes are an edit script between the lines of the two texts. Line feeds end lines; what a
carriage return without one does is left open. -/
structure LineDiff.Lawful (diff : LineDiff) : Prop where
  oldSide : ∀ baseline current, LineEdit.oldSide (diff.changes baseline current) = diff.tokens baseline
  newSide : ∀ baseline current, LineEdit.newSide (diff.changes baseline current) = diff.tokens current
  tokens : ∀ text, Text.returnsEndLines text = true → diff.tokens text = Text.splitInclusive '\n' text

-- The simplest lawful diff: lines are compared place by place.
def lineByLine : List Text → List Text → List (Change Text)
  | old :: olds, new :: news =>
      if old = new then .equal old :: lineByLine olds news
      else .delete old :: .insert new :: lineByLine olds news
  | olds, [] => olds.map .delete
  | [], news => news.map .insert

theorem lineByLine_sides (olds news : List Text) :
    LineEdit.oldSide (lineByLine olds news) = olds ∧ LineEdit.newSide (lineByLine olds news) = news := by
  induction olds generalizing news with
  | nil => cases news <;> simp [lineByLine, LineEdit.oldSide, LineEdit.newSide]
  | cons old olds ih =>
      cases news with
      | nil => simp [lineByLine, LineEdit.oldSide, LineEdit.newSide]
      | cons new news =>
          by_cases same : old = new
          · simpa [lineByLine, same, LineEdit.oldSide, LineEdit.newSide] using ih news
          · simpa [lineByLine, same, LineEdit.oldSide, LineEdit.newSide] using ih news

def LineDiff.plain : LineDiff :=
  { tokens := Text.splitInclusive '\n'
    changes := fun baseline current =>
      lineByLine (Text.splitInclusive '\n' baseline) (Text.splitInclusive '\n' current)
    timedOut := fun _ _ => false }

theorem LineDiff.plain_lawful : LineDiff.plain.Lawful :=
  ⟨fun _ _ => (lineByLine_sides _ _).1, fun _ _ => (lineByLine_sides _ _).2, fun _ _ => rfl⟩

def build (id : HunkId) (path : Text) (source : HunkSource) (block : Block Text) : Hunk :=
  { id := id
    path := path
    lineInfo :=
      { oldStart := block.oldStart
        oldCount := block.oldLines.length
        newStart := block.newStart
        newCount := block.newLines.length }
    source := source
    oldText := if block.oldLines = [] then none else some block.oldLines.flatten
    newText := block.newLines.flatten }

def computeHunks (diff : LineDiff) (nextId : HunkId) (path baseline current : Text)
    (source : HunkSource) : List Hunk :=
  if baseline = current then []
  else if byteLen baseline > maxDiffFileSize ∨ byteLen current > maxDiffFileSize then []
  else if diff.timedOut baseline current then []
  else
    (LineEdit.group 1 1 none (diff.changes baseline current)).mapIdx fun index block =>
      build (nextId + index) path source block

def patchLines (content : Text) (startLine removeCount : Nat) (insertText : Text) : Text :=
  let lines := Text.lines content
  let startIdx := startLine - 1
  let inserted := if insertText = [] then [] else Text.lines insertText
  let result := lines.take (min startIdx lines.length) ++ inserted ++
    lines.drop (min (startIdx + removeCount) lines.length)
  let output := Text.joinLines result
  if Text.EndsInLine content ∧ output ≠ [] then output ++ ['\n'] else output

def hunksMatchContent (a b : Hunk) : Bool :=
  a.path = b.path && a.oldText = b.oldText && a.newText = b.newText

def hunkMoved (old new : Hunk) : Bool := hunksMatchContent old new && old.lineInfo ≠ new.lineInfo

def hunksOverlap (a b : Hunk) : Bool :=
  if a.path ≠ b.path then false
  else
    let aStart := a.lineInfo.oldStart
    let aEnd := a.lineInfo.oldStart + a.lineInfo.oldCount
    let bStart := b.lineInfo.oldStart
    let bEnd := b.lineInfo.oldStart + b.lineInfo.oldCount
    if a.lineInfo.oldCount = 0 ∧ b.lineInfo.oldCount = 0 then aStart == bStart
    else if a.lineInfo.oldCount = 0 then aStart ≥ bStart && aStart ≤ bEnd
    else if b.lineInfo.oldCount = 0 then bStart ≥ aStart && bStart ≤ aEnd
    -- Touching hunks overlap.
    else !(aEnd < bStart || bEnd < aStart)

def calculateOverlapSize (a b : HunkLineInfo) : Nat :=
  min (a.oldStart + a.oldCount) (b.oldStart + b.oldCount) - max a.oldStart b.oldStart

def minByKey (key : Hunk → Nat) : List Hunk → Option Hunk
  | [] => none
  | first :: rest => some (rest.foldl (fun best h => if key h < key best then h else best) first)

def maxByKey (key : Hunk → Nat) : List Hunk → Option Hunk
  | [] => none
  | first :: rest => some (rest.foldl (fun best h => if key best ≤ key h then h else best) first)

def absDiff (a b : Nat) : Nat := (a - b) + (b - a)

def findMatchingOldHunk (newHunk : Hunk) (oldHunks : List Hunk) : Option Hunk :=
  let contentMatches := oldHunks.filter (hunksMatchContent · newHunk)
  if contentMatches ≠ [] then
    minByKey (fun o => absDiff o.lineInfo.newStart newHunk.lineInfo.newStart) contentMatches
  else
    maxByKey (fun o => calculateOverlapSize o.lineInfo newHunk.lineInfo)
      (oldHunks.filter (hunksOverlap · newHunk))

section Matching

theorem foldl_choice_mem (choose : Hunk → Hunk → Hunk) (either : ∀ best h, choose best h = best ∨ choose best h = h)
    (first : Hunk) (rest : List Hunk) : rest.foldl choose first ∈ first :: rest := by
  induction rest generalizing first with
  | nil => simp
  | cons second rest ih =>
      have chosen := ih (choose first second)
      rcases either first second with same | same
      all_goals
        rw [same] at chosen
        simp only [List.foldl_cons, same, List.mem_cons] at chosen ⊢
        grind

theorem minByKey_mem {key : Hunk → Nat} {hunks : List Hunk} {best : Hunk}
    (found : minByKey key hunks = some best) : best ∈ hunks := by
  cases hunks with
  | nil => simp [minByKey] at found
  | cons first rest =>
      have member := foldl_choice_mem (fun best h => if key h < key best then h else best)
        (fun best h => by grind) first rest
      rwa [Option.some.inj found] at member

theorem maxByKey_mem {key : Hunk → Nat} {hunks : List Hunk} {best : Hunk}
    (found : maxByKey key hunks = some best) : best ∈ hunks := by
  cases hunks with
  | nil => simp [maxByKey] at found
  | cons first rest =>
      have member := foldl_choice_mem (fun best h => if key best ≤ key h then h else best)
        (fun best h => by grind) first rest
      rwa [Option.some.inj found] at member

theorem findMatchingOldHunk_mem {newHunk best : Hunk} {oldHunks : List Hunk}
    (found : findMatchingOldHunk newHunk oldHunks = some best) : best ∈ oldHunks := by
  simp only [findMatchingOldHunk] at found
  split at found
  · exact List.mem_of_mem_filter (minByKey_mem found)
  · exact List.mem_of_mem_filter (maxByKey_mem found)

def Hunk.texts (hunk : Hunk) : Option Text × Text := (hunk.oldText, hunk.newText)

theorem hunksMatchContent_iff (a b : Hunk) :
    hunksMatchContent a b = true ↔ a.path = b.path ∧ a.texts = b.texts := by
  simp [hunksMatchContent, Hunk.texts, and_assoc]

-- With distinct contents the match by content is the only one.
theorem findMatchingOldHunk_texts {newHunk old : Hunk} {oldHunks : List Hunk} (member : old ∈ oldHunks)
    (distinct : (oldHunks.map Hunk.texts).Nodup) (path : old.path = newHunk.path)
    (texts : old.texts = newHunk.texts) : findMatchingOldHunk newHunk oldHunks = some old := by
  have matching : old ∈ oldHunks.filter (hunksMatchContent · newHunk) :=
    List.mem_filter.mpr ⟨member, (hunksMatchContent_iff old newHunk).mpr ⟨path, texts⟩⟩
  simp only [findMatchingOldHunk]
  rw [if_pos (List.ne_nil_of_mem matching)]
  cases chosen : minByKey (fun o => absDiff o.lineInfo.newStart newHunk.lineInfo.newStart)
      (oldHunks.filter (hunksMatchContent · newHunk)) with
  | none =>
      cases some' : oldHunks.filter (hunksMatchContent · newHunk) with
      | nil => simp [some'] at matching
      | cons first rest => simp [some', minByKey] at chosen
  | some best =>
      have within := List.mem_filter.mp (minByKey_mem chosen)
      have same := ((hunksMatchContent_iff best newHunk).mp within.2).2
      exact congrArg some (List.inj_on_of_nodup_map distinct within.1 member (same.trans texts.symm))

theorem computeHunks_cases (diff : LineDiff) (nextId : HunkId) (path baseline current : Text)
    (source : HunkSource) :
    computeHunks diff nextId path baseline current source = [] ∨
      computeHunks diff nextId path baseline current source =
        (LineEdit.group 1 1 none (diff.changes baseline current)).mapIdx fun index block =>
          build (nextId + index) path source block := by
  grind [computeHunks]

theorem computeHunks_ids (diff : LineDiff) (nextId : HunkId) (path baseline current : Text)
    (source : HunkSource) :
    (computeHunks diff nextId path baseline current source).map Hunk.id =
      List.range' nextId (computeHunks diff nextId path baseline current source).length := by
  rcases computeHunks_cases diff nextId path baseline current source with none' | blocks
  · simp [none']
  · rw [blocks]
    apply List.ext_getElem
    · simp
    · intro index _ _
      simp [build]

theorem computeHunks_mem {diff : LineDiff} {nextId : HunkId} {path baseline current : Text}
    {source : HunkSource} {hunk : Hunk}
    (member : hunk ∈ computeHunks diff nextId path baseline current source) :
    hunk.path = path ∧ hunk.source = source := by
  rcases computeHunks_cases diff nextId path baseline current source with none' | blocks
  · simp [none'] at member
  · rw [blocks] at member
    obtain ⟨index, within, rfl⟩ := List.mem_mapIdx.mp member
    exact ⟨rfl, rfl⟩

end Matching

section Patching

theorem patchLines_eq (content : Text) (startLine removeCount : Nat) (insertText : Text) :
    patchLines content startLine removeCount insertText =
      let output := Text.joinLines (LineEdit.splice (Text.lines content) (startLine - 1) removeCount
        (Text.lines insertText))
      if Text.EndsInLine content ∧ output ≠ [] then output ++ ['\n'] else output := by
  -- A patch is a splice of the lines, joined again.
  have inserted : (if insertText = [] then [] else Text.lines insertText) = Text.lines insertText := by
    split
    next empty => rw [empty]; rfl
    · rfl
  have taken : ∀ (parts : List Text) (count : Nat), parts.take (min count parts.length) = parts.take count := by
    intro parts count
    rw [List.take_eq_take_iff]
    omega
  have dropped : ∀ (parts : List Text) (count : Nat), parts.drop (min count parts.length) = parts.drop count := by
    intro parts count
    rcases Nat.le_total count parts.length with short | long
    · rw [min_eq_left short]
    · rw [min_eq_right long, List.drop_eq_nil_of_le long, List.drop_length]
  unfold patchLines LineEdit.splice
  simp only [inserted, taken, dropped]

end Patching

end GrokPi.HunkTracker
