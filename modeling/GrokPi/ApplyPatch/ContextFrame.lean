import GrokPi.ApplyPatch.Disjoint

set_option autoImplicit false

namespace GrokPi.ApplyPatch

open LineEdit (Change oldSide newSide)
open Substitution (listed listedAt kept)

variable {lines : List Text} {path : Text} {chunk : UpdateFileChunk} {replacement : Replacement}

def originalLines (originalContent : Text) : List Text :=
  let split := originalContent.splitOn '\n'
  if split.getLast? = some [] then split.dropLast else split

/-- What becomes of a block of lines that a script was matched with: a context line is written as the
patch has it, and only removed lines have no line in the result. -/
inductive Carried (key : Text → Text) : List (Change Text) → List Text → List Text → Prop
  | nil : Carried key [] [] []
  | context {script : List (Change Text)} {block result : List Text} {line written : Text}
      (agree : key line = key written) (rest : Carried key script block result) :
      Carried key (.equal written :: script) (line :: block) (written :: result)
  | removed {script : List (Change Text)} {block result : List Text} {line old : Text}
      (agree : key line = key old) (rest : Carried key script block result) :
      Carried key (.delete old :: script) (line :: block) result
  | added {script : List (Change Text)} {block result : List Text} (new : Text)
      (rest : Carried key script block result) : Carried key (.insert new :: script) block (new :: result)

def blockOf (lines : List Text) (replacement : Replacement) : List Text :=
  (lines.drop replacement.start).take replacement.oldLen

structure TakenBy (lines : List Text) (replacement : Replacement) (chunk : UpdateFileChunk) : Prop where
  found : ∃ comparison : Comparison, ∃ oldLines : List Text,
    (oldLines = chunk.oldLines ∧ replacement.newLines = chunk.newLines ∨
      chunk.oldLines = oldLines ++ [[]] ∧ (replacement.newLines = chunk.newLines ∨
        chunk.newLines = replacement.newLines ++ [[]])) ∧
    (blockOf lines replacement).map comparison.key = oldLines.map comparison.key ∧
    (comparison = .exact → blockOf lines replacement = oldLines) ∧
    ∀ script, oldSide script = oldLines → newSide script = replacement.newLines →
      Carried comparison.key script (blockOf lines replacement) replacement.newLines

/-- What a chunk gives: its new lines in the place of the block it was matched with, or where lines are added. -/
structure GivenBy (lines : List Text) (chunk : UpdateFileChunk) (replacement : Replacement) : Prop where
  newLines : replacement.newLines = chunk.newLines ∨ chunk.newLines = replacement.newLines ++ [[]]
  added : chunk.oldLines = [] → replacement.start = insertionIdx lines ∧ replacement.oldLen = 0
  taken : 0 < replacement.oldLen → TakenBy lines replacement chunk

structure Framed (lines : List Text) (chunks : List UpdateFileChunk) (newLines : List Text)
    (replacements : List Replacement) : Prop where
  made : newLines = listed lines (replacements.map Replacement.edit)
  outside : ((List.range' 0 (lines.length + 1)).flatMap (kept lines (replacements.map Replacement.edit))).Sublist
    newLines
  given : ∃ placed, replacements.Perm placed ∧ List.Forall₂ (GivenBy lines) chunks placed

end GrokPi.ApplyPatch
