import GrokPi.Shared.LineEdit
import GrokPi.Shared.TextLines

set_option autoImplicit false

namespace GrokPi.ApplyPatch

structure UpdateFileChunk where
  changeContext : Option Text
  oldLines : List Text
  newLines : List Text
  isEndOfFile : Bool
  deriving DecidableEq

section SeekSequence

-- Typographic dashes, quotes and spaces become their ASCII characters.
def normaliseChar (c : Char) : Char :=
  let n := c.toNat
  if (0x2010 ≤ n ∧ n ≤ 0x2015) ∨ n = 0x2212 then '-'
  else if 0x2018 ≤ n ∧ n ≤ 0x201B then Char.ofNat 0x27
  else if 0x201C ≤ n ∧ n ≤ 0x201F then Char.ofNat 0x22
  else if n = 0xA0 ∨ (0x2002 ≤ n ∧ n ≤ 0x200A) ∨ n = 0x202F ∨ n = 0x205F ∨ n = 0x3000 then ' '
  else c

def normalise (line : Text) : Text := line.trim.map normaliseChar

def windowMatches (compared : Text → Text) (lines pattern : List Text) (start : Nat) : Bool :=
  ((lines.drop start).take pattern.length).map compared == pattern.map compared

def seekPass (compared : Text → Text) (lines pattern : List Text) (searchStart : Nat) : Option Nat :=
  (List.range' searchStart (lines.length - pattern.length + 1 - searchStart)).find?
    (windowMatches compared lines pattern)

def seekSequence (lines pattern : List Text) (start : Nat) (eof : Bool) : Option Nat :=
  if pattern = [] then some start
  else if pattern.length > lines.length then none
  else
    let searchStart := if eof then lines.length - pattern.length else start
    (seekPass id lines pattern searchStart).or
      ((seekPass Text.trimEnd lines pattern searchStart).or
        ((seekPass Text.trim lines pattern searchStart).or (seekPass normalise lines pattern searchStart)))

end SeekSequence

section Replacements

structure Replacement where
  start : Nat
  oldLen : Nat
  newLines : List Text
  deriving DecidableEq

def insertionIdx (lines : List Text) : Nat :=
  if lines.getLast? = some [] then lines.length - 1 else lines.length

def findOldLines (lines : List Text) (chunk : UpdateFileChunk) (lineIndex : Nat) : Option Replacement :=
  match seekSequence lines chunk.oldLines lineIndex chunk.isEndOfFile with
  | some start =>
      some
        { start := start
          oldLen := chunk.oldLines.length
          newLines := chunk.newLines }
  | none =>
      if chunk.oldLines.getLast? = some [] then
        let pattern := chunk.oldLines.dropLast
        (seekSequence lines pattern lineIndex chunk.isEndOfFile).map fun start =>
          { start := start
            oldLen := pattern.length
            newLines := if chunk.newLines.getLast? = some [] then chunk.newLines.dropLast else chunk.newLines }
      else none

def seekContext (lines : List Text) (path : Text) (chunk : UpdateFileChunk) (lineIndex : Nat) :
    Except Text Nat :=
  match chunk.changeContext with
  | none => .ok lineIndex
  | some context =>
      match seekSequence lines [context] lineIndex false with
      | some idx => .ok (idx + 1)
      | none =>
          .error ("Failed to find context '".toList ++ context ++ "' in ".toList ++ path)

def replacementsFrom (lines : List Text) (path : Text) :
    Nat → List UpdateFileChunk → Except Text (List Replacement)
  | _, [] => .ok []
  | lineIndex, chunk :: rest =>
      match seekContext lines path chunk lineIndex with
      | .error message => .error message
      | .ok lineIndex =>
          if chunk.oldLines = [] then
            (replacementsFrom lines path lineIndex rest).map fun others =>
              { start := insertionIdx lines
                oldLen := 0
                newLines := chunk.newLines } :: others
          else
            match findOldLines lines chunk lineIndex with
            | none =>
                .error ("Failed to find expected lines in ".toList ++ path ++ ":\n".toList ++
                  Text.joinLines chunk.oldLines)
            | some found =>
                (replacementsFrom lines path (found.start + found.oldLen) rest).map (found :: ·)

def computeReplacements (lines : List Text) (path : Text) (chunks : List UpdateFileChunk) :
    Except Text (List Replacement) :=
  (replacementsFrom lines path 0 chunks).map fun replacements =>
    replacements.mergeSort fun a b => a.start ≤ b.start

def applyReplacements (lines : List Text) (replacements : List Replacement) : List Text :=
  replacements.foldr
    (fun replacement lines =>
      LineEdit.splice lines replacement.start replacement.oldLen replacement.newLines)
    lines

def deriveNewContents (originalContent path : Text) (chunks : List UpdateFileChunk) : Except Text Text :=
  let split := originalContent.splitOn '\n'
  let originalLines := if split.getLast? = some [] then split.dropLast else split
  (computeReplacements originalLines path chunks).map fun replacements =>
    let newLines := applyReplacements originalLines replacements
    Text.joinLines (if newLines.getLast? = some [] then newLines else newLines ++ [[]])

end Replacements

end GrokPi.ApplyPatch
