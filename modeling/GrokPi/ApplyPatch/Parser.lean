import GrokPi.ApplyPatch.Tool

set_option autoImplicit false

namespace GrokPi.ApplyPatch

section Markers

def beginPatchMarker : Text := "*** Begin Patch".toList

def endPatchMarker : Text := "*** End Patch".toList

def addFileMarker : Text := "*** Add File: ".toList

def deleteFileMarker : Text := "*** Delete File: ".toList

def updateFileMarker : Text := "*** Update File: ".toList

def moveToMarker : Text := "*** Move to: ".toList

def eofMarker : Text := "*** End of File".toList

def changeContextMarker : Text := "@@ ".toList

def emptyChangeContextMarker : Text := "@@".toList

def stripMarker (marker line : Text) : Option Text :=
  if marker <+: line then some (line.drop marker.length) else none

end Markers

inductive ParseError where
  | invalidPatch (message : Text)
  | invalidHunk (message : Text) (lineNumber : Nat)
  deriving DecidableEq

structure ParsedPatch where
  hunks : List Hunk
  patch : Text
  deriving DecidableEq

inductive ParseMode where
  | strict
  | lenient
  deriving DecidableEq

section Boundaries

def checkStartAndEndLinesStrict (firstLine lastLine : Option Text) : Except ParseError Unit :=
  match firstLine.map Text.trim, lastLine.map Text.trim with
  | some first, some last =>
      if first = beginPatchMarker ∧ last = endPatchMarker then .ok ()
      else if first ≠ beginPatchMarker then
        .error (.invalidPatch "The first line of the patch must be '*** Begin Patch'".toList)
      else .error (.invalidPatch "The last line of the patch must be '*** End Patch'".toList)
  | some first, none =>
      if first ≠ beginPatchMarker then
        .error (.invalidPatch "The first line of the patch must be '*** Begin Patch'".toList)
      else .error (.invalidPatch "The last line of the patch must be '*** End Patch'".toList)
  | none, _ => .error (.invalidPatch "The last line of the patch must be '*** End Patch'".toList)

def checkPatchBoundariesStrict (lines : List Text) : Except ParseError Unit :=
  checkStartAndEndLinesStrict lines.head? lines.getLast?

def heredocOpenings : List Text := ["<<EOF".toList, "<<'EOF'".toList, "<<\"EOF\"".toList]

def heredocClosing : Text := "EOF".toList

-- One line is both first and last for the strict check, and never a heredoc.
def checkPatchBoundariesLenient (originalLines : List Text) (originalParseError : ParseError) :
    Except ParseError (List Text) :=
  match originalLines.head?, originalLines.getLast? with
  | some first, some last =>
      if first ∈ heredocOpenings ∧ heredocClosing <:+ last ∧ originalLines.length ≥ 4 then
        let innerLines := originalLines.tail.dropLast
        match checkPatchBoundariesStrict innerLines with
        | .ok () => .ok innerLines
        | .error e => .error e
      else .error originalParseError
  | _, _ => .error originalParseError

end Boundaries

section Chunks

def parseChunkLines (lineNumber : Nat) : UpdateFileChunk → Nat → List Text →
    Except ParseError (UpdateFileChunk × Nat)
  | chunk, parsedLines, [] => .ok (chunk, parsedLines)
  | chunk, parsedLines, line :: rest =>
      if line = eofMarker then
        if parsedLines = 0 then
          .error (.invalidHunk "Update hunk does not contain any lines".toList (lineNumber + 1))
        else .ok ({ chunk with isEndOfFile := true }, parsedLines + 1)
      else
        match line with
        -- An empty line is read as a line of context.
        | [] =>
            parseChunkLines lineNumber
              { chunk with
                oldLines := chunk.oldLines ++ [[]]
                newLines := chunk.newLines ++ [[]] } (parsedLines + 1) rest
        | mark :: content =>
            if mark = ' ' then
              parseChunkLines lineNumber
                { chunk with
                  oldLines := chunk.oldLines ++ [content]
                  newLines := chunk.newLines ++ [content] } (parsedLines + 1) rest
            else if mark = '+' then
              parseChunkLines lineNumber { chunk with newLines := chunk.newLines ++ [content] }
                (parsedLines + 1) rest
            else if mark = '-' then
              parseChunkLines lineNumber { chunk with oldLines := chunk.oldLines ++ [content] }
                (parsedLines + 1) rest
            else if parsedLines = 0 then
              .error (.invalidHunk
                ("Unexpected line found in update hunk: '".toList ++ line ++
                  "'. Every line should start with ' ' (context line), ".toList ++
                  "'+' (added line), or '-' (removed line)".toList) (lineNumber + 1))
            -- Taken for the start of what comes next.
            else .ok (chunk, parsedLines)

def parseChangeContext (first : Text) (lineNumber : Nat) (allowMissingContext : Bool) :
    Except ParseError (Option Text × Nat) :=
  if first = emptyChangeContextMarker then .ok (none, 1)
  else
    match stripMarker changeContextMarker first with
    | some context => .ok (some context, 1)
    | none =>
        if allowMissingContext then .ok (none, 0)
        else
          .error (.invalidHunk
            ("Expected update hunk to start with a @@ context marker, got: '".toList ++ first ++ "'".toList)
            lineNumber)

def parseUpdateFileChunk (lines : List Text) (lineNumber : Nat) (allowMissingContext : Bool) :
    Except ParseError (UpdateFileChunk × Nat) :=
  match lines with
  | [] => .error (.invalidHunk "Update hunk does not contain any lines".toList lineNumber)
  | first :: _ =>
      match parseChangeContext first lineNumber allowMissingContext with
      | .error e => .error e
      | .ok (changeContext, startIndex) =>
          if startIndex ≥ lines.length then
            .error (.invalidHunk "Update hunk does not contain any lines".toList (lineNumber + 1))
          else
            match parseChunkLines lineNumber ⟨changeContext, [], [], false⟩ 0 (lines.drop startIndex) with
            | .error e => .error e
            | .ok (chunk, parsedLines) => .ok (chunk, parsedLines + startIndex)

def parseChunks (lineNumber : Nat) : Nat → List Text → Nat → List UpdateFileChunk →
    Except ParseError (List UpdateFileChunk × Nat)
  | 0, _, parsedLines, chunks => .ok (chunks, parsedLines)
  | _ + 1, [], parsedLines, chunks => .ok (chunks, parsedLines)
  | rounds + 1, line :: rest, parsedLines, chunks =>
      -- Blank lines between chunks are skipped.
      if line.trim = [] then parseChunks lineNumber rounds rest (parsedLines + 1) chunks
      -- The next hunk begins.
      else if "***".toList <+: line then .ok (chunks, parsedLines)
      else
        match parseUpdateFileChunk (line :: rest) (lineNumber + parsedLines) chunks.isEmpty with
        | .error e => .error e
        | .ok (chunk, chunkLines) =>
            parseChunks lineNumber rounds ((line :: rest).drop chunkLines) (parsedLines + chunkLines)
              (chunks ++ [chunk])

end Chunks

section Hunks

def parseAddFile (path : Text) (rest : List Text) : Hunk × Nat :=
  let added := rest.takeWhile fun line => "+".toList <+: line
  (.addFile path (Text.unlines (added.map List.tail)), 1 + added.length)

def parseUpdateFile (path : Text) (rest : List Text) (lineNumber : Nat) : Except ParseError (Hunk × Nat) :=
  let movePath := rest.head?.bind (stripMarker moveToMarker)
  let remainingLines := if movePath.isSome then rest.tail else rest
  let parsedLines := if movePath.isSome then 2 else 1
  match parseChunks lineNumber remainingLines.length remainingLines parsedLines [] with
  | .error e => .error e
  | .ok (chunks, parsedLines) =>
      if chunks = [] then
        .error (.invalidHunk
          ("Update file hunk for path '".toList ++ path ++ "' is empty".toList) lineNumber)
      else .ok (.updateFile path movePath chunks, parsedLines)

def parseOneHunk (line : Text) (rest : List Text) (lineNumber : Nat) : Except ParseError (Hunk × Nat) :=
  let firstLine := line.trim
  match stripMarker addFileMarker firstLine with
  | some path => .ok (parseAddFile path rest)
  | none =>
      match stripMarker deleteFileMarker firstLine with
      | some path => .ok (.deleteFile path, 1)
      | none =>
          match stripMarker updateFileMarker firstLine with
          | some path => parseUpdateFile path rest lineNumber
          | none =>
              .error (.invalidHunk
                ("'".toList ++ firstLine ++
                  "' is not a valid hunk header. Valid hunk headers: ".toList ++
                  "'*** Add File: \x7bpath\x7d', '*** Delete File: \x7bpath\x7d', ".toList ++
                  "'*** Update File: \x7bpath\x7d'".toList) lineNumber)

def parseHunks : Nat → List Text → Nat → List Hunk → Except ParseError (List Hunk)
  | 0, _, _, hunks => .ok hunks
  | _ + 1, [], _, hunks => .ok hunks
  | rounds + 1, line :: rest, lineNumber, hunks =>
      match parseOneHunk line rest lineNumber with
      | .error e => .error e
      | .ok (hunk, hunkLines) =>
          parseHunks rounds ((line :: rest).drop hunkLines) (lineNumber + hunkLines) (hunks ++ [hunk])

end Hunks

section Patches

def patchLines (lines : List Text) (mode : ParseMode) : Except ParseError (List Text) :=
  match checkPatchBoundariesStrict lines, mode with
  | .ok (), _ => .ok lines
  | .error e, .strict => .error e
  | .error e, .lenient => checkPatchBoundariesLenient lines e

def parsePatchText (patch : Text) (mode : ParseMode) : Except ParseError ParsedPatch :=
  match patchLines (Text.lines patch.trim) mode with
  | .error e => .error e
  | .ok lines =>
      let remainingLines := lines.tail.dropLast
      match parseHunks remainingLines.length remainingLines 2 [] with
      | .error e => .error e
      | .ok hunks => .ok ⟨hunks, Text.joinLines lines⟩

def parseInStrictMode : Bool := false

def parsePatch (patch : Text) : Except ParseError ParsedPatch :=
  parsePatchText patch (if parseInStrictMode then .strict else .lenient)

end Patches

end GrokPi.ApplyPatch
