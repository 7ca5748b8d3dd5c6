import GrokPi.ApplyPatch.Apply
import GrokPi.Shared.Overwrites
import GrokPi.Shared.PathText
import GrokPi.Shared.Utf8

set_option autoImplicit false

namespace GrokPi.ApplyPatch

inductive Hunk where
  | addFile (path contents : Text)
  | deleteFile (path : Text)
  | updateFile (path : Text) (movePath : Option Text) (chunks : List UpdateFileChunk)
  deriving DecidableEq

inductive FileChange where
  | add (path content : Text)
  | delete (path originalContent : Text)
  | update (path originalContent newContent : Text)
  | move (sourcePath destPath originalContent newContent : Text)
  deriving DecidableEq

structure FileWritten where
  absolutePath : Text
  content : Text
  previousContent : Option Text
  isNewFile : Bool
  deriving DecidableEq

structure ApplyPatchFileResult where
  path : Text
  action : Text
  oldText : Option Text
  newText : Text
  moveTo : Option Text
  deriving DecidableEq

inductive ApplyPatchOutput where
  | emptyPatch (message : Text)
  | applicationError (message : Text)
  | success (files : List ApplyPatchFileResult) (toolOutputForPrompt : Text)
  deriving DecidableEq

-- An output that says why, or an error of the tool itself.
inductive Failure where
  | application (message : Text)
  | execution (message : Text)
  deriving DecidableEq

abbrev Files : Type := Text → Option (List UInt8)

structure Host where
  locate : Text → Text
  ioError : Text → Text
  canRead : Text → Bool
  -- With the parent directories.
  canWrite : Files → Text → Bool
  canDelete : Files → Text → Bool
  validateMemoryRead : Text → Except Text Bool
  preflightMemoryWrite : Text → List UInt8 → Except Text Bool
  -- Whether the policy has written the file.
  writeMemoryFile : Files → Text → List UInt8 → Except Text Bool

def Host.plain : Host :=
  { locate := id
    ioError := fun _ => "No such file or directory (os error 2)".toList
    canRead := fun _ => true
    canWrite := fun _ _ => true
    canDelete := fun _ _ => true
    validateMemoryRead := fun _ => .ok false
    preflightMemoryWrite := fun _ _ => .ok false
    writeMemoryFile := fun _ _ _ => .ok false }

section ComputeChanges

def readFileAsString (host : Host) (files : Files) (path : Text) : Except Text Text :=
  match files (host.locate path) with
  | none => .error (host.ioError path)
  | some bytes =>
      if host.canRead path then .ok (Text.fromUtf8Lossy bytes) else .error (host.ioError path)

def computeChange (host : Host) (cwd : Text) (files : Files) : Hunk → Except Text FileChange
  | .addFile path contents => .ok (.add (PathText.join cwd path) contents)
  | .deleteFile path =>
      let resolved := PathText.join cwd path
      match readFileAsString host files resolved with
      | .error e => .error ("Failed to read file: ".toList ++ resolved ++ ", ".toList ++ e)
      | .ok originalContent => .ok (.delete resolved originalContent)
  | .updateFile path movePath chunks =>
      let resolved := PathText.join cwd path
      match readFileAsString host files resolved with
      | .error e => .error ("Failed to read file to update: ".toList ++ resolved ++ ", ".toList ++ e)
      | .ok originalContent =>
          (deriveNewContents originalContent resolved chunks).map fun newContent =>
            match movePath with
            | some dest => .move resolved (PathText.join cwd dest) originalContent newContent
            | none => .update resolved originalContent newContent

def computeAllChanges (host : Host) (cwd : Text) (files : Files) (hunks : List Hunk) :
    Except Text (List FileChange) :=
  hunks.mapM (computeChange host cwd files)

end ComputeChanges

section Preflight

def rejectMemoryV2DestructivePath (host : Host) (path : Text) : Except Text Unit :=
  match host.validateMemoryRead path with
  | .error message => .error message
  | .ok false => .ok ()
  | .ok true =>
      .error (path ++ (" is inside a memory directory; apply_patch cannot delete or move memory files. " ++
        "Use the memory workflow instead: edit topic files in place or manage memories with the " ++
        "memory tools.").toList)

def preflightChange (host : Host) : FileChange → Except Text Unit
  | .add path content | .update path _ content =>
      (host.preflightMemoryWrite path (Text.asBytes content)).map fun _ => ()
  | .delete path _ => rejectMemoryV2DestructivePath host path
  | .move sourcePath destPath _ _ =>
      (rejectMemoryV2DestructivePath host sourcePath).bind fun _ =>
        rejectMemoryV2DestructivePath host destPath

def preflightMemoryV2Changes (host : Host) : List FileChange → Except Text Unit
  | [] => .ok ()
  | change :: rest => (preflightChange host change).bind fun _ => preflightMemoryV2Changes host rest

end Preflight

section ApplyChanges

def writeFile (host : Host) (files : Files) (path content : Text) : Except Failure Files :=
  if host.canWrite files path then
    .ok (Function.update files (host.locate path) (some (Text.asBytes content)))
  else .error (.execution (host.ioError path))

def deleteFile (host : Host) (files : Files) (path : Text) : Except Failure Files :=
  if (files (host.locate path)).isSome ∧ host.canDelete files path then
    .ok (Function.update files (host.locate path) none)
  else .error (.execution (host.ioError path))

def storeFile (host : Host) (files : Files) (path content : Text) : Except Failure Files :=
  match host.writeMemoryFile files path (Text.asBytes content) with
  | .error message => .error (.application message)
  | .ok true => .ok (Function.update files (host.locate path) (some (Text.asBytes content)))
  | .ok false => writeFile host files path content

/-- A move that fails half way leaves both files. -/
def applyChange (host : Host) (files : Files) : FileChange → Except Failure Unit × Files
  | .add path content | .update path _ content =>
      match storeFile host files path content with
      | .error failure => (.error failure, files)
      | .ok stored => (.ok (), stored)
  | .delete path _ =>
      match deleteFile host files path with
      | .error failure => (.error failure, files)
      | .ok deleted => (.ok (), deleted)
  | .move sourcePath destPath _ newContent =>
      match writeFile host files destPath newContent with
      | .error failure => (.error failure, files)
      | .ok written =>
          match deleteFile host written sourcePath with
          | .error failure => (.error failure, written)
          | .ok deleted => (.ok (), deleted)

def FileChange.notifications : FileChange → List FileWritten
  | .add path content => [⟨path, content, none, true⟩]
  | .delete path originalContent => [⟨path, [], some originalContent, false⟩]
  | .update path originalContent newContent => [⟨path, newContent, some originalContent, false⟩]
  | .move sourcePath destPath originalContent newContent =>
      [⟨destPath, newContent, none, true⟩, ⟨sourcePath, [], some originalContent, false⟩]

def FileChange.result : FileChange → ApplyPatchFileResult
  | .add path content => ⟨path, "added".toList, none, content, none⟩
  | .delete path originalContent => ⟨path, "deleted".toList, some originalContent, [], none⟩
  | .update path originalContent newContent => ⟨path, "modified".toList, some originalContent, newContent, none⟩
  | .move sourcePath destPath originalContent newContent =>
      ⟨sourcePath, "moved".toList, some originalContent, newContent, some destPath⟩

def applyChanges (host : Host) : Files → List FileChange →
    Except Failure Unit × Files × List FileWritten
  | files, [] => (.ok (), files, [])
  | files, change :: rest =>
      match applyChange host files change with
      | (.error failure, left) => (.error failure, left, [])
      | (.ok (), next) =>
          let (outcome, final, notified) := applyChanges host next rest
          (outcome, final, change.notifications ++ notified)

def summaryPrefix (action : Text) : Text :=
  if action = "added".toList then "A".toList
  else if action = "deleted".toList then "D".toList
  else "M".toList

def buildSummary (results : List ApplyPatchFileResult) : Text :=
  "Success. Updated the following files:\n".toList ++
    results.flatMap fun result => summaryPrefix result.action ++ " ".toList ++ result.path ++ "\n".toList

def run (host : Host) (cwd : Text) (hunks : List Hunk) (files : Files) :
    Except Text ApplyPatchOutput × Files × List FileWritten :=
  if hunks = [] then (.ok (.emptyPatch "No files were modified.".toList), files, [])
  else
    match computeAllChanges host cwd files hunks with
    | .error message => (.ok (.applicationError message), files, [])
    | .ok changes =>
        match preflightMemoryV2Changes host changes with
        | .error message => (.ok (.applicationError message), files, [])
        | .ok () =>
            match applyChanges host files changes with
            | (.error (.application message), left) => (.ok (.applicationError message), left)
            | (.error (.execution message), left) => (.error message, left)
            | (.ok (), left) =>
                let results := changes.map FileChange.result
                (.ok (.success results (buildSummary results)), left)

end ApplyChanges

end GrokPi.ApplyPatch
