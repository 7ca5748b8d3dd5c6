import GrokPi.Rollback.Journal
import GrokPi.Shared.InsertionMap

set_option autoImplicit false

namespace GrokPi.Rollback

inductive Action where
  | restore
  | delete
  | noop
  deriving DecidableEq

structure PlannedPath where
  canonicalPath : Text
  action : Action
  currentDigest : Option Digest
  targetDigest : Option Digest
  deriving DecidableEq

structure RollbackPlan where
  eligible : Bool
  paths : List PlannedPath
  conflicts : List Text

abbrev Disk := Text → Option Buffer

section Planning

variable (sha256 : Buffer → Digest)

def afterTarget (targetEntryId : Text) (branchEntryIds : List Text) (mutations : List MutationRecord) :
    List MutationRecord :=
  mutations.filter fun m =>
    match m.treeEntryId with
    | none => false
    | some id => !id.isEmpty && branchEntryIds.contains id && id != targetEntryId

def determineAction (canonicalPath : Text) (current : Option Buffer) (targetState : StateRef) :
    PlannedPath :=
  let currentDigest := current.map sha256
  match parseBlobRef targetState with
  | none =>
      { canonicalPath
        action := if current.isSome then .delete else .noop
        currentDigest
        targetDigest := none }
  | some targetHash =>
      { canonicalPath
        action := if currentDigest = some targetHash then .noop else .restore
        currentDigest
        targetDigest := some targetHash }

def planPath (disk : Disk) (canonicalPath : Text) (firstMutation lastMutation : MutationRecord) :
    Except Text (List PlannedPath) :=
  let planned := determineAction sha256 canonicalPath (disk canonicalPath) firstMutation.before
  match parseBlobRef lastMutation.after, disk canonicalPath with
  | none, some _ =>
      .error (canonicalPath ++ ": expected absent but file exists (external modification)".toList)
  -- The path is pushed here and again with its action.
  | none, none =>
      .ok [{ canonicalPath, action := .noop, currentDigest := none, targetDigest := none }, planned]
  | some _, none =>
      .error (canonicalPath ++ ": expected content but file missing (external deletion)".toList)
  | some expectedHash, some data =>
      if sha256 data ≠ expectedHash then
        .error (canonicalPath ++ ": content mismatch (external modification)".toList)
      else .ok [planned]

def computeRollbackPlan (disk : Disk) (records : List JournalRecord) (targetEntryId : Text)
    (branchEntryIds : List Text) : RollbackPlan :=
  if !branchEntryIds.contains targetEntryId then
    { eligible := false
      paths := []
      conflicts := ["target entry ".toList ++ targetEntryId ++ " not on active branch".toList] }
  else
    let after := afterTarget targetEntryId branchEntryIds (getMutations records)
    let pathFirst := InsertionMap.firstBy (·.canonicalPath) after
    let pathLast := InsertionMap.lastBy (·.canonicalPath) after
    let outcomes := pathLast.map fun (path, last) =>
      planPath sha256 disk path ((pathFirst.get path).getD last) last
    let paths := outcomes.flatMap fun outcome => outcome.toOption.getD []
    let conflicts := outcomes.filterMap fun
      | .error conflict => some conflict
      | .ok _ => none
    { eligible := conflicts.isEmpty && paths.any fun planned => planned.action != .noop
      paths
      conflicts }

end Planning

section Execution

structure Faults where
  unlink : Bool
  readBlob : Bool
  writeFile : Option Text
  rename : Option Text

def Faults.none : Faults :=
  { unlink := false
    readBlob := false
    writeFile := Option.none
    rename := Option.none }

abbrev Blobs := Digest → Option Buffer

/-- The temporary file has a name of its own and is not a part of the disk here. -/
def restorePath (faults : Faults) (blobs : Blobs) (disk : Disk) (planned : PlannedPath) :
    Except Text Disk :=
  match planned.action, planned.targetDigest with
  | .delete, _ =>
      .ok (if faults.unlink then disk else Function.update disk planned.canonicalPath none)
  | .restore, some targetDigest =>
      match (if faults.readBlob then none else blobs targetDigest), faults.writeFile, faults.rename with
      | none, _, _ => .error ("missing blob for ".toList ++ planned.canonicalPath)
      | some _, some error, _ => .error error
      | some _, none, some error => .error error
      | some data, none, none => .ok (Function.update disk planned.canonicalPath (some data))
  | _, _ => .ok disk

def restoreAll (faults : Nat → Faults) (blobs : Blobs) : Nat → Disk → List PlannedPath →
    Disk × Option Text
  | _, disk, [] => (disk, none)
  | index, disk, planned :: rest =>
      match restorePath (faults index) blobs disk planned with
      | .ok next => restoreAll faults blobs (index + 1) next rest
      | .error error => (disk, some error)

structure Execution where
  disk : Disk
  appended : List RollbackTransaction
  outcome : Except Text Text

def RollbackPlan.activePaths (plan : RollbackPlan) : List PlannedPath :=
  plan.paths.filter fun planned => planned.action != .noop

def executeRollback (faults : Nat → Faults) (blobs : Blobs) (disk : Disk) (plan : RollbackPlan)
    (targetEntryId sourceLeafId transactionId createdAt : Text) : Execution :=
  let prepared : RollbackTransaction :=
    { transactionId
      targetEntryId
      sourceLeafId
      plannedPaths := plan.activePaths.map (·.canonicalPath)
      state := .prepared
      createdAt }
  match restoreAll faults blobs 0 disk plan.activePaths with
  | (restored, none) =>
      { disk := restored
        appended := [prepared, { prepared with state := .committed }]
        outcome := .ok transactionId }
  | (restored, some error) =>
      { disk := restored
        appended := [prepared, { prepared with state := .failed }]
        outcome := .error error }

end Execution

end GrokPi.Rollback
