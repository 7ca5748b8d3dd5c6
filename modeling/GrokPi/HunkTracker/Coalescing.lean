import GrokPi.HunkTracker.Mutations
import GrokPi.Shared.InsertionMap

set_option autoImplicit false

namespace GrokPi.HunkTracker

section Commands

structure HunkTrackerSnapshot where
  fileStates : FileStates
  turnIndex : TurnIndex
  sessionStats : SessionStats
  -- Fresh identifiers stay fresh after a restore.
  nextId : HunkId

inductive HunkTrackerCommand where
  | recordAgentWrite (path content : Text) (promptIndex : Nat) (previousContent : Option Text)
  | handleFileChange (path : Text)
  | handleFileDeleted (path : Text)
  | refreshGitDirtyCache
  | resetBaseline (path : Text)
  | setMode (mode : TrackingMode)
  | setWorkingDir (workingDir : Text)
  | hunkAction (id : HunkId) (action : HunkAction)
  | fileAction (path : Text) (action : HunkAction)
  | allAction (action : HunkAction)
  | turnAction (promptIndex : Nat) (action : HunkAction)
  | resetStats
  | refreshAllBaselines
  | restoreState (snapshot : HunkTrackerSnapshot)

def isCoalescable : HunkTrackerCommand → Bool
  | .handleFileChange _ | .handleFileDeleted _ | .refreshAllBaselines | .refreshGitDirtyCache => true
  | _ => false

def SessionStats.zero : SessionStats :=
  { acceptedHunks := 0
    rejectedHunks := 0
    acceptedLinesAdded := 0
    acceptedLinesRemoved := 0
    rejectedLinesAdded := 0
    rejectedLinesRemoved := 0 }

def Actor.restoreSnapshot (actor : Actor) (snapshot : HunkTrackerSnapshot) : Actor :=
  { actor with
    fileStates := snapshot.fileStates
    turnIndex := snapshot.turnIndex
    sessionStats := snapshot.sessionStats
    nextId := max actor.nextId snapshot.nextId }

def startsWith (path base : Text) : Bool := (PathText.stripPrefix path base).isSome

def rewriteSinglePath (path oldCwd canonicalOld newCwd : Text) : Option Text :=
  ((PathText.stripPrefix path canonicalOld).or (PathText.stripPrefix path oldCwd)).map (PathText.join newCwd)

def rewrite (old newCwd path : Text) : Text :=
  if startsWith path newCwd then path else (rewriteSinglePath path old old newCwd).getD path

def rekeyState (state : FileHunkState) (newPath : Text) : FileHunkState :=
  { state with hunks := state.hunks.map fun hunk => { hunk with path := newPath } }

def mergeState (dest state : FileHunkState) : FileHunkState :=
  { dest with
    hunks := dest.hunks ++ state.hunks
    isAgentFile := dest.isAgentFile || state.isAgentFile
    baselineAccepted := dest.baselineAccepted || state.baselineAccepted }

def rekeyFile (states : FileStates) (old newCwd : Text) (next : FileStates) (path : Text) : FileStates :=
  match states.lookup path with
  | none => next
  | some state =>
      let newPath := rewrite old newCwd path
      let state := rekeyState state newPath
      match next.lookup newPath with
      | none => next.insert newPath state
      | some dest => next.insert newPath (mergeState dest state)

def Actor.rekeyPathsForWorkingDir (actor : Actor) (env : Env) (newCwd : Text) : Actor :=
  if newCwd = actor.workingDir then actor
  else
    let (already, rewritten) := (env.order actor.fileStates.keys).partition (startsWith · newCwd)
    let next := (already ++ rewritten).foldl (rekeyFile actor.fileStates actor.workingDir newCwd) ∅
    { actor with
      fileStates := next
      gitDirtyCache := actor.gitDirtyCache.map (rewrite actor.workingDir newCwd)
      gitStagedCache := actor.gitStagedCache.map (rewrite actor.workingDir newCwd) }

def Actor.setWorkingDir (actor : Actor) (env : Env) (workingDir : Text) : Actor :=
  { actor.rekeyPathsForWorkingDir env workingDir with
    workingDir := workingDir
    repoSyncState :=
      { headOid := none
        indexMtime := none } }

def Actor.handleCommand (actor : Actor) (env : Env) : HunkTrackerCommand → Actor
  | .recordAgentWrite path content promptIndex previousContent =>
      actor.recordAgentWrite env path content promptIndex previousContent
  | .handleFileChange path => actor.handleFileChange env path
  | .handleFileDeleted path => actor.handleFileDeleted env path
  | .refreshGitDirtyCache => actor.refreshGitDirtyCache env
  | .resetBaseline path => actor.resetBaseline path
  | .setMode mode => actor.setMode env mode
  | .setWorkingDir workingDir => actor.setWorkingDir env workingDir
  | .hunkAction id action => (actor.applyHunkAction env id action).2
  | .fileAction path action => (actor.applyFileAction env path action).2
  | .allAction action => (actor.applyAllAction env action).2
  | .turnAction promptIndex action => (actor.applyTurnAction env promptIndex action).2
  | .resetStats => { actor with sessionStats := .zero }
  | .refreshAllBaselines => actor.refreshAllBaselines env
  | .restoreState snapshot => actor.restoreSnapshot snapshot

end Commands

section Batches

inductive CoalescedPathAction where
  | changed
  | deleted
  | deletedThenChanged
  deriving DecidableEq

structure CoalescedBatch where
  fileActions : InsertionMap Text CoalescedPathAction
  refreshAll : Bool
  refreshDirty : Bool
  otherCommands : List (Env × HunkTrackerCommand)
  commandCount : Nat

namespace CoalescedBatch

def new : CoalescedBatch :=
  { fileActions := []
    refreshAll := false
    refreshDirty := false
    otherCommands := []
    commandCount := 0 }

def changeAction : Option CoalescedPathAction → CoalescedPathAction
  | none => .changed
  | some .deleted => .deletedThenChanged
  | some action => action

def add (batch : CoalescedBatch) (message : Env × HunkTrackerCommand) : CoalescedBatch :=
  let batch := { batch with commandCount := batch.commandCount + 1 }
  match message.2 with
  | .handleFileChange path =>
      { batch with fileActions := batch.fileActions.set path (changeAction (batch.fileActions.get path)) }
  | .handleFileDeleted path => { batch with fileActions := batch.fileActions.set path .deleted }
  | .refreshAllBaselines => { batch with refreshAll := true }
  | .refreshGitDirtyCache => { batch with refreshDirty := true }
  | _ => { batch with otherCommands := batch.otherCommands ++ [message] }

def actions (batch : CoalescedBatch) (order : List Text → List Text) : List (Text × CoalescedPathAction) :=
  (order batch.fileActions.keys).filterMap fun path => (batch.fileActions.get path).map fun action => (path, action)

end CoalescedBatch

def drainAndCoalesce (messages : List (Env × HunkTrackerCommand)) : CoalescedBatch :=
  messages.foldl CoalescedBatch.add .new

structure BatchEnv where
  scan : Env
  file : Text → Env
  rest : Env

def Actor.beforeRefresh (surroundings : BatchEnv) (reached : Actor × List Text)
    (entry : Text × CoalescedPathAction) : Actor × List Text :=
  let (actor, processed) := reached
  let (path, action) := entry
  match action with
  | .changed | .deletedThenChanged =>
      if actor.tracks path then (actor, processed)
      else (actor.handleFileChange (surroundings.file path) path, path :: processed)
  | .deleted =>
      if actor.tracks path then (actor.handleFileDeleted (surroundings.file path) path, processed)
      else (actor, processed)

def Actor.handleDeletions (surroundings : BatchEnv) (reached : Actor × List Text)
    (entry : Text × CoalescedPathAction) : Actor × List Text :=
  let (actor, changed) := reached
  let (path, action) := entry
  match action with
  | .changed | .deletedThenChanged => (actor, changed ++ [path])
  | .deleted => (actor.handleFileDeleted (surroundings.file path) path, changed)

def Actor.handleFileActions (actor : Actor) (surroundings : BatchEnv) (batch : CoalescedBatch) : Actor :=
  let actor :=
    if batch.refreshDirty && !batch.refreshAll then actor.refreshGitDirtyCache surroundings.scan else actor
  let actions := batch.actions surroundings.scan.order
  if batch.refreshAll then
    let (actor, processed) := actions.foldl (Actor.beforeRefresh surroundings) (actor, [])
    actor.refreshAllBaselinesExcept surroundings.rest processed
  else
    let (actor, changed) := actions.foldl (Actor.handleDeletions surroundings) (actor, [])
    actor.handleFileChangesBatch surroundings.rest changed

def Actor.handleMessage (actor : Actor) (message : Env × HunkTrackerCommand) : Actor :=
  actor.handleCommand message.1 message.2

def Actor.handleCoalescedBatch (actor : Actor) (surroundings : BatchEnv) (batch : CoalescedBatch) : Actor :=
  batch.otherCommands.foldl Actor.handleMessage (actor.handleFileActions surroundings batch)

/-- What the loop takes from the channel at once. -/
structure Turn where
  surroundings : BatchEnv
  first : Env × HunkTrackerCommand
  queued : List (Env × HunkTrackerCommand)

def Actor.turn (actor : Actor) (turn : Turn) : Actor :=
  if isCoalescable turn.first.2 then
    actor.handleCoalescedBatch turn.surroundings (drainAndCoalesce (turn.first :: turn.queued))
  else actor.handleMessage turn.first

def Actor.launch (env : Env) (workingDir : Text) (mode : TrackingMode) : Actor :=
  match mode with
  | .allDirty => (Actor.new workingDir mode).refreshGitDirtyCache env
  | .agentOnly => Actor.new workingDir mode

end Batches

end GrokPi.HunkTracker
