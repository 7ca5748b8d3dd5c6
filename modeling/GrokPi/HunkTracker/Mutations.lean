import GrokPi.HunkTracker.Actor

set_option autoImplicit false

namespace GrokPi.HunkTracker

section FileChanges

def Actor.addFile (actor : Actor) (path : Text) (baseline current : FileContentState)
    (isAgentFile : Bool) : Actor :=
  (actor.setState path
    { baseline := baseline
      currentContent := current
      hunks := []
      isAgentFile := isAgentFile
      baselineAccepted := false }).sendEvents [.fileAdded path isAgentFile]

def Actor.recordAgentWrite (actor : Actor) (env : Env) (path content : Text) (promptIndex : Nat)
    (previousContent : Option Text) : Actor :=
  let current := classifyString content
  if current.isDiffable then
    let tracked :=
      match actor.fileStates.lookup path with
      | none =>
          let baseline :=
            match env.readBaseline path with
            | .missing => (previousContent.map classifyString).getD .missing
            | other => other
          actor.addFile path baseline current true
      | some state => actor.setState path { state with isAgentFile := true }
    tracked.recomputeHunks env.diff path (some current) (.agentEdit promptIndex)
  else
    match actor.fileStates.lookup path with
    | none =>
        let baseline :=
          match previousContent with
          | some previous => classifyString previous
          | none => env.readBaseline path
        actor.addFile path baseline current true
    | some state =>
        -- The hunks go, but their entries in the turn index stay.
        actor.setState path
          { state with
            isAgentFile := true
            currentContent := current
            hunks := [] }

def Actor.relativePath (actor : Actor) (path : Text) : Text :=
  (PathText.stripPrefix path actor.workingDir).getD path

def Actor.gitDirty (actor : Actor) (path : Text) : Bool :=
  actor.gitDirtyCache.contains (actor.relativePath path)

def externalSource (isAgentFile : Bool) : HunkSource :=
  if isAgentFile then .externalEditOnAgentFile else .external

def Actor.fileSource (actor : Actor) (path : Text) : HunkSource :=
  externalSource (((actor.fileStates.lookup path).map (·.isAgentFile)).getD false)

-- Not in HEAD and not dirty: ignored by git. Directories are let through.
def Actor.ignored (actor : Actor) (env : Env) (path : Text) (baseline : FileContentState) : Bool :=
  actor.mode = .allDirty && baseline = .missing && !env.isDir path && !actor.gitDirty path

def Actor.contentMatchesHead (actor : Actor) (path : Text) : FileContentState → FileContentState → Bool
  | .full current, .full head => stripSingleTrailingNewline current = stripSingleTrailingNewline head
  | .missing, .missing => true
  | .binary _, .binary _ => true
  | .tooLarge _, .tooLarge _ => true
  | .lfsPointer _, .lfsPointer _ => true
  | .symlink, .symlink => true
  | .symlink, .full _ | .full _, .symlink => !actor.gitDirty path
  | _, _ => false

def Actor.processFileChange (actor : Actor) (env : Env) (path : Text)
    (preloadedBaseline : Option FileContentState) : Actor :=
  let current := env.readFile path
  let head := preloadedBaseline.getD (env.readBaseline path)
  match actor.fileStates.lookup path with
  | none =>
      if actor.mode = .agentOnly then actor
      else if actor.ignored env path head then actor
      else if current.isDiffable then
        let added := actor.addFile path head .missing false
        added.recomputeHunks env.diff path (some current) (added.fileSource path)
      else
        let added := actor.addFile path head current false
        if head.isDiffable then added.recomputeHunks env.diff path none .external else added
  | some state =>
      if state.baselineAccepted ∧ actor.contentMatchesHead path current head then
        -- As after a restore. Here too the turn index keeps its entries.
        actor.setState path
          { state with
            baseline := head
            currentContent := head
            baselineAccepted := false
            hunks := [] }
      else actor.recomputeHunks env.diff path (some current) (actor.fileSource path)

def Actor.handleFileChange (actor : Actor) (env : Env) (path : Text) : Actor :=
  actor.processFileChange env path none

def Actor.needsBaseline (actor : Actor) (path : Text) : Bool :=
  match actor.fileStates.lookup path with
  | none => actor.mode ≠ .agentOnly
  | some state => state.baselineAccepted

def Actor.processFileChanges (env : Env) :
    (Text → Option FileContentState) → List Text → Actor → Actor
  | _, [], actor => actor
  | baselines, path :: rest, actor =>
      Actor.processFileChanges env (Function.update baselines path none) rest
        (actor.processFileChange env path (baselines path))

def Actor.loadBaselines (actor : Actor) (env : Env) (paths : List Text) : Text → Option FileContentState :=
  let baselinePaths := paths.filter actor.needsBaseline
  if baselinePaths = [] then fun _ => none else env.readBaselinesBatch baselinePaths

def Actor.handleFileChangesBatch (actor : Actor) (env : Env) (paths : List Text) : Actor :=
  if paths = [] then actor
  else Actor.processFileChanges env (actor.loadBaselines env paths) paths actor

def Actor.handleFileDeleted (actor : Actor) (env : Env) (path : Text) : Actor :=
  if actor.tracks path then
    if env.exists' path then actor.handleFileChange env path
    else actor.recomputeHunks env.diff path none (actor.fileSource path)
  else if actor.mode = .agentOnly then actor
  else if env.exists' path then actor
  else if env.readBaseline path = .missing then actor
  else
    (actor.addFile path (env.readBaseline path) .missing false).recomputeHunks env.diff path none .external

end FileChanges

section Baselines

def Actor.supersede (actor : Actor) (path : Text) (hunks : List Hunk) : Actor :=
  { actor with
    turnIndex := hunks.foldl removeFromTurnIndex actor.turnIndex
    events := actor.events ++ hunkRemovedEvents path .superseded hunks }

def Actor.dropFile (actor : Actor) (path : Text) : Actor :=
  match actor.fileStates.lookup path with
  | none => actor
  | some state =>
      ({ actor with fileStates := actor.fileStates.erase path }.supersede path state.hunks).sendEvents
        [.fileRemoved path]

def Actor.resetBaseline (actor : Actor) (path : Text) : Actor :=
  match actor.fileStates.lookup path with
  | none => actor
  | some state =>
      ((actor.setState path
        { state with
          baseline := state.currentContent
          baselineAccepted := false
          hunks := [] }).supersede path state.hunks).sendEvents [.baselineUpdated path]

def Actor.refreshGitDirtyCache (actor : Actor) (env : Env) : Actor :=
  match env.gitStatus with
  | none => actor
  | some (dirty, staged) =>
      let pathsToTrack := dirty.filter fun path => !actor.tracks (PathText.join actor.workingDir path)
      let cached :=
        { actor with
          gitDirtyCache := dirty
          gitStagedCache := staged }
      if actor.mode = .allDirty then
        pathsToTrack.foldl
          (fun current path => current.handleFileChange env (PathText.join actor.workingDir path)) cached
      else cached

def Actor.isClean (actor : Actor) (env : Env) (path : Text) : FileContentState → FileContentState → Bool
  | .full baseline, .full current =>
      stripSingleTrailingNewline baseline = stripSingleTrailingNewline current
  | .binary _, .binary _ | .tooLarge _, .tooLarge _ | .symlink, .symlink => !actor.gitDirty path
  | .lfsPointer _, _ | _, .lfsPointer _ => !actor.gitDirty path
  | .symlink, .full _ | .full _, .symlink => !actor.gitDirty path
  | .missing, .missing => !env.exists' path
  | .missing, _ => !actor.gitDirty path
  | _, _ => false

def Actor.refreshPath (actor : Actor) (env : Env) (path : Text) (baseline current : FileContentState) :
    Actor :=
  match actor.fileStates.lookup path with
  | none => actor
  | some state =>
      let refreshed :=
        { state with
          baseline := baseline
          currentContent := current
          baselineAccepted := false }
      if actor.isClean env path baseline current then
        if state.isAgentFile then
          ((actor.setState path { refreshed with hunks := [] }).supersede path state.hunks).sendEvents
            [.baselineUpdated path]
        else actor.dropFile path
      else
        ((actor.setState path refreshed).recomputeHunks env.diff path (some current)
          (externalSource state.isAgentFile)).sendEvents [.baselineUpdated path]

def Actor.refreshScan (actor : Actor) (env : Env) : Actor :=
  match actor.mode with
  | .allDirty => actor.refreshGitDirtyCache env
  | .agentOnly =>
      if actor.fileStates.keys.filterMap (PathText.stripPrefix · actor.workingDir) = [] then
        { actor with
          gitDirtyCache := []
          gitStagedCache := [] }
      else actor.refreshGitDirtyCache env

def Actor.refreshPaths (actor : Actor) (env : Env) (paths : List Text) : Actor :=
  let baselines := if paths = [] then fun _ => none else env.readBaselinesBatch paths
  paths.foldl
    (fun current path =>
      current.refreshPath env path ((baselines path).getD .missing) ((env.rereadFile path).getD .missing))
    actor

def Actor.refreshAllBaselinesExcept (actor : Actor) (env : Env) (skip : List Text) : Actor :=
  if actor.mode = .agentOnly ∧ actor.fileStates.keys = [] then actor
  else if env.repoSyncState = some actor.repoSyncState then actor
  else
    let scanned :=
      { actor with repoSyncState := env.repoSyncState.getD actor.repoSyncState }.refreshScan env
    scanned.refreshPaths env ((env.order scanned.fileStates.keys).filter (· ∉ skip))

def Actor.refreshAllBaselines (actor : Actor) (env : Env) : Actor := actor.refreshAllBaselinesExcept env []

def Actor.setMode (actor : Actor) (env : Env) (mode : TrackingMode) : Actor :=
  let switched := { actor with mode := mode }
  match actor.mode, mode with
  | .agentOnly, .allDirty => switched.refreshGitDirtyCache env
  | .allDirty, .agentOnly =>
      ((env.order actor.fileStates.keys).filter fun path =>
        ((actor.fileStates.lookup path).map (!·.isAgentFile)).getD false).foldl Actor.dropFile switched
  | _, _ => switched

end Baselines

section Commands

inductive Command where
  | recordAgentWrite (path content : Text) (promptIndex : Nat) (previousContent : Option Text)
  | handleFileChange (path : Text)
  | handleFileChangesBatch (paths : List Text)
  | handleFileDeleted (path : Text)
  | hunkAction (id : HunkId) (action : HunkAction)
  | fileAction (path : Text) (action : HunkAction)
  | turnAction (promptIndex : Nat) (action : HunkAction)
  | allAction (action : HunkAction)
  | resetBaseline (path : Text)
  | refreshAllBaselines (skip : List Text)
  | refreshGitDirtyCache
  | setMode (mode : TrackingMode)
  deriving DecidableEq

def Actor.step (actor : Actor) (event : Env × Command) : Actor :=
  match event with
  | (env, .recordAgentWrite path content promptIndex previousContent) =>
      actor.recordAgentWrite env path content promptIndex previousContent
  | (env, .handleFileChange path) => actor.handleFileChange env path
  | (env, .handleFileChangesBatch paths) => actor.handleFileChangesBatch env paths
  | (env, .handleFileDeleted path) => actor.handleFileDeleted env path
  | (env, .hunkAction id action) => (actor.applyHunkAction env id action).2
  | (env, .fileAction path action) => (actor.applyFileAction env path action).2
  | (env, .turnAction promptIndex action) => (actor.applyTurnAction env promptIndex action).2
  | (env, .allAction action) => (actor.applyAllAction env action).2
  | (_, .resetBaseline path) => actor.resetBaseline path
  | (env, .refreshAllBaselines skip) => actor.refreshAllBaselinesExcept env skip
  | (env, .refreshGitDirtyCache) => actor.refreshGitDirtyCache env
  | (env, .setMode mode) => actor.setMode env mode

end Commands

end GrokPi.HunkTracker
