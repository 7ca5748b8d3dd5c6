import Mathlib
import GrokPi.HunkTracker.Diff
import GrokPi.Shared.PathText

set_option autoImplicit false

namespace GrokPi.HunkTracker

inductive FileContentState where
  | missing
  | binary (byteLen : Option Nat)
  | tooLarge (byteLen : Nat)
  | lfsPointer (byteLen : Nat)
  | symlink
  | full (content : Text)
  deriving DecidableEq

def FileContentState.isDiffable : FileContentState → Bool
  | .full _ => true
  | _ => false

def maxTrackedTextBytes : Nat := 1024 * 1024

def lfsPointerPrefix : Text := "version https://git-lfs.github.com/spec/v1\n".toList

def asBytes (text : Text) : List UInt8 := text.flatMap String.utf8EncodeChar

def isLfsPointer (text : Text) : Bool := byteLen text < 1024 && lfsPointerPrefix.isPrefixOf text

def isBinary (text : Text) : Bool := ((asBytes text).take 8000).contains 0

def classifyString (text : Text) : FileContentState :=
  if byteLen text > maxTrackedTextBytes then .tooLarge (byteLen text)
  else if isLfsPointer text then .lfsPointer (byteLen text)
  else if isBinary text then .binary (some (byteLen text))
  else .full text

def stripSingleTrailingNewline (content : Text) : Text :=
  if "\r\n".toList.isSuffixOf content then content.dropLast.dropLast
  else if "\n".toList.isSuffixOf content then content.dropLast
  else content

structure FileHunkState where
  baseline : FileContentState
  currentContent : FileContentState
  hunks : List Hunk
  isAgentFile : Bool
  baselineAccepted : Bool
  deriving DecidableEq

inductive HunkAction where
  | accept
  | reject
  deriving DecidableEq

inductive HunkActionError where
  | hunkNotFound (id : HunkId)
  | writeError (path : Text)
  | deleteError (path : Text)
  deriving DecidableEq

inductive HunkRemovalReason where
  | accepted
  | rejected
  | superseded
  deriving DecidableEq

inductive HunkEvent where
  | hunkAdded (path : Text) (hunk : Hunk)
  | hunkRemoved (path : Text) (id : HunkId) (reason : HunkRemovalReason)
  | hunkMoved (path : Text) (id : HunkId) (newLineInfo : HunkLineInfo)
  | hunkContentChanged (path : Text) (hunk : Hunk) (triggerSource : HunkSource)
      (prevLinesAdded prevLinesRemoved : Nat)
  | fileAdded (path : Text) (isAgentFile : Bool)
  | fileRemoved (path : Text)
  | baselineUpdated (path : Text)
  deriving DecidableEq

inductive TrackingMode where
  | agentOnly
  | allDirty
  deriving DecidableEq

structure SessionStats where
  acceptedHunks : Nat
  rejectedHunks : Nat
  acceptedLinesAdded : Nat
  acceptedLinesRemoved : Nat
  rejectedLinesAdded : Nat
  rejectedLinesRemoved : Nat
  deriving DecidableEq

structure RepoSyncState where
  headOid : Option Text
  indexMtime : Option Nat
  deriving DecidableEq

/-- What one command finds outside: the diff library, the order in which hash maps are walked, the
disk and the git repository. -/
structure Env where
  diff : LineDiff
  order : List Text → List Text
  orderPerm : ∀ keys, (order keys).Perm keys
  readFile : Text → FileContentState
  readBaseline : Text → FileContentState
  readBaselinesBatch : List Text → Text → Option FileContentState
  -- The second read of a refresh; a read task may fail.
  rereadFile : Text → Option FileContentState
  isDir : Text → Bool
  exists' : Text → Bool
  write : Text → Bool
  remove : Text → Bool
  -- Dirty and staged paths, relative to the working directory.
  gitStatus : Option (List Text × List Text)
  repoSyncState : Option RepoSyncState

def Env.blank (diff : LineDiff) : Env :=
  { diff := diff
    order := id
    orderPerm := fun keys => List.Perm.refl keys
    readFile := fun _ => .missing
    readBaseline := fun _ => .missing
    readBaselinesBatch := fun _ _ => none
    rereadFile := fun _ => none
    isDir := fun _ => false
    exists' := fun _ => false
    write := fun _ => true
    remove := fun _ => true
    gitStatus := none
    repoSyncState := none }

abbrev FileStates : Type := AList fun _ : Text => FileHunkState

abbrev TurnIndex : Type := Nat → Finset HunkId

structure Actor where
  workingDir : Text
  fileStates : FileStates
  turnIndex : TurnIndex
  gitDirtyCache : List Text
  gitStagedCache : List Text
  repoSyncState : RepoSyncState
  events : List HunkEvent
  mode : TrackingMode
  sessionStats : SessionStats
  nextId : HunkId

def Actor.new (workingDir : Text) (mode : TrackingMode) : Actor :=
  { workingDir := workingDir
    fileStates := ∅
    turnIndex := fun _ => ∅
    gitDirtyCache := []
    gitStagedCache := []
    repoSyncState :=
      { headOid := none
        indexMtime := none }
    events := []
    mode := mode
    sessionStats :=
      { acceptedHunks := 0
        rejectedHunks := 0
        acceptedLinesAdded := 0
        acceptedLinesRemoved := 0
        rejectedLinesAdded := 0
        rejectedLinesRemoved := 0 }
    nextId := 0 }

def Actor.tracks (actor : Actor) (path : Text) : Bool := (actor.fileStates.lookup path).isSome

def Actor.setState (actor : Actor) (path : Text) (state : FileHunkState) : Actor :=
  { actor with fileStates := actor.fileStates.insert path state }

def Actor.sendEvents (actor : Actor) (events : List HunkEvent) : Actor :=
  { actor with events := actor.events ++ events }

def removeFromTurnIndex (index : TurnIndex) (hunk : Hunk) : TurnIndex :=
  match hunk.source.promptIndex with
  | none => index
  | some prompt => Function.update index prompt ((index prompt).erase hunk.id)

def insertIntoTurnIndex (index : TurnIndex) (hunk : Hunk) : TurnIndex :=
  match hunk.source.promptIndex with
  | none => index
  | some prompt => Function.update index prompt (insert hunk.id (index prompt))

section Recompute

def diffHunks (diff : LineDiff) (nextId : HunkId) (path : Text) (baseline current : FileContentState)
    (source : HunkSource) : List Hunk :=
  match baseline, current with
  | .full baseline, .full current => computeHunks diff nextId path baseline current source
  | .full baseline, .missing =>
      if baseline = [] then [] else [.fileDeleted nextId path baseline source]
  | .missing, .full current =>
      if current = [] then [] else [.fileCreated nextId path current source]
  | _, _ => []

def preservedSource (newSource oldSource : HunkSource) : HunkSource :=
  if newSource.isExternal && oldSource.isAgentEdit then oldSource else newSource

def preserveHunks (oldHunks : List Hunk) : List HunkId → List Hunk → List Hunk
  | _, [] => []
  | claimed, new :: rest =>
      match findMatchingOldHunk new oldHunks with
      | none => new :: preserveHunks oldHunks claimed rest
      | some best =>
          if best.id ∈ claimed then new :: preserveHunks oldHunks claimed rest
          else
            { new with
              id := best.id
              source := preservedSource new.source best.source } ::
              preserveHunks oldHunks (best.id :: claimed) rest

def hunkRemovedEvents (path : Text) (reason : HunkRemovalReason) (hunks : List Hunk) :
    List HunkEvent :=
  hunks.map fun hunk => .hunkRemoved path hunk.id reason

def newHunkEvents (path : Text) (oldHunks : List Hunk) (triggerSource : HunkSource) (new : Hunk) :
    List HunkEvent :=
  match oldHunks.find? (hunksMatchContent · new) with
  | some old => if hunkMoved old new then [.hunkMoved path old.id new.lineInfo] else []
  | none =>
      if oldHunks.any (hunksOverlap · new) then
        let prev := (oldHunks.find? (·.id == new.id)).or (oldHunks.find? (hunksOverlap · new))
        [.hunkContentChanged path new triggerSource (prev.elim 0 (·.lineInfo.newCount))
          (prev.elim 0 (·.lineInfo.oldCount))]
      else [.hunkAdded path new]

def hunkDiffEvents (path : Text) (oldHunks newHunks : List Hunk) (triggerSource : HunkSource) :
    List HunkEvent :=
  let gone := oldHunks.filter fun old =>
    !newHunks.any fun new => hunksOverlap old new || hunksMatchContent old new
  hunkRemovedEvents path .superseded gone ++ newHunks.flatMap (newHunkEvents path oldHunks triggerSource)

def Actor.recomputeHunks (actor : Actor) (diff : LineDiff) (path : Text)
    (newCurrent : Option FileContentState) (source : HunkSource) : Actor :=
  match actor.fileStates.lookup path with
  | none => actor
  | some state =>
      let current := newCurrent.getD .missing
      let newHunks := diffHunks diff actor.nextId path state.baseline current source
      let hunks := preserveHunks state.hunks [] newHunks
      { actor with
        fileStates := actor.fileStates.insert path
          { state with
            currentContent := current
            hunks := hunks }
        turnIndex := hunks.foldl insertIntoTurnIndex
          (state.hunks.foldl removeFromTurnIndex actor.turnIndex)
        events := actor.events ++ hunkDiffEvents path state.hunks hunks source
        nextId := actor.nextId + newHunks.length }

theorem diffHunks_ids (diff : LineDiff) (nextId : HunkId) (path : Text)
    (baseline current : FileContentState) (source : HunkSource) :
    (diffHunks diff nextId path baseline current source).map Hunk.id =
      List.range' nextId (diffHunks diff nextId path baseline current source).length := by
  unfold diffHunks
  split
  · exact computeHunks_ids ..
  · split <;> rfl
  · split <;> rfl
  · rfl

theorem diffHunks_mem {diff : LineDiff} {nextId : HunkId} {path : Text}
    {baseline current : FileContentState} {source : HunkSource} {hunk : Hunk}
    (member : hunk ∈ diffHunks diff nextId path baseline current source) :
    nextId ≤ hunk.id ∧ hunk.path = path ∧ hunk.source = source := by
  constructor
  · have counted := show hunk.id ∈ List.map Hunk.id _ from List.mem_map_of_mem member
    rw [diffHunks_ids, List.mem_range'_1] at counted
    exact counted.1
  · unfold diffHunks at member
    split at member
    · exact computeHunks_mem member
    · split at member <;> simp_all [Hunk.fileDeleted]
    · split at member <;> simp_all [Hunk.fileCreated]
    · cases member

theorem Actor.recomputeHunks_lookup {actor : Actor} {path : Text} {state : FileHunkState}
    (found : actor.fileStates.lookup path = some state) (diff : LineDiff)
    (newCurrent : Option FileContentState) (source : HunkSource) :
    (actor.recomputeHunks diff path newCurrent source).fileStates.lookup path =
      some
        { state with
          currentContent := newCurrent.getD .missing
          hunks := preserveHunks state.hunks []
            (diffHunks diff actor.nextId path state.baseline (newCurrent.getD .missing) source) } := by
  unfold Actor.recomputeHunks
  rw [found]
  exact AList.lookup_insert _

@[simp]
theorem Actor.setState_lookup (actor : Actor) (path : Text) (state : FileHunkState) :
    (actor.setState path state).fileStates.lookup path = some state := AList.lookup_insert _

theorem Actor.sendEvents_lookup (actor : Actor) (path : Text) (state : FileHunkState)
    (events : List HunkEvent) :
    ((actor.setState path state).sendEvents events).fileStates.lookup path = some state :=
  AList.lookup_insert _

end Recompute

section Actions

def saturatingAdd (a b : Nat) : Nat := min (a + b) (2 ^ 64 - 1)

def SessionStats.update (stats : SessionStats) (lineInfo : HunkLineInfo) : HunkAction → SessionStats
  | .accept =>
      { stats with
        acceptedHunks := saturatingAdd stats.acceptedHunks 1
        acceptedLinesAdded := saturatingAdd stats.acceptedLinesAdded lineInfo.newCount
        acceptedLinesRemoved := saturatingAdd stats.acceptedLinesRemoved lineInfo.oldCount }
  | .reject =>
      { stats with
        rejectedHunks := saturatingAdd stats.rejectedHunks 1
        rejectedLinesAdded := saturatingAdd stats.rejectedLinesAdded lineInfo.newCount
        rejectedLinesRemoved := saturatingAdd stats.rejectedLinesRemoved lineInfo.oldCount }

def Actor.countHunk (actor : Actor) (action : HunkAction) (hunk : Hunk) : Actor :=
  { actor with
    sessionStats := actor.sessionStats.update hunk.lineInfo action
    turnIndex := removeFromTurnIndex actor.turnIndex hunk }

theorem countHunks_spec (action : HunkAction) (hunks : List Hunk) (actor : Actor) :
    (hunks.foldl (fun actor hunk => actor.countHunk action hunk) actor).fileStates = actor.fileStates ∧
      (hunks.foldl (fun actor hunk => actor.countHunk action hunk) actor).turnIndex =
        hunks.foldl removeFromTurnIndex actor.turnIndex ∧
      (hunks.foldl (fun actor hunk => actor.countHunk action hunk) actor).nextId = actor.nextId := by
  induction hunks generalizing actor with
  | nil => exact ⟨rfl, rfl, rfl⟩
  | cons hunk rest ih => exact ih (actor.countHunk action hunk)

def dropHunks (hunks : List Hunk) (ids : List HunkId) : List Hunk :=
  hunks.filter fun hunk => hunk.id ∉ ids

theorem dropHunks_self (hunks : List Hunk) : dropHunks hunks (hunks.map Hunk.id) = [] := by
  rw [dropHunks, List.filter_eq_nil_iff]
  intro hunk member
  simp only [decide_eq_true_eq, not_not]
  exact List.mem_map_of_mem member

def Actor.recomputeRemaining (actor : Actor) (diff : LineDiff) (path : Text)
    (current : FileContentState) : Actor :=
  let remaining := (actor.fileStates.lookup path).bind (·.hunks.head?)
  actor.recomputeHunks diff path (some current) ((remaining.map Hunk.source).getD .external)

theorem Actor.recomputeRemaining_lookup {actor : Actor} {path : Text} {state : FileHunkState}
    (found : actor.fileStates.lookup path = some state) (diff : LineDiff) (current : FileContentState) :
    (actor.recomputeRemaining diff path current).fileStates.lookup path =
      some
        { state with
          currentContent := current
          hunks := preserveHunks state.hunks []
            (diffHunks diff actor.nextId path state.baseline current
              ((state.hunks.head?.map Hunk.source).getD .external)) } := by
  unfold Actor.recomputeRemaining
  rw [found]
  exact Actor.recomputeHunks_lookup found diff (some current) _

def FileContentState.mapFull (f : Text → Text) : FileContentState → FileContentState
  | .full text => .full (f text)
  | other => other

def acceptPatch (hunk : Hunk) (baseline : Text) : Text :=
  patchLines baseline hunk.lineInfo.oldStart hunk.lineInfo.oldCount hunk.newText

def rejectPatch (hunk : Hunk) (current : Text) : Text :=
  patchLines current hunk.lineInfo.newStart hunk.lineInfo.newCount (hunk.oldText.getD [])

def Actor.acceptHunk (actor : Actor) (env : Env) (path : Text) (hunk : Hunk) : Actor :=
  match actor.fileStates.lookup path with
  | none => actor
  | some state =>
      let events := [.hunkRemoved path hunk.id .accepted, .baselineUpdated path]
      if state.baseline = .missing then
        (actor.setState path
          { state with
            baseline := state.currentContent
            baselineAccepted := true
            hunks := dropHunks state.hunks [hunk.id] }).sendEvents events
      else
        ((actor.setState path
          { state with
            baseline := state.baseline.mapFull (acceptPatch hunk)
            baselineAccepted := true
            hunks := dropHunks state.hunks [hunk.id] }).sendEvents events).recomputeRemaining
          env.diff path state.currentContent

inductive RejectAction where
  | restoreDeleted (baseline : Text)
  | deleteCreated
  | revertChange (patched : Text)
  | noOp
  deriving DecidableEq

def rejectAction (state : FileHunkState) (hunk : Hunk) : RejectAction :=
  match state.currentContent, state.baseline with
  | .missing, .full baseline => .restoreDeleted baseline
  | .full _, .missing => .deleteCreated
  | .full current, _ => .revertChange (rejectPatch hunk current)
  | _, _ => .noOp

def Actor.rejectHunk (actor : Actor) (env : Env) (path : Text) (hunk : Hunk) :
    Except HunkActionError Unit × Actor :=
  match actor.fileStates.lookup path with
  | none => (.ok (), actor)
  | some state =>
      let finish := fun content : FileContentState =>
        (actor.setState path
          { state with
            currentContent := content
            hunks := dropHunks state.hunks [hunk.id] }).sendEvents
          [.hunkRemoved path hunk.id .rejected]
      match rejectAction state hunk with
      | .restoreDeleted baseline =>
          if env.write path then (.ok (), finish (.full baseline))
          else (.error (.writeError path), actor)
      | .deleteCreated =>
          if env.remove path then (.ok (), finish .missing)
          else (.error (.deleteError path), actor)
      | .revertChange patched =>
          if env.write path then
            (.ok (), (finish (.full patched)).recomputeRemaining env.diff path (.full patched))
          else (.error (.writeError path), actor)
      | .noOp => (.ok (), actor)

def Actor.findHunk (actor : Actor) (env : Env) (id : HunkId) : Option (Text × Hunk) :=
  (env.order actor.fileStates.keys).findSome? fun path =>
    (actor.fileStates.lookup path).bind fun state =>
      (state.hunks.find? (·.id == id)).map fun hunk => (path, hunk)

def Actor.applyHunkAction (actor : Actor) (env : Env) (id : HunkId) (action : HunkAction) :
    Except HunkActionError Unit × Actor :=
  match actor.findHunk env id with
  | none => (.error (.hunkNotFound id), actor)
  | some (path, hunk) =>
      let counted := actor.countHunk action hunk
      match action with
      | .accept => (.ok (), counted.acceptHunk env path hunk)
      | .reject => counted.rejectHunk env path hunk

def sortFromEnd (start : HunkLineInfo → Nat) (hunks : List Hunk) : List Hunk :=
  hunks.mergeSort fun a b => start b.lineInfo ≤ start a.lineInfo

def Actor.acceptHunksBatch (actor : Actor) (env : Env) (path : Text) (hunks : List Hunk) : Actor :=
  if hunks = [] then actor
  else
    match actor.fileStates.lookup path with
    | none => actor
    | some state =>
        let events := hunkRemovedEvents path .accepted hunks ++ [.baselineUpdated path]
        if state.baseline = .missing then
          (actor.setState path
            { state with
              baseline := state.currentContent
              baselineAccepted := true
              hunks := dropHunks state.hunks (hunks.map Hunk.id) }).sendEvents events
        else
          let baseline := (sortFromEnd HunkLineInfo.oldStart hunks).foldl
            (fun baseline hunk => baseline.mapFull (acceptPatch hunk)) state.baseline
          ((actor.setState path
            { state with
              baseline := baseline
              baselineAccepted := true
              hunks := dropHunks state.hunks (hunks.map Hunk.id) }).sendEvents events).recomputeRemaining
            env.diff path state.currentContent

def Actor.rejectHunksBatch (actor : Actor) (env : Env) (path : Text) (hunks : List Hunk) :
    Except HunkActionError Unit × Actor :=
  if hunks = [] then (.ok (), actor)
  else
    match actor.fileStates.lookup path with
    | none => (.ok (), actor)
    | some state =>
        let finish := fun content : FileContentState =>
          (actor.setState path
            { state with
              currentContent := content
              hunks := dropHunks state.hunks (hunks.map Hunk.id) }).sendEvents
            (hunkRemovedEvents path .rejected hunks)
        match state.currentContent, state.baseline with
        | .missing, .full baseline =>
            if env.write path then (.ok (), finish (.full baseline))
            else (.error (.writeError path), actor)
        | .full _, .missing =>
            if env.remove path then (.ok (), finish .missing)
            else (.error (.deleteError path), actor)
        | .full current, _ =>
            let patched := (sortFromEnd HunkLineInfo.newStart hunks).foldl
              (fun current hunk => rejectPatch hunk current) current
            if env.write path then
              (.ok (), (finish (.full patched)).recomputeRemaining env.diff path (.full patched))
            else (.error (.writeError path), actor)
        | _, _ => (.ok (), actor)

def Actor.actOnBatch (actor : Actor) (env : Env) (action : HunkAction) (path : Text)
    (hunks : List Hunk) : Except HunkActionError Unit × Actor :=
  let counted := hunks.foldl (fun actor hunk => actor.countHunk action hunk) actor
  match action with
  | .accept => (.ok (), counted.acceptHunksBatch env path hunks)
  | .reject => counted.rejectHunksBatch env path hunks

def Actor.applyActionBatch (actor : Actor) (env : Env) (action : HunkAction) :
    List (Text × List Hunk) → Except HunkActionError (List HunkId) × Actor
  | [] => (.ok [], actor)
  | (path, hunks) :: rest =>
      match actor.actOnBatch env action path hunks with
      | (.error error, acted) => (.error error, acted)
      | (.ok (), acted) =>
          let (others, final) := acted.applyActionBatch env action rest
          (others.map (hunks.map Hunk.id ++ ·), final)

def Actor.applyFileAction (actor : Actor) (env : Env) (path : Text) (action : HunkAction) :
    Except HunkActionError (List HunkId) × Actor :=
  match actor.fileStates.lookup path with
  | none => (.ok [], actor)
  | some state =>
      if state.hunks = [] then (.ok [], actor)
      else actor.applyActionBatch env action [(path, state.hunks)]

def Actor.filesWithHunks (actor : Actor) (env : Env) (keep : Hunk → Bool) : List (Text × List Hunk) :=
  (env.order actor.fileStates.keys).filterMap fun path =>
    (actor.fileStates.lookup path).bind fun state =>
      let hunks := state.hunks.filter keep
      if hunks = [] then none else some (path, hunks)

def Actor.applyAllAction (actor : Actor) (env : Env) (action : HunkAction) :
    Except HunkActionError (List HunkId) × Actor :=
  actor.applyActionBatch env action (actor.filesWithHunks env fun _ => true)

def Actor.applyTurnAction (actor : Actor) (env : Env) (promptIndex : Nat) (action : HunkAction) :
    Except HunkActionError (List HunkId) × Actor :=
  actor.applyActionBatch env action
    (actor.filesWithHunks env fun hunk => hunk.source.promptIndex == some promptIndex)

end Actions

end GrokPi.HunkTracker
