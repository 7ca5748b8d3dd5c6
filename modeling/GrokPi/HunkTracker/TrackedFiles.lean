import GrokPi.HunkTracker.Coalescing
import GrokPi.HunkTracker.Inversion
import GrokPi.HunkTracker.TurnIndex

set_option autoImplicit false

namespace GrokPi.HunkTracker

section Places

def Hunk.place (hunk : Hunk) : Text × HunkLineInfo × Option Text × Text :=
  (hunk.path, hunk.lineInfo, hunk.oldText, hunk.newText)

/-- What a refresh finds clean though the contents differ: texts that end differently, and a file that git knows
neither as committed nor as changed. -/
def TakenForClean : FileContentState → FileContentState → Prop
  | .full baseline, .full current => stripSingleTrailingNewline baseline = stripSingleTrailingNewline current
  | .missing, .full _ => True
  | _, _ => False

def WellPlaced (diff : LineDiff) (path : Text) (state : FileHunkState) : Prop :=
  state.hunks.map Hunk.place =
      (diffHunks diff 0 path state.baseline state.currentContent .external).map Hunk.place ∨
    state.hunks = [] ∧ TakenForClean state.baseline state.currentContent

theorem computeHunks_place (diff : LineDiff) (nextId : HunkId) (path baseline current : Text) (source : HunkSource) :
    (computeHunks diff nextId path baseline current source).map Hunk.place =
      (computeHunks diff 0 path baseline current .external).map Hunk.place := by
  unfold computeHunks
  split
  · rfl
  · split
    · rfl
    · split
      · rfl
      · apply List.ext_getElem
        · simp
        · intro index _ _
          simp [build, Hunk.place]

theorem diffHunks_place (diff : LineDiff) (nextId : HunkId) (path : Text) (baseline current : FileContentState)
    (source : HunkSource) :
    (diffHunks diff nextId path baseline current source).map Hunk.place =
      (diffHunks diff 0 path baseline current .external).map Hunk.place := by
  unfold diffHunks
  split
  · exact computeHunks_place ..
  · split <;> rfl
  · split <;> rfl
  · rfl

theorem preserveHunks_place (oldHunks : List Hunk) (claimed : List HunkId) (newHunks : List Hunk) :
    (preserveHunks oldHunks claimed newHunks).map Hunk.place = newHunks.map Hunk.place := by
  induction newHunks generalizing claimed with
  | nil => rfl
  | cons new rest ih =>
      unfold preserveHunks
      split
      · rw [List.map_cons, List.map_cons, ih]
      · split
        · rw [List.map_cons, List.map_cons, ih]
        · rw [List.map_cons, List.map_cons, ih]
          rfl

theorem placed_recomputed (diff : LineDiff) (nextId : HunkId) (path : Text) (state : FileHunkState)
    (current : FileContentState) (source : HunkSource) :
    WellPlaced diff path
      { state with
        currentContent := current
        hunks := preserveHunks state.hunks [] (diffHunks diff nextId path state.baseline current source) } :=
  .inl ((preserveHunks_place ..).trans (diffHunks_place ..))

theorem WellPlaced.none {diff : LineDiff} {path : Text} {state : FileHunkState} (none' : state.hunks = [])
    (same : diffHunks diff 0 path state.baseline state.currentContent .external = []) : WellPlaced diff path state :=
  .inl (by rw [none', same])

theorem diffHunks_same (diff : LineDiff) (nextId : HunkId) (path : Text) (content : FileContentState)
    (source : HunkSource) : diffHunks diff nextId path content content source = [] := by
  cases content with
  | full content => simp [diffHunks, computeHunks]
  | _ => rfl

theorem diffHunks_undiffable (diff : LineDiff) (nextId : HunkId) (path : Text) {baseline current : FileContentState}
    (undiffable : current.isDiffable = false) (there : baseline.isDiffable = true → current ≠ .missing)
    (source : HunkSource) : diffHunks diff nextId path baseline current source = [] := by
  cases current with
  | full content => cases undiffable
  | missing =>
      cases baseline with
      | full baseline => exact absurd rfl (there rfl)
      | _ => rfl
  | _ => cases baseline <;> rfl

theorem WellPlaced.short {diff : LineDiff} {path : Text} {state : FileHunkState} (placed : WellPlaced diff path state)
    (one : state.baseline = .missing ∨ state.currentContent = .missing) : state.hunks.length ≤ 1 := by
  rcases placed with same | ⟨none', -⟩
  · have lengths := congrArg List.length same
    rw [List.length_map, List.length_map] at lengths
    rw [lengths]
    unfold diffHunks
    rcases one with old | new
    · rw [old]
      split <;> simp_all
      split <;> simp
    · rw [new]
      split <;> simp_all
      split <;> simp
  · simp [none']

end Places

section Changes

def AllWellPlaced (diff : LineDiff) (actor : Actor) : Prop :=
  ∀ path state, actor.fileStates.lookup path = some state → WellPlaced diff path state

/-- Whose file it is, as the tracker knew it or a write of the agent says: with agent files only, none becomes another's. -/
structure Flagged (wrote : Text → Prop) (before : Actor) (path : Text) (agent : Bool) : Prop where
  given : agent = true →
    (∃ old, before.fileStates.lookup path = some old ∧ old.isAgentFile = true) ∨ wrote path
  kept : before.mode = .agentOnly → agent = false →
    ∃ old, before.fileStates.lookup path = some old ∧ old.isAgentFile = false

def Actor.setting (actor : Actor) : TrackingMode × Text := (actor.mode, actor.workingDir)

/-- What every operation but a switch of the mode, a move and a restore does at most. -/
structure Changes (diff : LineDiff) (wrote : Text → Prop) (before after : Actor) : Prop where
  setting : after.setting = before.setting
  grows : before.nextId ≤ after.nextId
  placed : AllWellPlaced diff before → AllWellPlaced diff after
  flags : ∀ path state, after.fileStates.lookup path = some state → Flagged wrote before path state.isAgentFile
  ids : ∀ path, ∀ hunk ∈ after.store path,
    (∃ old ∈ before.store path, old.id = hunk.id) ∨ before.nextId ≤ hunk.id ∧ hunk.id < after.nextId

variable {diff : LineDiff} {wrote : Text → Prop} {before middle after actor : Actor} {path : Text} {state : FileHunkState}

namespace Flagged

theorem same (found : before.fileStates.lookup path = some state) : Flagged wrote before path state.isAgentFile :=
  ⟨fun agent => .inl ⟨state, found, agent⟩, fun _ external => ⟨state, found, external⟩⟩

theorem written (wrote' : wrote path) : Flagged wrote before path true :=
  { given := fun _ => .inr wrote'
    kept := fun _ external => by cases external }

theorem external (allDirty : before.mode ≠ .agentOnly) : Flagged wrote before path false :=
  { given := fun agent => by cases agent
    kept := fun agentOnly _ => absurd agentOnly allDirty }

end Flagged

namespace Changes

theorem mode (changes : Changes diff wrote before after) : after.mode = before.mode := congrArg Prod.fst changes.setting

theorem workingDir (changes : Changes diff wrote before after) : after.workingDir = before.workingDir :=
  congrArg Prod.snd changes.setting

theorem refl (diff : LineDiff) (wrote : Text → Prop) (actor : Actor) : Changes diff wrote actor actor :=
  { setting := rfl
    grows := Nat.le_refl _
    placed := id
    flags := fun _ _ found => .same found
    ids := fun _ hunk member => .inl ⟨hunk, member, rfl⟩ }

theorem trans (first : Changes diff wrote before middle) (second : Changes diff wrote middle after) : Changes diff wrote before after :=
  { setting := second.setting.trans first.setting
    grows := first.grows.trans second.grows
    placed := fun placed => second.placed (first.placed placed)
    flags := fun path state found => by
      have flagged := second.flags path state found
      constructor
      · intro agent
        rcases flagged.given agent with ⟨old, found', agent'⟩ | wrote'
        · exact (first.flags path old found').given agent'
        · exact .inr wrote'
      · intro agentOnly external
        obtain ⟨old, found', external'⟩ := flagged.kept (first.mode.trans agentOnly) external
        exact (first.flags path old found').kept agentOnly external'
    ids := fun path hunk member => by
      rcases second.ids path hunk member with ⟨old, member', same⟩ | ⟨new, bound⟩
      · rcases first.ids path old member' with ⟨older, member'', same'⟩ | ⟨new, bound⟩
        · exact .inl ⟨older, member'', same'.trans same⟩
        · rw [same] at new bound
          exact .inr ⟨new, Nat.lt_of_lt_of_le bound second.grows⟩
      · exact .inr ⟨first.grows.trans new, bound⟩ }

theorem foldl {Item : Type} {act : Actor → Item → Actor} (each : ∀ current item, Changes diff wrote current (act current item))
    (items : List Item) (actor : Actor) : Changes diff wrote actor (items.foldl act actor) := by
  induction items generalizing actor with
  | nil => exact .refl diff wrote actor
  | cons item rest ih => exact (each actor item).trans (ih (act actor item))

theorem congr (changes : Changes diff wrote before middle) (states : after.fileStates = middle.fileStates)
    (setting : after.setting = middle.setting) (ids : after.nextId = middle.nextId) : Changes diff wrote before after := by
  have store : after.store = middle.store := by
    funext path
    rw [Actor.store, states, Actor.store]
  exact
    { setting := setting.trans changes.setting
      grows := ids ▸ changes.grows
      placed := fun placed path state found => changes.placed placed path state (states ▸ found)
      flags := fun path state found => changes.flags path state (states ▸ found)
      ids := fun path hunk member => by
        rw [store] at member
        rw [ids]
        exact changes.ids path hunk member }

theorem ofSame (states : after.fileStates = before.fileStates) (setting : after.setting = before.setting)
    (ids : after.nextId = before.nextId) : Changes diff wrote before after :=
  (Changes.refl diff wrote before).congr states setting ids

theorem sendEvents (changes : Changes diff wrote before after) (events : List HunkEvent) :
    Changes diff wrote before (after.sendEvents events) := changes.congr rfl rfl rfl

theorem supersede (changes : Changes diff wrote before after) (hunks : List Hunk) :
    Changes diff wrote before (after.supersede path hunks) := changes.congr rfl rfl rfl

theorem write (elsewhere : ∀ other, other ≠ path → after.fileStates.lookup other = before.fileStates.lookup other)
    (found : after.fileStates.lookup path = some state) (setting : after.setting = before.setting)
    (grows : before.nextId ≤ after.nextId) (placed : AllWellPlaced diff before → WellPlaced diff path state)
    (flagged : Flagged wrote before path state.isAgentFile)
    (ids : ∀ hunk ∈ state.hunks,
      (∃ old ∈ before.store path, old.id = hunk.id) ∨ before.nextId ≤ hunk.id ∧ hunk.id < after.nextId) :
    Changes diff wrote before after :=
  { setting := setting
    grows := grows
    placed := fun all other later found' => by
      by_cases here : other = path
      · subst here
        obtain rfl := Option.some.inj (found.symm.trans found')
        exact placed all
      · rw [elsewhere other here] at found'
        exact all other later found'
    flags := fun other later found' => by
      by_cases here : other = path
      · subst here
        obtain rfl := Option.some.inj (found.symm.trans found')
        exact flagged
      · rw [elsewhere other here] at found'
        exact .same found'
    ids := fun other hunk member => by
      by_cases here : other = path
      · subst here
        rw [Actor.store_eq found] at member
        exact ids hunk member
      · rw [Actor.store, elsewhere other here] at member
        exact .inl ⟨hunk, member, rfl⟩ }

theorem setState (placed : AllWellPlaced diff before → WellPlaced diff path state)
    (flagged : Flagged wrote before path state.isAgentFile)
    (ids : ∀ hunk ∈ state.hunks, ∃ old ∈ before.store path, old.id = hunk.id) :
    Changes diff wrote before (before.setState path state) :=
  .write (fun _ different => Actor.setState_lookup_ne different) (Actor.setState_lookup ..) rfl (Nat.le_refl _) placed
    flagged fun hunk member => .inl (ids hunk member)

theorem recompute
    (elsewhere : ∀ other, other ≠ path → middle.fileStates.lookup other = before.fileStates.lookup other)
    (found : middle.fileStates.lookup path = some state) (setting : middle.setting = before.setting)
    (same : middle.nextId = before.nextId) (flagged : Flagged wrote before path state.isAgentFile)
    (ids : ∀ hunk ∈ state.hunks, ∃ old ∈ before.store path, old.id = hunk.id)
    (newCurrent : Option FileContentState) (source : HunkSource) :
    Changes diff wrote before (middle.recomputeHunks diff path newCurrent source) := by
  have spec := recomputeHunks_spec found diff newCurrent source
  refine .write (fun other different => ?_) (Actor.recomputeHunks_lookup found diff newCurrent source) ?_ ?_
    (fun _ => placed_recomputed ..) flagged ?_
  · rw [Actor.recomputeHunks_lookup_ne different]
    exact elsewhere other different
  · simp only [Actor.recomputeHunks, found]
    exact setting
  · rw [spec.2.2, same]
    exact Nat.le_add_right _ _
  · intro hunk member
    rcases preserveHunks_ids (List.mem_map_of_mem member) with new | ⟨kept, -⟩
    · rw [diffHunks_ids, List.mem_range'_1, same] at new
      rw [spec.2.2, same]
      exact .inr new
    · obtain ⟨old, member', same'⟩ := List.mem_map.mp kept
      obtain ⟨older, member'', same''⟩ := ids old member'
      exact .inl ⟨older, member'', same''.trans same'⟩

theorem recomputeHunks (newCurrent : Option FileContentState) (source : HunkSource) :
    Changes diff wrote actor (actor.recomputeHunks diff path newCurrent source) := by
  cases found : actor.fileStates.lookup path with
  | none =>
      have untouched : actor.recomputeHunks diff path newCurrent source = actor := by simp [Actor.recomputeHunks, found]
      rw [untouched]
      exact .refl diff wrote actor
  | some state =>
      exact .recompute (fun _ _ => rfl) found rfl rfl (.same found)
        (fun hunk member => ⟨hunk, (Actor.store_eq found).symm ▸ member, rfl⟩) newCurrent source

theorem dropFile (path : Text) : Changes diff wrote actor (actor.dropFile path) := by
  unfold Actor.dropFile
  cases found : actor.fileStates.lookup path with
  | none => exact .refl diff wrote actor
  | some state =>
      have erased (other : Text) (later : FileHunkState) (found' : (actor.fileStates.erase path).lookup other = some later) :
          actor.fileStates.lookup other = some later := by
        by_cases here : other = path
        · rw [here, AList.lookup_erase] at found'
          cases found'
        · rwa [AList.lookup_erase_ne here] at found'
      exact
        { setting := rfl
          grows := Nat.le_refl _
          placed := fun placed other later found' => placed other later (erased other later found')
          flags := fun other later found' => .same (erased other later found')
          ids := fun other hunk member => by
            obtain ⟨later, found', member'⟩ := Actor.mem_store.mp member
            exact .inl ⟨hunk, Actor.mem_store.mpr ⟨later, erased other later found', member'⟩, rfl⟩ }

end Changes

variable {env : Env}

theorem ids_kept (found : actor.fileStates.lookup path = some state) (hunk : Hunk) (member : hunk ∈ state.hunks) :
    ∃ old ∈ actor.store path, old.id = hunk.id := ⟨hunk, (Actor.store_eq found).symm ▸ member, rfl⟩

theorem rewritten_changes {next : FileHunkState} (found : actor.fileStates.lookup path = some state)
    (states : middle.fileStates = (actor.setState path next).fileStates) (setting : middle.setting = actor.setting)
    (same : middle.nextId = actor.nextId) (flagged : Flagged wrote actor path next.isAgentFile)
    (within : next.hunks ⊆ state.hunks) (newCurrent : Option FileContentState) (source : HunkSource) :
    Changes diff wrote actor (middle.recomputeHunks diff path newCurrent source) := by
  have here : middle.fileStates.lookup path = some next := by
    rw [states]
    exact Actor.setState_lookup ..
  refine .recompute (fun other different => ?_) here setting same flagged
    (fun hunk member => ids_kept found hunk (within member)) _ _
  rw [states]
  exact Actor.setState_lookup_ne different

variable {baseline current : FileContentState}

theorem addFile_changes {isAgentFile : Bool}
    (nothing : diffHunks diff 0 path baseline current .external = []) (flagged : Flagged wrote actor path isAgentFile) :
    Changes diff wrote actor (actor.addFile path baseline current isAgentFile) :=
  (Changes.setState (fun _ => .none rfl nothing) flagged fun hunk member => by cases member).sendEvents _

theorem added_changes {isAgentFile : Bool}
    (flagged : Flagged wrote actor path isAgentFile) (newCurrent : Option FileContentState) (source : HunkSource) :
    Changes diff wrote actor ((actor.addFile path baseline current isAgentFile).recomputeHunks diff path newCurrent source) := by
  have here : (actor.addFile path baseline current isAgentFile).fileStates.lookup path = some
      { baseline := baseline
        currentContent := current
        hunks := []
        isAgentFile := isAgentFile
        baselineAccepted := false } := Actor.setState_lookup ..
  have elsewhere (other : Text) (different : other ≠ path) :
      (actor.addFile path baseline current isAgentFile).fileStates.lookup other = actor.fileStates.lookup other :=
    Actor.setState_lookup_ne different
  refine .recompute elsewhere here rfl rfl ?_ ?_ newCurrent source
  · exact flagged
  · intro hunk member
    cases member

theorem classifyString_there (content : Text) : classifyString content ≠ .missing := by
  intro same
  unfold classifyString at same
  split at same
  · cases same
  · split at same
    · cases same
    · split at same <;> cases same

theorem recordAgentWrite_changes (path content : Text) (promptIndex : Nat) (previousContent : Option Text) :
    Changes env.diff (· = path) actor (actor.recordAgentWrite env path content promptIndex previousContent) := by
  unfold Actor.recordAgentWrite
  simp only
  split
  · cases found : actor.fileStates.lookup path with
    | none => exact added_changes (@Flagged.written (· = path) actor path rfl) _ _
    | some state =>
        refine rewritten_changes found rfl rfl rfl ?_ ?_ _ _
        · exact .written rfl
        · exact List.Subset.refl _
  next undiffable =>
    have nothing (baseline : FileContentState) :
        diffHunks env.diff 0 path baseline (classifyString content) .external = [] :=
      diffHunks_undiffable _ _ _ (by simpa using undiffable) (fun _ => classifyString_there content) _
    cases found : actor.fileStates.lookup path with
    | none => exact addFile_changes (nothing _) (.written rfl)
    | some state => exact .setState (fun _ => .none rfl (nothing _)) (.written rfl) fun hunk member => by cases member

theorem processFileChange_changes (path : Text) (preloadedBaseline : Option FileContentState) :
    Changes env.diff wrote actor (actor.processFileChange env path preloadedBaseline) := by
  unfold Actor.processFileChange
  cases found : actor.fileStates.lookup path with
  | none =>
      simp only
      split
      · exact .refl env.diff wrote actor
      next allDirty =>
        split
        · exact .refl env.diff wrote actor
        · split
          · exact added_changes (.external allDirty) _ _
          next undiffable =>
            split
            · exact added_changes (.external allDirty) _ _
            next undiffable' =>
              refine addFile_changes (diffHunks_undiffable _ _ _ (by simpa using undiffable) ?_ _) (.external allDirty)
              exact fun diffable => absurd diffable undiffable'
  | some state =>
      simp only
      split
      · have flagged : Flagged wrote actor path state.isAgentFile := .same found
        exact .setState (fun _ => .none rfl (diffHunks_same ..)) flagged fun hunk member => by cases member
      · exact .recomputeHunks _ _

theorem handleFileChange_changes (path : Text) : Changes env.diff wrote actor (actor.handleFileChange env path) :=
  processFileChange_changes path none

theorem processFileChanges_changes (baselines : Text → Option FileContentState) (paths : List Text) :
    Changes env.diff wrote actor (Actor.processFileChanges env baselines paths actor) := by
  induction paths generalizing baselines actor with
  | nil => exact .refl env.diff wrote actor
  | cons path rest ih => exact (processFileChange_changes path (baselines path)).trans (ih _)

theorem handleFileChangesBatch_changes (paths : List Text) :
    Changes env.diff wrote actor (actor.handleFileChangesBatch env paths) := by
  unfold Actor.handleFileChangesBatch
  split
  · exact .refl env.diff wrote actor
  · exact processFileChanges_changes _ _

theorem handleFileDeleted_changes (path : Text) : Changes env.diff wrote actor (actor.handleFileDeleted env path) := by
  unfold Actor.handleFileDeleted
  split
  · split
    · exact handleFileChange_changes path
    · exact .recomputeHunks _ _
  · split
    · exact .refl env.diff wrote actor
    next allDirty =>
      split
      · exact .refl env.diff wrote actor
      · split
        · exact .refl env.diff wrote actor
        · exact added_changes (.external allDirty) _ _

theorem resetBaseline_changes (path : Text) : Changes diff wrote actor (actor.resetBaseline path) := by
  unfold Actor.resetBaseline
  cases found : actor.fileStates.lookup path with
  | none => exact .refl diff wrote actor
  | some state =>
      have reset : WellPlaced diff path { state with
          baseline := state.currentContent
          baselineAccepted := false
          hunks := [] } := .none rfl (diffHunks_same ..)
      have flagged : Flagged wrote actor path state.isAgentFile := .same found
      exact (Changes.supersede (.setState (fun _ => reset) flagged fun hunk member => by cases member) _).sendEvents _

theorem isClean_placed (clean : actor.isClean env path baseline current = true) (diff : LineDiff) :
    diffHunks diff 0 path baseline current .external = [] ∨ TakenForClean baseline current := by
  cases baseline with
  | full baseline =>
      cases current with
      | full current =>
          have same : stripSingleTrailingNewline baseline = stripSingleTrailingNewline current := by
            simpa [Actor.isClean] using clean
          exact .inr same
      | missing => cases clean
      | _ => exact .inl rfl
  | missing =>
      cases current with
      | full current => exact .inr trivial
      | _ => exact .inl rfl
  | _ => exact .inl rfl

theorem refreshPath_changes (path : Text) (baseline current : FileContentState) :
    Changes env.diff wrote actor (actor.refreshPath env path baseline current) := by
  unfold Actor.refreshPath
  cases found : actor.fileStates.lookup path with
  | none => exact .refl env.diff wrote actor
  | some state =>
      simp only
      split
      next clean =>
        split
        · have refreshed : WellPlaced env.diff path { state with
              baseline := baseline
              currentContent := current
              baselineAccepted := false
              hunks := [] } :=
            (isClean_placed clean env.diff).elim (fun nothing => .none rfl nothing) fun taken => .inr ⟨rfl, taken⟩
          have flagged : Flagged wrote actor path state.isAgentFile := .same found
          exact (Changes.supersede (.setState (fun _ => refreshed) flagged fun hunk member => by cases member) _).sendEvents _
        · exact .dropFile path
      · have flagged : Flagged wrote actor path state.isAgentFile := .same found
        refine Changes.sendEvents ?_ _
        refine rewritten_changes found rfl rfl rfl ?_ ?_ _ _
        · exact flagged
        · exact List.Subset.refl _

theorem refreshPaths_changes (paths : List Text) : Changes env.diff wrote actor (actor.refreshPaths env paths) :=
  .foldl (fun _ path => refreshPath_changes path _ _) paths actor

theorem refreshGitDirtyCache_changes : Changes env.diff wrote actor (actor.refreshGitDirtyCache env) := by
  unfold Actor.refreshGitDirtyCache
  cases env.gitStatus with
  | none => exact .refl env.diff wrote actor
  | some status =>
      obtain ⟨dirty, staged⟩ := status
      have cached : Changes env.diff wrote actor { actor with
          gitDirtyCache := dirty
          gitStagedCache := staged } := .ofSame rfl rfl rfl
      simp only
      split
      · exact cached.trans (.foldl (fun _ path => handleFileChange_changes _) _ _)
      · exact cached

theorem refreshAllBaselinesExcept_changes (skip : List Text) :
    Changes env.diff wrote actor (actor.refreshAllBaselinesExcept env skip) := by
  unfold Actor.refreshAllBaselinesExcept
  split
  · exact .refl env.diff wrote actor
  · split
    · exact .refl env.diff wrote actor
    · refine Changes.trans ?_ (refreshPaths_changes _)
      have synced : Changes env.diff wrote actor { actor with
          repoSyncState := env.repoSyncState.getD actor.repoSyncState } := .ofSame rfl rfl rfl
      refine synced.trans ?_
      unfold Actor.refreshScan
      split
      · exact refreshGitDirtyCache_changes
      · split
        · exact .ofSame rfl rfl rfl
        · exact refreshGitDirtyCache_changes

end Changes

section Actions

variable {diff : LineDiff} {wrote : Text → Prop} {actor counted : Actor} {env : Env} {path : Text} {state : FileHunkState}
  {hunks : List Hunk}

theorem dropHunks_ids (found : actor.fileStates.lookup path = some state) (ids : List HunkId) (hunk : Hunk)
    (member : hunk ∈ dropHunks state.hunks ids) : ∃ old ∈ actor.store path, old.id = hunk.id :=
  ids_kept found hunk (List.mem_of_mem_filter member)

theorem dropped_changes (hunks : List Hunk) {next : FileHunkState} (found : actor.fileStates.lookup path = some state)
    (agent : next.isAgentFile = state.isAgentFile) (left : next.hunks = dropHunks state.hunks (hunks.map Hunk.id))
    (none' : AllWellPlaced diff actor → next.hunks = []) (same : next.baseline = next.currentContent)
    (events : List HunkEvent) : Changes diff wrote actor ((actor.setState path next).sendEvents events) := by
  refine (Changes.setState (fun placed => .none (none' placed) ?_) ?_ ?_).sendEvents events
  · rw [same]
    exact diffHunks_same ..
  · rw [agent]
    exact .same found
  · rw [left]
    exact dropHunks_ids found _

theorem recomputed_changes (hunks : List Hunk) {next : FileHunkState} (found : actor.fileStates.lookup path = some state)
    (agent : next.isAgentFile = state.isAgentFile) (left : next.hunks = dropHunks state.hunks (hunks.map Hunk.id))
    (events : List HunkEvent) (current : FileContentState) :
    Changes env.diff wrote actor
      (((actor.setState path next).sendEvents events).recomputeRemaining env.diff path current) := by
  have states : ((actor.setState path next).sendEvents events).fileStates = (actor.setState path next).fileStates := rfl
  refine rewritten_changes found states rfl rfl ?_ ?_ _ _
  · rw [agent]
    exact .same found
  · rw [left]
    exact List.filter_subset_self _

theorem acceptHunksBatch_changes (stored : hunks ⊆ actor.store path) :
    Changes env.diff wrote actor (actor.acceptHunksBatch env path hunks) := by
  unfold Actor.acceptHunksBatch
  split
  · exact .refl env.diff wrote actor
  next some' =>
    cases found : actor.fileStates.lookup path with
    | none => exact .refl env.diff wrote actor
    | some state =>
        rw [Actor.store_eq found] at stored
        simp only
        split
        next created =>
          refine dropped_changes hunks found ?_ ?_ (fun placed => ?_) ?_ _
          · rfl
          · rfl
          · exact dropHunks_short ((placed path state found).short (.inl created)) some' stored
          · rfl
        · refine recomputed_changes hunks found ?_ ?_ _ _
          · rfl
          · rfl

theorem rejectHunksBatch_changes (stored : hunks ⊆ actor.store path) :
    Changes env.diff wrote actor (actor.rejectHunksBatch env path hunks).2 := by
  unfold Actor.rejectHunksBatch
  split
  · exact .refl env.diff wrote actor
  next some' =>
    cases found : actor.fileStates.lookup path with
    | none => exact .refl env.diff wrote actor
    | some state =>
        rw [Actor.store_eq found] at stored
        simp only
        split
        next deleted restored =>
          split
          · refine dropped_changes hunks found ?_ ?_ (fun placed => ?_) ?_ _
            · rfl
            · rfl
            · exact dropHunks_short ((placed path state found).short (.inr deleted)) some' stored
            · exact restored
          · exact .refl env.diff wrote actor
        next created =>
          split
          · refine dropped_changes hunks found ?_ ?_ (fun placed => ?_) ?_ _
            · rfl
            · rfl
            · exact dropHunks_short ((placed path state found).short (.inl created)) some' stored
            · exact created
          · exact .refl env.diff wrote actor
        · split
          · refine recomputed_changes hunks found ?_ ?_ _ _
            · rfl
            · rfl
          · exact .refl env.diff wrote actor
        · exact .refl env.diff wrote actor

theorem countHunks_setting (action : HunkAction) (hunks : List Hunk) (actor : Actor) :
    (hunks.foldl (fun actor hunk => actor.countHunk action hunk) actor).setting = actor.setting := by
  induction hunks generalizing actor with
  | nil => rfl
  | cons hunk rest ih => exact ih (actor.countHunk action hunk)

theorem actOnBatch_changes (action : HunkAction) (stored : hunks ⊆ actor.store path) :
    Changes env.diff wrote actor (actor.actOnBatch env action path hunks).2 := by
  obtain ⟨states, -, ids⟩ := countHunks_spec action hunks actor
  have counted : Changes env.diff wrote actor (hunks.foldl (fun actor hunk => actor.countHunk action hunk) actor) :=
    .ofSame states (countHunks_setting action hunks actor) ids
  have stored' : hunks ⊆ (hunks.foldl (fun actor hunk => actor.countHunk action hunk) actor).store path := by
    rw [Actor.store, states]
    exact stored
  cases action with
  | accept => exact counted.trans (acceptHunksBatch_changes stored')
  | reject => exact counted.trans (rejectHunksBatch_changes stored')

theorem applyActionBatch_changes (action : HunkAction) {files : List (Text × List Hunk)}
    (apart : (files.map Prod.fst).Nodup) (stored : ∀ file ∈ files, file.2 ⊆ actor.store file.1) :
    Changes env.diff wrote actor (actor.applyActionBatch env action files).2 := by
  induction files generalizing actor with
  | nil => exact .refl env.diff wrote actor
  | cons file rest ih =>
      obtain ⟨path, hunks⟩ := file
      simp only [List.map_cons, List.nodup_cons, List.mem_cons, forall_eq_or_imp] at apart stored
      have acted : Changes env.diff wrote actor (actor.actOnBatch env action path hunks).2 := actOnBatch_changes action stored.1
      have frame (other : Text) (different : other ≠ path) :
          (actor.actOnBatch env action path hunks).2.fileStates.lookup other = actor.fileStates.lookup other :=
        actOnBatch_lookup_ne action different
      unfold Actor.applyActionBatch
      cases result : actor.actOnBatch env action path hunks with
      | mk outcome after =>
          rw [result] at acted frame
          cases outcome with
          | error error => exact acted
          | ok done =>
              refine acted.trans (ih apart.2 fun file listed => ?_)
              have different : file.1 ≠ path := fun same => apart.1 (same ▸ List.mem_map_of_mem listed)
              rw [Actor.store, frame file.1 different]
              exact stored.2 file listed

theorem applyHunkAction_changes (id : HunkId) (action : HunkAction) :
    Changes env.diff wrote actor (actor.applyHunkAction env id action).2 := by
  unfold Actor.applyHunkAction
  cases found : actor.findHunk env id with
  | none => exact .refl env.diff wrote actor
  | some at' =>
      obtain ⟨path, hunk⟩ := at'
      have acted : Changes env.diff wrote actor (actor.actOnBatch env action path [hunk]).2 :=
        actOnBatch_changes action (by simpa using findHunk_some found)
      cases action with
      | accept => simpa only [Actor.actOnBatch, List.foldl, acceptHunk_eq_batch] using acted
      | reject => simpa only [Actor.actOnBatch, List.foldl, rejectHunk_eq_batch] using acted

theorem applyFileAction_changes (path : Text) (action : HunkAction) :
    Changes env.diff wrote actor (actor.applyFileAction env path action).2 := by
  unfold Actor.applyFileAction
  cases found : actor.fileStates.lookup path with
  | none => exact .refl env.diff wrote actor
  | some state =>
      simp only
      split
      · exact .refl env.diff wrote actor
      · refine applyActionBatch_changes action (by simp) fun file member => ?_
        rw [List.mem_singleton.mp member, Actor.store_eq found]
        exact List.Subset.refl _

theorem filesWithHunks_entries (actor : Actor) (env : Env) (keep : Hunk → Bool) :
    ((actor.filesWithHunks env keep).map Prod.fst).Nodup ∧
      ∀ file ∈ actor.filesWithHunks env keep, file.2 ⊆ actor.store file.1 := by
  have entries (path : Text) (file : Text × List Hunk) (selected : ((actor.fileStates.lookup path).bind fun state =>
      if state.hunks.filter keep = [] then none else some (path, state.hunks.filter keep)) = some file) :
        file.1 = path ∧ file.2 ⊆ actor.store path := by
    cases present : actor.fileStates.lookup path with
    | none => simp [present] at selected
    | some state =>
        simp only [present, Option.bind_some, Option.ite_none_left_eq_some, Option.some.injEq] at selected
        rw [← selected.2, Actor.store_eq present]
        exact ⟨rfl, List.filter_subset_self _⟩
  constructor
  · have nodup : (env.order actor.fileStates.keys).Nodup :=
      (env.orderPerm _).nodup_iff.mpr actor.fileStates.keys_nodup
    rw [Actor.filesWithHunks, List.map_filterMap]
    apply nodup.filterMap
    intro path other shared first second
    obtain ⟨file, selected, rfl⟩ := Option.map_eq_some_iff.mp first
    obtain ⟨file', selected', same⟩ := Option.map_eq_some_iff.mp second
    rw [← (entries path file selected).1, ← (entries other file' selected').1, same]
  · intro file member
    obtain ⟨path, -, selected⟩ := List.mem_filterMap.mp member
    obtain ⟨same, within⟩ := entries path file selected
    exact same ▸ within

theorem actOnFiles_changes (action : HunkAction) (keep : Hunk → Bool) :
    Changes env.diff wrote actor (actor.applyActionBatch env action (actor.filesWithHunks env keep)).2 :=
  applyActionBatch_changes action (filesWithHunks_entries actor env keep).1 (filesWithHunks_entries actor env keep).2

end Actions

section Switches

variable {diff : LineDiff} {wrote : Text → Prop} {actor : Actor} {env : Env}

theorem dropFile_lookup (actor : Actor) (path other : Text) :
    (actor.dropFile path).fileStates.lookup other = if other = path then none else actor.fileStates.lookup other := by
  by_cases here : other = path
  · subst here
    rw [if_pos rfl, Actor.dropFile]
    cases found : actor.fileStates.lookup other with
    | none => exact found
    | some state => exact AList.lookup_erase ..
  · rw [if_neg here, Actor.dropFile]
    cases found : actor.fileStates.lookup path with
    | none => rfl
    | some state => exact AList.lookup_erase_ne here

theorem dropFiles_lookup (paths : List Text) (actor : Actor) (other : Text) :
    (paths.foldl Actor.dropFile actor).fileStates.lookup other =
      if other ∈ paths then none else actor.fileStates.lookup other := by
  induction paths generalizing actor with
  | nil => simp
  | cons path rest ih =>
      rw [List.foldl_cons, ih, dropFile_lookup]
      by_cases here : other = path
      · simp [here]
      · simp [here]

def OnlyAgents (actor : Actor) : Prop :=
  actor.mode = .agentOnly → ∀ path state, actor.fileStates.lookup path = some state → state.isAgentFile = true

theorem Changes.onlyAgents {before after : Actor} (changes : Changes diff wrote before after) (only : OnlyAgents before) :
    OnlyAgents after := by
  intro agentOnly path state found
  have mode := changes.mode.symm.trans agentOnly
  cases case : state.isAgentFile with
  | true => rfl
  | false =>
      obtain ⟨old, found', external⟩ := (changes.flags path state found).kept mode case
      rw [only mode path old found'] at external
      cases external

theorem setMode_changes (mode : TrackingMode) :
    Changes env.diff (fun _ => False) { actor with mode := mode } (actor.setMode env mode) := by
  unfold Actor.setMode
  simp only
  split
  · exact refreshGitDirtyCache_changes
  · exact .foldl (fun _ path => .dropFile path) _ _
  · exact .refl env.diff _ _

theorem setMode_onlyAgents (only : OnlyAgents actor) (mode : TrackingMode) : OnlyAgents (actor.setMode env mode) := by
  intro agentOnly path state found
  have same : (actor.setMode env mode).mode = mode := (setMode_changes mode).mode
  obtain rfl := same.symm.trans agentOnly
  cases before : actor.mode with
  | agentOnly =>
      simp only [Actor.setMode, before] at found
      exact only before path state found
  | allDirty =>
      -- What is not an agent's has been dropped.
      simp only [Actor.setMode, before, dropFiles_lookup, Option.ite_none_left_eq_some] at found
      obtain ⟨kept, found⟩ := found
      cases case : state.isAgentFile with
      | true => rfl
      | false =>
          refine absurd (List.mem_filter.mpr ⟨?_, ?_⟩) kept
          · rw [(env.orderPerm _).mem_iff]
            exact AList.lookup_isSome.mp (by rw [found]; rfl)
          · simp [found, case]

def Retired (id : HunkId) (actor : Actor) : Prop :=
  id < actor.nextId ∧ ∀ path, ∀ hunk ∈ actor.store path, hunk.id ≠ id

theorem Changes.retired {before after : Actor} (changes : Changes diff wrote before after) {id : HunkId}
    (retired : Retired id before) : Retired id after := by
  refine ⟨Nat.lt_of_lt_of_le retired.1 changes.grows, fun path hunk member same => ?_⟩
  rcases changes.ids path hunk member with ⟨old, member', same'⟩ | ⟨new, -⟩
  · exact retired.2 path old member' (same'.trans same)
  · rw [same] at new
    exact absurd retired.1 (Nat.not_lt.mpr new)

end Switches

section Moves

variable {diff : LineDiff} {states : FileStates} {old newCwd : Text}

theorem diffHunks_moved (diff : LineDiff) (nextId : HunkId) (path other : Text) (baseline current : FileContentState)
    (source : HunkSource) :
    (diffHunks diff nextId path baseline current source).map (fun hunk => { hunk with path := other }) =
      diffHunks diff nextId other baseline current source := by
  unfold diffHunks
  split
  · unfold computeHunks
    split
    · rfl
    · split
      · rfl
      · split
        · rfl
        · apply List.ext_getElem
          · simp
          · intro index _ _
            simp [build]
  · split <;> rfl
  · split <;> rfl
  · rfl

theorem WellPlaced.rekey {path : Text} {state : FileHunkState} (placed : WellPlaced diff path state) (newPath : Text) :
    WellPlaced diff newPath (rekeyState state newPath) := by
  rcases placed with same | ⟨none', clean⟩
  · refine .inl ?_
    have moved : ∀ hunks : List Hunk, (hunks.map fun hunk => { hunk with path := newPath }).map Hunk.place =
        (hunks.map Hunk.place).map fun place => (newPath, place.2) := by
      intro hunks
      rw [List.map_map, List.map_map]
      rfl
    simp only [rekeyState, moved, same]
    rw [← diffHunks_moved diff 0 path newPath, moved]
  · exact .inr ⟨by simp [rekeyState, none'], clean⟩

theorem rekeyFile_lookup (next : FileStates) {path : Text} {state : FileHunkState} (found : states.lookup path = some state)
    (other : Text) :
    (rekeyFile states old newCwd next path).lookup other =
      if other = rewrite old newCwd path then
        some (match next.lookup other with
          | none => rekeyState state other
          | some dest => mergeState dest (rekeyState state other))
      else next.lookup other := by
  by_cases here : other = rewrite old newCwd path
  · subst here
    simp only [rekeyFile, found, if_true]
    cases next.lookup (rewrite old newCwd path) with
    | none => exact AList.lookup_insert _
    | some dest => exact AList.lookup_insert _
  · simp only [rekeyFile, found, if_neg here]
    cases next.lookup (rewrite old newCwd path) with
    | none => exact AList.lookup_insert_ne here
    | some dest => exact AList.lookup_insert_ne here

/-- A moved file is an agent's when one of those it came from is, and has their hunks. -/
def MovedFrom (states : FileStates) (old newCwd : Text) (next : FileStates) : Prop :=
  ∀ path state, next.lookup path = some state →
    ((∀ other before, states.lookup other = some before → before.isAgentFile = true) → state.isAgentFile = true) ∧
      (state.isAgentFile = true → ∃ other before, states.lookup other = some before ∧ before.isAgentFile = true ∧
        rewrite old newCwd other = path) ∧
      ∀ hunk ∈ state.hunks, ∃ other before, states.lookup other = some before ∧ ∃ hunk' ∈ before.hunks, hunk'.id = hunk.id

theorem MovedFrom.rekeyFile {next : FileStates} (moved : MovedFrom states old newCwd next) (path : Text) :
    MovedFrom states old newCwd (rekeyFile states old newCwd next path) := by
  cases found : states.lookup path with
  | none => simpa only [HunkTracker.rekeyFile, found] using moved
  | some state =>
      have rekeyed (newPath : Text) (hunk : Hunk) (member : hunk ∈ (rekeyState state newPath).hunks) :
          ∃ other before, states.lookup other = some before ∧ ∃ hunk' ∈ before.hunks, hunk'.id = hunk.id := by
        obtain ⟨hunk', member', rfl⟩ := List.mem_map.mp member
        exact ⟨path, state, found, hunk', member', rfl⟩
      intro other later found'
      rw [rekeyFile_lookup next found] at found'
      by_cases here : other = rewrite old newCwd path
      · rw [if_pos here] at found'
        cases before : next.lookup other with
        | none =>
            rw [before] at found'
            obtain rfl := Option.some.inj found'
            exact ⟨fun agents => agents path state found, fun agent => ⟨path, state, found, agent, here.symm⟩,
              rekeyed other⟩
        | some dest =>
            rw [before] at found'
            obtain rfl := Option.some.inj found'
            obtain ⟨agents, origin, ids⟩ := moved other dest before
            refine ⟨fun all => by simp [mergeState, agents all], fun agent => ?_, fun hunk member => ?_⟩
            · rcases (Bool.or_eq_true _ _).mp agent with first | second
              · exact origin first
              · exact ⟨path, state, found, second, here.symm⟩
            · rcases List.mem_append.mp member with first | second
              · exact ids hunk first
              · exact rekeyed other hunk second
      · rw [if_neg here] at found'
        exact moved other later found'

theorem rekeyFiles_moved (paths : List Text) (next : FileStates) (moved : MovedFrom states old newCwd next) :
    MovedFrom states old newCwd (paths.foldl (rekeyFile states old newCwd) next) := by
  induction paths generalizing next with
  | nil => exact moved
  | cons path rest ih => exact ih _ (moved.rekeyFile path)

theorem placed_rekeyed (placed : ∀ path state, states.lookup path = some state → WellPlaced diff path state)
    (apart : ∀ path other, (states.lookup path).isSome → (states.lookup other).isSome →
      rewrite old newCwd path = rewrite old newCwd other → path = other) (paths : List Text) (once : paths.Nodup)
    (present : ∀ path ∈ paths, (states.lookup path).isSome) (next : FileStates)
    (done : ∀ path state, next.lookup path = some state → WellPlaced diff path state)
    (came : ∀ path, (next.lookup path).isSome → ∃ origin, (states.lookup origin).isSome ∧
      rewrite old newCwd origin = path ∧ origin ∉ paths) :
    ∀ path state, (paths.foldl (rekeyFile states old newCwd) next).lookup path = some state →
      WellPlaced diff path state := by
  induction paths generalizing next with
  | nil => exact done
  | cons path rest ih =>
      rw [List.nodup_cons] at once
      obtain ⟨state, found⟩ := Option.isSome_iff_exists.mp (present path List.mem_cons_self)
      -- Nothing has moved to the new path of this file yet.
      have vacant : next.lookup (rewrite old newCwd path) = none := by
        by_contra taken
        obtain ⟨origin, known, same, unseen⟩ := came _ (Option.isSome_iff_ne_none.mpr taken)
        have one := apart origin path known (by rw [found]; rfl) same
        exact unseen (one ▸ List.mem_cons_self)
      refine ih once.2 (fun other member => present other (List.mem_cons_of_mem _ member)) _ ?_ ?_
      · intro other later found'
        rw [rekeyFile_lookup next found] at found'
        by_cases here : other = rewrite old newCwd path
        · subst here
          rw [if_pos rfl, vacant] at found'
          obtain rfl := Option.some.inj found'
          exact (placed path state found).rekey _
        · rw [if_neg here] at found'
          exact done other later found'
      · intro other later
        rw [rekeyFile_lookup next found] at later
        by_cases here : other = rewrite old newCwd path
        · exact ⟨path, by rw [found]; rfl, here.symm, once.1⟩
        · rw [if_neg here] at later
          obtain ⟨origin, known, same, unseen⟩ := came other later
          exact ⟨origin, known, same, fun member => unseen (List.mem_cons_of_mem _ member)⟩

theorem rekey_order (actor : Actor) (env : Env) (newCwd : Text) :
    let parted := (env.order actor.fileStates.keys).partition (startsWith · newCwd)
    (parted.1 ++ parted.2).Nodup ∧ ∀ path ∈ parted.1 ++ parted.2, (actor.fileStates.lookup path).isSome := by
  intro parted
  have both : (parted.1 ++ parted.2).Perm actor.fileStates.keys := by
    simp only [parted, List.partition_eq_filter_filter]
    exact (List.filter_append_perm _ _).trans (env.orderPerm _)
  refine ⟨both.nodup_iff.mpr actor.fileStates.keys_nodup, fun path member => ?_⟩
  exact AList.lookup_isSome.mpr (both.mem_iff.mp member)

theorem rewrite_same (dir path : Text) : rewrite dir dir path = path := by
  unfold rewrite rewriteSinglePath startsWith
  cases PathText.stripPrefix path dir <;> rfl

theorem setWorkingDir_moved (actor : Actor) (env : Env) (workingDir : Text) :
    MovedFrom actor.fileStates actor.workingDir workingDir (actor.setWorkingDir env workingDir).fileStates := by
  simp only [Actor.setWorkingDir, Actor.rekeyPathsForWorkingDir]
  split
  next same =>
    rw [same]
    exact fun path state found => ⟨fun all => all path state found,
      fun agent => ⟨path, state, found, agent, rewrite_same _ _⟩,
      fun hunk member => ⟨path, state, found, hunk, member, rfl⟩⟩
  · exact rekeyFiles_moved _ _ fun path state found => by cases found

theorem setWorkingDir_same (actor : Actor) (env : Env) (workingDir : Text) :
    (actor.setWorkingDir env workingDir).mode = actor.mode ∧
      (actor.setWorkingDir env workingDir).nextId = actor.nextId := by
  simp only [Actor.setWorkingDir, Actor.rekeyPathsForWorkingDir]
  split <;> exact ⟨rfl, rfl⟩

def MovesApart (actor : Actor) (workingDir : Text) : Prop :=
  ∀ path other, (actor.fileStates.lookup path).isSome → (actor.fileStates.lookup other).isSome →
    rewrite actor.workingDir workingDir path = rewrite actor.workingDir workingDir other → path = other

theorem setWorkingDir_placed {actor : Actor} (placed : AllWellPlaced diff actor) (env : Env) {workingDir : Text}
    (apart : MovesApart actor workingDir) : AllWellPlaced diff (actor.setWorkingDir env workingDir) := by
  simp only [Actor.setWorkingDir, Actor.rekeyPathsForWorkingDir]
  split
  · exact placed
  · obtain ⟨once, present⟩ := rekey_order actor env workingDir
    exact placed_rekeyed placed apart _ once present ∅ (fun _ _ found => by cases found)
      fun _ found => by cases found

end Moves

section Coalescing

def pathNotices (path : Text) (messages : List (Env × HunkTrackerCommand)) : List CoalescedPathAction :=
  messages.filterMap fun message =>
    match message.2 with
    | .handleFileChange changed => if changed = path then some .changed else none
    | .handleFileDeleted deleted => if deleted = path then some .deleted else none
    | _ => none

def mergedNotice (notices : List CoalescedPathAction) : Option CoalescedPathAction :=
  notices.getLast?.map fun last =>
    if last = .deleted then .deleted
    else if .deleted ∈ notices then .deletedThenChanged
    else .changed

theorem mergedNotice_deleted (notices : List CoalescedPathAction) :
    mergedNotice (notices ++ [.deleted]) = some .deleted := by
  simp [mergedNotice]

theorem mergedNotice_changed {notices : List CoalescedPathAction}
    (plain : ∀ notice ∈ notices, notice = .changed ∨ notice = .deleted) :
    mergedNotice (notices ++ [.changed]) = some (CoalescedBatch.changeAction (mergedNotice notices)) := by
  rcases List.eq_nil_or_concat notices with rfl | ⟨earlier, last, rfl⟩
  · rfl
  · simp only [mergedNotice, List.getLast?_concat, Option.map_some, List.mem_append, List.mem_singleton]
    rcases plain last (by simp) with changed | deleted
    · by_cases before : CoalescedPathAction.deleted ∈ earlier
      · simp [changed, before, CoalescedBatch.changeAction]
      · simp [changed, before, CoalescedBatch.changeAction]
    · simp [deleted, CoalescedBatch.changeAction]

theorem pathNotices_plain (path : Text) (messages : List (Env × HunkTrackerCommand)) :
    ∀ notice ∈ pathNotices path messages, notice = .changed ∨ notice = .deleted := by
  intro notice member
  obtain ⟨message, -, same⟩ := List.mem_filterMap.mp member
  split at same <;> simp_all

/-- Whatever waits in the channel, the batch has one action for every path that was named, the summary of its notices,
and all the other commands in their order. -/
theorem coalesced_batch_is_exact (messages : List (Env × HunkTrackerCommand)) :
    let batch := drainAndCoalesce messages
    (∀ path, batch.fileActions.get path = mergedNotice (pathNotices path messages)) ∧
      batch.fileActions.keys.Nodup ∧
      batch.otherCommands = messages.filter (fun message => !isCoalescable message.2) ∧
      (batch.refreshAll = messages.any fun message => message.2 matches .refreshAllBaselines) ∧
      (batch.refreshDirty = messages.any fun message => message.2 matches .refreshGitDirtyCache) ∧
      batch.commandCount = messages.length := by
  induction messages using List.reverseRecOn with
  | nil => exact ⟨fun _ => rfl, List.nodup_nil, rfl, rfl, rfl, rfl⟩
  | append_singleton earlier message ih =>
      obtain ⟨actions, once, others, all, dirty, count⟩ := ih
      have added : drainAndCoalesce (earlier ++ [message]) = (drainAndCoalesce earlier).add message := by
        simp [drainAndCoalesce]
      have notices (path : Text) : pathNotices path (earlier ++ [message]) =
          pathNotices path earlier ++ pathNotices path [message] := List.filterMap_append
      obtain ⟨env, command⟩ := message
      simp only [added, notices, List.filter_append, List.any_append, List.length_append, List.length_singleton]
      cases command with
      | handleFileChange changed =>
          refine ⟨fun path => ?_, InsertionMap.keys_set_nodup once _ _, ?_, ?_, ?_, ?_⟩
          · simp only [CoalescedBatch.add, InsertionMap.get_set]
            by_cases here : path = changed
            · subst here
              rw [if_pos rfl, actions]
              simpa [pathNotices] using (mergedNotice_changed (pathNotices_plain path earlier)).symm
            · have apart : ¬ changed = path := Ne.symm here
              rw [if_neg here, actions]
              simp [pathNotices, apart]
          all_goals simp [CoalescedBatch.add, others, all, dirty, count, isCoalescable]
      | handleFileDeleted deleted =>
          refine ⟨fun path => ?_, InsertionMap.keys_set_nodup once _ _, ?_, ?_, ?_, ?_⟩
          · simp only [CoalescedBatch.add, InsertionMap.get_set]
            by_cases here : path = deleted
            · subst here
              rw [if_pos rfl]
              simpa [pathNotices] using (mergedNotice_deleted (pathNotices path earlier)).symm
            · have apart : ¬ deleted = path := Ne.symm here
              rw [if_neg here, actions]
              simp [pathNotices, apart]
          all_goals simp [CoalescedBatch.add, others, all, dirty, count, isCoalescable]
      | _ =>
          refine ⟨fun path => ?_, once, ?_, ?_, ?_, ?_⟩
          · simpa [CoalescedBatch.add, pathNotices] using actions path
          all_goals simp [CoalescedBatch.add, others, all, dirty, count, isCoalescable]

end Coalescing

section Turns

variable {diff : LineDiff} {wrote : Text → Prop}

structure Keeps (diff : LineDiff) (Holds : Actor → Prop) (Allowed : Actor → Env × HunkTrackerCommand → Prop) : Prop where
  changes : ∀ {wrote : Text → Prop} {before after : Actor}, Changes diff wrote before after → Holds before → Holds after
  setMode : ∀ (actor : Actor) (env : Env) (mode : TrackingMode), env.diff = diff → Holds actor →
    Holds (actor.setMode env mode)
  setWorkingDir : ∀ (actor : Actor) (env : Env) (workingDir : Text), Allowed actor (env, .setWorkingDir workingDir) →
    Holds actor → Holds (actor.setWorkingDir env workingDir)
  restore : ∀ (actor : Actor) (env : Env) (snapshot : HunkTrackerSnapshot), Allowed actor (env, .restoreState snapshot) →
    Holds actor → Holds (actor.restoreSnapshot snapshot)

abbrev MessageAllowed (diff : LineDiff) (Allowed : Actor → Env × HunkTrackerCommand → Prop) (actor : Actor)
    (message : Env × HunkTrackerCommand) : Prop := message.1.diff = diff ∧ Allowed actor message

def TurnAllowed (diff : LineDiff) (Allowed : Actor → Env × HunkTrackerCommand → Prop) (actor : Actor) (turn : Turn) :
    Prop :=
  turn.surroundings.scan.diff = diff ∧ (∀ path, (turn.surroundings.file path).diff = diff) ∧
    turn.surroundings.rest.diff = diff ∧
    if isCoalescable turn.first.2 then
      let batch := drainAndCoalesce (turn.first :: turn.queued)
      Runs.Along Actor.handleMessage (MessageAllowed diff Allowed) (actor.handleFileActions turn.surroundings batch)
        batch.otherCommands
    else MessageAllowed diff Allowed actor turn.first

theorem beforeRefresh_changes (surroundings : BatchEnv) (same : ∀ path, (surroundings.file path).diff = diff)
    (actions : List (Text × CoalescedPathAction)) (reached : Actor × List Text) :
    Changes diff wrote reached.1 (actions.foldl (Actor.beforeRefresh surroundings) reached).1 := by
  induction actions generalizing reached with
  | nil => exact .refl diff wrote _
  | cons entry rest ih =>
      refine Changes.trans ?_ (ih _)
      obtain ⟨actor, processed⟩ := reached
      obtain ⟨path, action⟩ := entry
      have changed : Changes diff wrote actor (actor.handleFileChange (surroundings.file path) path) :=
        same path ▸ handleFileChange_changes path
      have deleted : Changes diff wrote actor (actor.handleFileDeleted (surroundings.file path) path) :=
        same path ▸ handleFileDeleted_changes path
      cases action <;> simp only [Actor.beforeRefresh] <;> split <;> first | exact .refl diff wrote _ | assumption

theorem handleDeletions_changes (surroundings : BatchEnv) (same : ∀ path, (surroundings.file path).diff = diff)
    (actions : List (Text × CoalescedPathAction)) (reached : Actor × List Text) :
    Changes diff wrote reached.1 (actions.foldl (Actor.handleDeletions surroundings) reached).1 := by
  induction actions generalizing reached with
  | nil => exact .refl diff wrote _
  | cons entry rest ih =>
      refine Changes.trans ?_ (ih _)
      obtain ⟨actor, processed⟩ := reached
      obtain ⟨path, action⟩ := entry
      have deleted : Changes diff wrote actor (actor.handleFileDeleted (surroundings.file path) path) :=
        same path ▸ handleFileDeleted_changes path
      cases action with
      | deleted => exact deleted
      | _ => exact .refl diff wrote _

theorem handleFileActions_changes (actor : Actor) (surroundings : BatchEnv) (batch : CoalescedBatch)
    (scan : surroundings.scan.diff = diff) (file : ∀ path, (surroundings.file path).diff = diff)
    (rest : surroundings.rest.diff = diff) : Changes diff wrote actor (actor.handleFileActions surroundings batch) := by
  have scanned : Changes diff wrote actor
      (if batch.refreshDirty && !batch.refreshAll then actor.refreshGitDirtyCache surroundings.scan else actor) := by
    split
    · exact scan ▸ refreshGitDirtyCache_changes
    · exact .refl diff wrote actor
  unfold Actor.handleFileActions
  simp only
  split
  · refine (scanned.trans (beforeRefresh_changes surroundings file (batch.actions surroundings.scan.order) (_, []))).trans ?_
    exact rest ▸ refreshAllBaselinesExcept_changes _
  · refine (scanned.trans (handleDeletions_changes surroundings file (batch.actions surroundings.scan.order) (_, []))).trans ?_
    exact rest ▸ handleFileChangesBatch_changes _

def isOrdinary : HunkTrackerCommand → Bool
  | .setMode _ | .setWorkingDir _ | .restoreState _ => false
  | _ => true

def wroteBy : HunkTrackerCommand → Text → Prop
  | .recordAgentWrite path _ _ _ => (· = path)
  | _ => fun _ => False

theorem handleMessage_changes (actor : Actor) (env : Env) (command : HunkTrackerCommand)
    (ordinary : isOrdinary command = true) :
    Changes env.diff (wroteBy command) actor (actor.handleMessage (env, command)) := by
  cases command with
  | recordAgentWrite path content promptIndex previousContent =>
      exact recordAgentWrite_changes path content promptIndex previousContent
  | handleFileChange path => exact handleFileChange_changes path
  | handleFileDeleted path => exact handleFileDeleted_changes path
  | refreshGitDirtyCache => exact refreshGitDirtyCache_changes
  | resetBaseline path => exact resetBaseline_changes path
  | hunkAction id action => exact applyHunkAction_changes id action
  | fileAction path action => exact applyFileAction_changes path action
  | allAction action => exact actOnFiles_changes action _
  | turnAction promptIndex action => exact actOnFiles_changes action _
  | resetStats => exact .ofSame rfl rfl rfl
  | refreshAllBaselines => exact refreshAllBaselinesExcept_changes []
  | setMode mode => cases ordinary
  | setWorkingDir workingDir => cases ordinary
  | restoreState snapshot => cases ordinary

namespace Keeps

variable {Holds : Actor → Prop} {Allowed : Actor → Env × HunkTrackerCommand → Prop}

theorem message (keeps : Keeps diff Holds Allowed) (actor : Actor) (message : Env × HunkTrackerCommand)
    (holds : Holds actor) (allowed : MessageAllowed diff Allowed actor message) : Holds (actor.handleMessage message) := by
  obtain ⟨env, command⟩ := message
  obtain ⟨same, permitted⟩ := allowed
  simp only at same
  subst same
  cases command with
  | setMode mode => exact keeps.setMode actor env mode rfl holds
  | setWorkingDir workingDir => exact keeps.setWorkingDir actor env workingDir permitted holds
  | restoreState snapshot => exact keeps.restore actor env snapshot permitted holds
  | _ => exact keeps.changes (handleMessage_changes actor env _ (by simp [isOrdinary])) holds

theorem turn (keeps : Keeps diff Holds Allowed) (actor : Actor) (turn : Turn) (holds : Holds actor)
    (allowed : TurnAllowed diff Allowed actor turn) : Holds (actor.turn turn) := by
  obtain ⟨scan, file, rest, allowed⟩ := allowed
  unfold Actor.turn
  cases coalescable : isCoalescable turn.first.2 with
  | true =>
      simp only [coalescable, if_true] at allowed ⊢
      exact Runs.along_invariant Actor.handleMessage keeps.message _ _
        (keeps.changes (@handleFileActions_changes _ (fun _ => False) actor _ _ scan file rest) holds) allowed
  | false =>
      simp only [coalescable, Bool.false_eq_true, if_false] at allowed ⊢
      exact keeps.message actor turn.first holds allowed

theorem run (keeps : Keeps diff Holds Allowed) (actor : Actor) (turns : List Turn) (holds : Holds actor)
    (allowed : Runs.Along Actor.turn (TurnAllowed diff Allowed) actor turns) : Holds (Runs.run Actor.turn actor turns) :=
  Runs.along_invariant Actor.turn keeps.turn actor turns holds allowed

end Keeps

theorem launch_changes (env : Env) (workingDir : Text) (mode : TrackingMode) :
    Changes env.diff (fun _ => False) (Actor.new workingDir mode) (Actor.launch env workingDir mode) := by
  cases mode with
  | allDirty => exact refreshGitDirtyCache_changes
  | agentOnly => exact .refl env.diff _ _

end Turns

section Runs

variable {diff : LineDiff}

/-- Moves do not merge files, and what is restored is as it should be. -/
def MovesAndRestores (diff : LineDiff) (actor : Actor) (message : Env × HunkTrackerCommand) : Prop :=
  match message.2 with
  | .setWorkingDir workingDir => MovesApart actor workingDir
  | .restoreState snapshot => ∀ path state, snapshot.fileStates.lookup path = some state → WellPlaced diff path state
  | _ => True

theorem keeps_placed (diff : LineDiff) : Keeps diff (AllWellPlaced diff) (MovesAndRestores diff) :=
  { changes := fun changes placed => changes.placed placed
    setMode := fun _ _ mode same placed => (same ▸ setMode_changes mode).placed placed
    setWorkingDir := fun _ env _ apart placed => setWorkingDir_placed placed env apart
    restore := fun _ _ _ snapshot _ => snapshot }

def single (env : Env) (command : HunkTrackerCommand) : Turn :=
  { surroundings :=
      { scan := env
        file := fun _ => env
        rest := env }
    first := (env, command)
    queued := [] }

variable {Allowed : Actor → Env × HunkTrackerCommand → Prop} {actor : Actor}

theorem single_allowed (env : Env)
    {command : HunkTrackerCommand} (alone : isCoalescable command = false) (allowed : Allowed actor (env, command)) :
    TurnAllowed env.diff Allowed actor (single env command) := by
  refine ⟨rfl, fun _ => rfl, rfl, ?_⟩
  simp only [single, alone, Bool.false_eq_true, if_false]
  exact ⟨rfl, allowed⟩

def plainEnv : Env := .blank .plain

def agentWrite : Turn := single plainEnv (.recordAgentWrite ['f'] ['b', '\n'] 0 (some ['a', '\n']))

theorem computed_of_wellPlaced {path baseline current : Text} {state : FileHunkState} (placed : WellPlaced diff path state)
    (shown : state.hunks ≠ []) (old : state.baseline = .full baseline) (new : state.currentContent = .full current) :
    Computed diff path state.hunks baseline current := by
  have same := placed.resolve_right fun clean => shown clean.1
  rw [old, new] at same
  have changes := congrArg (List.map fun place : Text × HunkLineInfo × Option Text × Text => place.2) same
  rw [List.map_map, List.map_map] at changes
  exact ⟨0, .external, changes⟩

/-- Whenever a text file shows hunks that count its lines, accepting them all makes its text the baseline and rejecting
them all brings the baseline back. -/
theorem shown_file_settles (env : Env) (workingDir : Text) (mode : TrackingMode) (turns : List Turn)
    (allowed : Runs.Along Actor.turn (TurnAllowed env.diff (MovesAndRestores env.diff))
      (.launch env workingDir mode) turns)
    {path baseline current : Text} (written : env.write path = true) {state : FileHunkState}
    (found : (Runs.run Actor.turn (.launch env workingDir mode) turns).fileStates.lookup path = some state)
    (shown : state.hunks ≠ []) (old : state.baseline = .full baseline) (new : state.currentContent = .full current)
    {script : List (LineEdit.Change Text)} (counted : CountsLines (diffBlocks env.diff baseline current) script baseline current)
    (invertible : Invertible script baseline current) :
    AcceptInverts env (Runs.run Actor.turn (.launch env workingDir mode) turns) path current ∧
      RejectInverts env (Runs.run Actor.turn (.launch env workingDir mode) turns) path baseline := by
  have start : AllWellPlaced env.diff (.launch env workingDir mode) :=
    (launch_changes env workingDir mode).placed fun path state found => by cases found
  have placed := (keeps_placed env.diff).run _ turns start allowed
  have computed := computed_of_wellPlaced (placed path state found) shown old new
  have diffed : Diffed env.diff baseline current := by
    by_contra undiffed
    exact shown (computed_none undiffed computed)
  have ordered : (diffBlocks env.diff baseline current).Pairwise LineEdit.Block.Before :=
    LineEdit.group_before (env.diff.changes baseline current) (LineEdit.openAt_none 1 1)
  rw [accept_iff found old new diffed computed shown, reject_iff found old new written diffed computed shown]
  exact (counted.inverts ordered ((computed_some diffed computed).not.mp shown)).mpr invertible

theorem shown_file_settles_after_write :
    AcceptInverts plainEnv (Runs.run Actor.turn (.launch plainEnv [] .agentOnly) [agentWrite]) ['f'] ['b', '\n'] ∧
      RejectInverts plainEnv (Runs.run Actor.turn (.launch plainEnv [] .agentOnly) [agentWrite]) ['f']
        ['a', '\n'] := by
  have keepsNothing : ∀ script : List (LineEdit.Change Text), (∀ line, .equal line ∉ script) → ¬ Emptied script := by
    intro script nothing ⟨inserted, deleted, shape⟩
    exact nothing [] (by simp [shape])
  have found : (Runs.run Actor.turn (.launch plainEnv [] .agentOnly) [agentWrite]).fileStates.lookup ['f'] = some
      { baseline := .full ['a', '\n']
        currentContent := .full ['b', '\n']
        hunks := computeHunks .plain 0 ['f'] ['a', '\n'] ['b', '\n'] (.agentEdit 0)
        isAgentFile := true
        baselineAccepted := false } := by decide +kernel
  have leads : ScriptOf (LineDiff.plain.changes ['a', '\n'] ['b', '\n']) ['a', '\n'] ['b', '\n'] :=
    ⟨LineDiff.plain_lawful.oldSide _ _, LineDiff.plain_lawful.newSide _ _⟩
  refine shown_file_settles plainEnv [] .agentOnly [agentWrite] ⟨single_allowed plainEnv rfl trivial, trivial⟩
    rfl found (by decide +kernel) rfl rfl leads.counted ?_
  exact ⟨by decide, by decide, by decide, by decide, by decide,
    keepsNothing _ (by simp [LineDiff.plain, Text.splitInclusive, lineByLine, LineEdit.Change.map]),
    keepsNothing _ (by simp [LineDiff.plain, Text.splitInclusive, lineByLine, LineEdit.Change.map,
      LineEdit.Change.flip])⟩

/-- A restore brings no file that no agent wrote to a tracker of agent files. -/
def AgentRestores (actor : Actor) (message : Env × HunkTrackerCommand) : Prop :=
  match message.2 with
  | .restoreState snapshot => actor.mode = .agentOnly →
      ∀ path state, snapshot.fileStates.lookup path = some state → state.isAgentFile = true
  | _ => True

theorem keeps_onlyAgents (diff : LineDiff) : Keeps diff OnlyAgents AgentRestores :=
  { changes := fun changes only => changes.onlyAgents only
    setMode := fun _ _ mode _ only => setMode_onlyAgents only mode
    setWorkingDir := fun actor env workingDir _ only agentOnly path state found =>
      (setWorkingDir_moved actor env workingDir path state found).1
        (only ((setWorkingDir_same actor env workingDir).1.symm.trans agentOnly))
    restore := fun _ _ _ snapshot _ agentOnly => snapshot agentOnly }

/-- What the commands say of the agent's files: the working directory, and the paths that the agent wrote. -/
structure Authorship where
  workingDir : Text
  written : Set Text

def Authorship.command (known : Authorship) : HunkTrackerCommand → Authorship
  | .recordAgentWrite path _ _ _ => { known with written := insert path known.written }
  | .setWorkingDir workingDir =>
      { workingDir
        written := {path | ∃ origin ∈ known.written, rewrite known.workingDir workingDir origin = path} }
  | .restoreState snapshot =>
      { known with
        written := {path | ∃ state, snapshot.fileStates.lookup path = some state ∧ state.isAgentFile = true} }
  | _ => known

def Turn.commands (turn : Turn) : List HunkTrackerCommand :=
  if isCoalescable turn.first.2 then (turn.first :: turn.queued).map Prod.snd else [turn.first.2]

def authorship (workingDir : Text) (turns : List Turn) : Authorship :=
  (turns.flatMap Turn.commands).foldl Authorship.command { workingDir, written := ∅ }

structure Authored (known : Authorship) (actor : Actor) : Prop where
  workingDir : actor.workingDir = known.workingDir
  written : ∀ path state, actor.fileStates.lookup path = some state → state.isAgentFile = true → path ∈ known.written

theorem Changes.authored {wrote : Text → Prop} {before after : Actor} {known next : Authorship}
    (changes : Changes diff wrote before after) (authored : Authored known before)
    (workingDir : next.workingDir = known.workingDir) (grows : known.written ⊆ next.written)
    (within : ∀ path, wrote path → path ∈ next.written) : Authored next after := by
  refine ⟨(changes.workingDir.trans authored.workingDir).trans workingDir.symm, fun path state found agent => ?_⟩
  rcases (changes.flags path state found).given agent with ⟨old, found', agent'⟩ | wrote'
  · exact grows (authored.written path old found' agent')
  · exact within path wrote'

variable {known : Authorship}

theorem authored_message (authored : Authored known actor)
    (message : Env × HunkTrackerCommand) : Authored (known.command message.2) (actor.handleMessage message) := by
  obtain ⟨env, command⟩ := message
  cases command with
  | recordAgentWrite path content promptIndex previousContent =>
      exact (recordAgentWrite_changes path content promptIndex previousContent).authored authored rfl
        (Set.subset_insert _ _) fun other same => same ▸ Set.mem_insert _ _
  | setMode mode =>
      have switched : Authored known { actor with mode := mode } := ⟨authored.workingDir, authored.written⟩
      exact (setMode_changes mode).authored switched rfl (Set.Subset.refl _) fun _ none' => none'.elim
  | setWorkingDir workingDir =>
      refine ⟨rfl, fun path state found agent => ?_⟩
      obtain ⟨origin, before, found', agent', moved⟩ :=
        (setWorkingDir_moved actor env workingDir path state found).2.1 agent
      exact ⟨origin, authored.written origin before found' agent', authored.workingDir ▸ moved⟩
  | restoreState snapshot =>
      exact ⟨authored.workingDir, fun path state found agent => ⟨state, found, agent⟩⟩
  | _ =>
      exact (handleMessage_changes actor env _ (by simp [isOrdinary])).authored authored rfl (Set.Subset.refl _)
        fun _ none' => none'.elim

theorem drained_authorship (known : Authorship) (messages : List (Env × HunkTrackerCommand)) :
    (messages.map Prod.snd).foldl Authorship.command known =
      ((drainAndCoalesce messages).otherCommands.map Prod.snd).foldl Authorship.command known := by
  induction messages using List.reverseRecOn with
  | nil => rfl
  | append_singleton earlier message ih =>
      have added : drainAndCoalesce (earlier ++ [message]) = (drainAndCoalesce earlier).add message := by
        simp [drainAndCoalesce]
      obtain ⟨env, command⟩ := message
      rw [added, List.map_append, List.foldl_append, ih]
      cases command <;> simp [CoalescedBatch.add, Authorship.command]

theorem authored_messages (authored : Authored known actor)
    (messages : List (Env × HunkTrackerCommand)) :
    Authored ((messages.map Prod.snd).foldl Authorship.command known) (messages.foldl Actor.handleMessage actor) := by
  induction messages generalizing known actor with
  | nil => exact authored
  | cons message rest ih => exact ih (authored_message authored message)

theorem authored_turn
    (authored : Authored known actor) (turn : Turn) (allowed : TurnAllowed diff Allowed actor turn) :
    Authored (turn.commands.foldl Authorship.command known) (actor.turn turn) := by
  obtain ⟨scan, file, rest, -⟩ := allowed
  unfold Actor.turn Turn.commands
  cases coalescable : isCoalescable turn.first.2 with
  | true =>
      simp only [if_true]
      rw [drained_authorship]
      have acted := @handleFileActions_changes _ (fun _ => False) actor turn.surroundings
        (drainAndCoalesce (turn.first :: turn.queued)) scan file rest
      exact authored_messages (acted.authored authored rfl (Set.Subset.refl _) fun _ none' => none'.elim) _
  | false =>
      simp only [Bool.false_eq_true, if_false]
      exact authored_message authored turn.first

theorem authored_run (authored : Authored known actor) (turns : List Turn)
    (allowed : Runs.Along Actor.turn (TurnAllowed diff Allowed) actor turns) :
    Authored ((turns.flatMap Turn.commands).foldl Authorship.command known) (Runs.run Actor.turn actor turns) := by
  induction turns generalizing known actor with
  | nil => exact authored
  | cons turn rest ih =>
      rw [List.flatMap_cons, List.foldl_append]
      exact ih (authored_turn authored turn allowed.1) allowed.2

/--
The tracker takes no file for the agent's but those that the commands say it wrote, and in the mode for agent files it
tracks no other, whatever mode came before.
-/
theorem agent_mode_tracks_agent_files (env : Env) (workingDir : Text) (mode : TrackingMode) (turns : List Turn)
    (allowed : Runs.Along Actor.turn (TurnAllowed env.diff AgentRestores) (.launch env workingDir mode) turns) :
    let actor := Runs.run Actor.turn (.launch env workingDir mode) turns
    (∀ path state, actor.fileStates.lookup path = some state → state.isAgentFile = true →
      path ∈ (authorship workingDir turns).written) ∧
    (actor.mode = .agentOnly → ∀ path, (actor.fileStates.lookup path).isSome → path ∈ (authorship workingDir turns).written) := by
  intro actor
  have launched : Authored { workingDir, written := ∅ } (Actor.launch env workingDir mode) := by
    refine (launch_changes env workingDir mode).authored ⟨rfl, ?_⟩ rfl (Set.Subset.refl _) fun _ none' => none'.elim
    intro path state found
    cases found
  have only : OnlyAgents actor := by
    refine (keeps_onlyAgents env.diff).run _ turns ((launch_changes env workingDir mode).onlyAgents ?_) allowed
    intro _ path state found
    cases found
  have authored := (authored_run launched turns allowed).written
  refine ⟨authored, fun agentOnly path tracked => ?_⟩
  obtain ⟨state, found⟩ := Option.isSome_iff_exists.mp tracked
  exact authored path state found (only agentOnly path state found)

theorem agent_mode_tracks_two_writes :
    let notice : Turn :=
      { single plainEnv (.handleFileChange ['g']) with
        queued := [(plainEnv, .recordAgentWrite ['h'] ['x'] 0 none)] }
    let turns := [agentWrite, notice, single plainEnv (.setMode .agentOnly)]
    ∀ path, ((Runs.run Actor.turn (.launch plainEnv [] .allDirty) turns).fileStates.lookup path).isSome →
      path = ['h'] ∨ path = ['f'] := by
  intro notice turns path tracked
  have written := (agent_mode_tracks_agent_files plainEnv [] .allDirty turns ⟨single_allowed plainEnv rfl trivial,
    ⟨rfl, fun _ => rfl, rfl, ⟨rfl, trivial⟩, trivial⟩, single_allowed plainEnv rfl trivial, trivial⟩).2
    (by decide +kernel) path tracked
  simpa [turns, notice, authorship, Turn.commands, Authorship.command, agentWrite, single, isCoalescable] using written

def NoRestore (_ : Actor) (message : Env × HunkTrackerCommand) : Prop :=
  match message.2 with
  | .restoreState _ => False
  | _ => True

def Known (actor : Actor) : Prop := ∀ path, ∀ hunk ∈ actor.store path, hunk.id < actor.nextId

theorem setWorkingDir_ids {env : Env} {workingDir path : Text} {hunk : Hunk}
    (member : hunk ∈ (actor.setWorkingDir env workingDir).store path) :
    ∃ other, ∃ old ∈ actor.store other, old.id = hunk.id := by
  obtain ⟨state, found, member'⟩ := Actor.mem_store.mp member
  obtain ⟨other, before, found', old, member'', same⟩ :=
    (setWorkingDir_moved actor env workingDir path state found).2.2 hunk member'
  exact ⟨other, old, Actor.mem_store.mpr ⟨before, found', member''⟩, same⟩

theorem keeps_known (diff : LineDiff) : Keeps diff Known NoRestore := by
  have changed {wrote : Text → Prop} {before after : Actor} (changes : Changes diff wrote before after) (known : Known before) : Known after := by
    intro path hunk member
    rcases changes.ids path hunk member with ⟨old, member', same⟩ | ⟨-, bound⟩
    · exact same ▸ Nat.lt_of_lt_of_le (known path old member') changes.grows
    · exact bound
  refine
    { changes := changed
      setMode := ?_
      setWorkingDir := ?_
      restore := fun _ _ _ none' => none'.elim }
  · intro actor env mode same known
    have switched : Known { actor with mode := mode } := known
    exact changed (same ▸ setMode_changes mode) switched
  · intro actor env workingDir _ known path hunk member
    obtain ⟨other, old, member', same⟩ := setWorkingDir_ids member
    rw [(setWorkingDir_same actor env workingDir).2, ← same]
    exact known other old member'

theorem keeps_retired (diff : LineDiff) (id : HunkId) : Keeps diff (Retired id) NoRestore := by
  refine
    { changes := fun changes retired => changes.retired retired
      setMode := ?_
      setWorkingDir := ?_
      restore := fun _ _ _ none' => none'.elim }
  · intro actor env mode same retired
    exact (same ▸ setMode_changes mode).retired retired
  · intro actor env workingDir _ retired
    refine ⟨(setWorkingDir_same actor env workingDir).2 ▸ retired.1, fun path hunk member same => ?_⟩
    obtain ⟨other, old, member', same'⟩ := setWorkingDir_ids member
    exact retired.2 other old member' (same'.trans same)

theorem gone_hunk_never_returns (env : Env) (workingDir : Text) (mode : TrackingMode) (first second third : List Turn)
    (allowed : Runs.Along Actor.turn (TurnAllowed env.diff NoRestore) (.launch env workingDir mode)
      (first ++ second ++ third))
    (path : Text) (hunk : Hunk)
    (shown : hunk ∈ (Runs.run Actor.turn (.launch env workingDir mode) first).store path)
    (gone : ∀ other, ∀ later ∈ (Runs.run Actor.turn (.launch env workingDir mode) (first ++ second)).store other,
      later.id ≠ hunk.id) :
    ∀ other, ∀ later ∈ (Runs.run Actor.turn (.launch env workingDir mode) (first ++ second ++ third)).store other,
      later.id ≠ hunk.id := by
  obtain ⟨allowedTwo, allowedThird⟩ := (Runs.along_append ..).mp allowed
  obtain ⟨allowedFirst, allowedSecond⟩ := (Runs.along_append ..).mp allowedTwo
  have known : Known (Runs.run Actor.turn (.launch env workingDir mode) first) := by
    refine (keeps_known env.diff).run _ first ?_ allowedFirst
    refine (keeps_known env.diff).changes (launch_changes env workingDir mode) fun path hunk member => ?_
    obtain ⟨state, found, -⟩ := Actor.mem_store.mp member
    cases found
  have given : hunk.id < (Runs.run Actor.turn (.launch env workingDir mode) (first ++ second)).nextId := by
    have grown : Keeps env.diff (fun actor => hunk.id < actor.nextId) NoRestore :=
      { changes := fun changes small => Nat.lt_of_lt_of_le small changes.grows
        setMode := fun _ _ mode same small => Nat.lt_of_lt_of_le small (same ▸ setMode_changes mode).grows
        setWorkingDir := fun actor env workingDir _ small => (setWorkingDir_same actor env workingDir).2 ▸ small
        restore := fun _ _ _ none' => none'.elim }
    rw [Runs.run_append]
    exact grown.run _ second (known path hunk shown) allowedSecond
  have retired := (keeps_retired env.diff hunk.id).run _ third ⟨given, gone⟩ allowedThird
  rw [← Runs.run_append] at retired
  exact retired.2

theorem gone_hunk_never_returns_after_reject :
    0 ∉ ((Runs.run Actor.turn (.launch plainEnv [] .agentOnly)
      ([agentWrite] ++ [single plainEnv (.allAction .reject)] ++ [agentWrite])).store ['f']).map Hunk.id := by
  have shown : build 0 ['f'] (.agentEdit 0)
      { oldStart := 1
        newStart := 1
        oldLines := [['a', '\n']]
        newLines := [['b', '\n']] } ∈
      (Runs.run Actor.turn (.launch plainEnv [] .agentOnly) [agentWrite]).store ['f'] := by decide +kernel
  intro again
  obtain ⟨later, member, same⟩ := List.mem_map.mp again
  refine gone_hunk_never_returns plainEnv [] .agentOnly [agentWrite] [single plainEnv (.allAction .reject)] [agentWrite]
    ?_ ['f'] _ shown ?_ ['f'] later member same
  · exact ⟨single_allowed plainEnv rfl trivial, single_allowed plainEnv rfl trivial,
      single_allowed plainEnv rfl trivial, trivial⟩
  · intro other later member
    obtain ⟨state, found, inside⟩ := Actor.mem_store.mp member
    have rejected : ∀ file ∈ (Runs.run Actor.turn (.launch plainEnv [] .agentOnly)
        ([agentWrite] ++ [single plainEnv (.allAction .reject)])).fileStates.entries, file.2.hunks = [] := by
      decide +kernel
    rw [rejected _ (AList.mem_lookup_iff.mp found)] at inside
    cases inside

end Runs

end GrokPi.HunkTracker
