import GrokPi.HunkTracker.Mutations

set_option autoImplicit false

namespace GrokPi.HunkTracker

inductive FileContentStatus where
  | missing
  | binary
  | tooLarge
  | lfsPointer
  | symlink
  | full
  deriving DecidableEq

def FileContentState.status : FileContentState → FileContentStatus
  | .missing => .missing
  | .binary _ => .binary
  | .tooLarge _ => .tooLarge
  | .lfsPointer _ => .lfsPointer
  | .symlink => .symlink
  | .full _ => .full

def FileContentStatus.patchable (status : FileContentStatus) : Prop := status = .full ∨ status = .missing

variable {actor : Actor} {env : Env} {path : Text}

/-- If the file is tracked, its content has the class found on the disk, and it has hunks only where both
contents can be patched. -/
def MirrorsDisk (actor : Actor) (env : Env) (path : Text) : Prop :=
  ∀ state, actor.fileStates.lookup path = some state →
    state.currentContent.status = (env.readFile path).status ∧
      (state.hunks ≠ [] → state.baseline.status.patchable ∧ state.currentContent.status.patchable)

theorem isDiffable_status (content : FileContentState) : content.isDiffable = true ↔ content.status = .full := by
  cases content <;> simp [FileContentState.isDiffable, FileContentState.status]

theorem diffHunks_patchable {diff : LineDiff} {nextId : HunkId} {baseline current : FileContentState}
    {source : HunkSource} (some' : diffHunks diff nextId path baseline current source ≠ []) :
    baseline.status.patchable ∧ current.status.patchable := by
  cases baseline <;> cases current <;>
    simp_all [diffHunks, FileContentState.status, FileContentStatus.patchable]

theorem recomputeHunks_mirrors (tracked : actor.tracks path = true) (diff : LineDiff)
    (newCurrent : Option FileContentState) (source : HunkSource) :
    MirrorsDisk (actor.recomputeHunks diff path newCurrent source) env path ↔
      (newCurrent.getD .missing).status = (env.readFile path).status := by
  obtain ⟨state, found⟩ := Option.isSome_iff_exists.mp tracked
  unfold MirrorsDisk
  rw [Actor.recomputeHunks_lookup found]
  simp only [Option.some.injEq, forall_eq', and_iff_left_iff_imp]
  intro _ kept
  refine @diffHunks_patchable path diff actor.nextId _ _ source ?_
  intro none'
  rw [none'] at kept
  exact kept rfl

theorem addFile_lookup (actor : Actor) (path : Text) (baseline current : FileContentState) (isAgentFile : Bool) :
    (actor.addFile path baseline current isAgentFile).fileStates.lookup path =
      some
        { baseline := baseline
          currentContent := current
          hunks := []
          isAgentFile := isAgentFile
          baselineAccepted := false } :=
  Actor.sendEvents_lookup ..

theorem addFile_tracks (actor : Actor) (path : Text) (baseline current : FileContentState) (isAgentFile : Bool) :
    (actor.addFile path baseline current isAgentFile).tracks path = true := by
  rw [Actor.tracks, addFile_lookup]
  rfl

structure NonTextInHead (actor : Actor) (env : Env) (path : Text) (head : FileContentState) : Prop where
  untracked : actor.tracks path = false
  mode : actor.mode = .allDirty
  head : head.status = .full
  disk : ¬ (env.readFile path).status.patchable

/-- A tracked file, its baseline accepted, that is a link on one side, while git does not list it as dirty. -/
structure LinkTaken (actor : Actor) (env : Env) (path : Text) (head : FileContentState) : Prop where
  accepted : ∃ state, actor.fileStates.lookup path = some state ∧ state.baselineAccepted = true
  clean : actor.gitDirty path = false
  link : (env.readFile path).status = .symlink ∧ head.status = .full ∨
    (env.readFile path).status = .full ∧ head.status = .symlink

theorem contentMatchesHead_status {current head : FileContentState}
    (matches' : actor.contentMatchesHead path current head = true) :
    head.status = current.status ↔
      ¬ (actor.gitDirty path = false ∧
        (current.status = .symlink ∧ head.status = .full ∨ current.status = .full ∧ head.status = .symlink)) := by
  cases current <;> cases head <;>
    simp_all [Actor.contentMatchesHead, FileContentState.status]

theorem contentMatchesHead_link {current head : FileContentState} (clean : actor.gitDirty path = false)
    (link : current.status = .symlink ∧ head.status = .full ∨ current.status = .full ∧ head.status = .symlink) :
    actor.contentMatchesHead path current head = true := by
  cases current <;> cases head <;>
    simp_all [Actor.contentMatchesHead, FileContentState.status]

theorem untracked_mirrors (untracked : actor.tracks path = false) (preloadedBaseline : Option FileContentState) :
    MirrorsDisk (actor.processFileChange env path preloadedBaseline) env path ↔
      ¬ NonTextInHead actor env path (preloadedBaseline.getD (env.readBaseline path)) := by
  have absent : actor.fileStates.lookup path = none := Option.not_isSome_iff_eq_none.mp (by
    rw [← Actor.tracks, untracked]
    exact Bool.false_ne_true)
  have skipped : MirrorsDisk actor env path := by
    intro state found
    rw [absent] at found
    cases found
  unfold Actor.processFileChange
  rw [absent]
  simp only
  generalize preloadedBaseline.getD (env.readBaseline path) = head
  split
  next only =>
    exact iff_of_true skipped fun text => by simp [text.mode] at only
  next dirty =>
    split
    next ignored =>
      refine iff_of_true skipped fun text => ?_
      simp only [Actor.ignored, Bool.and_eq_true, decide_eq_true_eq] at ignored
      have noHead := text.head
      rw [ignored.1.1.2] at noHead
      cases noHead
    · split
      next diffable =>
        rw [recomputeHunks_mirrors (addFile_tracks ..)]
        refine iff_of_true rfl fun text => text.disk ?_
        exact Or.inl ((isDiffable_status _).mp diffable)
      next diffable =>
        rw [isDiffable_status] at diffable
        split
        next inHead =>
          rw [isDiffable_status] at inHead
          rw [recomputeHunks_mirrors (addFile_tracks ..)]
          have mode : actor.mode = .allDirty := by
            cases given : actor.mode <;> simp_all
          constructor
          · intro gone text
            exact text.disk (Or.inr gone.symm)
          · intro noText
            by_contra present
            refine noText ⟨untracked, mode, inHead, ?_⟩
            rintro (full | missing)
            · exact diffable full
            · exact present missing.symm
        next outside =>
          refine iff_of_true ?_ fun text => ?_
          · intro state found
            rw [addFile_lookup] at found
            obtain rfl := Option.some.inj found
            exact ⟨rfl, fun kept => absurd rfl kept⟩
          · exact outside ((isDiffable_status _).mpr text.head)

theorem tracked_mirrors {state : FileHunkState} (found : actor.fileStates.lookup path = some state)
    (preloadedBaseline : Option FileContentState) :
    MirrorsDisk (actor.processFileChange env path preloadedBaseline) env path ↔
      ¬ LinkTaken actor env path (preloadedBaseline.getD (env.readBaseline path)) := by
  unfold Actor.processFileChange
  rw [found]
  simp only
  generalize preloadedBaseline.getD (env.readBaseline path) = head
  split
  next restored =>
    have shown := contentMatchesHead_status restored.2
    constructor
    · intro mirrors taken
      have same := (mirrors _ (Actor.setState_lookup ..)).1
      exact shown.mp same ⟨taken.clean, taken.link⟩
    · intro noLink other looked
      rw [Actor.setState_lookup] at looked
      obtain rfl := Option.some.inj looked
      refine ⟨shown.mpr fun ⟨clean, link⟩ => noLink ⟨⟨state, found, restored.1⟩, clean, link⟩, ?_⟩
      exact fun kept => absurd rfl kept
  next changed =>
    have tracked : actor.tracks path = true := by rw [Actor.tracks, found, Option.isSome_some]
    rw [recomputeHunks_mirrors tracked]
    refine iff_of_true rfl fun taken => changed ?_
    obtain ⟨other, looked, accepted⟩ := taken.accepted
    rw [found] at looked
    obtain rfl := Option.some.inj looked
    exact ⟨accepted, contentMatchesHead_link taken.clean taken.link⟩

/-- A file that is not text but has a text in HEAD is taken for deleted, and a clean link for that text. -/
theorem processFileChange_mirrors_iff (actor : Actor) (env : Env) (path : Text)
    (preloadedBaseline : Option FileContentState) :
    MirrorsDisk (actor.processFileChange env path preloadedBaseline) env path ↔
      ¬ NonTextInHead actor env path (preloadedBaseline.getD (env.readBaseline path)) ∧
        ¬ LinkTaken actor env path (preloadedBaseline.getD (env.readBaseline path)) := by
  cases found : actor.fileStates.lookup path with
  | none =>
      have untracked : actor.tracks path = false := by rw [Actor.tracks, found, Option.isSome_none]
      rw [untracked_mirrors untracked]
      refine (and_iff_left ?_).symm
      intro taken
      obtain ⟨state, looked, -⟩ := taken.accepted
      rw [found] at looked
      cases looked
  | some state =>
      rw [tracked_mirrors found]
      refine (and_iff_right ?_).symm
      intro text
      have untracked := text.untracked
      rw [Actor.tracks, found] at untracked
      cases untracked

def binaryOverText : Env :=
  { Env.blank .plain with
    readFile := fun _ => .binary (some 3)
    readBaseline := fun _ => .full ['a'] }

theorem binary_taken_for_deleted :
    ¬ MirrorsDisk ((Actor.new [] .allDirty).processFileChange binaryOverText ['f'] none) binaryOverText ['f'] := by
  intro mirrors
  have gone : ((((Actor.new [] .allDirty).processFileChange binaryOverText ['f'] none).fileStates.lookup
      ['f']).map fun state => state.currentContent.status) = some .missing := by
    decide +kernel
  obtain ⟨state, found, status⟩ := Option.map_eq_some_iff.mp gone
  have same := (mirrors state found).1
  rw [status] at same
  cases same

end GrokPi.HunkTracker
