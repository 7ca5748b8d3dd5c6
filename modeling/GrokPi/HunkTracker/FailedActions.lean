import GrokPi.HunkTracker.Attribution
import GrokPi.HunkTracker.Inversion
import GrokPi.HunkTracker.TurnIndex

set_option autoImplicit false

namespace GrokPi.HunkTracker

section Counters

theorem saturatingAdd_le (start : Nat) (count : Nat) : saturatingAdd start count ≤ 2 ^ 64 - 1 := by
  unfold saturatingAdd
  omega

theorem saturatingAdd_one {start : Nat} : saturatingAdd start 1 = start ↔ start = 2 ^ 64 - 1 := by
  unfold saturatingAdd
  omega

theorem saturatingAdd_grows {start : Nat} (bounded : start ≤ 2 ^ 64 - 1) (counts : List Nat) :
    start ≤ counts.foldl saturatingAdd start ∧ counts.foldl saturatingAdd start ≤ 2 ^ 64 - 1 := by
  induction counts generalizing start with
  | nil => exact ⟨Nat.le_refl start, bounded⟩
  | cons count rest ih =>
      obtain ⟨grows, stays⟩ := ih (saturatingAdd_le start count)
      have first : start ≤ saturatingAdd start count := by
        unfold saturatingAdd
        omega
      exact ⟨Nat.le_trans first grows, stays⟩

theorem saturatingAdd_still {start : Nat} {counts : List Nat} :
    counts.foldl saturatingAdd start = start ↔ ∀ count ∈ counts, saturatingAdd start count = start := by
  -- A counter that ends where it began stood still at every step.
  induction counts with
  | nil => simp
  | cons count rest ih =>
      simp only [List.foldl_cons, List.mem_cons, forall_eq_or_imp]
      constructor
      · intro ends
        have first : saturatingAdd start count = start := by
          obtain ⟨grows, stays⟩ := saturatingAdd_grows (saturatingAdd_le start count) rest
          rw [ends] at grows stays
          have capped : saturatingAdd start count = min (start + count) (2 ^ 64 - 1) := rfl
          omega
        rw [first] at ends
        exact ⟨first, ih.mp ends⟩
      · intro ⟨first, others⟩
        rw [first]
        exact ih.mpr others

end Counters

section Failures

variable {actor : Actor} {env : Env} {path : Text} {hunks : List Hunk}

structure SameRecords (before after : Actor) : Prop where
  fileStates : after.fileStates = before.fileStates
  turnIndex : after.turnIndex = before.turnIndex
  sessionStats : after.sessionStats = before.sessionStats

def FailsCleanly {Result : Type} (actor : Actor) (answer : Except HunkActionError Result × Actor) : Prop :=
  ∀ error, answer.1 = .error error → SameRecords actor answer.2

/-- Counting the rejection of the hunk moves no counter, and no prompt lists the hunk. -/
structure Uncounted (actor : Actor) (hunk : Hunk) : Prop where
  rejected : actor.sessionStats.rejectedHunks = 2 ^ 64 - 1
  linesAdded : saturatingAdd actor.sessionStats.rejectedLinesAdded hunk.lineInfo.newCount =
    actor.sessionStats.rejectedLinesAdded
  linesRemoved : saturatingAdd actor.sessionStats.rejectedLinesRemoved hunk.lineInfo.oldCount =
    actor.sessionStats.rejectedLinesRemoved
  unlisted : ∀ promptIndex, hunk.source = .agentEdit promptIndex → hunk.id ∉ actor.turnIndex promptIndex

def Unharmed (actor : Actor) (env : Env) (action : HunkAction) (path : Text) (hunks : List Hunk) : Prop :=
  actor.actionSucceeds env action path = true ∨ ∀ hunk ∈ hunks, Uncounted actor hunk

def Actor.countRejections (actor : Actor) (hunks : List Hunk) : Actor :=
  hunks.foldl (fun actor hunk => actor.countHunk .reject hunk) actor

theorem countRejections_stats (hunks : List Hunk) (actor : Actor) :
    (actor.countRejections hunks).sessionStats =
      { actor.sessionStats with
        rejectedHunks := (hunks.map fun _ => 1).foldl saturatingAdd actor.sessionStats.rejectedHunks
        rejectedLinesAdded := (hunks.map (·.lineInfo.newCount)).foldl saturatingAdd
          actor.sessionStats.rejectedLinesAdded
        rejectedLinesRemoved := (hunks.map (·.lineInfo.oldCount)).foldl saturatingAdd
          actor.sessionStats.rejectedLinesRemoved } := by
  induction hunks generalizing actor with
  | nil => rfl
  | cons hunk rest ih => exact ih (actor.countHunk .reject hunk)

theorem removeAll_same (hunks : List Hunk) (index : TurnIndex) :
    hunks.foldl removeFromTurnIndex index = index ↔
      ∀ hunk ∈ hunks, ∀ promptIndex, hunk.source = .agentEdit promptIndex → hunk.id ∉ index promptIndex := by
  have removed := fun promptIndex id =>
    SecondaryIndex.mem_removeAll Hunk.id Hunk.promptIndex hunks index promptIndex id
  rw [← removeFromTurnIndex_eq] at removed
  simp only [Hunk.promptIndex_iff] at removed
  constructor
  · intro same hunk member promptIndex source listed
    rw [← same, removed] at listed
    exact listed.2 hunk member ⟨rfl, source⟩
  · intro unlisted
    funext promptIndex
    ext id
    rw [removed]
    constructor
    · exact And.left
    · intro listed
      refine ⟨listed, ?_⟩
      rintro hunk member ⟨rfl, source⟩
      exact unlisted hunk member promptIndex source listed

theorem countRejections_same (actor : Actor) (hunks : List Hunk) :
    SameRecords actor (actor.countRejections hunks) ↔ ∀ hunk ∈ hunks, Uncounted actor hunk := by
  obtain ⟨states, index, -⟩ := countHunks_spec .reject hunks actor
  change (actor.countRejections hunks).fileStates = _ at states
  change (actor.countRejections hunks).turnIndex = _ at index
  have still := fun (start : Nat) (count : Hunk → Nat) =>
    @saturatingAdd_still start (hunks.map count)
  simp only [List.forall_mem_map] at still
  constructor
  · intro same
    have stats := (countRejections_stats hunks actor).symm.trans same.sessionStats
    have rejected := (still _ fun _ => 1).mp (congrArg SessionStats.rejectedHunks stats)
    have added := (still _ (·.lineInfo.newCount)).mp (congrArg SessionStats.rejectedLinesAdded stats)
    have removed := (still _ (·.lineInfo.oldCount)).mp (congrArg SessionStats.rejectedLinesRemoved stats)
    have unlisted := (removeAll_same hunks actor.turnIndex).mp (index.symm.trans same.turnIndex)
    intro hunk member
    exact ⟨saturatingAdd_one.mp (rejected hunk member), added hunk member, removed hunk member,
      unlisted hunk member⟩
  · intro uncounted
    refine ⟨states, index.trans ((removeAll_same hunks actor.turnIndex).mpr ?_), ?_⟩
    · exact fun hunk member => (uncounted hunk member).unlisted
    · have rejected := (still actor.sessionStats.rejectedHunks fun _ => 1).mpr fun hunk member =>
        saturatingAdd_one.mpr (uncounted hunk member).rejected
      have added := (still _ (·.lineInfo.newCount)).mpr fun hunk member =>
        (uncounted hunk member).linesAdded
      have removed := (still _ (·.lineInfo.oldCount)).mpr fun hunk member =>
        (uncounted hunk member).linesRemoved
      rw [countRejections_stats, rejected, added, removed]

theorem actOnBatch_failed (some' : hunks ≠ []) (fails : actor.actionSucceeds env .reject path = false) :
    (actor.actOnBatch env .reject path hunks).2 = actor.countRejections hunks := by
  -- A batch fails where its rejection does not go through, with the hunks counted.
  have states := (countHunks_spec .reject hunks actor).1
  cases found : actor.fileStates.lookup path with
  | none => simp [Actor.actionSucceeds, found] at fails
  | some state =>
      simp only [Actor.actionSucceeds, found, Option.map_some, Option.getD_some] at fails
      simp only [Actor.actOnBatch, Actor.rejectHunksBatch, states, if_neg some', found,
        Actor.countRejections]
      cases new : state.currentContent <;> cases old : state.baseline <;>
        simp_all [rejectSucceeds]

theorem actOnBatch_succeeds {action : HunkAction} {error : HunkActionError}
    (succeeds : actor.actionSucceeds env action path = true ∨ hunks = []) :
    (actor.actOnBatch env action path hunks).1 ≠ .error error := by
  have states := (countHunks_spec action hunks actor).1
  cases action with
  | accept => simp [Actor.actOnBatch]
  | reject =>
      simp only [Actor.actOnBatch, Actor.rejectHunksBatch, states]
      by_cases none' : hunks = []
      · simp [none']
      · have goes := succeeds.resolve_right none'
        cases found : actor.fileStates.lookup path with
        | none => simp [none']
        | some state =>
            simp only [Actor.actionSucceeds, found, Option.map_some, Option.getD_some] at goes
            cases new : state.currentContent <;> cases old : state.baseline <;>
              simp_all [rejectSucceeds]

theorem actOnBatch_cleanly_iff (action : HunkAction) :
    FailsCleanly actor (actor.actOnBatch env action path hunks) ↔ Unharmed actor env action path hunks := by
  by_cases succeeds : actor.actionSucceeds env action path = true ∨ hunks = []
  · constructor
    · intro _
      rcases succeeds with goes | rfl
      · exact Or.inl goes
      · exact Or.inr (by simp)
    · intro _ error failed
      exact absurd failed (actOnBatch_succeeds succeeds)
  · rw [not_or, Bool.not_eq_true] at succeeds
    obtain ⟨fails, some'⟩ := succeeds
    obtain ⟨error, failed⟩ := actOnBatch_error some' fails
    cases action with
    | accept => cases fails
    | reject =>
        have counted := actOnBatch_failed some' fails
        constructor
        · intro cleanly
          have same := cleanly error failed
          rw [counted, countRejections_same] at same
          exact Or.inr same
        · intro unharmed error _
          rw [counted, countRejections_same]
          exact unharmed.resolve_left (by simp [fails])

theorem applyActionBatch_cleanly_iff (action : HunkAction) :
    FailsCleanly actor (actor.applyActionBatch env action [(path, hunks)]) ↔
      Unharmed actor env action path hunks := by
  rw [← actOnBatch_cleanly_iff action]
  unfold FailsCleanly
  rw [applyActionBatch_single]
  apply forall_congr'
  intro error
  apply imp_congr_left
  unfold Actor.applyActionBatch
  cases actor.actOnBatch env action path hunks with
  | mk outcome acted => cases outcome <;> simp [Actor.applyActionBatch, Except.map]

/-- The counters and the turn index move before the file does, so a rejection that the disk refuses
leaves them moved. -/
theorem failed_action_changes_nothing_iff (actor : Actor) (env : Env) (action : HunkAction) :
    (∀ id, FailsCleanly actor (actor.applyHunkAction env id action) ↔
      ∀ path hunk, actor.findHunk env id = some (path, hunk) → Unharmed actor env action path [hunk]) ∧
    (∀ path hunks, FailsCleanly actor (actor.applyActionBatch env action [(path, hunks)]) ↔
      Unharmed actor env action path hunks) ∧
    ∀ path, FailsCleanly actor (actor.applyFileAction env path action) ↔
      Unharmed actor env action path (actor.store path) := by
  refine ⟨?_, fun path hunks => applyActionBatch_cleanly_iff action, ?_⟩
  · intro id
    unfold Actor.applyHunkAction
    cases found : actor.findHunk env id with
    | none =>
        simp only [reduceCtorEq, false_implies, implies_true, iff_true]
        intro error _
        exact ⟨rfl, rfl, rfl⟩
    | some at' =>
        obtain ⟨path, hunk⟩ := at'
        have batch : FailsCleanly actor (actor.actOnBatch env action path [hunk]) ↔
            Unharmed actor env action path [hunk] := actOnBatch_cleanly_iff action
        simp only [Option.some.injEq, Prod.mk.injEq, and_imp, forall_eq', forall_apply_eq_imp_iff]
        cases action with
        | accept => simpa only [Actor.actOnBatch, List.foldl, acceptHunk_eq_batch] using batch
        | reject => simpa only [Actor.actOnBatch, List.foldl, rejectHunk_eq_batch] using batch
  · intro path
    unfold Actor.applyFileAction Actor.store
    cases found : actor.fileStates.lookup path with
    | none => simp [FailsCleanly, Unharmed]
    | some state =>
        by_cases none' : state.hunks = []
        · simp [none', FailsCleanly, Unharmed]
        · simp only [none', if_false, Option.map_some, Option.getD_some]
          exact applyActionBatch_cleanly_iff action

def createdFile : Actor :=
  tracking
    { baseline := .missing
      currentContent := .full ['x']
      hunks := [.fileCreated 0 ['f'] ['x'] (.agentEdit 0)]
      isAgentFile := true
      baselineAccepted := false }

def undeletable : Env := { Env.blank .plain with remove := fun _ => false }

theorem deleted_before_reject :
    ¬ FailsCleanly createdFile (createdFile.applyHunkAction undeletable 0 .reject) ∧
      ¬ FailsCleanly createdFile (createdFile.applyFileAction undeletable ['f'] .reject) := by
  constructor
  · intro cleanly
    have same := cleanly (.deleteError ['f']) (by decide +kernel)
    exact absurd (congrArg SessionStats.rejectedHunks same.sessionStats) (by decide +kernel)
  · intro cleanly
    have same := cleanly (.deleteError ['f']) (by decide +kernel)
    exact absurd (congrArg SessionStats.rejectedHunks same.sessionStats) (by decide +kernel)

end Failures

end GrokPi.HunkTracker
