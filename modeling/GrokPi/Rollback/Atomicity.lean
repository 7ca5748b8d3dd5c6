import GrokPi.Rollback.Undo

set_option autoImplicit false

namespace GrokPi.Rollback

structure JournalFaults where
  prepared : Option Text
  committed : Option Text
  failed : Option Text

def executeRollbackJournaled (journal : JournalFaults) (faults : Nat → Faults) (blobs : Blobs) (disk : Disk)
    (plan : RollbackPlan) (targetEntryId sourceLeafId transactionId createdAt : Text) : Execution :=
  let prepared : RollbackTransaction :=
    { transactionId
      targetEntryId
      sourceLeafId
      plannedPaths := plan.activePaths.map (·.canonicalPath)
      state := .prepared
      createdAt }
  let fail := fun (restored : Disk) (error : Text) =>
    match journal.failed with
    | none =>
        { disk := restored
          appended := [prepared, { prepared with state := .failed }]
          outcome := .error error : Execution }
    | some appendError =>
        { disk := restored
          appended := [prepared]
          outcome := .error appendError }
  match journal.prepared with
  | some error =>
      { disk := disk
        appended := []
        outcome := .error error }
  | none =>
      match restoreAll faults blobs 0 disk plan.activePaths with
      | (restored, some error) => fail restored error
      | (restored, none) =>
          match journal.committed with
          | some error => fail restored error
          | none =>
              { disk := restored
                appended := [prepared, { prepared with state := .committed }]
                outcome := .ok transactionId }

section Promise

def TargetState (blobs : Blobs) (disk : Disk) (planned : PlannedPath) : Prop :=
  match planned.action with
  | .delete => disk planned.canonicalPath = none
  | .restore => ∃ digest ∈ planned.targetDigest, ∃ data, blobs digest = some data ∧ disk planned.canonicalPath = some data
  | .noop => True

structure AllOrNothing (blobs : Blobs) (plan : RollbackPlan) (before : Disk) (execution : Execution) : Prop where
  thrown : ∀ error, execution.outcome = .error error → ∀ path, execution.disk path = before path
  committed : ∀ transaction ∈ execution.appended, transaction.state = .committed →
    ∀ planned ∈ plan.activePaths, TargetState blobs execution.disk planned

def breaks (faults : Faults) (blobs : Blobs) (planned : PlannedPath) : Bool :=
  match planned.action, planned.targetDigest with
  | .restore, some digest =>
      faults.readBlob || (blobs digest).isNone || faults.writeFile.isSome || faults.rename.isSome
  | _, _ => false

def carriedOut (faults : Nat → Faults) (blobs : Blobs) (paths : List (PlannedPath × Nat)) : List (PlannedPath × Nat) :=
  paths.takeWhile fun (planned, index) => !breaks (faults index) blobs planned

def Unaltered (faults : Faults) (blobs : Blobs) (disk : Disk) (planned : PlannedPath) : Prop :=
  match planned.action, planned.targetDigest with
  | .delete, _ => faults.unlink = true ∨ disk planned.canonicalPath = none
  | .restore, some digest => disk planned.canonicalPath = blobs digest
  | _, _ => True

/-- When a rollback is all or nothing: a rollback that stops has only passed over paths which are in their
target state already or whose unlink failed, and in one that ends every failed unlink was of an absent file. -/
def StopsHarmlessly (journal : JournalFaults) (faults : Nat → Faults) (blobs : Blobs) (disk : Disk)
    (plan : RollbackPlan) : Prop :=
  let steps := plan.activePaths.zipIdx
  let done := carriedOut faults blobs steps
  journal.prepared = none →
    if done = steps ∧ journal.committed = none then
      ∀ step ∈ done, step.1.action = .delete → (faults step.2).unlink = true → disk step.1.canonicalPath = none
    else ∀ step ∈ done, Unaltered (faults step.2) blobs disk step.1

end Promise

section Steps

variable {blobs : Blobs}

def leftBehind (faults : Faults) (blobs : Blobs) (disk : Disk) (planned : PlannedPath) : Option Buffer :=
  match planned.action, planned.targetDigest with
  | .delete, _ => if faults.unlink then disk planned.canonicalPath else none
  | .restore, some digest => blobs digest
  | _, _ => disk planned.canonicalPath

theorem restorePath_breaks {faults : Faults} {planned : PlannedPath} (disk : Disk)
    (broken : breaks faults blobs planned = true) : ∃ error, restorePath faults blobs disk planned = .error error := by
  unfold breaks at broken
  unfold restorePath
  split at broken
  next restore target =>
    rw [restore, target]
    dsimp only
    cases readBlob : faults.readBlob <;> cases found : blobs _ <;> cases written : faults.writeFile <;>
      cases renamed : faults.rename <;> simp_all
  · simp at broken

theorem restorePath_ok {faults : Faults} {planned : PlannedPath} (disk : Disk)
    (whole : breaks faults blobs planned = false) :
    restorePath faults blobs disk planned =
      .ok (Function.update disk planned.canonicalPath (leftBehind faults blobs disk planned)) := by
  unfold breaks at whole
  unfold restorePath leftBehind
  cases action : planned.action with
  | delete =>
      dsimp only
      split
      · rw [Function.update_eq_self]
      · rfl
  | noop =>
      dsimp only
      rw [Function.update_eq_self]
  | restore =>
      cases target : planned.targetDigest with
      | none =>
          dsimp only
          rw [Function.update_eq_self]
      | some digest =>
          rw [action, target] at whole
          simp only [Bool.or_eq_false_iff, Option.isNone_eq_false_iff, Option.isSome_eq_false_iff,
            Option.isNone_iff_eq_none] at whole
          obtain ⟨⟨⟨read, found⟩, written⟩, renamed⟩ := whole
          obtain ⟨data, held⟩ := Option.isSome_iff_exists.mp found
          simp [read, written, renamed, held]

theorem restoreAll_spec (faults : Nat → Faults) (blobs : Blobs) {paths : List PlannedPath} (disk : Disk) (index : Nat)
    (once : (paths.map (·.canonicalPath)).Nodup) :
    ((restoreAll faults blobs index disk paths).2 = none ↔
        carriedOut faults blobs (paths.zipIdx index) = paths.zipIdx index) ∧
      (∀ step ∈ carriedOut faults blobs (paths.zipIdx index),
        (restoreAll faults blobs index disk paths).1 step.1.canonicalPath =
          leftBehind (faults step.2) blobs disk step.1) ∧
        ∀ path, path ∉ (carriedOut faults blobs (paths.zipIdx index)).map (·.1.canonicalPath) →
          (restoreAll faults blobs index disk paths).1 path = disk path := by
  induction paths generalizing disk index with
  | nil => simp [restoreAll, carriedOut]
  | cons planned rest ih =>
      obtain ⟨fresh, once⟩ := List.nodup_cons.mp once
      rw [List.zipIdx_cons, restoreAll]
      cases broken : breaks (faults index) blobs planned with
      | true =>
          obtain ⟨error, failed⟩ := restorePath_breaks disk broken
          have none' : carriedOut faults blobs ((planned, index) :: rest.zipIdx (index + 1)) = [] := by
            simp [carriedOut, broken]
          rw [failed, none']
          simp
      | false =>
          have more : carriedOut faults blobs ((planned, index) :: rest.zipIdx (index + 1)) =
              (planned, index) :: carriedOut faults blobs (rest.zipIdx (index + 1)) := by
            simp [carriedOut, broken]
          rw [restorePath_ok disk broken, more]
          dsimp only
          obtain ⟨ended, reached, untouched⟩ :=
            ih (Function.update disk planned.canonicalPath (leftBehind (faults index) blobs disk planned)) (index + 1) once
          -- Later steps are for other paths.
          have others : ∀ step ∈ carriedOut faults blobs (rest.zipIdx (index + 1)),
              step.1.canonicalPath ≠ planned.canonicalPath := by
            intro step member same
            have later : step ∈ rest.zipIdx (index + 1) := (List.takeWhile_subset _) member
            have there := List.mem_map_of_mem (f := Prod.fst) later
            rw [List.zipIdx_map_fst] at there
            exact fresh (List.mem_map.mpr ⟨step.1, there, same⟩)
          refine ⟨?_, ?_, ?_⟩
          · rw [ended]
            simp
          · intro step member
            rcases List.mem_cons.mp member with rfl | later
            · rw [untouched, Function.update_self]
              intro again
              obtain ⟨step, member, same⟩ := List.mem_map.mp again
              exact others step member same
            · rw [reached step later]
              unfold leftBehind
              rw [Function.update_of_ne (others step later)]
          · intro path absent
            rw [List.map_cons, List.mem_cons, not_or] at absent
            rw [untouched path absent.2, Function.update_of_ne absent.1]

theorem unaltered_iff {faults : Faults} {disk : Disk} {planned : PlannedPath} :
    Unaltered faults blobs disk planned ↔ leftBehind faults blobs disk planned = disk planned.canonicalPath := by
  unfold Unaltered leftBehind
  cases planned.action with
  | delete =>
      dsimp only
      cases faults.unlink with
      | true => simp
      | false => simp [eq_comm]
  | noop => simp
  | restore =>
      cases planned.targetDigest with
      | none => simp
      | some digest => exact eq_comm

end Steps

section Computed

variable (sha256 : Buffer → Digest) (seen : Disk) (records : List JournalRecord) (targetEntryId : Text)
  (branchEntryIds : List Text)

theorem planPath_active (path : Text) (first last : MutationRecord) :
    let active := ((planPath sha256 seen path first last).toOption.getD []).filter fun planned => planned.action != .noop
    (active = [] ∨ ∃ planned, active = [planned] ∧ planned.canonicalPath = path) ∧
      ∀ planned ∈ active, planned.action = .restore → planned.targetDigest.isSome := by
  -- A path adds at most one active entry to the plan, and a restore knows its digest.
  have determined : (determineAction sha256 path (seen path) first.before).canonicalPath = path ∧
      ((determineAction sha256 path (seen path) first.before).action = .restore →
        (determineAction sha256 path (seen path) first.before).targetDigest.isSome) := by
    unfold determineAction
    dsimp only
    split
    · refine ⟨rfl, ?_⟩
      dsimp only
      split
      · simp
      · simp
    · exact ⟨rfl, fun _ => rfl⟩
  have single : ∀ planned : PlannedPath, planned.canonicalPath = path →
      (planned.action = .restore → planned.targetDigest.isSome) →
      (([planned].filter fun planned => planned.action != .noop) = [] ∨
          ∃ only, ([planned].filter fun planned => planned.action != .noop) = [only] ∧ only.canonicalPath = path) ∧
        ∀ one ∈ [planned].filter fun planned => planned.action != .noop, one.action = .restore → one.targetDigest.isSome := by
    intro planned same known
    refine ⟨?_, ?_⟩
    · by_cases active : planned.action = .noop
      · exact .inl (by simp [active])
      · exact .inr ⟨planned, by simp [active], same⟩
    · intro one member
      obtain rfl := List.mem_singleton.mp (List.mem_filter.mp member).1
      exact known
  unfold planPath
  dsimp only
  split
  · simp [Except.toOption]
  · exact single _ determined.1 determined.2
  · simp [Except.toOption]
  · split
    · simp [Except.toOption]
    · exact single _ determined.1 determined.2

theorem flatMap_once {β : Type} (groups : List (Text × β)) (entries : Text × β → List PlannedPath)
    (once : (groups.map Prod.fst).Nodup)
    (each : ∀ group ∈ groups, entries group = [] ∨ ∃ planned, entries group = [planned] ∧ planned.canonicalPath = group.1) :
    ((groups.flatMap entries).map (·.canonicalPath)).Nodup ∧
      ∀ path ∈ (groups.flatMap entries).map (·.canonicalPath), path ∈ groups.map Prod.fst := by
  induction groups with
  | nil => simp
  | cons group rest ih =>
      obtain ⟨fresh, once⟩ := List.nodup_cons.mp once
      obtain ⟨later, named⟩ := ih once fun other member => each other (List.mem_cons_of_mem _ member)
      rw [List.flatMap_cons, List.map_append, List.map_cons]
      rcases each group List.mem_cons_self with none' | ⟨planned, one, same⟩
      · rw [none']
        exact ⟨later, fun path member => List.mem_cons_of_mem _ (named path member)⟩
      · rw [one, List.map_singleton, same]
        refine ⟨?_, ?_⟩
        · exact List.nodup_cons.mpr ⟨fun again => fresh (named _ again), later⟩
        · intro path member
          rcases List.mem_cons.mp member with rfl | member
          · exact List.mem_cons_self
          · exact List.mem_cons_of_mem _ (named path member)

theorem computed_active :
    ((computeRollbackPlan sha256 seen records targetEntryId branchEntryIds).activePaths.map (·.canonicalPath)).Nodup ∧
      ∀ planned ∈ (computeRollbackPlan sha256 seen records targetEntryId branchEntryIds).activePaths,
        planned.action = .restore → planned.targetDigest.isSome := by
  unfold computeRollbackPlan RollbackPlan.activePaths
  split
  · simp
  dsimp only
  rw [List.flatMap_map, List.filter_flatMap]
  refine ⟨(flatMap_once _ _ (InsertionMap.lastBy_keys_nodup _ _) ?_).1, ?_⟩
  · intro group member
    exact (planPath_active sha256 seen group.1 _ group.2).1
  · intro planned member
    obtain ⟨group, -, there⟩ := List.mem_flatMap.mp member
    exact (planPath_active sha256 seen group.1 _ group.2).2 planned there

end Computed

section Main

variable (sha256 : Buffer → Digest) (seen : Disk) (records : List JournalRecord) (targetEntryId : Text)
  (branchEntryIds : List Text)

theorem unchanged_iff (faults : Nat → Faults) (blobs : Blobs) (disk : Disk) {paths : List PlannedPath}
    (once : (paths.map (·.canonicalPath)).Nodup) :
    (∀ path, (restoreAll faults blobs 0 disk paths).1 path = disk path) ↔
      ∀ step ∈ carriedOut faults blobs paths.zipIdx, Unaltered (faults step.2) blobs disk step.1 := by
  obtain ⟨-, reached, untouched⟩ := restoreAll_spec faults blobs disk 0 once
  constructor
  · intro same step member
    rw [unaltered_iff, ← reached step member, same]
  · intro unaltered path
    by_cases visited : path ∈ (carriedOut faults blobs paths.zipIdx).map (·.1.canonicalPath)
    · obtain ⟨step, member, rfl⟩ := List.mem_map.mp visited
      rw [reached step member, unaltered_iff.mp (unaltered step member)]
    · exact untouched path visited

theorem targets_iff (faults : Nat → Faults) (blobs : Blobs) (disk : Disk) {paths : List PlannedPath}
    (once : (paths.map (·.canonicalPath)).Nodup)
    (known : ∀ planned ∈ paths, planned.action = .restore → planned.targetDigest.isSome)
    (ended : carriedOut faults blobs paths.zipIdx = paths.zipIdx) :
    (∀ planned ∈ paths, TargetState blobs (restoreAll faults blobs 0 disk paths).1 planned) ↔
      ∀ step ∈ carriedOut faults blobs paths.zipIdx, step.1.action = .delete → (faults step.2).unlink = true →
        disk step.1.canonicalPath = none := by
  obtain ⟨-, reached, -⟩ := restoreAll_spec faults blobs disk 0 once
  constructor
  · intro targets step member delete failed
    have there := List.mem_map_of_mem (f := Prod.fst) ((List.takeWhile_subset _) member)
    rw [List.zipIdx_map_fst] at there
    have target := targets step.1 there
    unfold TargetState at target
    rw [delete] at target
    dsimp only at target
    rw [reached step member] at target
    unfold leftBehind at target
    rw [delete] at target
    simpa [failed] using target
  · intro absent planned member
    obtain ⟨index, step⟩ : ∃ index, (planned, index) ∈ paths.zipIdx := by
      rw [← List.zipIdx_map_fst (l := paths) (i := 0)] at member
      obtain ⟨⟨one, index⟩, there, rfl⟩ := List.mem_map.mp member
      exact ⟨index, there⟩
    rw [← ended] at step
    have left := reached _ step
    have whole : breaks (faults index) blobs planned = false := by
      have good := List.mem_takeWhile_imp step
      simpa using good
    unfold TargetState
    dsimp only at left
    unfold leftBehind at left
    cases action : planned.action with
    | delete =>
        dsimp only
        rw [action] at left
        dsimp only at left
        rw [left]
        split
        next failed => exact absent _ step action failed
        · rfl
    | noop => trivial
    | restore =>
        dsimp only
        obtain ⟨digest, target⟩ := Option.isSome_iff_exists.mp (known planned member action)
        rw [action, target] at left
        unfold breaks at whole
        rw [action, target] at whole
        simp only [Bool.or_eq_false_iff, Option.isNone_eq_false_iff] at whole
        obtain ⟨data, held⟩ := Option.isSome_iff_exists.mp whole.1.1.2
        exact ⟨digest, target, data, held, left.trans held⟩

theorem rollback_all_or_nothing_iff (journal : JournalFaults) (faults : Nat → Faults) (blobs : Blobs) (disk : Disk)
    (sourceLeafId transactionId createdAt : Text) :
    let plan := computeRollbackPlan sha256 seen records targetEntryId branchEntryIds
    AllOrNothing blobs plan disk
        (executeRollbackJournaled journal faults blobs disk plan targetEntryId sourceLeafId transactionId createdAt) ↔
      StopsHarmlessly journal faults blobs disk plan := by
  intro plan
  obtain ⟨once, known⟩ := computed_active sha256 seen records targetEntryId branchEntryIds
  have ends := (restoreAll_spec faults blobs disk 0 once).1
  have unchanged := unchanged_iff faults blobs disk once
  have targets := targets_iff faults blobs disk once known
  change (restoreAll faults blobs 0 disk plan.activePaths).2 = none ↔ _ at ends
  change (∀ path, (restoreAll faults blobs 0 disk plan.activePaths).1 path = disk path) ↔ _ at unchanged
  change _ → ((∀ planned ∈ plan.activePaths,
    TargetState blobs (restoreAll faults blobs 0 disk plan.activePaths).1 planned) ↔ _) at targets
  -- A run that throws after the first append: no transaction is recorded as committed.
  have stopped : ∀ execution : Execution, execution.disk = (restoreAll faults blobs 0 disk plan.activePaths).1 →
      (∃ error, execution.outcome = .error error) →
      (∀ transaction ∈ execution.appended, transaction.state ≠ .committed) →
      (AllOrNothing blobs plan disk execution ↔
        ∀ step ∈ carriedOut faults blobs plan.activePaths.zipIdx, Unaltered (faults step.2) blobs disk step.1) := by
    intro execution left thrown recorded
    rw [← unchanged, ← left]
    constructor
    · intro promise
      obtain ⟨error, outcome⟩ := thrown
      exact promise.thrown error outcome
    · intro same
      exact ⟨fun _ _ => same, fun transaction member state => absurd state (recorded transaction member)⟩
  unfold executeRollbackJournaled StopsHarmlessly
  dsimp only
  cases journal.prepared with
  | some error => exact ⟨fun _ impossible => by simp at impossible, fun _ => ⟨fun _ _ _ => rfl, by simp⟩⟩
  | none =>
      dsimp only
      cases ran : restoreAll faults blobs 0 disk plan.activePaths with
      | mk restored outcome =>
          rw [ran] at ends stopped targets
          cases outcome with
          | some error =>
              have early : ¬ (carriedOut faults blobs plan.activePaths.zipIdx = plan.activePaths.zipIdx ∧
                  journal.committed = none) := fun both => by simpa using ends.mpr both.1
              rw [if_neg early, imp_iff_right rfl]
              dsimp only
              cases journal.failed with
              | none => exact stopped _ rfl ⟨error, rfl⟩ (by simp)
              | some appendError => exact stopped _ rfl ⟨appendError, rfl⟩ (by simp)
          | none =>
              have ended := ends.mp rfl
              dsimp only
              cases journal.committed with
              | some error =>
                  rw [if_neg (by simp), imp_iff_right rfl]
                  dsimp only
                  cases journal.failed with
                  | none => exact stopped _ rfl ⟨error, rfl⟩ (by simp)
                  | some appendError => exact stopped _ rfl ⟨appendError, rfl⟩ (by simp)
              | none =>
                  rw [if_pos ⟨ended, rfl⟩, imp_iff_right rfl, ← targets ended]
                  constructor
                  · intro promise
                    exact promise.committed _ (List.mem_cons_of_mem _ List.mem_cons_self) rfl
                  · intro reached
                    exact ⟨fun _ outcome => by simp at outcome, fun _ _ _ => reached⟩

theorem first_file_stays_restored :
    ¬ ∀ (sha256 : Buffer → Digest) (seen : Disk) (records : List JournalRecord) (targetEntryId : Text)
        (branchEntryIds : List Text) (journal : JournalFaults) (faults : Nat → Faults) (blobs : Blobs) (disk : Disk)
        (sourceLeafId transactionId createdAt : Text),
        let plan := computeRollbackPlan sha256 seen records targetEntryId branchEntryIds
        plan.eligible = true →
          AllOrNothing blobs plan disk
            (executeRollbackJournaled journal faults blobs disk plan targetEntryId sourceLeafId transactionId
              createdAt) := by
  intro claim
  have promise := claim paint (fun _ => some [2])
    [.mutation (wrote ['f'] ['c'] (.blob (paint [1])) (.blob (paint [2]))),
      .mutation (wrote ['g'] ['c'] (.blob (paint [1])) (.blob (paint [2])))]
    ['b'] (getBranchEntryIds lineage.entries) ⟨none, none, none⟩
    (fun index => { Faults.none with readBlob := index == 1 }) painted (fun _ => some [2]) ['c'] [] [] (by decide)
  have same := promise.thrown "missing blob for g".toList (by decide) ['f']
  exact absurd same (by decide)

end Main

end GrokPi.Rollback
