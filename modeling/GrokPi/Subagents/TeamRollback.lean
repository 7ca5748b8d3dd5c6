import GrokPi.Subagents.TeamTables

set_option autoImplicit false

namespace GrokPi.Subagents

def Creation.refused (creation : Creation) : Bool := creation.aborted || creation.prepared.isSome

def Creation.succeeds (creation : Creation) : Bool :=
  !creation.refused && creation.publication.error.isNone

/-- Either the first creation that fails does so before its record is built, and the rollback
meets no error before its last agent, or all members are created and none is finished at once
with an error of the emitter. -/
def TeamPreset.Clean (team : TeamPreset) (aborted : Bool) : Prop :=
  match team.members.dropWhile fun member => member.creation.succeeds with
  | failing :: _ =>
      failing.creation.refused = true ∧
        ∀ member ∈ (team.members.takeWhile fun member => member.creation.succeeds).dropLast,
          member.finishing = none
  | [] =>
      if aborted then ∀ member ∈ team.members.dropLast, member.finishing = none
      else ∀ member ∈ team.members, member.cancelled = false ∨ member.finishing = none

namespace TeamTables

/-- No later state of the tables shows that the operation was tried. -/
structure Unchanged (before after : TeamTables) : Prop where
  unfinished : after.unfinishedIds = before.unfinishedIds
  records : ∀ id < before.nextRecord, after.records id = before.records id
  handlers : after.finishHandlers = before.finishHandlers
  backing : after.todoBacking = before.todoBacking
  agents : after.agents = before.agents
  reserved : after.reservedPaths = before.reservedPaths
  queued : after.queuedBackground = before.queuedBackground
  started : after.started = before.started

def Atomic (tables : TeamTables) (operation : Operation) : Prop :=
  (tables.perform operation).2.isSome = true → Unchanged tables (tables.perform operation).1

def Clean (tables : TeamTables) : Operation → Prop
  | .createRecord _ _ creation => creation.refused = true ∨ creation.publication.error = none
  | .resumeRecord previous _ resumption =>
      resumption.aborted = true ∨ (tables.records previous).finished = false ∨
        resumption.publication.error = none
  | .reactivateAgent path resumption =>
      ∀ target, tables.agents.get path = some target →
        canReceiveMessage (tables.status target) = true →
          if resumption.aborted then target.report = none else resumption.publication.error = none
  | .spawnAgent senderPath taskName deferStart creation cancelled finishing =>
      senderPath ≠ rootPath ∧ tables.agents.has senderPath = false ∨
        tables.taken (childPath senderPath taskName) = true ∨ creation.refused = true ∨
        creation.publication.error = none ∧
          (deferStart = true ∨ cancelled = false ∨ finishing = none)
  | .spawnTeam team aborted =>
      (∃ member ∈ team.members, tables.taken (childPath rootPath member.name) = true) ∨
        team.Clean aborted

structure Kept (tables : TeamTables) : Prop where
  published : tables.todoBacking = tables.backing
  known : ∀ id ∈ tables.finishHandlers, id < tables.nextRecord

section Parts

variable {tables : TeamTables}

theorem Unchanged.refl (tables : TeamTables) : Unchanged tables tables :=
  ⟨rfl, fun _ _ => rfl, rfl, rfl, rfl, rfl, rfl, rfl⟩

theorem mem_unfinishedIds {id : RecordId} :
    id ∈ tables.unfinishedIds ↔ id < tables.nextRecord ∧ (tables.records id).finished = false := by
  simp [unfinishedIds]

theorem changed_of_unfinished {next : TeamTables} {id : RecordId} (new : tables.nextRecord ≤ id)
    (left : id ∈ next.unfinishedIds) : ¬ Unchanged tables next := by
  intro same
  rw [same.unfinished] at left
  exact absurd (mem_unfinishedIds.mp left).1 (Nat.not_lt.mpr new)

theorem backing_congr {next : TeamTables} (unfinished : next.unfinishedIds = tables.unfinishedIds)
    (background : ∀ id ∈ tables.unfinishedIds,
      (next.records id).background = (tables.records id).background) :
    next.backing = tables.backing := by
  simp only [backing, unfinished]
  congr 1
  apply Finset.filter_congr
  intro id member
  rw [background id member]

theorem unfinishedIds_requestCancel (id : RecordId) :
    (tables.requestCancel id).unfinishedIds = tables.unfinishedIds := by
  ext other
  by_cases same : other = id
  · simp [mem_unfinishedIds, requestCancel, updateRecord, same]
  · simp [mem_unfinishedIds, requestCancel, updateRecord, same]

theorem background_requestCancel (id other : RecordId) :
    ((tables.requestCancel id).records other).background = (tables.records other).background := by
  by_cases same : other = id
  · simp [requestCancel, updateRecord, same]
  · simp [requestCancel, updateRecord, same]

theorem unfinishedIds_setRecord (background onFinished : Bool) :
    (tables.setRecord background onFinished).unfinishedIds =
      insert tables.nextRecord tables.unfinishedIds := by
  ext id
  rw [Finset.mem_insert, mem_unfinishedIds, mem_unfinishedIds]
  by_cases same : id = tables.nextRecord
  · simp [setRecord, same]
  · simp only [setRecord, Function.update_of_ne same, same, false_or]
    constructor
    · exact fun ⟨known, left⟩ => ⟨by simp only [RecordId] at *; omega, left⟩
    · exact fun ⟨known, left⟩ => ⟨Nat.lt_succ_of_lt known, left⟩

theorem finish_spec (id : RecordId) (status : TerminalStatus) (emitted : Option Text)
    (left : (tables.records id).finished = false) :
    (tables.finish id status emitted).2 = emitted ∧
      (tables.finish id status emitted).1 =
        { (tables.updateRecord id fun record =>
            { record with finished := true, terminalStatus := some status }).publishTodoBacking with
          finishHandlers :=
            if emitted.isSome then tables.finishHandlers else tables.finishHandlers.erase id } := by
  simp only [finish, left]
  cases emitted with
  | none => exact ⟨rfl, rfl⟩
  | some error => exact ⟨rfl, rfl⟩

namespace Kept

variable (kept : tables.Kept)
include kept

theorem same {next : TeamTables} (unfinished : next.unfinishedIds = tables.unfinishedIds)
    (background : ∀ id, (next.records id).background = (tables.records id).background)
    (nextRecord : next.nextRecord = tables.nextRecord)
    (handlers : next.finishHandlers ⊆ tables.finishHandlers)
    (todoBacking : next.todoBacking = tables.todoBacking) : next.Kept := by
  constructor
  · rw [todoBacking, backing_congr unfinished fun id _ => background id]
    exact kept.published
  · intro id member
    rw [nextRecord]
    exact kept.known id (handlers member)

theorem requestCancel (id : RecordId) : (tables.requestCancel id).Kept :=
  kept.same (unfinishedIds_requestCancel id) (background_requestCancel id) rfl subset_rfl rfl

theorem setAgent (path : AgentPath) (agent : TableAgent) : (tables.setAgent path agent).Kept :=
  kept.same rfl (fun _ => rfl) rfl subset_rfl rfl

theorem finish (id : RecordId) (status : TerminalStatus) (emitted : Option Text) :
    (tables.finish id status emitted).1.Kept := by
  by_cases already : (tables.records id).finished = true
  · simp only [TeamTables.finish, already, if_true]
    exact kept
  · rw [(finish_spec id status emitted (Bool.eq_false_iff.mpr already)).2]
    constructor
    · rfl
    · intro other member
      apply kept.known other
      simp only at member
      split at member
      · exact member
      · exact Finset.mem_of_mem_erase member

theorem discard (id : RecordId) (emitted : Option Text) : (tables.discard id emitted).1.Kept := by
  simp only [TeamTables.discard]
  split
  · exact kept
  · apply Kept.finish
    exact (kept.requestCancel id).same rfl (fun _ => rfl) rfl (Finset.erase_subset _ _) rfl

theorem scheduleBackgroundTask (id : RecordId) (emitted : Option Text) :
    (tables.scheduleBackgroundTask id emitted).1.Kept := by
  simp only [TeamTables.scheduleBackgroundTask]
  split
  · exact kept
  · split
    · have finished := kept.finish id .cancelled emitted
      split
      · next outcome => rwa [outcome] at finished
      · next outcome => rwa [outcome] at finished
    · split
      · exact kept.same rfl (fun _ => rfl) rfl subset_rfl rfl
      · exact kept.same rfl (fun _ => rfl) rfl subset_rfl rfl

theorem setRecord_known (background onFinished : Bool) :
    ∀ id ∈ (tables.setRecord background onFinished).finishHandlers,
      id < (tables.setRecord background onFinished).nextRecord := by
  intro id member
  simp only [setRecord] at member ⊢
  split at member
  · rcases Finset.mem_insert.mp member with rfl | earlier
    · exact Nat.lt_succ_self _
    · exact Nat.lt_succ_of_lt (kept.known id earlier)
  · exact Nat.lt_succ_of_lt (kept.known id member)

theorem setRecord_foreground (onFinished : Bool) : (tables.setRecord false onFinished).Kept := by
  -- A record of the foreground does not count.
  constructor
  · have same : ((tables.setRecord false onFinished).unfinishedIds.filter fun id =>
        ((tables.setRecord false onFinished).records id).background = true) =
        tables.unfinishedIds.filter fun id => (tables.records id).background = true := by
      rw [unfinishedIds_setRecord, Finset.filter_insert, if_neg (by simp [TeamTables.setRecord])]
      apply Finset.filter_congr
      intro id member
      have older : id ≠ tables.nextRecord := Nat.ne_of_lt (mem_unfinishedIds.mp member).1
      simp only [TeamTables.setRecord, Function.update_of_ne older]
    simp only [backing, same]
    exact kept.published
  · exact kept.setRecord_known false onFinished

theorem setRecord (background onFinished : Bool) :
    (tables.setRecord background onFinished).publishTodoBacking.Kept :=
  ⟨rfl, kept.setRecord_known background onFinished⟩

theorem createRecord (background onFinished : Bool) (creation : Creation) :
    (tables.createRecord background onFinished creation).1.Kept := by
  have published : (if background then
      (tables.setRecord background onFinished).publishTodoBacking
    else tables.setRecord background onFinished).Kept := by
    cases background with
    | true => exact kept.setRecord true onFinished
    | false => exact kept.setRecord_foreground onFinished
  simp only [TeamTables.createRecord]
  split
  · exact kept
  · split
    · exact kept
    · split
      · exact published
      · exact published

theorem resumeRecord (previous : RecordId) (onFinished : Bool) (resumption : Resumption) :
    (tables.resumeRecord previous onFinished resumption).1.Kept := by
  simp only [TeamTables.resumeRecord]
  split
  · exact kept
  · split
    · exact kept
    · split
      · exact kept.setRecord _ onFinished
      · exact kept.setRecord _ onFinished

theorem reactivateAgent (path : AgentPath) (target : TableAgent) (resumption : Resumption) :
    (tables.reactivateAgent path target resumption).1.Kept := by
  simp only [TeamTables.reactivateAgent]
  split
  · exact kept
  · have resumed := (kept.setAgent path { target with report := none }).resumeRecord target.record
      true resumption
    split
    · next outcome => rwa [outcome] at resumed
    · next next id outcome =>
      rw [outcome] at resumed
      have scheduled := (resumed.setAgent path
        { record := id, status := .running, report := none }).scheduleBackgroundTask id none
      split
      · next outcome' => rwa [outcome'] at scheduled
      · next outcome' =>
        rw [outcome'] at scheduled
        exact scheduled.setAgent _ _

theorem register (path : AgentPath) (deferStart : Bool) (creation : Creation) (cancelled : Bool)
    (finishing : Option Text) :
    (tables.register path deferStart creation cancelled finishing).1.Kept := by
  have created := kept.createRecord true true creation
  simp only [TeamTables.register]
  split
  · next outcome => rwa [outcome] at created
  · next next id outcome =>
    rw [outcome] at created
    have marked : (if cancelled then next.requestCancel id else next).Kept := by
      split
      · exact Kept.requestCancel created id
      · exact created
    have registered := marked.setAgent path { record := id, status := .running, report := none }
    split
    · exact registered
    · have scheduled := registered.scheduleBackgroundTask id finishing
      split
      · next outcome' => rwa [outcome'] at scheduled
      · next outcome' => rwa [outcome'] at scheduled

theorem spawnAgent (senderPath : AgentPath) (taskName : Text) (deferStart : Bool)
    (creation : Creation) (cancelled : Bool) (finishing : Option Text) :
    (tables.spawnAgent senderPath taskName deferStart creation cancelled finishing).1.Kept := by
  simp only [TeamTables.spawnAgent]
  split
  · exact kept
  · split
    · exact kept
    · have reserved : ({ tables with
          reservedPaths := insert (childPath senderPath taskName) tables.reservedPaths } :
            TeamTables).Kept := kept.same rfl (fun _ => rfl) rfl subset_rfl rfl
      exact (reserved.register _ deferStart creation cancelled finishing).same rfl (fun _ => rfl) rfl
        subset_rfl rfl

theorem createMembers (spawned : List Spawned) (members : List Member) :
    (tables.createMembers spawned members).1.Kept := by
  induction members generalizing tables spawned with
  | nil => exact kept
  | cons member rest ih =>
      have next := kept.spawnAgent rootPath member.name true member.creation member.cancelled
        member.finishing
      simp only [TeamTables.createMembers]
      split
      · next outcome =>
        rw [outcome] at next
        exact ih next _
      · next outcome => rwa [outcome] at next

theorem rollbackTeam (spawned : List Spawned) : (tables.rollbackTeam spawned).1.Kept := by
  induction spawned generalizing tables with
  | nil => exact kept
  | cons agent rest ih =>
      have removed : ({ tables with agents := tables.agents.erase agent.path } : TeamTables).Kept :=
        kept.same rfl (fun _ => rfl) rfl subset_rfl rfl
      have next := removed.discard agent.record agent.finishing
      simp only [TeamTables.rollbackTeam]
      split
      · next outcome => rwa [outcome] at next
      · next outcome =>
        rw [outcome] at next
        exact ih next

theorem scheduleMembers (spawned : List Spawned) : (tables.scheduleMembers spawned).1.Kept := by
  induction spawned generalizing tables with
  | nil => exact kept
  | cons agent rest ih =>
      have next := kept.scheduleBackgroundTask agent.record agent.finishing
      simp only [TeamTables.scheduleMembers]
      split
      · next outcome => rwa [outcome] at next
      · next outcome =>
        rw [outcome] at next
        exact ih next

theorem spawnTeam (team : TeamPreset) (aborted : Bool) : (tables.spawnTeam team aborted).1.Kept := by
  simp only [TeamTables.spawnTeam]
  split
  · exact kept
  · have created := kept.createMembers [] team.members
    split
    · next outcome =>
      rw [outcome] at created
      exact created.rollbackTeam _
    · next outcome =>
      rw [outcome] at created
      split
      · exact created.rollbackTeam _
      · exact created.scheduleMembers _

theorem step (event : TableEvent) : (tables.step event).Kept := by
  cases event with
  | attempted operation =>
      cases operation with
      | createRecord background onFinished creation =>
          exact kept.createRecord background onFinished creation
      | resumeRecord previous onFinished resumption =>
          exact kept.resumeRecord previous onFinished resumption
      | reactivateAgent path resumption =>
          simp only [TeamTables.step, perform]
          split
          · exact kept.reactivateAgent path _ resumption
          · exact kept
      | spawnAgent senderPath taskName deferStart creation cancelled finishing =>
          exact kept.spawnAgent senderPath taskName deferStart creation cancelled finishing
      | spawnTeam team aborted => exact kept.spawnTeam team aborted
  | finished id status emitted => exact kept.finish id status emitted
  | cancelled id emitted =>
      simp only [TeamTables.step, TeamTables.cancel]
      split
      · exact kept
      · split
        · apply Kept.finish
          exact (kept.requestCancel id).same rfl (fun _ => rfl) rfl subset_rfl rfl
        · exact kept.requestCancel id
  | released =>
      simp only [TeamTables.step, releaseSlot]
      split
      · exact kept.same rfl (fun _ => rfl) rfl subset_rfl rfl
      · apply Kept.scheduleBackgroundTask
        exact kept.same rfl (fun _ => rfl) rfl subset_rfl rfl
  | reported path report =>
      simp only [TeamTables.step]
      split
      · exact kept.setAgent path _
      · exact kept

end Kept

theorem start_kept : start.Kept := by
  constructor
  · rfl
  · intro id member
    cases member

end Parts

end TeamTables

end GrokPi.Subagents
