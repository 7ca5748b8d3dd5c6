import GrokPi.Subagents.TeamRollback

set_option autoImplicit false

namespace GrokPi.Subagents

namespace TeamTables

section Single

variable {tables : TeamTables}

def opened (tables : TeamTables) (background onFinished : Bool) : TeamTables :=
  if background then (tables.setRecord background onFinished).publishTodoBacking
  else tables.setRecord background onFinished

theorem opened_unfinished (background onFinished : Bool) :
    tables.nextRecord ∈ (tables.opened background onFinished).unfinishedIds := by
  have inserted : tables.nextRecord ∈ (tables.setRecord background onFinished).unfinishedIds := by
    rw [unfinishedIds_setRecord]
    exact Finset.mem_insert_self _ _
  cases background with
  | true => exact inserted
  | false => exact inserted

variable {creation : Creation}

theorem createRecord_refused (background onFinished : Bool) (refused : creation.refused = true) :
    ∃ error, tables.createRecord background onFinished creation = (tables, .error error) := by
  simp only [createRecord]
  cases aborted : creation.aborted with
  | true => exact ⟨_, rfl⟩
  | false =>
      simp only [Creation.refused, aborted, Bool.false_or] at refused
      obtain ⟨error, prepared⟩ := Option.isSome_iff_exists.mp refused
      exact ⟨error, by simp [prepared]⟩

theorem createRecord_built (background onFinished : Bool) (built : creation.refused = false) :
    tables.createRecord background onFinished creation =
      (tables.opened background onFinished,
        match creation.publication.error with
        | some error => .error error
        | none => .ok tables.nextRecord) := by
  simp only [Creation.refused, Bool.or_eq_false_iff, Option.isSome_eq_false_iff,
    Option.isNone_iff_eq_none] at built
  simp only [createRecord, built.1, built.2, opened]
  cases creation.publication.error with
  | none => rfl
  | some error => rfl

theorem resumeRecord_built {previous : RecordId} (onFinished : Bool) {resumption : Resumption}
    (live : resumption.aborted = false) (ended : (tables.records previous).finished = true) :
    tables.resumeRecord previous onFinished resumption =
      ((tables.setRecord (tables.records previous).background onFinished).publishTodoBacking,
        match resumption.publication.error with
        | some error => .error error
        | none => .ok tables.nextRecord) := by
  simp only [resumeRecord, live, ended]
  cases resumption.publication.error with
  | none => rfl
  | some error => rfl

theorem createRecord_atomic (background onFinished : Bool) (creation : Creation) :
    Atomic tables (.createRecord background onFinished creation) ↔
      Clean tables (.createRecord background onFinished creation) := by
  simp only [Atomic, Clean, perform, Prod.map_fst, Prod.map_snd, id]
  cases refused : creation.refused with
  | true =>
      obtain ⟨error, outcome⟩ := @createRecord_refused tables creation background onFinished refused
      rw [outcome]
      exact iff_of_true (fun _ => Unchanged.refl tables) (Or.inl rfl)
  | false =>
      rw [createRecord_built background onFinished refused]
      cases creation.publication.error with
      | none => simp [thrown]
      | some error =>
          have changed := changed_of_unfinished le_rfl
            (@opened_unfinished tables background onFinished)
          simp [thrown, changed]

theorem resumeRecord_atomic (previous : RecordId) (onFinished : Bool) (resumption : Resumption) :
    Atomic tables (.resumeRecord previous onFinished resumption) ↔
      Clean tables (.resumeRecord previous onFinished resumption) := by
  simp only [Atomic, Clean, perform, Prod.map_fst, Prod.map_snd, id]
  cases live : resumption.aborted with
  | true =>
      have outcome : (tables.resumeRecord previous onFinished resumption).1 = tables := by
        simp [resumeRecord, live]
      rw [outcome]
      exact iff_of_true (fun _ => Unchanged.refl tables) (Or.inl rfl)
  | false =>
      cases ended : (tables.records previous).finished with
      | false =>
          have outcome : (tables.resumeRecord previous onFinished resumption).1 = tables := by
            simp [resumeRecord, live, ended]
          rw [outcome]
          exact iff_of_true (fun _ => Unchanged.refl tables) (Or.inr (Or.inl rfl))
      | true =>
          rw [resumeRecord_built onFinished live ended]
          cases resumption.publication.error with
          | none => simp [thrown]
          | some error =>
              have left : tables.nextRecord ∈
                  (tables.setRecord (tables.records previous).background onFinished).unfinishedIds := by
                rw [unfinishedIds_setRecord]
                exact Finset.mem_insert_self _ _
              have changed : ¬ Unchanged tables (tables.setRecord
                  (tables.records previous).background onFinished).publishTodoBacking :=
                changed_of_unfinished le_rfl left
              simp [thrown, changed]

theorem ended_of_receives {agent : TableAgent}
    (receives : canReceiveMessage (tables.status agent) = true) :
    (tables.records agent.record).finished = true := by
  by_contra unfinished
  simp only [status, Bool.eq_false_iff.mpr unfinished, Bool.not_false, if_true] at receives
  split at receives <;> cases receives

theorem scheduleBackgroundTask_throws {id : RecordId} (emitted : Option Text)
    (left : (tables.records id).finished = false) :
    (thrown (tables.scheduleBackgroundTask id emitted).2).isSome =
      ((tables.records id).cancelRequested && emitted.isSome) := by
  -- Only a cancelled run is finished where it should start, which emits an event.
  cases wanted : (tables.records id).cancelRequested with
  | true =>
      cases emitted with
      | none => simp [scheduleBackgroundTask, finish, left, wanted, thrown]
      | some error => simp [scheduleBackgroundTask, finish, left, wanted, thrown]
  | false =>
      by_cases full : maxBackgroundConcurrency ≤ tables.runningBackground
      · simp [scheduleBackgroundTask, left, wanted, full, thrown]
      · simp [scheduleBackgroundTask, left, wanted, full, thrown]

theorem finish_agents (id : RecordId) (status : TerminalStatus) (emitted : Option Text) :
    (tables.finish id status emitted).1.agents = tables.agents := by
  simp only [finish]
  split
  · rfl
  · cases emitted with
    | none => rfl
    | some error => rfl

theorem scheduleBackgroundTask_agents (id : RecordId) (emitted : Option Text) :
    (tables.scheduleBackgroundTask id emitted).1.agents = tables.agents := by
  have finished := tables.finish_agents id .cancelled emitted
  simp only [scheduleBackgroundTask]
  split
  · rfl
  · split
    · split
      · next outcome => rwa [outcome] at finished
      · next outcome => rwa [outcome] at finished
    · split <;> rfl

theorem reactivateAgent_ok (path : AgentPath) {target : TableAgent} {resumption : Resumption}
    (receives : canReceiveMessage (tables.status target) = true)
    (live : resumption.aborted = false) (written : resumption.publication.error = none) :
    thrown (tables.reactivateAgent path target resumption).2 = none := by
  -- Once the record is published, nothing else throws.
  have resumed := @resumeRecord_built (tables.setAgent path { target with report := none })
    target.record true resumption live (ended_of_receives receives)
  rw [written] at resumed
  simp only [reactivateAgent, receives, resumed, Bool.not_true, Bool.false_eq_true, if_false]
  generalize running : TeamTables.setAgent _ path _ = next
  have left : (next.records (tables.setAgent path { target with report := none }).nextRecord).finished
      = false := by
    rw [← running]
    simp [setAgent, setRecord, publishTodoBacking]
  have started := scheduleBackgroundTask_throws none left
  cases outcome : next.scheduleBackgroundTask
      (tables.setAgent path { target with report := none }).nextRecord none with
  | mk after result =>
      rw [outcome] at started
      cases result with
      | ok scheduled => rfl
      | error error => simp [thrown] at started

theorem reactivateAgent_atomic (path : AgentPath) (resumption : Resumption) :
    Atomic tables (.reactivateAgent path resumption) ↔
      Clean tables (.reactivateAgent path resumption) := by
  simp only [Atomic, Clean, perform]
  cases found : tables.agents.get path with
  | none =>
      refine iff_of_true (fun _ => Unchanged.refl tables) ?_
      intro target same
      cases same
  | some target =>
      simp only [Option.some.injEq, Prod.map_fst, Prod.map_snd, id]
      cases receives : canReceiveMessage (tables.status target) with
      | false =>
          have outcome : (tables.reactivateAgent path target resumption).1 = tables := by
            simp [reactivateAgent, receives]
          rw [outcome]
          refine iff_of_true (fun _ => Unchanged.refl tables) ?_
          rintro _ rfl able
          rw [receives] at able
          cases able
      | true =>
          have ended := ended_of_receives receives
          cases live : resumption.aborted with
          | true =>
              -- The report is cleared before the signal is looked at.
              have outcome : tables.reactivateAgent path target resumption =
                  (tables.setAgent path { target with report := none },
                    .error "Subagent request was cancelled before reactivation.".toList) := by
                simp [reactivateAgent, receives, resumeRecord, live]
              rw [outcome]
              simp only [thrown, Option.isSome_some, forall_const, if_true, forall_eq', receives]
              constructor
              · intro same
                have held := congrArg (fun agents => InsertionMap.get agents path) same.agents
                simp only [setAgent, InsertionMap.get_set, if_true, found, Option.some.injEq] at held
                rw [← held]
              · intro nothing
                have kept : tables.setAgent path { target with report := none } = tables := by
                  have same : ({ target with report := none } : TableAgent) = target := by
                    rw [← nothing]
                  rw [same]
                  simp only [setAgent, InsertionMap.set_get found]
                rw [kept]
                exact Unchanged.refl tables
          | false =>
              cases failed : resumption.publication.error with
              | some error =>
                  have resumed := @resumeRecord_built (tables.setAgent path { target with report := none })
                    target.record true resumption live ended
                  rw [failed] at resumed
                  have left := Finset.mem_insert_self tables.nextRecord tables.unfinishedIds
                  rw [← unfinishedIds_setRecord (tables.records target.record).background true] at left
                  have changed : ¬ Unchanged tables (tables.reactivateAgent path target resumption).1 := by
                    simp only [reactivateAgent, receives, resumed, Bool.not_true, Bool.false_eq_true,
                      if_false]
                    exact changed_of_unfinished le_rfl left
                  have throws : (thrown (tables.reactivateAgent path target resumption).2).isSome = true := by
                    simp [reactivateAgent, receives, resumed, thrown]
                  refine iff_of_false (fun same => changed (same throws)) ?_
                  intro none
                  have written := none target rfl receives
                  simp at written
              | none =>
                  rw [reactivateAgent_ok path receives live failed]
                  exact iff_of_true (fun throws => by cases throws) (fun _ _ _ => by simp)

def registered (tables : TeamTables) (path : AgentPath) (cancelled : Bool) : TeamTables :=
  let created := tables.opened true true
  (if cancelled then created.requestCancel tables.nextRecord else created).setAgent path
    { record := tables.nextRecord, status := .running, report := none }

theorem register_refused (path : AgentPath) (deferStart : Bool)
    (cancelled : Bool) (finishing : Option Text) (refused : creation.refused = true) :
    ∃ error, tables.register path deferStart creation cancelled finishing = (tables, .error error) := by
  obtain ⟨error, outcome⟩ := @createRecord_refused tables creation true true refused
  exact ⟨error, by simp only [register, outcome]⟩

theorem register_leaks (path : AgentPath) (deferStart : Bool)
    (cancelled : Bool) (finishing : Option Text) (built : creation.refused = false) {error : Text}
    (failed : creation.publication.error = some error) :
    tables.register path deferStart creation cancelled finishing =
      (tables.opened true true, .error error) := by
  simp only [register, createRecord_built true true built, failed]

theorem register_created (path : AgentPath) (deferStart : Bool)
    (cancelled : Bool) (finishing : Option Text) (built : creation.refused = false)
    (written : creation.publication.error = none) :
    tables.register path deferStart creation cancelled finishing =
      if deferStart then (tables.registered path cancelled, .ok tables.nextRecord)
      else
        match (tables.registered path cancelled).scheduleBackgroundTask tables.nextRecord
            finishing with
        | (scheduled, .error error) => (scheduled, .error error)
        | (scheduled, .ok _) => (scheduled, .ok tables.nextRecord) := by
  simp only [register, createRecord_built true true built, written]
  rfl

theorem registered_records (path : AgentPath) (cancelled : Bool) :
    (tables.registered path cancelled).records =
      Function.update tables.records tables.nextRecord
        { background := true
          finished := false
          terminalStatus := none
          cancelRequested := cancelled } := by
  cases cancelled with
  | true => simp [registered, opened, setRecord, publishTodoBacking, setAgent, requestCancel, updateRecord]
  | false => simp [registered, opened, setRecord, publishTodoBacking, setAgent]

def reserve (tables : TeamTables) (path : AgentPath) : TeamTables :=
  { tables with reservedPaths := insert path tables.reservedPaths }

def unreserve (tables : TeamTables) (path : AgentPath) : TeamTables :=
  { tables with reservedPaths := tables.reservedPaths.erase path }

theorem spawnAgent_free {senderPath : AgentPath} {taskName : Text}
    (known : senderPath = rootPath ∨ tables.agents.has senderPath = true)
    (free : tables.taken (childPath senderPath taskName) = false) (deferStart : Bool)
    (creation : Creation) (cancelled : Bool) (finishing : Option Text) :
    tables.spawnAgent senderPath taskName deferStart creation cancelled finishing =
      let path := childPath senderPath taskName
      let spawned := (tables.reserve path).register path deferStart creation cancelled finishing
      (spawned.1.unreserve path, spawned.2) := by
  have sender : (decide (senderPath ≠ rootPath) && !tables.agents.has senderPath) = false := by
    rcases known with root | present
    · simp [root]
    · simp [present]
  simp only [spawnAgent, sender, free, Bool.false_eq_true, if_false]
  rfl

variable {path : AgentPath}

theorem unreserve_reserve (free : tables.taken path = false) :
    (tables.reserve path).unreserve path = tables := by
  simp only [taken, Bool.or_eq_false_iff, decide_eq_false_iff_not] at free
  simp only [reserve, unreserve, Finset.erase_insert free.2]

theorem changed_of_registered {next : TeamTables} {agent : TableAgent}
    (free : tables.taken path = false) (agents : next.agents.get path = some agent) :
    ¬ Unchanged tables next := by
  intro same
  simp only [taken, Bool.or_eq_false_iff, InsertionMap.has] at free
  rw [same.agents] at agents
  rw [agents] at free
  cases free.1

theorem start_atomic (free : tables.taken path = false) (cancelled : Bool) (finishing : Option Text) :
    ((thrown ((tables.reserve path).registered path cancelled |>.scheduleBackgroundTask
          tables.nextRecord finishing).2).isSome = true →
      Unchanged tables (((tables.reserve path).registered path cancelled |>.scheduleBackgroundTask
        tables.nextRecord finishing).1.unreserve path)) ↔ cancelled = false ∨ finishing = none := by
  -- What is thrown as the first run is scheduled comes after the agent is registered.
  have record : ((tables.reserve path).registered path cancelled).records tables.nextRecord =
      { background := true
        finished := false
        terminalStatus := none
        cancelRequested := cancelled } := by
    rw [registered_records]
    exact Function.update_self _ _ _
  have throws := scheduleBackgroundTask_throws finishing
    (show (((tables.reserve path).registered path cancelled).records tables.nextRecord).finished = false
      by rw [record])
  have agents := ((tables.reserve path).registered path cancelled).scheduleBackgroundTask_agents
    tables.nextRecord finishing
  rw [throws, record]
  have changed : ¬ Unchanged tables (((tables.reserve path).registered path
      cancelled |>.scheduleBackgroundTask tables.nextRecord finishing).1.unreserve path) := by
    have held : (((tables.reserve path).registered path cancelled |>.scheduleBackgroundTask
        tables.nextRecord finishing).1.unreserve path).agents.get path =
          some { record := tables.nextRecord, status := .running, report := none } := by
      simp only [unreserve, agents]
      simp [registered, setAgent, InsertionMap.get_set, reserve]
    exact changed_of_registered free held
  cases cancelled with
  | false => simp
  | true =>
      cases finishing with
      | none => simp
      | some error => simpa using changed

theorem spawnAgent_atomic (senderPath : AgentPath) (taskName : Text) (deferStart : Bool)
    (creation : Creation) (cancelled : Bool) (finishing : Option Text) :
    Atomic tables (.spawnAgent senderPath taskName deferStart creation cancelled finishing) ↔
      Clean tables (.spawnAgent senderPath taskName deferStart creation cancelled finishing) := by
  simp only [Atomic, Clean, perform, Prod.map_fst, Prod.map_snd, id]
  by_cases unknown : senderPath ≠ rootPath ∧ tables.agents.has senderPath = false
  · have outcome : (tables.spawnAgent senderPath taskName deferStart creation cancelled
        finishing).1 = tables := by
      simp [spawnAgent, unknown.1, unknown.2]
    rw [outcome]
    exact iff_of_true (fun _ => Unchanged.refl tables) (Or.inl unknown)
  have known : senderPath = rootPath ∨ tables.agents.has senderPath = true := by
    by_contra missing
    rw [not_or, Bool.not_eq_true] at missing
    exact unknown missing
  cases free : tables.taken (childPath senderPath taskName) with
  | true =>
      have outcome : (tables.spawnAgent senderPath taskName deferStart creation cancelled
          finishing).1 = tables := by
        simp only [spawnAgent, free, if_true]
        split <;> rfl
      rw [outcome]
      exact iff_of_true (fun _ => Unchanged.refl tables) (Or.inr (Or.inl rfl))
  | false =>
      rw [spawnAgent_free known free]
      simp only [unknown, Bool.false_eq_true, false_or]
      generalize childPath senderPath taskName = path at *
      cases refused : creation.refused with
      | true =>
          obtain ⟨error, outcome⟩ := @register_refused (tables.reserve path) creation path deferStart
            cancelled finishing refused
          rw [outcome]
          simp only [unreserve_reserve free]
          exact iff_of_true (fun _ => Unchanged.refl tables) (Or.inl trivial)
      | false =>
          cases failed : creation.publication.error with
          | some error =>
              rw [register_leaks _ _ _ _ refused failed]
              have left := @opened_unfinished (tables.reserve path) true true
              have changed : ¬ Unchanged tables
                  (((tables.reserve path).opened true true).unreserve path) :=
                changed_of_unfinished le_rfl left
              exact iff_of_false (fun same => changed (same rfl)) (by simp)
          | none =>
              rw [register_created _ _ _ _ refused failed]
              cases deferStart with
              | true => simp [thrown]
              | false =>
                  have exactly := start_atomic free cancelled finishing
                  have next : (tables.reserve path).nextRecord = tables.nextRecord := rfl
                  simp only [Bool.false_eq_true, if_false, false_or, true_and, next]
                  cases outcome : ((tables.reserve path).registered path
                      cancelled).scheduleBackgroundTask tables.nextRecord finishing with
                  | mk after result =>
                      rw [outcome] at exactly
                      cases result with
                      | ok scheduled => exact exactly
                      | error error => exact exactly

structure Placed (tables next : TeamTables) (path : AgentPath) (cancelled : Bool) : Prop where
  records : next.records = Function.update tables.records tables.nextRecord
    { background := true
      finished := false
      terminalStatus := none
      cancelRequested := cancelled }
  nextRecord : next.nextRecord = tables.nextRecord + 1
  handlers : next.finishHandlers = insert tables.nextRecord tables.finishHandlers
  agents : next.agents = tables.agents.set path
    { record := tables.nextRecord, status := .running, report := none }
  reserved : next.reservedPaths = tables.reservedPaths
  queued : next.queuedBackground = tables.queuedBackground
  started : next.started = tables.started

theorem placed_of_free (free : tables.taken path = false) (cancelled : Bool) :
    Placed tables (((tables.reserve path).registered path cancelled).unreserve path) path cancelled where
  records := registered_records path cancelled
  nextRecord := by cases cancelled <;> rfl
  handlers := by cases cancelled <;> rfl
  agents := by cases cancelled <;> rfl
  reserved := by
    have back := congrArg TeamTables.reservedPaths (unreserve_reserve free)
    cases cancelled <;> exact back
  queued := by cases cancelled <;> rfl
  started := by cases cancelled <;> rfl

theorem Placed.older {next : TeamTables} {cancelled : Bool} {id : RecordId}
    (placed : Placed tables next path cancelled) (old : id ≠ tables.nextRecord) :
    next.records id = tables.records id := by
  rw [placed.records, Function.update_of_ne old]

end Single

structure Discarded (id : RecordId) (tables next : TeamTables) : Prop where
  finished : (next.records id).finished = true
  records : ∀ other, other ≠ id → next.records other = tables.records other
  nextRecord : next.nextRecord = tables.nextRecord
  handlers : ∀ other, other ∈ next.finishHandlers ↔ other ∈ tables.finishHandlers ∧ other ≠ id
  agents : next.agents = tables.agents
  reserved : next.reservedPaths = tables.reservedPaths
  queued : next.queuedBackground = tables.queuedBackground
  started : next.started = tables.started

theorem discard_spec (tables : TeamTables) (id : RecordId) (emitted : Option Text)
    (left : (tables.records id).finished = false) :
    (tables.discard id emitted).2 = emitted ∧ Discarded id tables (tables.discard id emitted).1 := by
  have marked : ((tables.requestCancel id).records id).finished = false := by
    simp [requestCancel, updateRecord, left]
  obtain ⟨error, ended⟩ := @finish_spec { tables.requestCancel id with
    finishHandlers := tables.finishHandlers.erase id } id .cancelled emitted marked
  simp only [discard, left, Bool.false_eq_true, if_false]
  refine ⟨error, ?_⟩
  rw [ended]
  exact {
    finished := by simp [updateRecord, publishTodoBacking]
    records := fun other different => by
      simp [updateRecord, publishTodoBacking, requestCancel, different]
    nextRecord := rfl
    handlers := fun other => by
      cases emitted with
      | none => simp [and_comm]
      | some error => simp [and_comm]
    agents := rfl
    reserved := rfl
    queued := rfl
    started := rfl }

structure Behind (before : TeamTables) (left : List (Spawned × Member)) (tables : TeamTables) :
    Prop where
  grown : before.nextRecord ≤ tables.nextRecord
  older : ∀ id < before.nextRecord, tables.records id = before.records id
  newer : ∀ id, before.nextRecord ≤ id → id < tables.nextRecord →
    ((tables.records id).finished = false ↔ id ∈ left.map fun pair => pair.1.record)
  fresh : ∀ pair ∈ left, before.nextRecord ≤ pair.1.record ∧ pair.1.record < tables.nextRecord
  asked : ∀ pair ∈ left, pair.1.finishing = pair.2.finishing ∧
    (tables.records pair.1.record).cancelRequested = pair.2.cancelled
  once : (left.map fun pair => pair.1.record).Nodup
  handlers : ∀ id, id ∈ tables.finishHandlers ↔
    id ∈ before.finishHandlers ∨ id ∈ left.map fun pair => pair.1.record
  agents : ∃ entries, tables.agents = before.agents ++ entries ∧
    entries.map Prod.fst = left.map fun pair => pair.1.path
  paths : (left.map fun pair => pair.1.path).Nodup
  free : ∀ pair ∈ left, before.taken pair.1.path = false
  reserved : tables.reservedPaths = before.reservedPaths
  queued : tables.queuedBackground = before.queuedBackground
  started : tables.started = before.started

namespace Behind

variable {before tables : TeamTables} {left : List (Spawned × Member)}

theorem nodup_map_concat {α β : Type} {f : α → β} {items : List α} {last : α} (once : (items.map f).Nodup)
    (apart : ∀ item ∈ items, f item ≠ f last) : ((items ++ [last]).map f).Nodup := by
  rw [List.map_append, List.nodup_append]
  refine ⟨once, List.nodup_singleton _, ?_⟩
  intro value old value' new same
  obtain ⟨item, held, rfl⟩ := List.mem_map.mp old
  rw [List.map_singleton, List.mem_singleton] at new
  exact apart item held (same.trans new)

theorem start (tables : TeamTables) : Behind tables [] tables where
  grown := le_rfl
  older _ _ := rfl
  newer id new known := absurd known (Nat.not_lt.mpr new)
  fresh _ member := by cases member
  asked _ member := by cases member
  once := List.nodup_nil
  handlers _ := by simp
  agents := ⟨[], by simp, rfl⟩
  paths := List.nodup_nil
  free _ member := by cases member
  reserved := rfl
  queued := rfl
  started := rfl

theorem unchanged (behind : Behind before [] tables) (earlier : before.Kept) (kept : tables.Kept) :
    Unchanged before tables := by
  have unfinished : tables.unfinishedIds = before.unfinishedIds := by
    ext id
    rw [mem_unfinishedIds, mem_unfinishedIds]
    constructor
    · intro ⟨known, unfinished⟩
      have old : id < before.nextRecord := by
        by_contra new
        have left := (behind.newer id (Nat.le_of_not_lt new) known).mp unfinished
        cases left
      rw [← behind.older id old]
      exact ⟨old, unfinished⟩
    · intro ⟨old, unfinished⟩
      rw [behind.older id old]
      exact ⟨Nat.lt_of_lt_of_le old behind.grown, unfinished⟩
  obtain ⟨entries, agents, none⟩ := behind.agents
  exact {
    unfinished := unfinished
    records := behind.older
    handlers := by
      ext id
      simp [behind.handlers]
    backing := by
      rw [kept.published, earlier.published]
      apply backing_congr unfinished
      intro id member
      rw [behind.older id (mem_unfinishedIds.mp member).1]
    agents := by
      rw [agents, List.map_eq_nil_iff.mp none, List.append_nil]
    reserved := behind.reserved
    queued := behind.queued
    started := behind.started }

theorem changed {pair : Spawned × Member} {rest : List (Spawned × Member)}
    (behind : Behind before (pair :: rest) tables) : ¬ Unchanged before tables := by
  have ⟨new, known⟩ := behind.fresh pair List.mem_cons_self
  apply changed_of_unfinished new
  exact mem_unfinishedIds.mpr ⟨known, (behind.newer _ new known).mpr (by simp)⟩

theorem discard {pair : Spawned × Member} {rest : List (Spawned × Member)}
    (behind : Behind before (pair :: rest) tables) (earlier : before.Kept) :
    (({ tables with agents := tables.agents.erase pair.1.path } : TeamTables).discard pair.1.record
        pair.1.finishing).2 = pair.1.finishing ∧
      Behind before rest
        (({ tables with agents := tables.agents.erase pair.1.path } : TeamTables).discard
          pair.1.record pair.1.finishing).1 := by
  have ⟨new, known⟩ := behind.fresh pair List.mem_cons_self
  have left : (tables.records pair.1.record).finished = false :=
    (behind.newer _ new known).mpr (by simp)
  have gone : pair.1.record ∉ rest.map fun other => other.1.record :=
    (List.nodup_cons.mp behind.once).1
  have pathGone : pair.1.path ∉ rest.map fun other => other.1.path :=
    (List.nodup_cons.mp behind.paths).1
  have ⟨error, discarded⟩ := discard_spec
    { tables with agents := tables.agents.erase pair.1.path } pair.1.record pair.1.finishing left
  refine ⟨error, ?_⟩
  generalize (TeamTables.discard { tables with agents := tables.agents.erase pair.1.path } pair.1.record
    pair.1.finishing).1 = next at discarded
  have others : ∀ other ∈ rest, other.1.record ≠ pair.1.record := fun other member same =>
    gone (List.mem_map.mpr ⟨other, member, same⟩)
  exact {
    grown := discarded.nextRecord ▸ behind.grown
    older := fun id old => by
      rw [discarded.records id (Nat.ne_of_lt (Nat.lt_of_lt_of_le old new))]
      exact behind.older id old
    newer := fun id later known' => by
      rw [discarded.nextRecord] at known'
      by_cases same : id = pair.1.record
      · rw [same, discarded.finished]
        exact iff_of_false (by simp) gone
      · rw [discarded.records id same]
        have here := behind.newer id later known'
        rw [List.map_cons, List.mem_cons] at here
        exact here.trans (or_iff_right same)
    fresh := fun other member => by
      rw [discarded.nextRecord]
      exact behind.fresh other (List.mem_cons_of_mem _ member)
    asked := fun other member => by
      rw [discarded.records _ (others other member)]
      exact behind.asked other (List.mem_cons_of_mem _ member)
    once := (List.nodup_cons.mp behind.once).2
    handlers := fun id => by
      rw [discarded.handlers]
      simp only [behind.handlers, List.map_cons, List.mem_cons]
      constructor
      · rintro ⟨held | same | later, different⟩
        · exact Or.inl held
        · exact absurd same different
        · exact Or.inr later
      · rintro (held | later)
        · have old := earlier.known id held
          exact ⟨Or.inl held, Nat.ne_of_lt (Nat.lt_of_lt_of_le old new)⟩
        · exact ⟨Or.inr (Or.inr later), fun same => gone (same ▸ later)⟩
    agents := by
      obtain ⟨entries, agents, keys⟩ := behind.agents
      cases entries with
      | nil => cases keys
      | cons entry later =>
          obtain ⟨path, agent⟩ := entry
          simp only [List.map_cons, List.cons.injEq] at keys
          obtain ⟨rfl, keys⟩ := keys
          refine ⟨later, ?_, keys⟩
          have absent : pair.1.path ∉ before.agents.keys := by
            intro present
            have free := behind.free pair List.mem_cons_self
            simp [taken, InsertionMap.has_iff.mpr present] at free
          have apart : pair.1.path ∉ InsertionMap.keys later := by
            rw [InsertionMap.keys, keys]
            exact pathGone
          have removed : InsertionMap.erase ((pair.1.path, agent) :: later) pair.1.path =
              InsertionMap.erase later pair.1.path := by
            simp [InsertionMap.erase]
          rw [discarded.agents]
          simp only [agents]
          rw [InsertionMap.erase_append, InsertionMap.erase_absent absent, removed,
            InsertionMap.erase_absent apart]
    paths := (List.nodup_cons.mp behind.paths).2
    free := fun other member => behind.free other (List.mem_cons_of_mem _ member)
    reserved := discarded.reserved.trans behind.reserved
    queued := discarded.queued.trans behind.queued
    started := discarded.started.trans behind.started }

theorem rollbackTeam (behind : Behind before left tables) (earlier : before.Kept) :
    ∃ remaining, Behind before remaining (tables.rollbackTeam (left.map Prod.fst)).1 ∧
      (remaining = [] ↔ ∀ pair ∈ left.dropLast, pair.1.finishing = none) := by
  induction left generalizing tables with
  | nil => exact ⟨[], behind, by simp⟩
  | cons pair rest ih =>
      have ⟨error, next⟩ := behind.discard earlier
      simp only [List.map_cons, TeamTables.rollbackTeam]
      cases outcome : ({ tables with agents := tables.agents.erase pair.1.path } :
          TeamTables).discard pair.1.record pair.1.finishing with
      | mk after failed =>
          rw [outcome] at error next
          cases failed with
          | some failure =>
              refine ⟨rest, next, ?_⟩
              cases rest with
              | nil => simp
              | cons other later => simp [← error]
          | none =>
              obtain ⟨remaining, rolled, exactly⟩ := ih next
              refine ⟨remaining, rolled, exactly.trans ?_⟩
              cases rest with
              | nil => simp
              | cons other later => simp [← error]

theorem rollback_unchanged (behind : Behind before left tables) (earlier : before.Kept)
    (kept : tables.Kept) :
    Unchanged before (tables.rollbackTeam (left.map Prod.fst)).1 ↔
      ∀ pair ∈ left.dropLast, pair.2.finishing = none := by
  have asked : (∀ pair ∈ left.dropLast, pair.1.finishing = none) ↔
      ∀ pair ∈ left.dropLast, pair.2.finishing = none := by
    apply forall₂_congr
    intro pair member
    rw [(behind.asked pair (List.mem_of_mem_dropLast member)).1]
  obtain ⟨remaining, rolled, exactly⟩ := behind.rollbackTeam earlier
  rw [← asked, ← exactly]
  cases remaining with
  | nil => exact iff_of_true (rolled.unchanged earlier (kept.rollbackTeam _)) rfl
  | cons pair rest => exact iff_of_false rolled.changed (List.cons_ne_nil _ _)

theorem free_of (behind : Behind before left tables) {path : AgentPath}
    (free : before.taken path = false) (apart : ∀ pair ∈ left, pair.1.path ≠ path) :
    tables.taken path = false := by
  obtain ⟨entries, agents, keys⟩ := behind.agents
  simp only [taken, Bool.or_eq_false_iff, behind.reserved] at free ⊢
  refine ⟨?_, free.2⟩
  rw [Bool.eq_false_iff, ne_eq, InsertionMap.has_iff, agents, InsertionMap.keys, List.map_append, keys,
    List.mem_append]
  rintro (earlier | later)
  · rw [InsertionMap.has_iff.mpr earlier] at free
    cases free.1
  · obtain ⟨pair, member, same⟩ := List.mem_map.mp later
    exact apart pair member same

theorem spawn (behind : Behind before left tables) (member : Member) {path : AgentPath}
    (earlier : before.taken path = false) (free : tables.taken path = false)
    (apart : ∀ pair ∈ left, pair.1.path ≠ path) :
    Behind before
      (left ++ [(({ path := path, record := tables.nextRecord, finishing := member.finishing } :
        Spawned), member)])
      (((tables.reserve path).registered path member.cancelled).unreserve path) := by
  have placed := placed_of_free free member.cancelled
  generalize ((tables.reserve path).registered path member.cancelled).unreserve path = next at placed
  have absent : path ∉ tables.agents.keys := by
    intro present
    simp [taken, InsertionMap.has_iff.mpr present] at free
  have notLeft : ∀ pair ∈ left, pair.1.record ≠ tables.nextRecord := fun pair held =>
    Nat.ne_of_lt (behind.fresh pair held).2
  exact {
    grown := by
      rw [placed.nextRecord]
      exact Nat.le_succ_of_le behind.grown
    older := fun id old => by
      rw [placed.older (Nat.ne_of_lt (Nat.lt_of_lt_of_le old behind.grown))]
      exact behind.older id old
    newer := fun id new known => by
      rw [List.map_append, List.mem_append]
      by_cases same : id = tables.nextRecord
      · rw [same, placed.records, Function.update_self]
        exact iff_of_true rfl (Or.inr (by simp))
      · rw [placed.older same]
        rw [placed.nextRecord] at known
        have before' : id < tables.nextRecord := Nat.lt_of_le_of_ne (Nat.le_of_lt_succ known) same
        refine (behind.newer id new before').trans (or_iff_left ?_).symm
        simpa using same
    fresh := fun pair held => by
      rw [placed.nextRecord]
      rcases List.mem_append.mp held with old | new
      · exact (behind.fresh pair old).imp_right Nat.lt_succ_of_lt
      · rw [List.mem_singleton.mp new]
        exact ⟨behind.grown, Nat.lt_succ_self _⟩
    asked := fun pair held => by
      rcases List.mem_append.mp held with old | new
      · rw [placed.older (notLeft pair old)]
        exact behind.asked pair old
      · rw [List.mem_singleton.mp new, placed.records, Function.update_self]
        exact ⟨rfl, rfl⟩
    once := nodup_map_concat behind.once notLeft
    handlers := fun id => by
      rw [placed.handlers, Finset.mem_insert, behind.handlers, List.map_append, List.mem_append,
        List.map_singleton, List.mem_singleton]
      tauto
    agents := by
      obtain ⟨entries, held, keys⟩ := behind.agents
      refine ⟨entries ++ [(path, { record := tables.nextRecord, status := .running, report := none })],
        ?_, ?_⟩
      · rw [placed.agents, InsertionMap.set_absent absent, held, List.append_assoc]
      · rw [List.map_append, List.map_append, keys]
        rfl
    paths := nodup_map_concat behind.paths apart
    free := fun pair held => by
      rcases List.mem_append.mp held with old | new
      · exact behind.free pair old
      · rw [List.mem_singleton.mp new]
        exact earlier
    reserved := placed.reserved.trans behind.reserved
    queued := placed.queued.trans behind.queued
    started := placed.started.trans behind.started }

theorem createMembers (behind : Behind before left tables) (members : List Member)
    (free : ∀ member ∈ members, before.taken (childPath rootPath member.name) = false)
    (apart : ∀ member ∈ members, ∀ pair ∈ left, pair.1.path ≠ childPath rootPath member.name)
    (distinct : (members.map Member.name).Nodup) :
    ∃ registered final outcome,
      tables.createMembers (left.map Prod.fst) members =
        (final, registered.map Prod.fst, outcome) ∧
      registered.map Prod.snd =
        left.map Prod.snd ++ members.takeWhile (fun member => member.creation.succeeds) ∧
      match members.dropWhile fun member => member.creation.succeeds with
      | [] => outcome = none ∧ Behind before registered final
      | failing :: _ => outcome.isSome = true ∧
          if failing.creation.refused then Behind before registered final
          else ∃ id, before.nextRecord ≤ id ∧ id ∈ final.unfinishedIds ∧
            id ∉ registered.map fun pair => pair.1.record := by
  -- Members are created up to the first that fails, which may leave a record behind.
  induction members generalizing tables left with
  | nil => exact ⟨left, tables, none, rfl, by simp, rfl, behind⟩
  | cons member rest ih =>
      have earlier := free member List.mem_cons_self
      have apartHere := apart member List.mem_cons_self
      have here := behind.free_of earlier apartHere
      have ⟨fresh, distinctRest⟩ := List.nodup_cons.mp distinct
      have spawned := @spawnAgent_free tables rootPath member.name (Or.inl rfl) here true
        member.creation member.cancelled member.finishing
      simp only at spawned
      simp only [TeamTables.createMembers]
      cases refused : member.creation.refused with
      | true =>
          have fails : member.creation.succeeds = false := by simp [Creation.succeeds, refused]
          obtain ⟨error, outcome⟩ := @register_refused
            (tables.reserve (childPath rootPath member.name)) member.creation
            (childPath rootPath member.name) true member.cancelled member.finishing refused
          rw [outcome] at spawned
          simp only [unreserve_reserve here] at spawned
          refine ⟨left, tables, some error, by rw [spawned], by simp [fails], ?_⟩
          simp only [List.dropWhile_cons, fails, Bool.false_eq_true, if_false, refused, if_true]
          exact ⟨rfl, behind⟩
      | false =>
          cases failed : member.creation.publication.error with
          | some error =>
              have fails : member.creation.succeeds = false := by
                simp [Creation.succeeds, failed]
              rw [register_leaks _ _ _ _ refused failed] at spawned
              refine ⟨left, _, some error, by rw [spawned], by simp [fails], ?_⟩
              simp only [List.dropWhile_cons, fails, Bool.false_eq_true, if_false, refused]
              refine ⟨rfl, tables.nextRecord, behind.grown, ?_, ?_⟩
              · exact @opened_unfinished (tables.reserve (childPath rootPath member.name)) true true
              · intro held
                obtain ⟨pair, listed, same⟩ := List.mem_map.mp held
                exact absurd same (Nat.ne_of_lt (behind.fresh pair listed).2)
          | none =>
              have succeeds : member.creation.succeeds = true := by
                simp [Creation.succeeds, refused, failed]
              rw [register_created _ _ _ _ refused failed] at spawned
              simp only [if_true] at spawned
              have next := behind.spawn member earlier here apartHere
              obtain ⟨registered, final, outcome, created, members', result⟩ := ih next
                (fun other listed => free other (List.mem_cons_of_mem _ listed))
                (by
                  intro other listed pair held same
                  rcases List.mem_append.mp held with old | new
                  · exact apart other (List.mem_cons_of_mem _ listed) pair old same
                  · rw [List.mem_singleton.mp new] at same
                    have named : member.name = other.name := (List.cons.inj same).1
                    exact fresh (named ▸ List.mem_map_of_mem listed))
                distinctRest
              refine ⟨registered, final, outcome, ?_, ?_, ?_⟩
              · simp only [List.map_append, List.map_cons, List.map_nil] at created
                rw [spawned]
                exact created
              · rw [members', List.takeWhile_cons, if_pos succeeds]
                simp
              · rw [List.dropWhile_cons, if_pos succeeds]
                exact result

end Behind

section Presets

variable {tables : TeamTables}

theorem discard_records (id : RecordId) (emitted : Option Text) {other : RecordId}
    (different : other ≠ id) :
    (tables.discard id emitted).1.records other = tables.records other ∧
      (tables.discard id emitted).1.nextRecord = tables.nextRecord := by
  cases left : (tables.records id).finished with
  | true =>
      simp [discard, left]
  | false =>
      have spec := (discard_spec tables id emitted left).2
      exact ⟨spec.records other different, spec.nextRecord⟩

theorem rollbackTeam_unfinished (spawned : List Spawned) {id : RecordId}
    (left : id ∈ tables.unfinishedIds) (other : id ∉ spawned.map Spawned.record) :
    id ∈ (tables.rollbackTeam spawned).1.unfinishedIds := by
  induction spawned generalizing tables with
  | nil => exact left
  | cons agent rest ih =>
      simp only [List.map_cons, List.mem_cons, not_or] at other
      have ⟨records, nextRecord⟩ := @discard_records
        { tables with agents := tables.agents.erase agent.path } agent.record agent.finishing id other.1
      have kept : id ∈ (({ tables with agents := tables.agents.erase agent.path } :
          TeamTables).discard agent.record agent.finishing).1.unfinishedIds := by
        rw [mem_unfinishedIds] at left ⊢
        rw [records, nextRecord]
        exact left
      simp only [rollbackTeam]
      cases outcome : ({ tables with agents := tables.agents.erase agent.path } :
          TeamTables).discard agent.record agent.finishing with
      | mk after failed =>
          rw [outcome] at kept
          cases failed with
          | some failure => exact kept
          | none => exact ih kept other.2

theorem scheduleBackgroundTask_records (id : RecordId) (emitted : Option Text) {other : RecordId}
    (different : other ≠ id) :
    (tables.scheduleBackgroundTask id emitted).1.records other = tables.records other := by
  have finished : (tables.finish id .cancelled emitted).1.records other = tables.records other := by
    cases left : (tables.records id).finished with
    | true => simp [finish, left]
    | false =>
        rw [(finish_spec id .cancelled emitted left).2]
        simp [updateRecord, publishTodoBacking, different]
  simp only [scheduleBackgroundTask]
  split
  · rfl
  · split
    · split
      · next outcome => rwa [outcome] at finished
      · next outcome => rwa [outcome] at finished
    · split <;> rfl

theorem scheduleMembers_agents (spawned : List Spawned) :
    (tables.scheduleMembers spawned).1.agents = tables.agents := by
  induction spawned generalizing tables with
  | nil => rfl
  | cons agent rest ih =>
      have agents := tables.scheduleBackgroundTask_agents agent.record agent.finishing
      simp only [scheduleMembers]
      split
      · next outcome => rwa [outcome] at agents
      · next outcome =>
        rw [outcome] at agents
        exact ih.trans agents

theorem scheduleMembers_throws (spawned : List Spawned)
    (left : ∀ agent ∈ spawned, (tables.records agent.record).finished = false)
    (once : (spawned.map Spawned.record).Nodup) :
    (tables.scheduleMembers spawned).2.isSome = true ↔ ∃ agent ∈ spawned,
      (tables.records agent.record).cancelRequested = true ∧ agent.finishing.isSome = true := by
  induction spawned generalizing tables with
  | nil => simp [scheduleMembers]
  | cons agent rest ih =>
      obtain ⟨gone, onceRest⟩ := List.nodup_cons.mp once
      have throws := scheduleBackgroundTask_throws agent.finishing (left agent List.mem_cons_self)
      have others : ∀ other ∈ rest,
          (tables.scheduleBackgroundTask agent.record agent.finishing).1.records other.record =
            tables.records other.record := by
        intro other member
        apply scheduleBackgroundTask_records
        intro same
        exact gone (same ▸ List.mem_map_of_mem member)
      simp only [scheduleMembers, List.exists_mem_cons_iff]
      cases outcome : tables.scheduleBackgroundTask agent.record agent.finishing with
      | mk next result =>
          rw [outcome] at throws others
          cases result with
          | error error =>
              simp only [thrown, Option.isSome_some] at throws
              exact iff_of_true rfl (Or.inl (by simpa using throws.symm))
          | ok scheduled =>
              simp only [thrown, Option.isSome_none] at throws
              have quiet : ¬ ((tables.records agent.record).cancelRequested = true ∧
                  agent.finishing.isSome = true) := by
                rw [← Bool.and_eq_true, ← throws]
                decide
              simp only [quiet, false_or]
              rw [ih (fun other member => by
                rw [others other member]
                exact left other (List.mem_cons_of_mem _ member)) onceRest]
              constructor
              · rintro ⟨other, member, asked⟩
                exact ⟨other, member, others other member ▸ asked⟩
              · rintro ⟨other, member, asked⟩
                exact ⟨other, member, (others other member).symm ▸ asked⟩

theorem Behind.asked_iff {before : TeamTables} {left : List (Spawned × Member)} (behind : Behind before left tables) :
    (∃ agent ∈ left.map Prod.fst,
        (tables.records agent.record).cancelRequested = true ∧ agent.finishing.isSome = true) ↔
      ¬ ∀ member ∈ left.map Prod.snd, member.cancelled = false ∨ member.finishing = none := by
  constructor
  · rintro ⟨agent, listed, wanted, fails⟩ all
    obtain ⟨pair, held, rfl⟩ := List.mem_map.mp listed
    obtain ⟨finishing, cancelled⟩ := behind.asked pair held
    rw [cancelled] at wanted
    rw [finishing] at fails
    rcases all pair.2 (List.mem_map_of_mem held) with spared | quiet
    · exact absurd (spared.symm.trans wanted) (by decide)
    · simp [quiet] at fails
  · intro some'
    by_contra none'
    apply some'
    rw [List.forall_mem_map]
    intro pair held
    obtain ⟨finishing, cancelled⟩ := behind.asked pair held
    by_contra both
    rw [not_or, Bool.not_eq_false] at both
    refine none' ⟨pair.1, List.mem_map_of_mem held, cancelled.trans both.1, ?_⟩
    rw [finishing]
    exact Option.isSome_iff_ne_none.mpr both.2

theorem Behind.none_left {before : TeamTables} {left : List (Spawned × Member)} (behind : Behind before left tables)
    (same : tables.agents = before.agents) : left = [] := by
  obtain ⟨entries, held, keys⟩ := behind.agents
  rw [held] at same
  have none' : entries = [] := by simpa using same
  rw [none', List.map_nil, eq_comm, List.map_eq_nil_iff] at keys
  exact keys

theorem spawnTeam_atomic (kept : tables.Kept) (team : TeamPreset) (aborted : Bool) :
    Atomic tables (.spawnTeam team aborted) ↔ Clean tables (.spawnTeam team aborted) := by
  simp only [Atomic, Clean, perform, spawnTeam]
  cases found : team.members.find? fun member => tables.taken (childPath rootPath member.name) with
  | some member =>
      have blocked : ∃ member ∈ team.members,
          tables.taken (childPath rootPath member.name) = true :=
        ⟨member, List.mem_of_find?_eq_some found, by simpa using List.find?_some found⟩
      exact iff_of_true (fun _ => Unchanged.refl tables) (Or.inl blocked)
  | none =>
      have free : ∀ member ∈ team.members,
          tables.taken (childPath rootPath member.name) = false := by
        simpa using found
      have open' : ¬ ∃ member ∈ team.members,
          tables.taken (childPath rootPath member.name) = true := by
        rintro ⟨member, listed, taken⟩
        exact absurd ((free member listed).symm.trans taken) (by decide)
      rw [or_iff_right open']
      obtain ⟨registered, final, outcome, created, members, result⟩ :=
        (Behind.start tables).createMembers team.members free (fun _ _ _ held => by cases held)
          team.distinct
      have createdKept := kept.createMembers [] team.members
      simp only [List.map_nil, List.nil_append] at created members
      rw [created] at createdKept ⊢
      have finishings : (∀ pair ∈ registered.dropLast, pair.2.finishing = none) ↔
          ∀ member ∈ (team.members.takeWhile fun member => member.creation.succeeds).dropLast,
            member.finishing = none := by
        rw [← members, ← List.map_dropLast, List.forall_mem_map]
      simp only [TeamPreset.Clean]
      cases rest : team.members.dropWhile fun member => member.creation.succeeds with
      | cons failing later =>
          rw [rest] at result
          obtain ⟨failed, left⟩ := result
          obtain ⟨error, rfl⟩ := Option.isSome_iff_exists.mp failed
          simp only [rollback]
          cases refused : failing.creation.refused with
          | true =>
              rw [refused, if_pos rfl] at left
              rw [← finishings, ← left.rollback_unchanged kept createdKept]
              simp
          | false =>
              rw [refused, if_neg (by decide)] at left
              obtain ⟨id, new, unfinished, other⟩ := left
              have changed := changed_of_unfinished new
                (rollbackTeam_unfinished (registered.map Prod.fst) unfinished
                  (by simpa [Function.comp_def] using other))
              simp [changed]
      | nil =>
          rw [rest] at result
          obtain ⟨rfl, behind⟩ := result
          have all : (team.members.takeWhile fun member => member.creation.succeeds) =
              team.members := by
            have both := @List.takeWhile_append_dropWhile _
              (fun member : Member => member.creation.succeeds) team.members
            rwa [rest, List.append_nil] at both
          rw [all] at finishings members
          cases aborted with
          | true =>
              simp only [rollback, if_true]
              rw [← finishings, ← behind.rollback_unchanged kept createdKept]
              simp
          | false =>
              simp only [Bool.false_eq_true, if_false]
              have throws := @scheduleMembers_throws final (registered.map Prod.fst)
                (by
                  intro agent listed
                  obtain ⟨pair, held, rfl⟩ := List.mem_map.mp listed
                  obtain ⟨new, known⟩ := behind.fresh pair held
                  exact (behind.newer _ new known).mpr (List.mem_map_of_mem held))
                (by simpa [Function.comp_def] using behind.once)
              have asked := behind.asked_iff
              rw [members] at asked
              rw [throws, asked]
              by_cases quiet : ∀ member ∈ team.members,
                  member.cancelled = false ∨ member.finishing = none
              · exact iff_of_true (fun throws => absurd quiet throws) quiet
              · -- What throws is one of the members, and all of them stay registered.
                refine iff_of_false (fun same => ?_) quiet
                have agents := (same quiet).agents
                rw [scheduleMembers_agents] at agents
                rw [← members, behind.none_left agents] at quiet
                exact quiet (fun _ listed => by cases listed)

theorem operation_atomic (kept : tables.Kept) (operation : Operation) :
    Atomic tables operation ↔ Clean tables operation := by
  cases operation with
  | createRecord background onFinished creation =>
      exact createRecord_atomic background onFinished creation
  | resumeRecord previous onFinished resumption =>
      exact resumeRecord_atomic previous onFinished resumption
  | reactivateAgent path resumption => exact reactivateAgent_atomic path resumption
  | spawnAgent senderPath taskName deferStart creation cancelled finishing =>
      exact spawnAgent_atomic senderPath taskName deferStart creation cancelled finishing
  | spawnTeam team aborted => exact spawnTeam_atomic kept team aborted

end Presets

/-- At any point of any history, an operation that throws leaves the team unchanged exactly
where nothing throws behind a publication or a rollback undoes it. -/
theorem failed_operation_unchanged_iff (history : List TableEvent) (operation : Operation) :
    Atomic (Runs.run step start history) operation ↔
      Clean (Runs.run step start history) operation := by
  have kept : Kept (Runs.run step start history) :=
    @Runs.run_invariant _ _ step Kept (fun _ event kept => Kept.step kept event) start history
      start_kept
  exact operation_atomic kept operation

def unwritten : Operation :=
  .spawnAgent rootPath "a".toList false
    { aborted := false
      prepared := none
      publication := { persisted := some "No space is left.".toList, emitted := none } } false none

theorem unwritten_spawn_leaves_record :
    ¬ ∀ (history : List TableEvent) (operation : Operation),
      Atomic (Runs.run step start history) operation := by
  intro atomic
  have unchanged := atomic [] unwritten (by decide)
  exact absurd unchanged.unfinished (by decide)

end TeamTables

end GrokPi.Subagents
