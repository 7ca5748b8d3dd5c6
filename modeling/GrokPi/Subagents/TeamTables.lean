import GrokPi.Subagents.Team

set_option autoImplicit false

namespace GrokPi.Subagents

structure RunRecord where
  background : Bool
  finished : Bool
  terminalStatus : Option TerminalStatus
  cancelRequested : Bool
  deriving DecidableEq

structure TableAgent where
  record : RecordId
  status : TeamAgentStatus
  report : Option TeamReport
  deriving DecidableEq

/-- `todoBacking` is the count published last, `started` logs the runs that were called. -/
structure TeamTables where
  records : RecordId → RunRecord
  nextRecord : RecordId
  finishHandlers : Finset RecordId
  todoBacking : Nat
  agents : InsertionMap AgentPath TableAgent
  reservedPaths : Finset AgentPath
  runningBackground : Nat
  queuedBackground : List RecordId
  started : List RecordId

structure Publication where
  persisted : Option Text
  emitted : Option Text

def Publication.error (publication : Publication) : Option Text :=
  publication.persisted <|> publication.emitted

/-- `prepared` is the error of a check or an `await` before the record is built. -/
structure Creation where
  aborted : Bool
  prepared : Option Text
  publication : Publication

structure Resumption where
  aborted : Bool
  publication : Publication

/-- A member of a preset. Its record may be asked to cancel before it is scheduled, and
`finishing` is the error of the emitter where the record is finished without a run. -/
structure Member where
  name : Text
  creation : Creation
  cancelled : Bool
  finishing : Option Text

/-- A preset with two members of one name is refused when it is read. -/
structure TeamPreset where
  name : Text
  members : List Member
  distinct : (members.map Member.name).Nodup

structure Spawned where
  path : AgentPath
  record : RecordId
  finishing : Option Text

namespace TeamTables

variable (tables : TeamTables)

def start : TeamTables :=
  { records := fun _ =>
      { background := false, finished := false, terminalStatus := none, cancelRequested := false }
    nextRecord := 0
    finishHandlers := ∅
    todoBacking := 0
    agents := []
    reservedPaths := ∅
    runningBackground := 0
    queuedBackground := []
    started := [] }

def unfinishedIds : Finset RecordId :=
  (Finset.range tables.nextRecord).filter fun id => (tables.records id).finished = false

def backing : Nat :=
  (tables.unfinishedIds.filter fun id => (tables.records id).background = true).card

def publishTodoBacking : TeamTables := { tables with todoBacking := tables.backing }

def updateRecord (id : RecordId) (change : RunRecord → RunRecord) : TeamTables :=
  { tables with records := Function.update tables.records id (change (tables.records id)) }

def requestCancel (id : RecordId) : TeamTables :=
  tables.updateRecord id fun record => { record with cancelRequested := true }

def setAgent (path : AgentPath) (agent : TableAgent) : TeamTables :=
  { tables with agents := tables.agents.set path agent }

def finish (id : RecordId) (status : TerminalStatus) (emitted : Option Text) :
    TeamTables × Option Text :=
  if (tables.records id).finished then (tables, none)
  else
    let ended := (tables.updateRecord id fun record =>
      { record with finished := true, terminalStatus := some status }).publishTodoBacking
    match emitted with
    -- The handler is not called, and not taken out either.
    | some error => (ended, some error)
    | none => ({ ended with finishHandlers := ended.finishHandlers.erase id }, none)

def discard (id : RecordId) (emitted : Option Text) : TeamTables × Option Text :=
  if (tables.records id).finished then (tables, none)
  else
    ({ tables.requestCancel id with
        finishHandlers := tables.finishHandlers.erase id } : TeamTables).finish id .cancelled emitted

def scheduleBackgroundTask (id : RecordId) (emitted : Option Text) :
    TeamTables × Except Text Scheduled :=
  if (tables.records id).finished then (tables, .ok .skipped)
  else if (tables.records id).cancelRequested then
    match tables.finish id .cancelled emitted with
    | (next, some error) => (next, .error error)
    | (next, none) => (next, .ok .skipped)
  else if maxBackgroundConcurrency ≤ tables.runningBackground then
    ({ tables with queuedBackground := tables.queuedBackground ++ [id] }, .ok .queued)
  else
    ({ tables with
        runningBackground := tables.runningBackground + 1
        started := tables.started ++ [id] }, .ok .running)

def releaseSlot : TeamTables :=
  let skipped := fun id => (tables.records id).cancelRequested || (tables.records id).finished
  match tables.queuedBackground.dropWhile skipped with
  | [] =>
      { tables with runningBackground := tables.runningBackground - 1, queuedBackground := [] }
  | next :: rest =>
      (({ tables with
          runningBackground := tables.runningBackground - 1
          queuedBackground := rest } : TeamTables).scheduleBackgroundTask next none).1

def cancel (id : RecordId) (emitted : Option Text) : TeamTables :=
  if (tables.records id).finished then tables
  else
    let marked := tables.requestCancel id
    if id ∈ tables.queuedBackground then
      (({ marked with queuedBackground := marked.queuedBackground.erase id } : TeamTables).finish id
        .cancelled emitted).1
    else marked

def setRecord (background onFinished : Bool) : TeamTables :=
  { tables with
    records := Function.update tables.records tables.nextRecord
      { background := background
        finished := false
        terminalStatus := none
        cancelRequested := false }
    nextRecord := tables.nextRecord + 1
    finishHandlers :=
      if onFinished then insert tables.nextRecord tables.finishHandlers else tables.finishHandlers }

def createRecord (background onFinished : Bool) (creation : Creation) :
    TeamTables × Except Text RecordId :=
  if creation.aborted then
    (tables, .error "Subagent request was cancelled before startup.".toList)
  else
    match creation.prepared with
    | some error => (tables, .error error)
    | none =>
        let recorded := tables.setRecord background onFinished
        let published := if background then recorded.publishTodoBacking else recorded
        match creation.publication.error with
        | some error => (published, .error error)
        | none => (published, .ok tables.nextRecord)

def resumeRecord (previous : RecordId) (onFinished : Bool) (resumption : Resumption) :
    TeamTables × Except Text RecordId :=
  if resumption.aborted then
    (tables, .error "Subagent request was cancelled before reactivation.".toList)
  else if !(tables.records previous).finished then
    (tables, .error ("subagent ".toList ++ (toString previous).toList ++
      " is already running".toList))
  else
    let published :=
      (tables.setRecord (tables.records previous).background onFinished).publishTodoBacking
    match resumption.publication.error with
    | some error => (published, .error error)
    | none => (published, .ok tables.nextRecord)

def status (agent : TableAgent) : TeamAgentStatus :=
  if !(tables.records agent.record).finished then
    if agent.record ∈ tables.queuedBackground then .queued else .running
  else
    match (tables.records agent.record).terminalStatus with
    | some .completed =>
        if reports agent.report .blocked then .waitingDecision
        else if reports agent.report .waiting then .waitingResult
        else .idle
    | some .cancelled => .cancelled
    | some .failed => .failed
    | none => agent.status

def reactivateAgent (path : AgentPath) (target : TableAgent) (resumption : Resumption) :
    TeamTables × Except Text Scheduled :=
  if !canReceiveMessage (tables.status target) then
    (tables, .error ("team agent ".toList ++ pathText path ++ " cannot be reactivated from ".toList ++
      (tables.status target).text))
  else
    let cleared := tables.setAgent path { target with report := none }
    match cleared.resumeRecord target.record true resumption with
    | (next, .error error) => (next, .error error)
    | (next, .ok id) =>
        let running := next.setAgent path { record := id, status := .running, report := none }
        match running.scheduleBackgroundTask id none with
        | (next, .error error) => (next, .error error)
        | (next, .ok scheduled) =>
            let status := if scheduled = .queued then TeamAgentStatus.queued else .running
            (next.setAgent path { record := id, status := status, report := none }, .ok scheduled)

def taken (path : AgentPath) : Bool :=
  tables.agents.has path || decide (path ∈ tables.reservedPaths)

def alreadyExists (path : AgentPath) : Text :=
  "team agent path already exists: ".toList ++ pathText path

/-- The part of `spawnAgent` in its `try` block. `cancelled` is a request that comes while
`createRecord` is awaited. -/
def register (path : AgentPath) (deferStart : Bool) (creation : Creation) (cancelled : Bool)
    (finishing : Option Text) : TeamTables × Except Text RecordId :=
  match tables.createRecord true true creation with
  | (next, .error error) => (next, .error error)
  | (next, .ok id) =>
      let marked := if cancelled then next.requestCancel id else next
      let registered := marked.setAgent path { record := id, status := .running, report := none }
      if deferStart then (registered, .ok id)
      else
        match registered.scheduleBackgroundTask id finishing with
        | (scheduled, .error error) => (scheduled, .error error)
        | (scheduled, .ok _) => (scheduled, .ok id)

def spawnAgent (senderPath : AgentPath) (taskName : Text) (deferStart : Bool) (creation : Creation)
    (cancelled : Bool) (finishing : Option Text) : TeamTables × Except Text RecordId :=
  let path := childPath senderPath taskName
  if senderPath ≠ rootPath && !tables.agents.has senderPath then
    (tables, .error ("unknown spawning agent: ".toList ++ pathText senderPath))
  else if tables.taken path then (tables, .error (alreadyExists path))
  else
    let reserved := { tables with reservedPaths := insert path tables.reservedPaths }
    let (next, outcome) := reserved.register path deferStart creation cancelled finishing
    ({ next with reservedPaths := next.reservedPaths.erase path }, outcome)

def createMembers (tables : TeamTables) (spawned : List Spawned) :
    List Member → TeamTables × List Spawned × Option Text
  | [] => (tables, spawned, none)
  | member :: rest =>
      match tables.spawnAgent rootPath member.name true member.creation member.cancelled
          member.finishing with
      | (next, .ok id) =>
          let agent : Spawned :=
            { path := childPath rootPath member.name, record := id, finishing := member.finishing }
          next.createMembers (spawned ++ [agent]) rest
      | (next, .error error) => (next, spawned, some error)

/-- An error of the emitter leaves the agents behind it as they are. -/
def rollbackTeam (tables : TeamTables) : List Spawned → TeamTables × Option Text
  | [] => (tables, none)
  | agent :: rest =>
      match ({ tables with agents := tables.agents.erase agent.path } : TeamTables).discard
          agent.record agent.finishing with
      | (next, some error) => (next, some error)
      | (next, none) => next.rollbackTeam rest

def scheduleMembers (tables : TeamTables) : List Spawned → TeamTables × Option Text
  | [] => (tables, none)
  | agent :: rest =>
      match tables.scheduleBackgroundTask agent.record agent.finishing with
      | (next, .error error) => (next, some error)
      | (next, .ok _) => next.scheduleMembers rest

def rollback (spawned : List Spawned) (error : Text) : TeamTables × Option Text :=
  let (next, failed) := tables.rollbackTeam spawned
  (next, some (failed.getD error))

def spawnTeam (team : TeamPreset) (aborted : Bool) : TeamTables × Option Text :=
  let path := fun member : Member => childPath rootPath member.name
  match team.members.find? fun member => tables.taken (path member) with
  | some member => (tables, some (alreadyExists (path member)))
  | none =>
      match tables.createMembers [] team.members with
      | (next, spawned, some error) => next.rollback spawned error
      | (next, spawned, none) =>
          if aborted then
            next.rollback spawned ("spawn_team for ".toList ++ team.name ++
              " was cancelled before any member started".toList)
          else next.scheduleMembers spawned

end TeamTables

inductive Operation where
  | createRecord (background onFinished : Bool) (creation : Creation)
  | resumeRecord (previous : RecordId) (onFinished : Bool) (resumption : Resumption)
  | reactivateAgent (path : AgentPath) (resumption : Resumption)
  | spawnAgent (senderPath : AgentPath) (taskName : Text) (deferStart : Bool) (creation : Creation)
      (cancelled : Bool) (finishing : Option Text)
  | spawnTeam (team : TeamPreset) (aborted : Bool)

/-- An operation, or what else moves the tables between two of them. -/
inductive TableEvent where
  | attempted (operation : Operation)
  | finished (id : RecordId) (status : TerminalStatus) (emitted : Option Text)
  | cancelled (id : RecordId) (emitted : Option Text)
  | released
  | reported (path : AgentPath) (report : TeamReport)

namespace TeamTables

def thrown {Result : Type} : Except Text Result → Option Text
  | .ok _ => none
  | .error error => some error

def perform (tables : TeamTables) : Operation → TeamTables × Option Text
  | .createRecord background onFinished creation =>
      (tables.createRecord background onFinished creation).map id thrown
  | .resumeRecord previous onFinished resumption =>
      (tables.resumeRecord previous onFinished resumption).map id thrown
  | .reactivateAgent path resumption =>
      match tables.agents.get path with
      | some target => (tables.reactivateAgent path target resumption).map id thrown
      | none => (tables, some (Team.unknownAgent path))
  | .spawnAgent senderPath taskName deferStart creation cancelled finishing =>
      (tables.spawnAgent senderPath taskName deferStart creation cancelled finishing).map id thrown
  | .spawnTeam team aborted => tables.spawnTeam team aborted

def step (tables : TeamTables) : TableEvent → TeamTables
  | .attempted operation => (tables.perform operation).1
  | .finished id status emitted => (tables.finish id status emitted).1
  | .cancelled id emitted => tables.cancel id emitted
  | .released => tables.releaseSlot
  | .reported path report =>
      match tables.agents.get path with
      | some agent => tables.setAgent path { agent with report := some report }
      | none => tables

end TeamTables

end GrokPi.Subagents
