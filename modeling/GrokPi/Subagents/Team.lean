import GrokPi.Shared.InsertionMap
import GrokPi.Subagents.Scheduler

set_option autoImplicit false

namespace GrokPi.Subagents

abbrev AgentPath := List Text

def rootPath : AgentPath := []

def childPath (parentPath : AgentPath) (taskName : Text) : AgentPath := taskName :: parentPath

/-- An agent is spawned under the path of its sender. -/
def parentPath (path : AgentPath) : AgentPath := path.tail

def pathText : AgentPath → Text
  | [] => "/root".toList
  | name :: parent => pathText parent ++ '/' :: name

inductive TaskKind where
  | newTask
  | finalAnswer
  deriving DecidableEq

inductive ToolCallId where
  | call (number : Nat)
  | teamFinal (id : RecordId)
  deriving DecidableEq

structure TeamTask where
  senderPath : AgentPath
  message : Text
  toolCallId : ToolCallId
  kind : TaskKind
  deriving DecidableEq

inductive TeamReportState where
  | ready
  | waiting
  | blocked
  | failed
  | dropped
  deriving DecidableEq

structure TeamReport where
  state : TeamReportState
  summary : Text
  question : Option Text
  deriving DecidableEq

inductive TeamAgentStatus where
  | queued
  | running
  | idle
  | waitingResult
  | waitingDecision
  | failed
  | cancelled
  deriving DecidableEq

structure TeamAgent where
  record : RecordId
  report : Option TeamReport
  pendingTasks : List TeamTask
  deriving DecidableEq

/-- How a task came to a session: into its running turn, with a run of its own, or parked first. -/
inductive Route where
  | delivered
  | reactivated
  | unparked
  deriving DecidableEq

/-- A finish handler waits for the flush of messages, then for the delivery of its answer. -/
inductive Stage where
  | flushing
  | delivering
  deriving DecidableEq

/-- `report` is the report with which the run ended, the handler reads the agent's own. -/
structure Handler where
  status : TerminalStatus
  report : Option TeamReport
  stage : Stage
  deriving DecidableEq

/-- `owed`, `parked` and `handed` log what an agent was promised, what was queued behind its
run and what its session received. -/
structure Team where
  scheduler : Scheduler
  agents : InsertionMap AgentPath TeamAgent
  nextRecord : RecordId
  agentPath : RecordId → AgentPath
  messages : RecordId → Option (TeamTask × Route)
  handlers : RecordId → Option Handler
  owed : AgentPath → List TeamTask
  parked : AgentPath → List TeamTask
  handed : AgentPath → List (TeamTask × Route)

def TeamAgentStatus.text : TeamAgentStatus → Text
  | .queued => "queued".toList
  | .running => "running".toList
  | .idle => "idle".toList
  | .waitingResult => "waiting_result".toList
  | .waitingDecision => "waiting_decision".toList
  | .failed => "failed".toList
  | .cancelled => "cancelled".toList

def TeamReportState.text : TeamReportState → Text
  | .ready => "ready".toList
  | .waiting => "waiting".toList
  | .blocked => "blocked".toList
  | .failed => "failed".toList
  | .dropped => "dropped".toList

def reports (report : Option TeamReport) (state : TeamReportState) : Bool :=
  report.map (·.state) = some state

def canReceiveMessage : TeamAgentStatus → Bool
  | .idle | .waitingResult | .waitingDecision => true
  | .queued | .running | .failed | .cancelled => false

def quietReport (report : Option TeamReport) (parentNeedsCompletion : Bool) : Bool :=
  reports report .waiting || (reports report .dropped && !parentNeedsCompletion)

def completedPayload (report : Option TeamReport) (output : Text) : Text :=
  match report with
  | none => if output.isEmpty then "Agent completed without text output.".toList else output
  | some report =>
      let question := match report.question with
        | some question => "\n\nNeeds your decision: ".toList ++ question
        | none => []
      "Report: ".toList ++ report.state.text ++ '\n' :: report.summary ++ question

def failedPayload (status : TeamAgentStatus) (error : Option Text) (output : Text) : Text :=
  let reason := match error with
    | some error => " Error: ".toList ++ error
    | none => []
  let last := if output.isEmpty then [] else "\n\nLast output:\n".toList ++ output
  "Agent ".toList ++ status.text ++ '.' :: reason ++ last

namespace Team

variable (team : Team)

def start : Team :=
  { scheduler := .start fun _ => true
    agents := []
    nextRecord := 0
    agentPath := fun _ => rootPath
    messages := fun _ => none
    handlers := fun _ => none
    owed := fun _ => []
    parked := fun _ => []
    handed := fun _ => [] }

def record (id : RecordId) : SubagentRecord := team.scheduler.runtime.records id

def finished (id : RecordId) : Bool := (team.record id).finished

def setAgent (path : AgentPath) (agent : TeamAgent) : Team :=
  { team with agents := team.agents.set path agent }

def unknownAgent (path : AgentPath) : Text := "unknown team agent: ".toList ++ pathText path

def status (agent : TeamAgent) : TeamAgentStatus :=
  if !team.finished agent.record then
    if agent.record ∈ team.scheduler.runtime.runningBackgroundIds then .running
    else if agent.record ∈ team.scheduler.runtime.queuedBackground then .queued
    else .running
  else
    match (team.record agent.record).terminalStatus with
    | some .completed =>
        if reports agent.report .blocked then .waitingDecision
        else if reports agent.report .waiting then .waitingResult
        else .idle
    | some .cancelled => .cancelled
    | some .failed | none => .failed

def hasPendingChild (senderPath : AgentPath) : Bool :=
  team.agents.any fun (path, agent) =>
    parentPath path = senderPath &&
      (team.status agent = .running || team.status agent = .queued ||
        team.status agent = .waitingResult)

def begin (handed : AgentPath → List (TeamTask × Route)) (id : RecordId) :
    AgentPath → List (TeamTask × Route) :=
  match team.messages id with
  | some message =>
      Function.update handed (team.agentPath id) (handed (team.agentPath id) ++ [message])
  | none => handed

def handleFinished (handlers : RecordId → Option Handler) (ended : RecordId × TerminalStatus) :
    RecordId → Option Handler :=
  match team.agents.get (team.agentPath ended.1) with
  | some agent =>
      Function.update handlers ended.1
        (some { status := ended.2, report := agent.report, stage := .flushing })
  | none => handlers

def follow (event : Event) : Team :=
  let scheduler := team.scheduler.step event
  let started := scheduler.runtime.started.drop team.scheduler.runtime.started.length
  let handled := scheduler.runtime.handled.drop team.scheduler.runtime.handled.length
  { team with
    scheduler := scheduler
    handed := started.foldl team.begin team.handed
    handlers := handled.foldl team.handleFinished team.handlers }

def owe (path : AgentPath) (task : TeamTask) : Team :=
  { team with owed := Function.update team.owed path (team.owed path ++ [task]) }

def hand (path : AgentPath) (task : TeamTask) : Team :=
  { team with
    handed := Function.update team.handed path (team.handed path ++ [(task, .delivered)]) }

def park (path : AgentPath) (agent : TeamAgent) (task : TeamTask) : Team :=
  { team.setAgent path { agent with pendingTasks := agent.pendingTasks ++ [task] } with
    parked := Function.update team.parked path (team.parked path ++ [task]) }

def deliver (targetPath : AgentPath) (task : TeamTask) : Except Text Team :=
  if targetPath = rootPath then .ok (team.hand targetPath task)
  else
    match team.agents.get targetPath with
    | none => .error (unknownAgent targetPath)
    | some target =>
        if team.finished target.record then
          if !canReceiveMessage (team.status target) then
            .error ("team agent ".toList ++ pathText targetPath ++
              " cannot receive messages after ".toList ++ (team.status target).text)
          else
            .error ("team agent ".toList ++ pathText targetPath ++ " is ".toList ++
              (team.status target).text ++ "; use team_followup_task to reactivate it".toList)
        else .ok (team.hand targetPath task)

/-- The next record of an agent, whose run starts with a message. -/
def resumeRecord (path : AgentPath) (agent : TeamAgent) (message : TeamTask × Route) : Team :=
  { team.setAgent path { agent with record := team.nextRecord, report := none } with
    nextRecord := team.nextRecord + 1
    agentPath := Function.update team.agentPath team.nextRecord path
    messages := Function.update team.messages team.nextRecord (some message) }

def reactivateAgent (path : AgentPath) (target : TeamAgent) (message : TeamTask × Route)
    (aborted : Bool) : Team × Except Text Scheduled :=
  if !canReceiveMessage (team.status target) then
    (team, .error ("team agent ".toList ++ pathText path ++ " cannot be reactivated from ".toList ++
      (team.status target).text))
  else if aborted then
    -- The report is gone before the signal is looked at.
    (team.setAgent path { target with report := none },
      .error "Subagent request was cancelled before reactivation.".toList)
  else
    let resumed := team.resumeRecord path target message
    (resumed.follow (.schedule team.nextRecord),
      .ok (resumed.scheduler.runtime.scheduleBackgroundTask team.nextRecord).2)

def spawnAgent (senderPath : AgentPath) (taskName : Text) (deferStart : Bool) : Except Text Team :=
  let path := childPath senderPath taskName
  if senderPath ≠ rootPath && !team.agents.has senderPath then
    .error ("unknown spawning agent: ".toList ++ pathText senderPath)
  else if team.agents.has path then
    .error ("team agent path already exists: ".toList ++ pathText path)
  else
    let agent : TeamAgent := { record := team.nextRecord, report := none, pendingTasks := [] }
    let spawned :=
      { team.setAgent path agent with
        nextRecord := team.nextRecord + 1
        agentPath := Function.update team.agentPath team.nextRecord path }
    .ok (if deferStart then spawned else spawned.follow (.schedule team.nextRecord))

structure FollowupDetails where
  reactivated : Bool
  queued : Bool
  promoted : Bool
  deriving DecidableEq

def followupTask (senderPath targetPath : AgentPath) (message : Text) (toolCall : Nat)
    (aborted : Bool) : Team × Except Text FollowupDetails :=
  let task : TeamTask :=
    { senderPath := senderPath
      message := message
      toolCallId := .call toolCall
      kind := .newTask }
  let delivered : Team × Except Text FollowupDetails :=
    match team.deliver targetPath task with
    | .ok next =>
        (next.owe targetPath task, .ok { reactivated := false, queued := false, promoted := false })
    | .error error => (team, .error error)
  if targetPath = rootPath then delivered
  else
    match team.agents.get targetPath with
    | none => (team, .error (unknownAgent targetPath))
    | some target =>
        if !team.finished target.record then
          if team.status target = .queued then
            let promoted := (team.scheduler.runtime.prioritizeBackground target.record).2
            (((team.follow (.prioritize target.record)).park targetPath target task).owe targetPath
                task,
              .ok { reactivated := false, queued := true, promoted := promoted })
          else delivered
        else if !canReceiveMessage (team.status target) then
          (team, .error ("team agent ".toList ++ pathText targetPath ++
            " cannot be reactivated after ".toList ++ (team.status target).text))
        else
          match team.reactivateAgent targetPath target (task, .reactivated) aborted with
          | (next, .ok scheduled) =>
              (next.owe targetPath task,
                .ok { reactivated := true, queued := scheduled = .queued, promoted := false })
          | (next, .error error) => (next, .error error)

def teamReport (senderPath : AgentPath) (report : TeamReport) : Except Text Team :=
  match team.agents.get senderPath with
  | none => .error (unknownAgent senderPath)
  | some agent =>
      if report.state = .blocked && report.question.isNone then
        .error ("team_report with state=blocked requires the question the parent must " ++
          "answer").toList
      else if report.state = .waiting && !team.hasPendingChild senderPath then
        .error ("team_report with state=waiting requires your own pending child; handle " ++
          "completed results or report blocked for a parent decision").toList
      else .ok (team.setAgent senderPath { agent with report := some report })

def teamInterrupt (targetPath : AgentPath) : Except Text Team :=
  if targetPath = rootPath then .error "team_interrupt cannot abort /root".toList
  else
    match team.agents.get targetPath with
    | none => .error (unknownAgent targetPath)
    | some target =>
        if team.finished target.record then .ok team else .ok (team.follow (.cancel target.record))

def parentNeedsCompletion (path : AgentPath) : Bool :=
  reports ((team.agents.get (parentPath path)).bind (·.report)) .waiting

def setHandler (id : RecordId) (handler : Option Handler) : Team :=
  { team with handlers := Function.update team.handlers id handler }

def finalAnswer (id : RecordId) (agent : TeamAgent) (status : TerminalStatus) (output : Text) :
    TeamTask :=
  { senderPath := team.agentPath id
    message :=
      match status with
      | .completed => completedPayload agent.report output
      | .failed => failedPayload .failed (team.record id).lastError output
      | .cancelled => failedPayload .cancelled (team.record id).lastError output
    toolCallId := .teamFinal id
    kind := .finalAnswer }

/-- An error of the delivery is recorded on the finished run. -/
def deliverFinalAnswer (path : AgentPath) (task : TeamTask) : Team :=
  let parent := team.agents.get (parentPath path)
  match parent with
  | some agent =>
      if canReceiveMessage (team.status agent) then
        (team.reactivateAgent (parentPath path) agent (task, .reactivated) false).1
      else if team.status agent = .queued then team.park (parentPath path) agent task
      else (team.deliver (parentPath path) task).toOption.getD team
  | none => (team.deliver (parentPath path) task).toOption.getD team

def shiftPending (id : RecordId) (status : TerminalStatus) : Team :=
  let settled := team.setHandler id none
  let path := team.agentPath id
  match team.agents.get path with
  | none => settled
  | some agent =>
      if status = .completed then
        match agent.pendingTasks with
        | [] => settled
        | next :: rest =>
            let shifted := { agent with pendingTasks := rest }
            ((settled.setAgent path shifted).reactivateAgent path shifted (next, .unparked) false).1
      else settled.setAgent path { agent with pendingTasks := [] }

def answers (id : RecordId) (status : TerminalStatus) (report : Option TeamReport) : Bool :=
  status ≠ .completed || !quietReport report (team.parentNeedsCompletion (team.agentPath id))

/-- `handleFinished` between the flush and the next `await`, or to its end where there is none. -/
def resumeHandler (id : RecordId) (handler : Handler) (output : Text) : Team :=
  let path := team.agentPath id
  match team.agents.get path with
  | none => team.setHandler id none
  | some agent =>
      let task := team.finalAnswer id agent handler.status output
      let delivers := team.answers id handler.status agent.report
      let promised :=
        if team.answers id handler.status handler.report || delivers then
          team.owe (parentPath path) task
        else team
      if delivers then
        (promised.deliverFinalAnswer path task).setHandler id
          (some { handler with stage := .delivering })
      else promised.shiftPending id handler.status

end Team

inductive TeamEvent where
  | spawn (senderPath : AgentPath) (taskName : Text) (deferStart : Bool)
  | launch (path : AgentPath)
  | followup (senderPath targetPath : AgentPath) (message : Text) (toolCall : Nat) (aborted : Bool)
  | report (senderPath : AgentPath) (report : TeamReport)
  | interrupt (targetPath : AgentPath)
  | abort (id : RecordId)
  | ended (id : RecordId) (error : Option Text)
  | released (id : RecordId)
  | flushed (id : RecordId) (output : Text)
  | answered (id : RecordId)

namespace Team

def step (team : Team) : TeamEvent → Team
  | .spawn senderPath taskName deferStart =>
      (team.spawnAgent senderPath taskName deferStart).toOption.getD team
  | .launch path =>
      match team.agents.get path with
      | some agent => team.follow (.schedule agent.record)
      | none => team
  | .followup senderPath targetPath message toolCall aborted =>
      (team.followupTask senderPath targetPath message toolCall aborted).1
  | .report senderPath report => (team.teamReport senderPath report).toOption.getD team
  | .interrupt targetPath => (team.teamInterrupt targetPath).toOption.getD team
  | .abort id => team.follow (.abort id)
  | .ended id error => team.follow (.ended id error)
  | .released id => team.follow (.released id)
  | .flushed id output =>
      match team.handlers id with
      | some handler => team.resumeHandler id handler output
      | none => team
  | .answered id =>
      match team.handlers id with
      | some handler => team.shiftPending id handler.status
      | none => team

/-- A session calls its tools while it runs, and a handler goes on where it waits. -/
def Possible (team : Team) : TeamEvent → Prop
  | .launch path =>
      ((team.agents.get path).any fun agent => agent.record ∉ team.scheduler.scheduled) = true
  | .report senderPath _ =>
      ((team.agents.get senderPath).any fun agent =>
        agent.record ∈ team.scheduler.runtime.runningBackgroundIds &&
          !team.finished agent.record) = true
  | .abort id => id < team.nextRecord
  | .ended id error => team.scheduler.Possible (.ended id error)
  | .released id => team.scheduler.Possible (.released id)
  | .flushed id _ => ((team.handlers id).any fun handler => handler.stage = .flushing) = true
  | .answered id => ((team.handlers id).any fun handler => handler.stage = .delivering) = true
  | .spawn _ _ _ | .followup _ _ _ _ _ | .interrupt _ => True

instance possible_decidable (team : Team) : DecidablePred team.Possible
  | .launch _ | .report _ _ | .flushed _ _ | .answered _ =>
      inferInstanceAs (Decidable (_ = true))
  | .abort id => inferInstanceAs (Decidable (id < team.nextRecord))
  | .ended id error => inferInstanceAs (Decidable (team.scheduler.Possible (.ended id error)))
  | .released id => inferInstanceAs (Decidable (team.scheduler.Possible (.released id)))
  | .spawn _ _ _ | .followup _ _ _ _ _ | .interrupt _ => inferInstanceAs (Decidable True)

/-- No run is in progress or queued, none is about to be launched, and no handler is pending. -/
structure Quiescent (team : Team) : Prop where
  idle : team.scheduler.runtime.runningBackgroundIds = ∅
  empty : team.scheduler.runtime.queuedBackground = []
  settled : ∀ id < team.nextRecord, team.handlers id = none
  launched : ∀ id < team.nextRecord, id ∈ team.scheduler.scheduled

instance quiescent_decidable (team : Team) : Decidable team.Quiescent :=
  decidable_of_iff
    (team.scheduler.runtime.runningBackgroundIds = ∅ ∧
      team.scheduler.runtime.queuedBackground = [] ∧
      (∀ id < team.nextRecord, team.handlers id = none) ∧
      ∀ id < team.nextRecord, id ∈ team.scheduler.scheduled)
    ⟨fun ⟨idle, empty, settled, launched⟩ => ⟨idle, empty, settled, launched⟩,
      fun ⟨idle, empty, settled, launched⟩ => ⟨idle, empty, settled, launched⟩⟩

end Team

end GrokPi.Subagents
