import GrokPi.Shared.InsertionMap
import GrokPi.Workflow.TrackerRuns

set_option autoImplicit false

namespace GrokPi.Workflow

def workflowMaxActiveRunsPerSession : Nat := 4

def workflowDefaultAgentBudget : Nat := 128

section Model

inductive Phase where
  | executing
  | draining (outcome : WorkflowOutcome)
  | persisting
  | done

structure Execution where
  runId : Text
  epoch : Nat
  cancel : Bool
  pauseIntent : Bool
  phase : Phase

def Execution.unsettled (execution : Execution) : Bool :=
  match execution.phase with
  | .executing | .draining _ => true
  | .persisting | .done => false

def Execution.isDone (execution : Execution) : Bool :=
  match execution.phase with
  | .done => true
  | _ => false

/-- The active and the retiring runs name the execution whose end they wait for. -/
structure Manager where
  sessionDir : Bool
  tracker : WorkflowTracker
  active : InsertionMap Text Nat
  retiring : List (Text × Nat)
  executions : List Execution

inductive LaunchError where
  | unknownRun (runId : Text)
  | journal (error : Text)
  | store (error : Text)
  | notResumable (status : Text)
  | budgetNotRaised (used limit : Nat)
  | tooManyActiveRuns
  deriving DecidableEq

inductive ControlError where
  | unknownRun (key : Text)
  | notApplicable (name : Text) (status : WorkflowRunStatus) (control : WorkflowControl)

structure LaunchSurroundings where
  store : Option Text
  journal : Except Text Nat
  persistError : Option Text

inductive ManagerOp where
  | launchNew (surroundings : LaunchSurroundings) (runId name objective : Text) (phases : List PhaseMeta)
      (agentBudget : Option Nat)
  | launchResume (surroundings : LaunchSurroundings) (runId : Text) (newAgentBudget : Option Nat)
  | pause (runId : Text)
  | cancel (runId : Text)
  | controlRun (key : Text) (control : WorkflowControl)
  | served (op : TrackerOp)
  | engineEnds (execution : Nat) (outcome : WorkflowOutcome)
  | watcherSettles (execution : Nat) (drainFailed : Bool)
  | watcherPersists (execution : Nat) (failure : Option Text)

def TrackerOp.isServed : TrackerOp → Bool
  | .setPhase _ _ | .reserveAgents _ _ | .releaseAgents _ _ | .agentStarted _ _ | .rebindAgentId _ _ _
  | .agentFinished _ _ _ _ _ | .logMessage _ _ | .markCompletionReported _ | .takeUnreportedTerminalRuns
  | .takeStatusReport => true
  | _ => false

namespace Manager

def start (sessionDir : Bool) (tracker : WorkflowTracker) : Manager :=
  { sessionDir, tracker, active := [], retiring := [], executions := [] }

variable (manager : Manager)

def terminal (runId : Text) : Bool := (manager.tracker.get runId).any fun state => state.status.isTerminal

def finished (execution : Nat) : Bool := (manager.executions[execution]?).any Execution.isDone

def reapTerminalRuns : Manager :=
  let (ended, still) := manager.active.partition fun entry => manager.terminal entry.1
  { manager with
    active := still
    retiring := (manager.retiring ++ ended).filter fun entry => !manager.finished entry.2 }

def retire (runId : Text) (execution : Nat) : Manager :=
  { manager with
    active := manager.active.erase runId
    retiring := manager.retiring ++ [(runId, execution)] }

def reapIfTerminal (runId : Text) : Bool × Manager :=
  if manager.terminal runId then
    match manager.active.get runId with
    | some execution => (true, manager.retire runId execution)
    | none => (true, manager)
  else (false, manager)

def changeExecution (execution : Nat) (change : Execution → Execution) : Manager :=
  { manager with executions := manager.executions.modify execution change }

def withTracker (tracker : WorkflowTracker) : Manager := { manager with tracker }

def full : Bool := workflowMaxActiveRunsPerSession ≤ manager.active.length + manager.retiring.length

def launched (runId : Text) : Manager :=
  { manager with
    active := manager.active.set runId manager.executions.length
    executions := manager.executions ++
      [{ runId
         epoch := (manager.tracker.executionEpoch runId).getD 0
         cancel := false
         pauseIntent := false
         phase := .executing }] }

def notPersisted : Text := "workflow state persistence failed before resume; start a new run".toList

def drainFailure : Text := "workflow cleanup timed out or could not be acknowledged; start a new run".toList

def stateNotPersisted (error : Text) : Text :=
  "workflow terminal state could not be persisted: ".toList ++ error ++ "; start a new run".toList

def journalRel (runId : Text) : Text := "workflows/".toList ++ runId ++ "/journal.jsonl".toList

def maximumReached : Text := "maximum agent budget reached; start a new run".toList

def journalElsewhere : Text := "persisted journal path does not match its workflow run".toList

def launchNew (surroundings : LaunchSurroundings) (moment : Moment) (runId name objective : Text)
    (phases : List PhaseMeta) (agentBudget : Option Nat) : Except LaunchError Text × Manager :=
  let manager := manager.reapTerminalRuns
  if manager.full then (.error .tooManyActiveRuns, manager)
  else
    match surroundings.store with
    | some error => (.error (.store error), manager)
    | none =>
        let journalPath := if manager.sessionDir then some (journalRel runId) else none
        let manager := manager.withTracker
          (manager.tracker.startRun moment runId name objective phases (some (agentBudget.getD workflowDefaultAgentBudget))
            journalPath)
        match surroundings.persistError with
        | some error => (.error (.store error), manager.withTracker (manager.tracker.clearRun runId))
        | none => (.ok runId, manager.launched runId)

/-- The checks of a resume that look at the tracker, the store and the journal but change nothing. -/
def resumeRefused (surroundings : LaunchSurroundings) (runId : Text) (existing : WorkflowRunState) : Option LaunchError :=
  if !existing.status.isResumable then some (.notResumable existing.status.asRef)
  else if existing.status = .budgetLimited ∧ maxAgentBudget ≤ existing.agentsUsed then some (.notResumable maximumReached)
  else
    match surroundings.store with
    | some error => some (.store error)
    | none =>
        if manager.sessionDir && existing.journalPath.any (· ≠ journalRel runId) then some (.journal journalElsewhere)
        else none

def launchResume (surroundings : LaunchSurroundings) (moment : Moment) (runId : Text) (newAgentBudget : Option Nat) :
    Except LaunchError Text × Manager :=
  let manager := manager.reapTerminalRuns
  if manager.full then (.error .tooManyActiveRuns, manager)
  else
    match manager.tracker.get runId with
    | none => (.error (.unknownRun runId), manager)
    | some existing =>
        match manager.resumeRefused surroundings runId existing, surroundings.journal with
        | some refused, _ => (.error refused, manager)
        | none, .error error => (.error (.journal error), manager)
        | none, .ok reservations =>
            let tracker := manager.tracker.changeRun runId (.change (WorkflowTracker.reconcile reservations))
            match tracker.resumeRun moment runId newAgentBudget with
            | (none, tracker) =>
                if existing.status = .budgetLimited then
                  (.error (.budgetNotRaised existing.agentsUsed (existing.agentBudget.getD 0)), manager.withTracker tracker)
                else (.error (.notResumable existing.status.asRef), manager.withTracker tracker)
            | (some _, tracker) =>
                match surroundings.persistError with
                | some error =>
                    (.error (.store error),
                      manager.withTracker (tracker.changeRun runId (WorkflowTracker.interrupt moment notPersisted)))
                | none => (.ok runId, (manager.withTracker tracker).launched runId)

def pauseIfRunning (moment : Moment) (runId : Text) : Manager :=
  if manager.terminal runId then manager
  else manager.withTracker (manager.tracker.changeRun runId (WorkflowTracker.pauseUser moment none))

def cancelIfRunning (moment : Moment) (runId : Text) : Manager :=
  if manager.terminal runId then manager
  else manager.withTracker (manager.tracker.changeRun runId (WorkflowTracker.applyOutcome moment .cancelled))

def pause (moment : Moment) (runId : Text) : Bool × Manager :=
  let (ended, manager) := manager.reapIfTerminal runId
  if ended then (false, manager)
  else
    match manager.active.get runId with
    | none => (false, manager)
    | some execution =>
        (true, ((manager.retire runId execution).changeExecution execution fun e =>
          { e with pauseIntent := true, cancel := true }).pauseIfRunning moment runId)

def cancel (moment : Moment) (runId : Text) : Bool × Manager :=
  let (ended, manager) := manager.reapIfTerminal runId
  if ended then (false, manager)
  else
    match manager.active.get runId with
    | none =>
        ((manager.tracker.get runId).any fun state => !state.status.isTerminal, manager.cancelIfRunning moment runId)
    | some execution =>
        (true, ((manager.retire runId execution).changeExecution execution fun e =>
          { e with cancel := true }).cancelIfRunning moment runId)

def apply (moment : Moment) (runId : Text) : WorkflowControl → Bool × Manager
  | .pause => manager.pause moment runId
  | .stop => manager.cancel moment runId

def controlRun (moment : Moment) (key : Text) (control : WorkflowControl) : Except ControlError WorkflowRunState × Manager :=
  match (manager.tracker.findRunId key).bind manager.tracker.get with
  | none => (.error (.unknownRun key), manager)
  | some run =>
      if !run.status.accepts control then (.error (.notApplicable run.name run.status control), manager)
      else
        let (applied, manager) := manager.apply moment run.runId control
        if applied then (.ok run, manager)
        else
          let status := ((manager.tracker.get run.runId).map WorkflowRunState.status).getD run.status
          (.error (.notApplicable run.name status control), manager)

def engineEnds (execution : Nat) (outcome : WorkflowOutcome) : Manager :=
  manager.changeExecution execution fun e =>
    match e.phase with
    | .executing => { e with phase := .draining outcome }
    | _ => e

def settlement (moment : Moment) (drainFailed pauseIntent : Bool) (outcome : WorkflowOutcome) :
    TrackedRun → TrackedRun :=
  if drainFailed then WorkflowTracker.interrupt moment drainFailure
  else
    match pauseIntent, outcome with
    | true, .cancelled => WorkflowTracker.pauseUser moment none
    | true, .paused _ _ => WorkflowTracker.pauseUser moment none
    | _, outcome => WorkflowTracker.applyOutcome moment outcome

def watcherSettles (moment : Moment) (execution : Nat) (drainFailed : Bool) : Manager :=
  match manager.executions[execution]? with
  | none => manager
  | some e =>
      match e.phase with
      | .draining outcome =>
          if manager.tracker.executionEpoch e.runId = some e.epoch then
            (manager.changeExecution execution fun e => { e with phase := .persisting }).withTracker
              (manager.tracker.changeRun e.runId (settlement moment drainFailed e.pauseIntent outcome))
          else manager.changeExecution execution fun e => { e with phase := .done }
      | _ => manager

def watcherPersists (moment : Moment) (execution : Nat) (failure : Option Text) : Manager :=
  match manager.executions[execution]? with
  | none => manager
  | some e =>
      match e.phase with
      | .persisting =>
          let manager := manager.changeExecution execution fun e => { e with phase := .done }
          match failure with
          | none => manager
          | some error =>
              -- the epoch is not looked at again
              manager.withTracker
                (manager.tracker.changeRun e.runId (WorkflowTracker.interrupt moment (stateNotPersisted error)))
      | _ => manager

def step (letters : Letters) (manager : Manager) (command : Moment × ManagerOp) : Manager :=
  let moment := command.1
  match command.2 with
  | .launchNew surroundings runId name objective phases agentBudget =>
      (manager.launchNew surroundings moment runId name objective phases agentBudget).2
  | .launchResume surroundings runId newAgentBudget => (manager.launchResume surroundings moment runId newAgentBudget).2
  | .pause runId => (manager.pause moment runId).2
  | .cancel runId => (manager.cancel moment runId).2
  | .controlRun key control => (manager.controlRun moment key control).2
  | .served op => if op.isServed then manager.withTracker (manager.tracker.step letters (moment, op)) else manager
  | .engineEnds execution outcome => manager.engineEnds execution outcome
  | .watcherSettles execution drainFailed => manager.watcherSettles moment execution drainFailed
  | .watcherPersists execution failure => manager.watcherPersists moment execution failure

end Manager

end Model

end GrokPi.Workflow
