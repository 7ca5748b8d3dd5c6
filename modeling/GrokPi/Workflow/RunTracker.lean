import GrokPi.Compaction.Truncation
import GrokPi.Shared.Rows
import GrokPi.Shared.Runs
import GrokPi.Workflow.Engine

set_option autoImplicit false

namespace GrokPi.Workflow

section Numbers

def maxU64 : Nat := 2 ^ 64 - 1

def addU64 (a b : Nat) : Nat := min (a + b) maxU64

end Numbers

section Statuses

inductive WorkflowRunStatus where
  | active
  | userPaused
  | backOffPaused
  | noProgressPaused
  | infraPaused
  | blocked
  | budgetLimited
  | interrupted
  | complete
  | failed
  | cancelled
  deriving DecidableEq

inductive WorkflowControl where
  | pause
  | stop
  deriving DecidableEq

namespace WorkflowRunStatus

def isTerminal : WorkflowRunStatus → Bool
  | .interrupted | .complete | .failed | .cancelled => true
  | _ => false

def isCompletionReportable (status : WorkflowRunStatus) : Bool :=
  status.isTerminal || status = .budgetLimited

def isPaused : WorkflowRunStatus → Bool
  | .userPaused | .backOffPaused | .noProgressPaused | .infraPaused | .blocked | .budgetLimited => true
  | _ => false

def isResumable (status : WorkflowRunStatus) : Bool :=
  status.isPaused || status = .failed || status = .cancelled

def accepts (status : WorkflowRunStatus) : WorkflowControl → Bool
  | .pause => status = .active
  | .stop => !status.isCompletionReportable

def fromPause : PauseKind → WorkflowRunStatus
  | .user => .userPaused
  | .backOff => .backOffPaused
  | .noProgress => .noProgressPaused
  | .verification => .blocked
  | .infra => .infraPaused

def asRef : WorkflowRunStatus → Text
  | .active => "active".toList
  | .userPaused => "user_paused".toList
  | .backOffPaused => "back_off_paused".toList
  | .noProgressPaused => "no_progress_paused".toList
  | .infraPaused => "infra_paused".toList
  | .blocked => "blocked".toList
  | .budgetLimited => "budget_limited".toList
  | .interrupted => "interrupted".toList
  | .complete => "complete".toList
  | .failed => "failed".toList
  | .cancelled => "cancelled".toList

end WorkflowRunStatus

def PauseKind.asRef : PauseKind → Text
  | .user => "user".toList
  | .backOff => "back_off".toList
  | .noProgress => "no_progress".toList
  | .verification => "verification".toList
  | .infra => "infra".toList

end Statuses

section Texts

def workflowPauseMessageMaxBytes : Nat := 4 * 1024

def cappedPauseMessage (message : Text) : Text := Compaction.startWithin workflowPauseMessageMaxBytes message

def JournalError.text : JournalError → Text
  | .io error => "journal io: ".toList ++ error
  | .parse line error => "journal parse at line ".toList ++ Nat.toDigits 10 line ++ ": ".toList ++ error
  | .unsafeRestore limit reason =>
      "journal restore rejected (limit ".toList ++ Nat.toDigits 10 limit ++ "): ".toList ++ reason
  | .full seq limit =>
      "journal full: appending seq ".toList ++ Nat.toDigits 10 seq ++ " would exceed the ".toList ++
        Nat.toDigits 10 limit ++
        "-byte cap that restore enforces, which would strand the run unresumable".toList
  | .sequence index expected actual =>
      "journal is not dense at entry ".toList ++ Nat.toDigits 10 index ++ ": expected sequence ".toList ++
        Nat.toDigits 10 expected ++ ", found ".toList ++ Nat.toDigits 10 actual
  | .divergence seq kind =>
      "replay divergence at seq ".toList ++ Nat.toDigits 10 seq ++ " (".toList ++ kind ++
        ("): the script issued a different call than the recorded run — the workflow script is " ++
          "nondeterministic or was edited mid-run").toList

def FatalReason.text : FatalReason → Text
  | .journal error => error.text
  | .message text => text

def outcomeKind : WorkflowOutcome → Text
  | .completed _ => "completed".toList
  | .paused _ _ => "paused".toList
  | .budgetExceeded _ => "budget_exceeded".toList
  | .cancelled => "cancelled".toList
  | .failed _ => "failed".toList

def summaryMax : Nat := 16 * 1024

def summaryText : Json → Text
  | .string text => text
  | .null => "done".toList
  | .object members =>
      match ((Json.object members).get "report".toList).bind Json.asText,
        ((Json.object members).get "path".toList).bind Json.asText with
      | some report, some path => report ++ "\n\n_Full report: ".toList ++ path ++ "_".toList
      | some report, none => report
      | none, _ => Json.print (.object members)
  | other => Json.print other

def summarizeResult (result : Json) : Text :=
  let text := summaryText result
  if summaryMax < text.byteLen then Compaction.startWithin summaryMax text ++ ['…'] else text

end Texts

section States

structure PhaseMeta where
  title : Text
  detail : Option Text

structure WorkflowHistoryEntry where
  event : Text
  detail : Option Text
  at' : Text

structure WorkflowTokenLease where
  leaseId : Text
  grant : Nat

structure WorkflowAgentRow where
  agentId : Text
  label : Text
  phase : Option Text
  model : Option Text
  state : Text
  tokensUsed : Nat
  durationMs : Nat

structure WorkflowRunState where
  runId : Text
  revision : Nat
  name : Text
  objective : Text
  status : WorkflowRunStatus
  phases : List PhaseMeta
  currentPhase : Option Text
  agentBudget : Option Nat
  agentsUsed : Nat
  tokenLeases : List WorkflowTokenLease
  agentUsageIncomplete : Bool
  elapsedMsFloor : Nat
  pauseMessage : Option Text
  history : List WorkflowHistoryEntry
  journalPath : Option Text
  resultSummary : Option Text
  agents : List WorkflowAgentRow

def workflowHistoryMax : Nat := 64

def workflowAgentRowsMax : Nat := 256

def maxAgentBudget : Nat := 1024

structure Moment where
  instant : Nat
  wall : Text

structure Letters where
  toLowercase : Text → Text
  isAlphanumeric : Char → Bool

namespace WorkflowRunState

def advanceRevision (state : WorkflowRunState) : WorkflowRunState :=
  { state with revision := addU64 state.revision 1 }

def recordEvent (moment : Moment) (event : Text) (detail : Option Text) (state : WorkflowRunState) :
    WorkflowRunState :=
  let history := state.history ++ [{ event, detail, at' := moment.wall }]
  { state.advanceRevision with history := history.drop (history.length - workflowHistoryMax) }

def cancelRunningAgents (state : WorkflowRunState) : WorkflowRunState :=
  { state with
    agents := state.agents.map fun agent =>
      if agent.state = "running".toList then { agent with state := "cancelled".toList } else agent }

end WorkflowRunState

structure TrackedRun where
  state : WorkflowRunState
  activeSince : Option Nat
  executionEpoch : Nat

namespace TrackedRun

def id (run : TrackedRun) : Text := run.state.runId

def liveElapsedMs (moment : Moment) (run : TrackedRun) : Nat :=
  addU64 run.state.elapsedMsFloor
    ((run.activeSince.map fun since => (moment.instant - since) % 2 ^ 64).getD 0)

def foldElapsed (moment : Moment) (run : TrackedRun) : TrackedRun :=
  match run.activeSince with
  | some _ =>
      { run with
        state := { run.state with elapsedMsFloor := run.liveElapsedMs moment }
        activeSince := none }
  | none => run

def change (f : WorkflowRunState → WorkflowRunState) (run : TrackedRun) : TrackedRun :=
  { run with state := f run.state }

end TrackedRun

def defaultLabelFor (letters : Letters) (agents : List WorkflowAgentRow) (phase : Option Text) : Text :=
  let ordinal := (agents.filter fun agent => agent.phase = phase).length + 1
  match phase with
  | some p =>
      let slug := ((letters.toLowercase p).map fun c => if letters.isAlphanumeric c then c else '-').splitOn '-'
      ['-'].intercalate (slug.filter fun part => !part.isEmpty) ++ '-' :: Nat.toDigits 10 ordinal
  | none => "agent-".toList ++ Nat.toDigits 10 ordinal

end States

structure WorkflowTracker where
  runs : List TrackedRun
  reportedTerminalRunIds : Finset Text
  terminalAtRestoreRunIds : Finset Text
  statusReportedRevisions : Text → Option Nat

namespace WorkflowTracker

section Reading

variable (tracker : WorkflowTracker)

def run? (runId : Text) : Option TrackedRun := Rows.get TrackedRun.id tracker.runs runId

def get (runId : Text) : Option WorkflowRunState := (tracker.run? runId).map TrackedRun.state

def list : List WorkflowRunState := tracker.runs.map TrackedRun.state

def ids : List Text := tracker.runs.map TrackedRun.id

def findRunId (key : Text) : Option Text :=
  (tracker.runs.find? fun run => run.id = key ∨ run.state.name = key).map TrackedRun.id

def executionEpoch (runId : Text) : Option Nat := (tracker.run? runId).map TrackedRun.executionEpoch

end Reading

section Changing

variable (tracker : WorkflowTracker)

def changeRun (runId : Text) (change : TrackedRun → TrackedRun) : WorkflowTracker :=
  { tracker with runs := Rows.update TrackedRun.id runId change tracker.runs }

def taken (candidate : Text) : Bool := tracker.runs.any fun run => run.state.name = candidate

def numbered (name : Text) (n : Nat) : Text := name ++ '-' :: Nat.toDigits 10 n

def freeName (name : Text) : Text :=
  if tracker.taken name then
    (((List.range (tracker.runs.length + 1)).map fun i => numbered name (i + 2)).find? fun candidate =>
      !tracker.taken candidate).getD name
  else name

def startRun (moment : Moment) (runId name objective : Text) (phases : List PhaseMeta)
    (agentBudget : Option Nat) (journalPath : Option Text) : WorkflowTracker :=
  let state : WorkflowRunState :=
    { runId
      revision := 0
      name := tracker.freeName name
      objective
      status := .active
      phases
      currentPhase := none
      agentBudget
      agentsUsed := 0
      tokenLeases := []
      agentUsageIncomplete := false
      elapsedMsFloor := 0
      pauseMessage := none
      history := []
      journalPath
      resultSummary := none
      agents := [] }
  let state := state.recordEvent moment "workflow_started".toList none
  { tracker with
    runs := tracker.runs ++ [{ state, activeSince := some moment.instant, executionEpoch := 0 }] }

def candidateBudget (state : WorkflowRunState) : Option Nat → Option Nat
  | some raised => some (max raised (state.agentBudget.getD 0))
  | none => state.agentBudget

/-- A run that is limited by its budget is only resumed with a higher one. -/
def mayResume (state : WorkflowRunState) (newAgentBudget : Option Nat) : Bool :=
  state.status.isResumable &&
    !(state.status = .budgetLimited &&
      (!(newAgentBudget.any fun budget => state.agentBudget.getD 0 < budget) ||
        (candidateBudget state newAgentBudget).any fun limit => limit ≤ state.agentsUsed))

def resumed (moment : Moment) (newAgentBudget : Option Nat) (run : TrackedRun) : TrackedRun :=
  let state :=
    { run.state with
      agentBudget := (candidateBudget run.state newAgentBudget).or run.state.agentBudget
      status := .active
      pauseMessage := none
      resultSummary := none }
  { state := state.cancelRunningAgents.recordEvent moment "workflow_resumed".toList none
    activeSince := some moment.instant
    executionEpoch := (run.executionEpoch + 1) % 2 ^ 64 }

def resumeRun (moment : Moment) (runId : Text) (newAgentBudget : Option Nat) :
    Option WorkflowRunState × WorkflowTracker :=
  match tracker.run? runId with
  | none => (none, tracker)
  | some run =>
      if mayResume run.state newAgentBudget then
        let tracker := tracker.changeRun runId (resumed moment newAgentBudget)
        (tracker.get runId,
          { tracker with
            reportedTerminalRunIds := tracker.reportedTerminalRunIds.erase runId
            terminalAtRestoreRunIds := tracker.terminalAtRestoreRunIds.erase runId })
      else (none, tracker)

def setPhase (moment : Moment) (title : Text) (state : WorkflowRunState) : WorkflowRunState :=
  if state.currentPhase = some title then state
  else { state with currentPhase := some title }.recordEvent moment "phase_entered".toList (some title)

def reserve (count : Nat) (state : WorkflowRunState) : Except (Nat × Nat) WorkflowRunState :=
  let requested := addU64 state.agentsUsed count
  match state.agentBudget with
  | some limit =>
      if limit < requested then .error (requested, limit)
      else .ok { state with agentsUsed := requested }.advanceRevision
  | none => .ok { state with agentsUsed := requested }.advanceRevision

def release (count : Nat) (state : WorkflowRunState) : WorkflowRunState :=
  { state with agentsUsed := state.agentsUsed - count }.advanceRevision

def reserveAgents (runId : Text) (count : Nat) : Except (Nat × Nat) WorkflowRunState × WorkflowTracker :=
  match tracker.get runId with
  | none => (.error (count, 0), tracker)
  | some state =>
      match reserve count state with
      | .error refused => (.error refused, tracker)
      | .ok reserved =>
          (.ok reserved, tracker.changeRun runId fun run => { run with state := ((reserve count run.state).toOption).getD run.state })

def releaseAgents (runId : Text) (count : Nat) : Option WorkflowRunState × WorkflowTracker :=
  ((tracker.get runId).map (release count), tracker.changeRun runId (TrackedRun.change (release count)))

def reconcile (used : Nat) (state : WorkflowRunState) : WorkflowRunState :=
  if state.agentsUsed = used then state else { state with agentsUsed := used }.advanceRevision

def capAgents (agents : List WorkflowAgentRow) : List WorkflowAgentRow :=
  if workflowAgentRowsMax < agents.length then agents.eraseP fun agent => agent.state ≠ "running".toList
  else agents

def filledRow (letters : Letters) (row : WorkflowAgentRow) (state : WorkflowRunState) : WorkflowAgentRow :=
  let phase := row.phase.or state.currentPhase
  { row with
    phase
    label := if row.label.isEmpty then defaultLabelFor letters state.agents phase else row.label }

def agentStarted (letters : Letters) (row : WorkflowAgentRow) (state : WorkflowRunState) : WorkflowRunState :=
  { state.advanceRevision with agents := capAgents (state.agents ++ [filledRow letters row state]) }

def changeAgent (agentId : Text) (change : WorkflowAgentRow → WorkflowAgentRow) (state : WorkflowRunState) :
    WorkflowRunState :=
  match Rows.get WorkflowAgentRow.agentId state.agents agentId with
  | none => state
  | some _ =>
      { state.advanceRevision with
        agents := Rows.update WorkflowAgentRow.agentId agentId change state.agents }

def rebindAgentId (agentId newAgentId : Text) : WorkflowRunState → WorkflowRunState :=
  changeAgent agentId fun row => { row with agentId := newAgentId }

def agentFinished (agentId rowState : Text) (tokensUsed durationMs : Nat) : WorkflowRunState → WorkflowRunState :=
  changeAgent agentId fun row => { row with state := rowState, tokensUsed, durationMs }

def logMessage (moment : Moment) (message : Text) : WorkflowRunState → WorkflowRunState :=
  WorkflowRunState.recordEvent moment "log".toList (some message)

def userPaused (moment : Moment) (message : Option Text) (state : WorkflowRunState) : WorkflowRunState :=
  { state with status := .userPaused, pauseMessage := message.map cappedPauseMessage }.recordEvent moment
    "workflow_paused".toList (some "user".toList)

def pauseUser (moment : Moment) (message : Option Text) (run : TrackedRun) : TrackedRun :=
  if run.state.status ≠ .active then run
  else (run.foldElapsed moment).change (userPaused moment message)

def interrupted (moment : Moment) (message : Text) (state : WorkflowRunState) : WorkflowRunState :=
  let message := cappedPauseMessage message
  { state with status := .interrupted, pauseMessage := some message, resultSummary := none }.recordEvent moment
    "workflow_interrupted".toList (some message)

def interrupt (moment : Moment) (message : Text) (run : TrackedRun) : TrackedRun :=
  (run.foldElapsed moment).change (interrupted moment message)

def ignoresOutcomes : WorkflowRunStatus → Bool
  | .interrupted | .failed | .cancelled => true
  | _ => false

def budgetHint (used : Nat) : Text :=
  if maxAgentBudget ≤ used then
    ("finished work is kept, but this run reached the maximum agent budget and " ++
      "cannot be resumed; start a new run").toList
  else
    ("finished work is kept; resume the run with a higher absolute agent budget " ++ "to continue").toList

def outcomeApplied (moment : Moment) (outcome : WorkflowOutcome) (state : WorkflowRunState) : WorkflowRunState :=
  match outcome with
  | .completed result =>
      { state with status := .complete, resultSummary := some (summarizeResult result) }.recordEvent moment
        "workflow_completed".toList none
  | .paused kind message =>
      { state with
        status := .fromPause kind
        pauseMessage := some (cappedPauseMessage message) }.recordEvent moment
        "workflow_paused".toList (some kind.asRef)
  | .budgetExceeded message =>
      { state with
        status := .budgetLimited
        pauseMessage := some (cappedPauseMessage (message ++ " — ".toList ++ budgetHint state.agentsUsed)) }.recordEvent
        moment "workflow_budget_limited".toList none
  | .cancelled => { state with status := .cancelled }.recordEvent moment "workflow_cancelled".toList none
  | .failed reason =>
      let error := cappedPauseMessage reason.text
      { state with status := .failed, pauseMessage := some error }.recordEvent moment
        "workflow_failed".toList (some error)

def settled (moment : Moment) (outcome : WorkflowOutcome) (state : WorkflowRunState) : WorkflowRunState :=
  if ignoresOutcomes state.status then
    state.recordEvent moment "workflow_outcome_ignored".toList
      (some ("ignored ".toList ++ outcomeKind outcome ++ " while status is ".toList ++ state.status.asRef))
  else outcomeApplied moment outcome state

def applyOutcome (moment : Moment) (outcome : WorkflowOutcome) (run : TrackedRun) : TrackedRun :=
  (run.foldElapsed moment).change (settled moment outcome)

def clearRun (runId : Text) : WorkflowTracker :=
  { tracker with runs := Rows.remove TrackedRun.id runId tracker.runs }

end Changing

section Reports

variable (tracker : WorkflowTracker)

def markCompletionReported (runId : Text) : WorkflowTracker :=
  { tracker with reportedTerminalRunIds := insert runId tracker.reportedTerminalRunIds }

def unreported : List WorkflowRunState :=
  tracker.list.filter fun state =>
    state.status.isCompletionReportable ∧ state.runId ∉ tracker.reportedTerminalRunIds

/-- The runs that were over when the session was restored, and the others. -/
def takeUnreportedTerminalRuns : (List WorkflowRunState × List WorkflowRunState) × WorkflowTracker :=
  let (restored, fresh) := tracker.unreported.partition fun state => state.runId ∈ tracker.terminalAtRestoreRunIds
  ((restored, fresh),
    { tracker with
      reportedTerminalRunIds :=
        tracker.reportedTerminalRunIds ∪ ((restored ++ fresh).map WorkflowRunState.runId).toFinset })

def live : List TrackedRun := tracker.runs.filter fun run => !run.state.status.isCompletionReportable

def moved : Bool :=
  tracker.live.any fun run => tracker.statusReportedRevisions run.id ≠ some run.state.revision

def takeStatusReport (moment : Moment) : List WorkflowRunState × WorkflowTracker :=
  if !tracker.moved then ([], tracker)
  else
    let report := tracker.live.map fun run => { run.state with elapsedMsFloor := run.liveElapsedMs moment }
    let retained := fun id => if id ∈ tracker.ids then tracker.statusReportedRevisions id else none
    (report,
      { tracker with
        statusReportedRevisions := report.foldl (fun known state => fun id =>
          if id = state.runId then some state.revision else known id) retained })

end Reports

section Restoring

def chargeLeases (moment : Moment) (state : WorkflowRunState) : WorkflowRunState :=
  if state.tokenLeases.isEmpty then state
  else
    { state with
      agentsUsed := addU64 state.agentsUsed (state.tokenLeases.foldl (fun sum (lease : WorkflowTokenLease) => addU64 sum lease.grant) 0)
      tokenLeases := []
      agentUsageIncomplete := true }.recordEvent moment
      "workflow_budget_accounting_incomplete".toList (some "unresolved reservations charged on restore".toList)

def interruptRestored (moment : Moment) (state : WorkflowRunState) : WorkflowRunState :=
  if state.status = .active then
    { state with
      status := .interrupted
      pauseMessage :=
        some "the session ended while this workflow was active; start a new run".toList }.recordEvent moment
      "workflow_interrupted".toList (some "restored_without_stable_operation_identity".toList)
  else state

def cancelGhosts (state : WorkflowRunState) : WorkflowRunState :=
  if state.agents.any fun agent => agent.state = "running".toList then
    state.cancelRunningAgents.advanceRevision
  else state

def restored (moment : Moment) (state : WorkflowRunState) : WorkflowRunState :=
  cancelGhosts (interruptRestored moment (chargeLeases moment state))

def fromSnapshot (moment : Moment) (snapshots : List WorkflowRunState) : WorkflowTracker :=
  let states := snapshots.map (restored moment)
  { runs := states.map fun state => { state, activeSince := none, executionEpoch := 0 }
    reportedTerminalRunIds := ∅
    terminalAtRestoreRunIds :=
      ((states.filter fun state => state.status.isCompletionReportable).map WorkflowRunState.runId).toFinset
    statusReportedRevisions := fun _ => none }

end Restoring

end WorkflowTracker

end GrokPi.Workflow
