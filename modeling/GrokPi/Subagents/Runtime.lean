import GrokPi.Shared.Runs
import GrokPi.Shared.Text

set_option autoImplicit false

namespace GrokPi.Subagents

abbrev RecordId := Nat

inductive TerminalStatus where
  | completed
  | failed
  | cancelled
  deriving DecidableEq

structure SubagentRecord where
  finished : Bool
  cancelRequested : Bool
  terminalStatus : Option TerminalStatus
  lastError : Option Text
  /-- The promise that waiters hold is resolved. -/
  done : Bool

def SubagentRecord.fresh : SubagentRecord :=
  { finished := false
    cancelRequested := false
    terminalStatus := none
    lastError := none
    done := false }

/-- `started` and `handled` log the runs that were called and the handlers that were called. -/
structure Runtime where
  records : RecordId → SubagentRecord
  queuedBackground : List RecordId
  runningBackgroundIds : Finset RecordId
  runningBackground : Nat
  finishHandlers : RecordId → Bool
  started : List RecordId
  handled : List (RecordId × TerminalStatus)

def maxBackgroundConcurrency : Nat := 4

inductive Scheduled where
  | running
  | queued
  | skipped
  deriving DecidableEq

namespace Runtime

variable (runtime : Runtime)

def updateRecord (id : RecordId) (change : SubagentRecord → SubagentRecord) : Runtime :=
  { runtime with records := Function.update runtime.records id (change (runtime.records id)) }

def finish (id : RecordId) (status : TerminalStatus) (error : Option Text) : Runtime :=
  if (runtime.records id).finished then runtime
  else
    { runtime.updateRecord id fun record =>
        { record with
          finished := true
          terminalStatus := some status
          lastError := (error.filter fun text => !text.isEmpty).or record.lastError
          done := true } with
      finishHandlers := Function.update runtime.finishHandlers id false
      handled :=
        if runtime.finishHandlers id then runtime.handled ++ [(id, status)] else runtime.handled }

def requestCancel (id : RecordId) : Runtime :=
  runtime.updateRecord id fun record => { record with cancelRequested := true }

def cancelledBeforeStart : Text := "Cancelled before background execution started.".toList

def scheduleBackgroundTask (id : RecordId) : Runtime × Scheduled :=
  if (runtime.records id).finished then (runtime, .skipped)
  else if (runtime.records id).cancelRequested then
    (runtime.finish id .cancelled cancelledBeforeStart, .skipped)
  else if maxBackgroundConcurrency ≤ runtime.runningBackground then
    ({ runtime with queuedBackground := runtime.queuedBackground ++ [id] }, .queued)
  else
    ({ runtime with
        runningBackground := runtime.runningBackground + 1
        runningBackgroundIds := insert id runtime.runningBackgroundIds
        started := runtime.started ++ [id] }, .running)

def skipped (id : RecordId) : Bool :=
  (runtime.records id).cancelRequested || (runtime.records id).finished

def releaseSlot (id : RecordId) : Runtime :=
  let freed :=
    { runtime with
      runningBackgroundIds := runtime.runningBackgroundIds.erase id
      runningBackground := runtime.runningBackground - 1 }
  match runtime.queuedBackground.dropWhile runtime.skipped with
  | [] => { freed with queuedBackground := [] }
  | next :: rest => ({ freed with queuedBackground := rest }.scheduleBackgroundTask next).1

def prioritizeBackground (id : RecordId) : Runtime × Bool :=
  if id ∈ runtime.queuedBackground then
    ({ runtime with queuedBackground := id :: runtime.queuedBackground.erase id }, true)
  else (runtime, false)

def cancel (id : RecordId) : Runtime :=
  if (runtime.records id).finished then runtime
  else
    let marked := runtime.requestCancel id
    if id ∈ runtime.queuedBackground then
      { marked with queuedBackground := runtime.queuedBackground.erase id }.finish id .cancelled
        cancelledBeforeStart
    else marked

def discard (id : RecordId) (reason : Text) : Runtime :=
  if (runtime.records id).finished then runtime
  else
    { runtime.requestCancel id with
      finishHandlers := Function.update runtime.finishHandlers id false }.finish id .cancelled reason

def onAbort (id : RecordId) : Runtime :=
  if (runtime.records id).finished then runtime else runtime.requestCancel id

def endRun (id : RecordId) (error : Option Text) : Runtime :=
  let status : TerminalStatus :=
    if (runtime.records id).cancelRequested then .cancelled
    else if error.isSome then .failed
    else .completed
  let message :=
    if (runtime.records id).cancelRequested then error.or (some "Subagent was cancelled.".toList)
    else error
  runtime.finish id status message

section Finish

variable {runtime : Runtime} (id : RecordId) (status : TerminalStatus) (error : Option Text)

@[simp] theorem finish_queued :
    (runtime.finish id status error).queuedBackground = runtime.queuedBackground := by
  simp only [finish]
  split <;> rfl

@[simp] theorem finish_running :
    (runtime.finish id status error).runningBackground = runtime.runningBackground := by
  simp only [finish]
  split <;> rfl

@[simp] theorem finish_runningIds :
    (runtime.finish id status error).runningBackgroundIds = runtime.runningBackgroundIds := by
  simp only [finish]
  split <;> rfl

@[simp] theorem finish_started : (runtime.finish id status error).started = runtime.started := by
  simp only [finish]
  split <;> rfl

@[simp] theorem finish_finished (other : RecordId) :
    ((runtime.finish id status error).records other).finished =
      (decide (other = id) || (runtime.records other).finished) := by
  simp only [finish, updateRecord]
  split
  next already =>
    by_cases same : other = id
    · subst same
      simp [already]
    · simp [same]
  next =>
    by_cases same : other = id
    · subst same
      simp
    · simp [same]

theorem finish_done (done : ∀ other, (runtime.records other).done = (runtime.records other).finished)
    (other : RecordId) :
    ((runtime.finish id status error).records other).done =
      ((runtime.finish id status error).records other).finished := by
  simp only [finish, updateRecord]
  split
  · exact done other
  · by_cases same : other = id
    · subst same
      simp
    · simpa [same] using done other

theorem finish_handled (already : (runtime.records id).finished = false) :
    (runtime.finish id status error).handled =
        (if runtime.finishHandlers id then runtime.handled ++ [(id, status)] else runtime.handled) ∧
      (runtime.finish id status error).finishHandlers =
        Function.update runtime.finishHandlers id false := by
  simp [finish, already]

theorem finish_finished_self (already : (runtime.records id).finished = true) :
    runtime.finish id status error = runtime := by
  simp [finish, already]

theorem finish_requeue (queue : List RecordId) :
    ({ runtime with queuedBackground := queue }).finish id status error =
      { runtime.finish id status error with queuedBackground := queue } := by
  simp only [finish, updateRecord]
  split <;> rfl

end Finish

end Runtime

end GrokPi.Subagents
