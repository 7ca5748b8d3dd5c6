import GrokPi.Shared.InsertionMap
import GrokPi.Shared.Runs
import GrokPi.Shared.Text

set_option autoImplicit false

namespace GrokPi.Bash

abbrev TaskId := Nat

abbrev ToolCallId := Text

inductive Settlement where
  | completed
  | backgrounded
  deriving DecidableEq

/-- `foreground` and `registered` are how far the tool call of the task has come, `logEnded`
that the callback of the flushed log has run. -/
structure BackgroundTask where
  toolCallId : ToolCallId
  command : Text
  output : Text
  exitCode : Option Int
  signal : Option Text
  completed : Bool
  backgrounded : Bool
  explicitlyKilled : Bool
  foregroundSettler : Bool
  promote : Bool
  foreground : Bool
  registered : Bool
  logEnded : Bool
  deriving DecidableEq

structure BashCompletionMessage where
  taskId : TaskId
  toolCallId : ToolCallId
  content : Text
  deriving DecidableEq

inductive KillOutcome where
  | taskNotFound
  | alreadyExited
  | killed
  deriving DecidableEq

/-- `settled`, `killResults` and `delivered` log how foreground calls ended, which tasks
`kill_task` answered to have killed and which messages the model was given. -/
structure BashSession where
  launched : TaskId → BackgroundTask
  nextTaskOrdinal : Nat
  tasks : InsertionMap ToolCallId TaskId
  agentRunning : Bool
  pendingBashCompletions : List BashCompletionMessage
  settled : TaskId → List Settlement
  killResults : List TaskId
  delivered : List BashCompletionMessage

def BackgroundTask.launch (toolCallId : ToolCallId) (command : Text) (backgrounded : Bool) :
    BackgroundTask :=
  { toolCallId := toolCallId
    command := command
    output := []
    exitCode := none
    signal := none
    completed := false
    backgrounded := backgrounded
    explicitlyKilled := false
    foregroundSettler := false
    promote := false
    foreground := !backgrounded
    registered := false
    logEnded := false }

def completedMessage (taskId : TaskId) (task : BackgroundTask) : BashCompletionMessage :=
  let failed := task.exitCode ≠ some 0 || task.signal.any fun signal => !signal.isEmpty
  let output := if task.output.isEmpty then "(no output)".toList else task.output
  let exitCode := match task.exitCode with
    | some code => (toString code).toList
    | none => "none".toList
  let signal := match task.signal with
    | some signal => if signal.isEmpty then [] else "; signal: ".toList ++ signal
    | none => []
  { taskId := taskId
    toolCallId := task.toolCallId
    content :=
      if task.explicitlyKilled then "Background Bash task cancelled: ".toList ++ task.command
      else if failed then
        "Background Bash task failed: ".toList ++ task.command ++ "\n\n".toList ++ output ++
          "\n\nExit code: ".toList ++ exitCode ++ signal
      else
        "Background Bash task completed: ".toList ++ task.command ++ "\n\n".toList ++ output ++
          "\n\nExit code: ".toList ++ exitCode }

namespace BashSession

variable (session : BashSession)

def start : BashSession :=
  { launched := fun _ => .launch [] [] false
    nextTaskOrdinal := 0
    tasks := []
    agentRunning := false
    pendingBashCompletions := []
    settled := fun _ => []
    killResults := []
    delivered := [] }

def setTask (id : TaskId) (change : BackgroundTask → BackgroundTask) : BashSession :=
  { session with
    launched := Function.update session.launched id (change (session.launched id)) }

def settle (id : TaskId) (outcome : Settlement) : BashSession :=
  { session.setTask id fun task => { task with foregroundSettler := false, promote := false } with
    settled := Function.update session.settled id (session.settled id ++ [outcome]) }

def notifyBashCompletion (message : BashCompletionMessage) : BashSession :=
  if session.agentRunning then
    { session with pendingBashCompletions := session.pendingBashCompletions ++ [message] }
  else { session with delivered := session.delivered ++ [message] }

def appendBashCompletions : BashSession :=
  { session with
    pendingBashCompletions := []
    delivered := session.delivered ++ session.pendingBashCompletions }

def startTask (toolCallId : ToolCallId) (command : Text) (backgrounded : Bool) : BashSession :=
  { session with
    launched := Function.update session.launched session.nextTaskOrdinal
      (.launch toolCallId command backgrounded)
    nextTaskOrdinal := session.nextTaskOrdinal + 1 }

def register (id : TaskId) : BashSession :=
  let task := session.launched id
  let known := { session with tasks := session.tasks.set task.toolCallId id }
  if task.foreground then
    let waiting := known.setTask id fun task =>
      { task with registered := true, foregroundSettler := true, promote := true }
    -- The child may have ended before the call could wait for it.
    if task.completed then waiting.settle id .completed else waiting
  else known.setTask id fun task => { task with registered := true }

def promote (id : TaskId) : BashSession :=
  let task := session.launched id
  if !task.promote || task.completed || task.backgrounded then session
  else (session.setTask id fun task => { task with backgrounded := true }).settle id .backgrounded

def finishTask (id : TaskId) (code : Option Int) (signal : Option Text) (output : Text) :
    BashSession :=
  if (session.launched id).completed then session
  else
    session.setTask id fun task =>
      { task with
        completed := true
        exitCode := code
        signal := task.signal <|> signal
        output := output }

def endLog (id : TaskId) : BashSession :=
  let task := session.launched id
  let told :=
    if task.backgrounded && !task.explicitlyKilled then
      session.notifyBashCompletion (completedMessage id task)
    else session
  let ended := told.setTask id fun task => { task with logEnded := true }
  if task.foregroundSettler then ended.settle id .completed else ended

def listed (id : TaskId) : Bool := session.tasks.any fun entry => entry.2 = id

def markKilled (id : TaskId) : BashSession :=
  session.setTask id fun task =>
    { task with explicitlyKilled := true, signal := some "killed".toList }

def killTask (id : TaskId) : BashSession × KillOutcome :=
  if !session.listed id then (session, .taskNotFound)
  else if (session.launched id).completed then (session, .alreadyExited)
  else ({ session.markKilled id with killResults := session.killResults ++ [id] }, .killed)

def controlKill (id : TaskId) : BashSession :=
  if !session.listed id || (session.launched id).completed then session else session.markKilled id

end BashSession

inductive BashEvent where
  | launched (toolCallId : ToolCallId) (command : Text) (backgrounded : Bool)
  | registered (id : TaskId)
  | timer (id : TaskId)
  | controlBackground (toolCallId : ToolCallId)
  | controlKill (id : TaskId)
  | killTask (id : TaskId)
  | timedOut (id : TaskId)
  | logFailed (id : TaskId) (message : Text)
  | childFailed (id : TaskId) (message : Text) (output : Text)
  | childClosed (id : TaskId) (code : Option Int) (signal : Option Text) (output : Text)
  | logEnded (id : TaskId)
  | returned (id : TaskId)
  | agentStart
  | turnEnd
  | agentBeforeSettle
  | agentSettled

namespace BashSession

def step (session : BashSession) : BashEvent → BashSession
  | .launched toolCallId command backgrounded =>
      session.startTask toolCallId command backgrounded
  | .registered id => session.register id
  | .timer id => session.promote id
  | .controlBackground toolCallId =>
      match session.tasks.get toolCallId with
      | some id => session.promote id
      | none => session
  | .controlKill id => session.controlKill id
  | .killTask id => (session.killTask id).1
  | .timedOut id =>
      if (session.launched id).completed then session
      else session.setTask id fun task => { task with signal := some "timeout".toList }
  | .logFailed id message =>
      session.setTask id fun task =>
        { task with signal := task.signal <|> some ("output_log_error:".toList ++ message) }
  | .childFailed id message output =>
      (session.setTask id fun task => { task with signal := some message }).finishTask id none none
        output
  | .childClosed id code signal output => session.finishTask id code signal output
  | .logEnded id => session.endLog id
  | .returned id =>
      if (session.launched id).backgrounded then session
      else { session with tasks := session.tasks.erase (session.launched id).toolCallId }
  | .agentStart => { session with agentRunning := true }
  | .turnEnd | .agentBeforeSettle => session.appendBashCompletions
  | .agentSettled => { session.appendBashCompletions with agentRunning := false }

/-- A call goes on once, and the log of an ended task is flushed once. -/
def Possible (session : BashSession) : BashEvent → Prop
  | .registered id =>
      id < session.nextTaskOrdinal ∧ (session.launched id).registered = false
  | .timer id | .timedOut id | .logFailed id _ | .childFailed id _ _ | .childClosed id _ _ _ =>
      id < session.nextTaskOrdinal
  | .logEnded id =>
      id < session.nextTaskOrdinal ∧ (session.launched id).completed = true ∧
        (session.launched id).logEnded = false
  | .returned id => session.settled id ≠ []
  | .launched _ _ _ | .controlBackground _ | .controlKill _ | .killTask _ | .agentStart | .turnEnd
  | .agentBeforeSettle | .agentSettled => True

instance possible_decidable (session : BashSession) : DecidablePred session.Possible
  | .registered _ | .logEnded _ => inferInstanceAs (Decidable (_ ∧ _))
  | .timer id | .timedOut id | .logFailed id _ | .childFailed id _ _ | .childClosed id _ _ _ =>
      inferInstanceAs (Decidable (id < session.nextTaskOrdinal))
  | .returned _ => inferInstanceAs (Decidable (_ ≠ _))
  | .launched _ _ _ | .controlBackground _ | .controlKill _ | .killTask _ | .agentStart | .turnEnd
  | .agentBeforeSettle | .agentSettled => inferInstanceAs (Decidable True)

end BashSession

end GrokPi.Bash
