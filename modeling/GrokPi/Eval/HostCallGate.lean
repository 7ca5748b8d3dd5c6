import Mathlib
import GrokPi.Shared.Runs

set_option autoImplicit false

namespace GrokPi.Eval

inductive HostCallExecutionMode where
  | parallel
  | sequential
deriving DecidableEq, Repr

structure Job where
  id : Nat
  mode : HostCallExecutionMode
  signal : Nat
deriving DecidableEq, Repr

structure QueuedJob where
  job : Job
  aborted : Bool
deriving DecidableEq, Repr

inductive Phase where
  | starting
  | working
  | ended
deriving DecidableEq, Repr

structure RunningJob where
  job : Job
  phase : Phase
deriving DecidableEq, Repr

inductive Outcome (Value : Type) where
  | result (value : Value)
  | aborted (signal : Nat)
deriving DecidableEq, Repr

/-- The race of a started job's work against its abort, until the caller hears of it. -/
structure Race (Value : Type) where
  id : Nat
  outcome : Option (Outcome Value)
deriving DecidableEq, Repr

/-- `queue`, `parallelRunning` and `sequentialRunning` are the fields of the gate.
The promises it created, the signals it listens to and the logs of what the outside
saw stand beside them. -/
structure HostCallGate (Value : Type) where
  parallelLimit : Nat
  queue : List QueuedJob
  parallelRunning : Nat
  sequentialRunning : Bool
  running : List RunningJob
  races : List (Race Value)
  abortedSignals : List Nat
  notifying : List Nat
  jobs : List Job
  invoked : List Nat
  finished : List Nat
  settled : List (Nat × Outcome Value)
deriving DecidableEq, Repr

variable {Value : Type}

namespace HostCallGate

def fresh (parallelLimit : Nat) : HostCallGate Value where
  parallelLimit := parallelLimit
  queue := []
  parallelRunning := 0
  sequentialRunning := false
  running := []
  races := []
  abortedSignals := []
  notifying := []
  jobs := []
  invoked := []
  finished := []
  settled := []

def start (gate : HostCallGate Value) (job : Job) : HostCallGate Value :=
  { gate with
    running := gate.running ++ [⟨job, .starting⟩]
    races := gate.races ++
      [⟨job.id, if job.signal ∈ gate.abortedSignals then some (.aborted job.signal) else none⟩] }

def pumpQueue (gate : HostCallGate Value) : List QueuedJob → HostCallGate Value
  | [] => { gate with queue := [] }
  | next :: rest =>
      if next.aborted then pumpQueue gate rest
      else match next.job.mode with
        | .sequential =>
            if gate.parallelRunning > 0 then { gate with queue := next :: rest }
            else start { gate with queue := rest, sequentialRunning := true } next.job
        | .parallel =>
            if gate.parallelRunning ≥ gate.parallelLimit then { gate with queue := next :: rest }
            else
              pumpQueue
                (start { gate with parallelRunning := gate.parallelRunning + 1 } next.job) rest

def pump (gate : HostCallGate Value) : HostCallGate Value :=
  if gate.sequentialRunning then gate else pumpQueue gate gate.queue

def submit (gate : HostCallGate Value) (mode : HostCallExecutionMode) (signal : Nat) :
    HostCallGate Value :=
  let job : Job := ⟨gate.jobs.length, mode, signal⟩
  let gate := { gate with jobs := gate.jobs ++ [job] }
  if signal ∈ gate.abortedSignals then
    { gate with settled := gate.settled ++ [(job.id, .aborted signal)] }
  else pump { gate with queue := gate.queue ++ [⟨job, false⟩] }

/-- A signal aborts once. Its listeners are the abort handlers of the queued and of the
started jobs; each of them is an event of its own. -/
def abort (gate : HostCallGate Value) (signal : Nat) : HostCallGate Value :=
  if signal ∈ gate.abortedSignals then gate
  else
    let listening := gate.queue.map (·.job) ++ gate.running.map (·.job)
    { gate with
      abortedSignals := signal :: gate.abortedSignals
      notifying := gate.notifying ++
        (listening.filter (fun job => job.signal = signal)).map (·.id) }

def decideRace (gate : HostCallGate Value) (id : Nat) (outcome : Outcome Value) :
    HostCallGate Value :=
  { gate with
    races := gate.races.map fun race =>
      if race.id = id ∧ race.outcome = none then { race with outcome := some outcome } else race }

def markAborted (id : Nat) (queue : List QueuedJob) : List QueuedJob :=
  queue.map fun queued => if queued.job.id = id then { queued with aborted := true } else queued

/-- One abort listener. Listeners of one signal are called in any order and with other
events between them, which covers listeners that call back into the gate. -/
def notify (gate : HostCallGate Value) (id : Nat) : HostCallGate Value :=
  if id ∈ gate.notifying then
    let gate := { gate with notifying := gate.notifying.erase id }
    match gate.queue.find? (fun queued => queued.job.id = id ∧ queued.aborted = false) with
    | some queued =>
        pump { gate with
               queue := markAborted id gate.queue
               settled := gate.settled ++ [(id, .aborted queued.job.signal)] }
    | none =>
        match gate.running.find? (fun entry => entry.job.id = id) with
        | some entry => decideRace gate id (.aborted entry.job.signal)
        | none => gate
  else gate

def setPhase (gate : HostCallGate Value) (id : Nat) (phase : Phase) : HostCallGate Value :=
  { gate with
    running := gate.running.map fun entry =>
      if entry.job.id = id then { entry with phase := phase } else entry }

/-- The microtask of `Promise.resolve().then`. Microtasks run in the order they were
scheduled, so it belongs to the oldest job that is still starting. -/
def begin (gate : HostCallGate Value) : HostCallGate Value :=
  match gate.running.find? (fun entry => entry.phase = .starting) with
  | none => gate
  | some entry =>
      if entry.job.signal ∈ gate.abortedSignals then
        decideRace (setPhase gate entry.job.id .ended) entry.job.id (.aborted entry.job.signal)
      else
        let gate := setPhase gate entry.job.id .working
        { gate with invoked := gate.invoked ++ [entry.job.id] }

def finish (gate : HostCallGate Value) (id : Nat) (value : Value) : HostCallGate Value :=
  match gate.running.find? (fun entry => entry.job.id = id ∧ entry.phase = .working) with
  | none => gate
  | some _ =>
      let gate := { gate with finished := gate.finished ++ [id] }
      decideRace (setPhase gate id .ended) id (.result value)

def isEnded (id : Nat) (entry : RunningJob) : Bool :=
  entry.job.id = id ∧ entry.phase = .ended

def release (gate : HostCallGate Value) (id : Nat) : HostCallGate Value :=
  match gate.running.find? (isEnded id) with
  | none => gate
  | some entry =>
      let gate := { gate with running := gate.running.eraseP (isEnded id) }
      match entry.job.mode with
      | .parallel => pump { gate with parallelRunning := gate.parallelRunning - 1 }
      | .sequential => pump { gate with sequentialRunning := false }

def settle (gate : HostCallGate Value) (id : Nat) : HostCallGate Value :=
  match gate.races.find? (fun race => race.id = id) with
  | some ⟨_, some outcome⟩ =>
      { gate with
        races := gate.races.eraseP (fun race => race.id = id)
        settled := gate.settled ++ [(id, outcome)] }
  | _ => gate

end HostCallGate

/-- What happens around the gate. An event that nothing has scheduled changes nothing. -/
inductive GateEvent (Value : Type) where
  | run (mode : HostCallExecutionMode) (signal : Nat)
  | abort (signal : Nat)
  | notify (id : Nat)
  | begin
  | finish (id : Nat) (value : Value)
  | release (id : Nat)
  | settle (id : Nat)
deriving Repr

def gateStep (gate : HostCallGate Value) : GateEvent Value → HostCallGate Value
  | .run mode signal => gate.submit mode signal
  | .abort signal => gate.abort signal
  | .notify id => gate.notify id
  | .begin => gate.begin
  | .finish id value => gate.finish id value
  | .release id => gate.release id
  | .settle id => gate.settle id

end GrokPi.Eval
