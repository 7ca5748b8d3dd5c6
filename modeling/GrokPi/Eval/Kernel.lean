import Mathlib
import GrokPi.Eval.Protocol
import GrokPi.Shared.Runs

set_option autoImplicit false

namespace GrokPi.Eval

structure Sourced (α : Type) where
  worker : Nat
  value : α
deriving DecidableEq, Repr

def AllFrom {α : Type} (worker : Nat) (items : List (Sourced α)) : Prop :=
  ∀ item ∈ items, item.worker = worker

def tagged {α : Type} (worker : Nat) (values : List α) : List (Sourced α) :=
  values.map fun value => ⟨worker, value⟩

inductive EvalVersion where
  | v1
  | v2
deriving DecidableEq, Repr

structure KernelConfig where
  version : EvalVersion
  hostCall : Bool
  maxOutputBytes : Nat
deriving DecidableEq, Repr

structure EvalDisplayImage where
  data : Text
  mimeType : Text
deriving DecidableEq, Repr

inductive ResetError where
  | timedOut
  | aborted
  | sessionShutdown
  | encoding
  | writing
  | spawning
  | invalidReply
  | exited
deriving DecidableEq, Repr

structure PendingEval where
  call : Nat
  id : Text
  worker : Nat
  output : List (Sourced UInt8)
  readImages : List (Sourced EvalDisplayImage)
  toolCalls : Nat
  truncated : Bool
  timer : Bool
  outerSignal : Bool
deriving DecidableEq, Repr

/-- How an `execute` promise settles. The display images of a result are read off the
reply; `cause` names the workers whose bytes or errors led to a rejection. -/
inductive CellOutcome where
  | resolved (output : List (Sourced UInt8)) (readImages : List (Sourced EvalDisplayImage))
      (reply : List (Sourced Char)) (toolCalls : Nat) (truncated : Bool)
  | failed (output : List (Sourced UInt8)) (reply : List (Sourced Char))
  | rejected (error : ResetError) (cause : List Nat) (stderrTail : List (Sourced UInt8))
  | refused (message : String)
deriving DecidableEq, Repr

structure Settlement where
  call : Nat
  outcome : CellOutcome
deriving DecidableEq, Repr

structure HostCall where
  cell : Nat
  line : List (Sourced Char)
  reads : Bool
deriving DecidableEq, Repr

structure HostReply where
  worker : Nat
  line : List (Sourced Char)
  ok : Bool
deriving DecidableEq, Repr

/-- `spawned`, `calls` and `started` count the workers, the `execute` calls and the
cells; `hostCalls` are the host calls that have not ended. -/
structure Kernel where
  child : Option Nat
  cwd : Option Text
  protocolBuffer : List (Sourced Char)
  pending : Option PendingEval
  spawned : Nat
  calls : Nat
  started : List (Nat × Nat)
  hostCalls : List HostCall
  replies : List HostReply
  settled : List Settlement
deriving DecidableEq, Repr

def Kernel.fresh : Kernel where
  child := none
  cwd := none
  protocolBuffer := []
  pending := none
  spawned := 0
  calls := 0
  started := []
  hostCalls := []
  replies := []
  settled := []

structure ExecuteRequest where
  id : Text
  cwd : Text
  timeoutMillis : Int
  signal : Option Bool
  reset : Bool
  pipes : Bool
  encodes : Bool
deriving DecidableEq, Repr

def maxTimeoutMillis : Int := 2147483647

namespace Kernel

def settle (kernel : Kernel) (call : Nat) (outcome : CellOutcome) : Kernel :=
  { kernel with settled := kernel.settled ++ [⟨call, outcome⟩] }

def resetKernel (kernel : Kernel) (error : ResetError) (cause : List Nat) : Kernel :=
  let stopped : Kernel :=
    { kernel with child := none, cwd := none, protocolBuffer := [], pending := none }
  match kernel.pending with
  | none => stopped
  | some cell => stopped.settle cell.call (.rejected error cause [])

def resetSilently (kernel : Kernel) : Kernel :=
  { kernel with child := none, cwd := none, protocolBuffer := [], pending := none }

def ensureStarted (kernel : Kernel) (cwd : Text) (pipes : Bool) : Option Kernel :=
  match kernel.child with
  | some _ => some kernel
  | none =>
      if pipes then
        some { kernel with
               child := some kernel.spawned
               cwd := some cwd
               protocolBuffer := []
               spawned := kernel.spawned + 1 }
      else none

def execute (kernel : Kernel) (request : ExecuteRequest) : Kernel :=
  let call := kernel.calls
  let kernel := { kernel with calls := call + 1 }
  if request.timeoutMillis < 0 ∨ maxTimeoutMillis < request.timeoutMillis then
    kernel.settle call (.refused "Invalid eval timeout")
  else if kernel.pending.isSome then
    kernel.settle call (.refused "kernel is already executing a cell")
  else
    let kernel :=
      if request.reset ∨ (kernel.cwd.isSome ∧ kernel.cwd ≠ some request.cwd)
      then kernel.resetSilently else kernel
    match kernel.ensureStarted request.cwd request.pipes with
    | none => kernel.settle call (.refused "Failed to start eval kernel pipes")
    | some kernel =>
        if request.signal = some true then
          kernel.resetSilently.settle call (.refused "aborted")
        else
          match kernel.child with
          | none => kernel
          | some worker =>
              let cell : PendingEval :=
                { call := call
                  id := request.id
                  worker := worker
                  output := []
                  readImages := []
                  toolCalls := 0
                  truncated := false
                  timer := 0 < request.timeoutMillis
                  outerSignal := request.signal.isSome }
              let kernel :=
                { kernel with
                  pending := some cell
                  started := kernel.started ++ [(call, worker)] }
              if request.encodes then kernel else kernel.resetKernel .encoding []

def appendOutput (config : KernelConfig) (kernel : Kernel) (chunk : List (Sourced UInt8)) :
    Kernel :=
  match kernel.pending with
  | none => kernel
  | some cell =>
      let joined := cell.output ++ chunk
      if joined.length > config.maxOutputBytes then
        { kernel with
          pending := some { cell with
                            output := joined.drop (joined.length - config.maxOutputBytes)
                            truncated := true } }
      else { kernel with pending := some { cell with output := joined } }

def writeReply (kernel : Kernel) (line : List (Sourced Char)) (ok : Bool) : Kernel :=
  match kernel.child with
  | none => kernel
  | some worker => { kernel with replies := kernel.replies ++ [⟨worker, line, ok⟩] }

def textField (message : Json) (name : String) : Option Text :=
  (message.get name.toList).bind Json.asText

def handleHostCall (config : KernelConfig) (kernel : Kernel) (line : List (Sourced Char))
    (call : Json) : Kernel :=
  match kernel.pending with
  | none => kernel.writeReply line false
  | some cell =>
      if textField call "evalId" ≠ some cell.id then kernel.writeReply line false
      else if !config.hostCall then kernel.writeReply line false
      else
        let tool := textField call "method" = some "tool".toList
        let reads := tool ∧ textField call "tool" = some "read".toList
        { kernel with
          pending := some { cell with
                            toolCalls := if tool then cell.toolCalls + 1 else cell.toolCalls }
          hostCalls := kernel.hostCalls ++ [⟨cell.call, line, reads⟩] }

def handleEvalResult (kernel : Kernel) (line : List (Sourced Char)) (reply : Json) : Kernel :=
  match kernel.pending with
  | none => kernel
  | some cell =>
      if textField reply "id" ≠ some cell.id then kernel
      else
        let taken := { kernel with pending := none }
        if (reply.get "ok".toList).bind Json.asBool = some true then
          taken.settle cell.call
            (.resolved cell.output cell.readImages line cell.toolCalls cell.truncated)
        else taken.settle cell.call (.failed cell.output line)

def lineText (line : List (Sourced Char)) : Text := line.map (·.value)

def handleProtocolMessage (config : KernelConfig) (kernel : Kernel) (line : List (Sourced Char)) :
    Kernel :=
  match Json.parse (lineText line) with
  | none => kernel.resetKernel .invalidReply (line.map (·.worker))
  | some message =>
      if config.version = .v2 ∧ textField message "type" = some "host_call".toList then
        handleHostCall config kernel line message
      else handleEvalResult kernel line message

def cutLine : List (Sourced Char) → Option (List (Sourced Char) × List (Sourced Char))
  | [] => none
  | c :: rest =>
      if c.value = '\n' then some ([], rest)
      else (cutLine rest).map fun found => (c :: found.1, found.2)

-- A line takes its newline from the buffer and no handler adds to it.
def cutLines (config : KernelConfig) : Nat → Kernel → Kernel
  | 0, kernel => kernel
  | fuel + 1, kernel =>
      match cutLine kernel.protocolBuffer with
      | none => kernel
      | some (line, rest) =>
          let kernel := { kernel with protocolBuffer := rest }
          cutLines config fuel
            (if (trimmed (lineText line)).isEmpty then kernel
              else handleProtocolMessage config kernel line)

/-- The handler of the protocol pipe. It looks at no worker. -/
def consumeProtocol (config : KernelConfig) (kernel : Kernel) (worker : Nat)
    (chunk : List UInt8) : Kernel :=
  let added := tagged worker (Text.fromUtf8Lossy chunk)
  let kernel := { kernel with protocolBuffer := kernel.protocolBuffer ++ added }
  cutLines config kernel.protocolBuffer.length kernel

def utf16Length (text : Text) : Nat :=
  (text.map fun c => if c.toNat < 0x10000 then 1 else 2).sum

/-- The images a `read` tool returned, up to the room that is left for them. They come
from the worker that called the tool. -/
def pushImages (cell : PendingEval) (line : List (Sourced Char)) (images : List EvalDisplayImage) :
    PendingEval :=
  let source := (line.head?.map (·.worker)).getD cell.worker
  let kept := images.filter fun image =>
    "image/".toList.isPrefixOf image.mimeType && utf16Length image.data ≤ 22369624
  { cell with
    readImages := cell.readImages ++ tagged source (kept.take (16 - cell.readImages.length)) }

def endHostCall (kernel : Kernel) (index : Nat) (ok encodes : Bool)
    (images : List EvalDisplayImage) : Kernel :=
  match kernel.hostCalls[index]? with
  | none => kernel
  | some call =>
      let kernel := { kernel with hostCalls := kernel.hostCalls.eraseIdx index }
      match kernel.pending with
      | none => kernel
      | some cell =>
          if cell.call ≠ call.cell then kernel
          else if !ok then kernel.writeReply call.line false
          else
            let cell := if call.reads then pushImages cell call.line images else cell
            let kernel := { kernel with pending := some cell }
            if encodes then kernel.writeReply call.line true
            else kernel.resetKernel .encoding []

def workerClosed (kernel : Kernel) (worker : Nat) : Kernel :=
  if kernel.child ≠ some worker then kernel
  else
    let stopped := kernel.resetSilently
    match kernel.pending with
    | none => stopped
    | some cell => stopped.settle cell.call (.rejected .exited [worker] cell.output)

end Kernel

/-- What reaches the kernel. Pipe data and write errors may come from any worker that was
ever spawned. -/
inductive KernelEvent where
  | execute (request : ExecuteRequest)
  | timeout
  | abort
  | close
  | output (worker : Nat) (bytes : List UInt8)
  | protocol (worker : Nat) (chunk : List UInt8)
  | writeFailed (worker : Nat)
  | workerError (worker : Nat)
  | workerClosed (worker : Nat)
  | hostCallEnded (index : Nat) (ok encodes : Bool) (images : List EvalDisplayImage)
deriving DecidableEq, Repr

open Kernel

def kernelStep (config : KernelConfig) (kernel : Kernel) : KernelEvent → Kernel
  | .execute request => kernel.execute request
  | .timeout =>
      if kernel.pending.any (·.timer) then kernel.resetKernel .timedOut [] else kernel
  | .abort =>
      if kernel.pending.any (·.outerSignal) then kernel.resetKernel .aborted [] else kernel
  | .close => kernel.resetKernel .sessionShutdown []
  | .output worker bytes => kernel.appendOutput config (tagged worker bytes)
  | .protocol worker chunk => kernel.consumeProtocol config worker chunk
  | .writeFailed worker => kernel.resetKernel .writing [worker]
  | .workerError worker =>
      if kernel.child = some worker then kernel.resetKernel .spawning [worker] else kernel
  | .workerClosed worker => kernel.workerClosed worker
  | .hostCallEnded index ok encodes images => kernel.endHostCall index ok encodes images

end GrokPi.Eval
