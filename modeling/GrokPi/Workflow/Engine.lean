import GrokPi.Shared.Replay
import GrokPi.Workflow.Journal

set_option autoImplicit false

namespace GrokPi.Workflow

def maxParallel : Nat := 1024

structure AgentOpts where
  prompt : Text
  label : Option Text
  model : Option Text
  effort : Option Text
  maxOutputTokens : Option Nat
  agentType : Option Text
  capabilityMode : Option Text
  isolationWorktree : Bool
  forkContext : Bool
  resumeFrom : Option Text
  outputSchema : Option Json
  phase : Option Text

structure AgentResult where
  agentId : Text
  success : Bool
  output : Json
  cancelled : Bool
  tokensUsed : Nat
  durationMs : Nat

structure BudgetState where
  total : Option Nat
  spent : Nat
  reserved : Nat
  remaining : Option Nat

inductive HostError where
  | agentCallQuotaExceeded (requested maximum : Nat)
  | budgetExceeded
  | cancelled
  | unsupported (message : Text)
  | failed (message : Text)

section Payloads

def optional {α : Type} (json : α → Json) : Option α → Json
  | none => .null
  | some value => json value

def number (n : Nat) : Json := .number (.ofNat n)

def AgentOpts.toJson (opts : AgentOpts) : Json :=
  .object <|
    [("prompt".toList, .string opts.prompt),
      ("label".toList, optional .string opts.label),
      ("model".toList, optional .string opts.model)] ++
    (match opts.effort with
    | some effort => [("effort".toList, .string effort)]
    | none => []) ++
    [("max_output_tokens".toList, optional number opts.maxOutputTokens),
      ("agent_type".toList, optional .string opts.agentType),
      ("capability_mode".toList, optional .string opts.capabilityMode),
      ("isolation_worktree".toList, .bool opts.isolationWorktree),
      ("fork_context".toList, .bool opts.forkContext),
      ("resume_from".toList, optional .string opts.resumeFrom),
      ("output_schema".toList, optional id opts.outputSchema),
      ("phase".toList, optional .string opts.phase)]

def AgentResult.toJson (result : AgentResult) : Json :=
  .object
    [("agent_id".toList, .string result.agentId),
      ("success".toList, .bool result.success),
      ("output".toList, result.output),
      ("cancelled".toList, .bool result.cancelled),
      ("tokens_used".toList, number result.tokensUsed),
      ("duration_ms".toList, number result.durationMs)]

def BudgetState.toJson (state : BudgetState) : Json :=
  .object
    [("total".toList, optional number state.total),
      ("spent".toList, number state.spent),
      ("reserved".toList, number state.reserved),
      ("remaining".toList, optional number state.remaining)]

end Payloads

section Requests

inductive HostCall where
  | spawnAgent (opts : AgentOpts)
  | budget
  | renderTemplate (name : Text) (vars : Json)
  | writeScratchFile (name content : Text)
  | readScratchFile (name : Text)
  | gitDiffSince (commit : Text)

namespace HostCall

def kind : HostCall → Text
  | .spawnAgent _ => "spawn_agent".toList
  | .budget => "budget".toList
  | .renderTemplate _ _ => "render_template".toList
  | .writeScratchFile _ _ => "write_scratch_file".toList
  | .readScratchFile _ => "read_scratch_file".toList
  | .gitDiffSince _ => "git_diff_since".toList

def payload : HostCall → Json
  | .spawnAgent opts => opts.toJson
  | .budget => .null
  | .renderTemplate name vars => .object [("name".toList, .string name), ("vars".toList, vars)]
  | .writeScratchFile name content =>
      .object [("name".toList, .string name), ("content".toList, .string content)]
  | .readScratchFile name => .object [("name".toList, .string name)]
  | .gitDiffSince commit => .object [("commit".toList, .string commit)]

@[reducible] def Result : HostCall → Type
  | .spawnAgent _ => AgentResult
  | .budget => BudgetState
  | .renderTemplate _ _ | .writeScratchFile _ _ | .readScratchFile _ | .gitDiffSince _ => Text

def toResult : (call : HostCall) → call.Result → Json
  | .spawnAgent _, result => AgentResult.toJson result
  | .budget, state => BudgetState.toJson state
  | .renderTemplate _ _, text => .string text
  | .writeScratchFile _ _, text => .string text
  | .readScratchFile _, text => .string text
  | .gitDiffSince _, text => .string text

end HostCall

inductive HostRequest where
  | reserveAgentCalls (count : Nat)
  | releaseAgentCalls (count : Nat)
  | host (call : HostCall)

@[reducible] def HostRequest.Result : HostRequest → Type
  | .reserveAgentCalls _ | .releaseAgentCalls _ => Unit
  | .host call => call.Result

/-- What comes of a request: the host may also drop the channel for the reply. -/
inductive Reply (α : Type) where
  | value (value : α)
  | error (error : HostError)
  | dropped

/-- What the engine has from elsewhere: the digest of a request, and the values of the script language. -/
structure Externals where
  requestHash : Text → Json → Text
  valueToDynamic : Json → Except Text Json

/-- A host answers by what it was sent so far, each request with the calls it is for. -/
structure Host where
  reply : List (List Nat × HostRequest) → (request : HostRequest) → Reply request.Result
  clock : Nat → Nat

end Requests

inductive PauseKind where
  | user
  | backOff
  | noProgress
  | verification
  | infra
  deriving DecidableEq

def PauseKind.parse (text : Text) : Except Text PauseKind :=
  if text = "user".toList then .ok .user
  else if text = "back_off".toList ∨ text = "backoff".toList then .ok .backOff
  else if text = "no_progress".toList then .ok .noProgress
  else if text = "verification".toList ∨ text = "blocked".toList then .ok .verification
  else if text = "infra".toList then .ok .infra
  else .error ("unknown pause kind: ".toList ++ text)

inductive FatalReason where
  | journal (error : JournalError)
  | message (text : Text)

inductive ControlToken where
  | budget (message : Text)
  | cancelled
  | pause (kind : PauseKind) (message : Text)
  | fatal (reason : FatalReason)

/-- A script may catch a runtime error, and no token. -/
inductive Thrown where
  | runtime (message : Text)
  | terminated (token : ControlToken)

inductive Call where
  | host (call : HostCall)
  | parallel (items : List AgentOpts)
  | awaitUser (kind message : Text)

/-- What one call of the host comes to, in a batch also a token for all of it. -/
inductive Answer where
  | value (value : Json)
  | error (message : Text)
  | terminal (kind : Text)

def Answer.value? : Answer → Option Json
  | .value json => some json
  | _ => none

def Answer.error? : Answer → Option Text
  | .error message => some message
  | _ => none

def Answer.terminal? : Answer → Option Text
  | .terminal kind => some kind
  | _ => none

abbrev Tape := Replay.Tape Call JournalEntry Answer HostRequest

section Sentinels

def hostTerminalKey : Text := "__xai_workflow_parallel_terminal".toList

def terminalBudget : Text := "budget_exceeded".toList

def terminalCancelled : Text := "cancelled".toList

def terminalDroppedReply : Text := "dropped_reply".toList

def hostErrorSentinel (message : Text) : Json := .object [(hostErrorKey, .string message)]

def replayHostError (recorded : Json) : Option Text := (recorded.get hostErrorKey).bind Json.asText

def hostTerminalSentinel (kind : Text) : Json := .object [(hostTerminalKey, .string kind)]

def droppedReply : ControlToken := .fatal (.message "workflow host dropped reply".toList)

def budgetExceeded : ControlToken := .budget "workflow agent budget exceeded".toList

def hostTerminalError (kind : Text) : ControlToken :=
  if kind = terminalBudget then budgetExceeded
  else if kind = terminalCancelled then .cancelled
  else if kind = terminalDroppedReply then droppedReply
  else .fatal (.message "workflow journal contains an unknown terminal marker".toList)

def replayTerminal (recorded : Json) : Option Text :=
  (recorded.get hostTerminalKey).map fun kind => kind.asText.getD "unknown".toList

def answerOf (recorded : Json) : Answer :=
  match replayTerminal recorded with
  | some kind => .terminal kind
  | none =>
      match replayHostError recorded with
      | some message => .error message
      | none => .value recorded

end Sentinels

section Replaying

def Journal.replay (entries : List JournalEntry) (seq : Nat) (kind reqHash : Text) :
    Except JournalError (Option Json) :=
  match entries[seq]? with
  | none => .ok none
  | some entry =>
      if entry.seq ≠ seq ∨ entry.kind ≠ kind ∨ entry.reqHash ≠ reqHash then .error (.divergence seq kind)
      else .ok (some entry.result)

variable (ext : Externals)

def legacyPayload : Json → Option Json
  | .object members =>
      if members.any fun member => member.1 = "effort".toList then
        some (.object (members.filter fun member => member.1 ≠ "effort".toList))
      else none
  | _ => none

def replaySpawnAgent (entries : List JournalEntry) (seq : Nat) (payload : Json) (hash : Text) :
    Except JournalError (Option Json) :=
  match Journal.replay entries seq "spawn_agent".toList hash with
  | .ok (some recorded) => .ok (some recorded)
  | normal =>
      match legacyPayload payload with
      | none => normal
      | some legacy =>
          Journal.replay entries seq "spawn_agent".toList (ext.requestHash "spawn_agent".toList legacy)

def HostCall.hash (call : HostCall) : Text := ext.requestHash call.kind call.payload

def awaitHash (kind message : Text) : Text :=
  ext.requestHash "await_user".toList
    (.object [("kind".toList, .string kind), ("message".toList, .string message)])

def HostCall.replay (call : HostCall) (entries : List JournalEntry) (seq : Nat) :
    Except JournalError (Option Json) :=
  match call with
  | .spawnAgent opts => replaySpawnAgent ext entries seq opts.toJson (call.hash ext)
  | call => Journal.replay entries seq call.kind (call.hash ext)

end Replaying

section Calls

variable (ext : Externals) (host : Host)

def nextSeq (tape : Tape) : Except ControlToken (Nat × Tape) :=
  if maxHostCalls < tape.seq + 1 then
    .error (.fatal (.message ("workflow exceeded the maximum of ".toList ++
      Nat.toDigits 10 maxHostCalls ++ " result-bearing host calls".toList)))
  else .ok (tape.seq, { tape with seq := tape.seq + 1 })

def ask (seqs : List Nat) (request : HostRequest) (tape : Tape) : Reply request.Result × Tape :=
  (host.reply tape.sent request, { tape with sent := tape.sent ++ [(seqs, request)] })

def answer (seq : Nat) (answer : Answer) (tape : Tape) : Tape :=
  { tape with answers := tape.answers ++ [(seq, answer)] }

def refuse (tape : Tape) : Tape := { tape with heard := tape.heard ++ [.refused] }

def record (seq : Nat) (kind hash : Text) (value : Json) (tape : Tape) : Except ControlToken Unit × Tape :=
  let entry : JournalEntry := { seq, kind, reqHash := hash, result := value, atMs := host.clock seq }
  let tape := { tape with heard := tape.heard ++ [.journal] }
  match Journal.validateSequence tape.journal entry with
  | .error error => (.error (.fatal (.journal error)), tape)
  | .ok () => (.ok (), { tape with journal := tape.journal ++ [entry] })

def quotaMessage (what : Text) (requested maximum : Nat) : Text :=
  what ++ " exceeded: requested ".toList ++ Nat.toDigits 10 requested ++ ", maximum ".toList ++
    Nat.toDigits 10 maximum

/-- Returns what a call that is recorded as `value` returns, once it is. -/
def recordAnswer (seq : Nat) (kind hash : Text) (value : Json) (result : Except Thrown Json) (given : Answer)
    (tape : Tape) : Except Thrown Json × Tape :=
  match record host seq kind hash value tape with
  | (.error token, tape) => (.error (.terminated token), tape)
  | (.ok (), tape) => (result, answer seq given tape)

def hostCall (call : HostCall) (tape : Tape) : Except Thrown Json × Tape :=
  match nextSeq tape with
  | .error token => (.error (.terminated token), tape)
  | .ok (seq, tape) =>
      match call.replay ext tape.journal seq with
      | .error error => (.error (.terminated (.fatal (.journal error))), tape)
      | .ok (some recorded) =>
          match replayHostError recorded with
          | some message => (.error (.runtime message), answer seq (.error message) tape)
          | none => (.ok recorded, answer seq (.value recorded) tape)
      | .ok none =>
          let (reply, tape) := ask host [seq] (.host call) tape
          match reply with
          | .dropped => (.error (.terminated droppedReply), tape)
          | .error (.agentCallQuotaExceeded requested maximum) =>
              -- the sequence number stays used, and nothing is recorded for it
              let message := quotaMessage "workflow agent-call quota".toList requested maximum
              (.error (.runtime message), refuse (answer seq (.error message) tape))
          | .error .budgetExceeded => (.error (.terminated budgetExceeded), tape)
          | .error .cancelled => (.error (.terminated .cancelled), tape)
          | .error (.unsupported message) | .error (.failed message) =>
              recordAnswer host seq call.kind (call.hash ext) (hostErrorSentinel message)
                (.error (.runtime message)) (.error message) tape
          | .value result =>
              let value := call.toResult result
              recordAnswer host seq call.kind (call.hash ext) value (.ok value) (.value value) tape

def reserveAgentCalls (seqs : List Nat) (tape : Tape) : Except Thrown Unit × Tape :=
  if seqs.isEmpty then (.ok (), tape)
  else
    let (reply, tape) := ask host seqs (.reserveAgentCalls seqs.length) tape
    match reply with
    | .value _ => (.ok (), tape)
    | .dropped => (.error (.terminated droppedReply), tape)
    | .error (.agentCallQuotaExceeded requested maximum) =>
        (.error (.terminated (.budget (quotaMessage "workflow agent budget".toList requested maximum))), tape)
    | .error .cancelled => (.error (.terminated .cancelled), tape)
    | .error .budgetExceeded => (.error (.terminated budgetExceeded), tape)
    | .error (.unsupported message) | .error (.failed message) => (.error (.runtime message), refuse tape)

def releaseAgentCalls (seqs : List Nat) (tape : Tape) : Tape :=
  if seqs.isEmpty then tape else (ask host seqs (.releaseAgentCalls seqs.length) tape).2

def isResumableUnjournaledTerminal : Thrown → Bool
  | .terminated .cancelled => true
  | .terminated (.budget _) => true
  | _ => false

def toDynamic (value : Json) : Except Thrown Json := (ext.valueToDynamic value).mapError .runtime

def spawnAgentCall (opts : AgentOpts) (tape : Tape) : Except Thrown Json × Tape :=
  let seq := tape.seq
  match HostCall.replay ext (.spawnAgent opts) tape.journal seq with
  | .error error => (.error (.terminated (.fatal (.journal error))), tape)
  | .ok found =>
      let live := if found.isNone then [seq] else []
      match reserveAgentCalls host live tape with
      | (.error thrown, tape) => (.error thrown, tape)
      | (.ok (), tape) =>
          match hostCall ext host (.spawnAgent opts) tape with
          | (.ok value, tape) => (toDynamic ext value, tape)
          | (.error thrown, tape) =>
              if isResumableUnjournaledTerminal thrown then
                (.error thrown, releaseAgentCalls host live tape)
              else (.error thrown, tape)

def valueCall (call : HostCall) (tape : Tape) : Except Thrown Json × Tape :=
  match hostCall ext host call tape with
  | (.ok value, tape) => (toDynamic ext value, tape)
  | (.error thrown, tape) => (.error thrown, tape)

def awaitUser (kind message : Text) (tape : Tape) : Except Thrown Json × Tape :=
  match PauseKind.parse kind with
  | .error error => (.error (.runtime error), tape)
  | .ok parsed =>
      let hash := awaitHash ext kind message
      match nextSeq tape with
      | .error token => (.error (.terminated token), tape)
      | .ok (seq, tape) =>
          match Journal.replay tape.journal seq "await_user".toList hash with
          | .ok (some _) => (.ok .null, answer seq (.value .null) tape)
          | .error error => (.error (.terminated (.fatal (.journal error))), tape)
          | .ok none =>
              match record host seq "await_user".toList hash .null tape with
              | (.error token, tape) => (.error (.terminated token), tape)
              | (.ok (), tape) => (.error (.terminated (.pause parsed message)), tape)

end Calls

section Parallel

variable (ext : Externals) (host : Host)

inductive PendingAgent where
  | replayed (seq : Nat) (value : Json)
  | live (seq : Nat) (hash : Text) (reply : Reply AgentResult)

def liveSeqs (journal : List JournalEntry) : Nat → List AgentOpts → Except JournalError (List Nat)
  | _, [] => .ok []
  | seq, opts :: rest =>
      match HostCall.replay ext (.spawnAgent opts) journal seq with
      | .error error => .error error
      | .ok found => (liveSeqs journal (seq + 1) rest).map fun seqs => if found.isNone then seq :: seqs else seqs

def issue : List AgentOpts → Tape → Except ControlToken (List PendingAgent) × Tape
  | [], tape => (.ok [], tape)
  | opts :: rest, tape =>
      match nextSeq tape with
      | .error token => (.error token, tape)
      | .ok (seq, tape) =>
          match HostCall.replay ext (.spawnAgent opts) tape.journal seq with
          | .error error => (.error (.fatal (.journal error)), tape)
          | .ok (some value) =>
              let (pending, tape) := issue rest tape
              (pending.map (.replayed seq value :: ·), tape)
          | .ok none =>
              let (reply, tape) := ask host [seq] (.host (.spawnAgent opts)) tape
              let (pending, tape) := issue rest tape
              (pending.map (.live seq (HostCall.hash ext (.spawnAgent opts)) reply :: ·), tape)

structure Resolved where
  seq : Nat
  answer : Answer
  live : Option (Text × Json)

def resolve : PendingAgent → Resolved
  | .replayed seq value => { seq, answer := answerOf value, live := none }
  | .live seq hash reply =>
      let terminal (kind : Text) : Resolved :=
        { seq, answer := .terminal kind, live := some (hash, hostTerminalSentinel kind) }
      match reply with
      | .value result => { seq, answer := .value result.toJson, live := some (hash, result.toJson) }
      | .error .budgetExceeded => terminal terminalBudget
      | .error .cancelled => terminal terminalCancelled
      | .dropped => terminal terminalDroppedReply
      | .error (.agentCallQuotaExceeded _ _) | .error (.unsupported _) | .error (.failed _) =>
          { seq, answer := .value .null, live := some (hash, .null) }

def Answer.resumable : Answer → Bool
  | .terminal kind => kind = terminalBudget || kind = terminalCancelled
  | _ => false

def recordAll : List Resolved → Tape → Option ControlToken × Tape
  | [], tape => (none, tape)
  | item :: rest, tape =>
      match item.live with
      | none => recordAll rest tape
      | some (hash, value) =>
          match record host item.seq "spawn_agent".toList hash value tape with
          | (.error token, tape) => (some token, tape)
          | (.ok (), tape) => recordAll rest tape

def conclude (answers : List Answer) (recordError : Option ControlToken) : Except Thrown Json :=
  match answers.findSome? Answer.terminal? with
  | some kind => .error (.terminated (hostTerminalError kind))
  | none =>
      match answers.findSome? Answer.error? with
      | some message => .error (.runtime message)
      | none =>
          match recordError with
          | some token => .error (.terminated token)
          | none => ((answers.filterMap Answer.value?).mapM (toDynamic ext)).map .array

def tooManyItems (count : Nat) : Text :=
  "parallel() accepts at most ".toList ++ Nat.toDigits 10 maxParallel ++ " items per call (got ".toList ++
    Nat.toDigits 10 count ++ ")".toList

def parallel (items : List AgentOpts) (tape : Tape) : Except Thrown Json × Tape :=
  if maxParallel < items.length then (.error (.runtime (tooManyItems items.length)), tape)
  else
    match liveSeqs ext tape.journal tape.seq items with
    | .error error => (.error (.terminated (.fatal (.journal error))), tape)
    | .ok live =>
        match reserveAgentCalls host live tape with
        | (.error thrown, tape) => (.error thrown, tape)
        | (.ok (), tape) =>
            match issue ext host items tape with
            | (.error token, tape) => (.error (.terminated token), tape)
            | (.ok pending, tape) =>
                let resolved := pending.map resolve
                let tape := { tape with answers := tape.answers ++ resolved.map fun item => (item.seq, item.answer) }
                let answers := resolved.map Resolved.answer
                if answers.any Answer.resumable then
                  -- nothing of the batch is recorded
                  (conclude ext answers none, releaseAgentCalls host live tape)
                else
                  let (recordError, tape) := recordAll host resolved tape
                  (conclude ext answers recordError, tape)

end Parallel

section Scripts

variable (ext : Externals) (host : Host)

def callItems : Call → List (Text × Text)
  | .host call => [(call.kind, call.hash ext)]
  | .parallel items =>
      if maxParallel < items.length then []
      else items.map fun opts => ("spawn_agent".toList, HostCall.hash ext (.spawnAgent opts))
  | .awaitUser kind message =>
      match PauseKind.parse kind with
      | .error _ => []
      | .ok _ => [("await_user".toList, awaitHash ext kind message)]

def begin' (call : Call) (tape : Tape) : Tape :=
  let had := (List.range (callItems ext call).length).any fun index => tape.journal[tape.seq + index]?.isSome
  { tape with
    performed := tape.performed ++ [(tape.seq, call)]
    heard := if had then tape.heard ++ [.journal] else tape.heard }

def caught : Except Thrown Json → Except ControlToken (Except Text Json)
  | .ok value => .ok (.ok value)
  | .error (.runtime message) => .ok (.error message)
  | .error (.terminated token) => .error token

def dispatch (call : Call) (tape : Tape) : Except Thrown Json × Tape :=
  match call with
  | .host (.spawnAgent opts) => spawnAgentCall ext host opts tape
  | .host call => valueCall ext host call tape
  | .parallel items => parallel ext host items tape
  | .awaitUser kind message => awaitUser ext host kind message tape

def perform (call : Call) (tape : Tape) : Except ControlToken (Except Text Json) × Tape :=
  let (result, after) := dispatch ext host call (begin' ext call tape)
  (caught result, after)

inductive ScriptEnd where
  | value (value : Json)
  | complete (result : Json)
  | pause (kind : PauseKind) (message : Text)
  | error (message : Text)

/-- A script with its arguments: what it does next depends on what its calls returned. -/
abbrev Script := Replay.Program Call (Except Text Json) ScriptEnd

inductive WorkflowOutcome where
  | completed (result : Json)
  | paused (kind : PauseKind) (message : Text)
  | budgetExceeded (message : Text)
  | cancelled
  | failed (reason : FatalReason)

def outcome : Except ControlToken ScriptEnd → WorkflowOutcome
  | .ok (.value value) => .completed value
  | .ok (.complete result) => .completed result
  | .ok (.pause kind message) => .paused kind message
  | .ok (.error message) => .failed (.message message)
  | .error (.budget message) => .budgetExceeded message
  | .error .cancelled => .cancelled
  | .error (.pause kind message) => .paused kind message
  | .error (.fatal reason) => .failed reason

def runWorkflow (script : Script) (journal : List JournalEntry) : WorkflowOutcome × Tape :=
  let (result, after) := Replay.run (perform ext host) script (.start journal)
  (outcome result, after)

end Scripts

end GrokPi.Workflow
