import GrokPi.Subagents.Team

set_option autoImplicit false

namespace GrokPi.Subagents

namespace Runtime

structure Kept (before after : Runtime) (id : RecordId) : Prop where
  finished : (after.records id).finished = (before.records id).finished
  terminal : (after.records id).terminalStatus = (before.records id).terminalStatus
  handler : after.finishHandlers id = before.finishHandlers id

inductive Outcome (ends : RecordId → TerminalStatus → Prop) (before after : Runtime) : Prop where
  | unmoved (started : after.started = before.started) (handled : after.handled = before.handled)
      (kept : ∀ id, Kept before after id)
  | begun (id : RecordId) (unfinished : (before.records id).finished = false)
      (started : after.started = before.started ++ [id]) (handled : after.handled = before.handled)
      (kept : ∀ id, Kept before after id)
  | ended (id : RecordId) (status : TerminalStatus) (cause : ends id status)
      (unfinished : (before.records id).finished = false) (started : after.started = before.started)
      (handled : after.handled = before.handled ++ [(id, status)])
      (finished : (after.records id).finished = true)
      (terminal : (after.records id).terminalStatus = some status)
      (handler : after.finishHandlers id = false)
      (kept : ∀ other, other ≠ id → Kept before after other)

section Outcomes

variable {ends : RecordId → TerminalStatus → Prop} {before middle after : Runtime}

theorem Outcome.following (outcome : Outcome ends middle after)
    (started : middle.started = before.started) (handled : middle.handled = before.handled)
    (kept : ∀ id, Kept before middle id) : Outcome ends before after := by
  -- What comes first may change flags, slots and the queue.
  have both : ∀ {id}, Kept middle after id → Kept before after id := fun {id} later =>
    { finished := later.finished.trans (kept id).finished
      terminal := later.terminal.trans (kept id).terminal
      handler := later.handler.trans (kept id).handler }
  cases outcome with
  | unmoved started' handled' kept' =>
      exact .unmoved (started'.trans started) (handled'.trans handled) fun id => both (kept' id)
  | begun id unfinished started' handled' kept' =>
      refine .begun id ?_ (by rw [started', started]) (handled'.trans handled)
        fun id => both (kept' id)
      rw [← (kept id).finished, unfinished]
  | ended id status cause unfinished started' handled' finished terminal handler kept' =>
      refine .ended id status cause ?_ (started'.trans started) (by rw [handled', handled]) finished
        terminal handler fun other different => both (kept' other different)
      rw [← (kept id).finished, unfinished]

variable (runtime : Runtime)

theorem finish_outcome (id : RecordId) (status : TerminalStatus) (error : Option Text)
    (live : runtime.finishHandlers id = !(runtime.records id).finished) (cause : ends id status) :
    Outcome ends runtime (runtime.finish id status error) := by
  by_cases already : (runtime.records id).finished = true
  · rw [finish_finished_self id status error already]
    exact .unmoved rfl rfl fun _ => ⟨rfl, rfl, rfl⟩
  · have unfinished := Bool.eq_false_iff.mpr already
    rw [unfinished] at live
    have handled := finish_handled id status error unfinished
    rw [live, if_pos (by decide)] at handled
    refine .ended id status cause unfinished (by simp) handled.1 (by simp) ?_ ?_ ?_
    · simp [finish, updateRecord, unfinished]
    · simp [handled.2]
    · intro other different
      constructor
      · simp [different]
      · simp [finish, updateRecord, unfinished, different]
      · simp [handled.2, different]

theorem requestCancel_kept (id other : RecordId) : Kept runtime (runtime.requestCancel id) other := by
  by_cases same : other = id
  · subst same
    constructor <;> simp [requestCancel, updateRecord]
  · constructor <;> simp [requestCancel, updateRecord, same]

theorem scheduleBackgroundTask_outcome (id : RecordId)
    (live : runtime.finishHandlers id = !(runtime.records id).finished)
    (cause : ends id .cancelled) :
    Outcome ends runtime (runtime.scheduleBackgroundTask id).1 := by
  simp only [scheduleBackgroundTask]
  split
  next => exact .unmoved rfl rfl fun _ => ⟨rfl, rfl, rfl⟩
  next unfinished =>
    split
    next => exact finish_outcome runtime id _ _ live cause
    next =>
      split
      next => exact .unmoved rfl rfl fun _ => ⟨rfl, rfl, rfl⟩
      next =>
        exact .begun id (Bool.eq_false_iff.mpr unfinished) rfl rfl fun _ => ⟨rfl, rfl, rfl⟩

end Outcomes

end Runtime

namespace Scheduler

def Ends (state : Scheduler) (event : Event) (id : RecordId) (status : TerminalStatus) : Prop :=
  status = .cancelled ∧ (id ∈ state.scheduled ∨ event = .schedule id ∨ event = .cancel id) ∨
    ∃ error, event = .ended id error ∧ (status = .completed →
      error = none ∧ (state.runtime.records id).cancelRequested = false)

def Live (state : Scheduler) : Prop :=
  ∀ id, state.runtime.finishHandlers id = !(state.runtime.records id).finished

variable {state : Scheduler}

theorem step_moves {ends : RecordId → TerminalStatus → Prop} (event : Event) (live : state.Live)
    (kept : ∀ id reason, event ≠ .discard id reason)
    (cancels : ∀ id, id ∈ state.runtime.queuedBackground ∨ event = .schedule id ∨
      event = .cancel id → ends id .cancelled)
    (finishes : ∀ id error, event = .ended id error → ∀ status : TerminalStatus,
      (status = .completed → error = none ∧ (state.runtime.records id).cancelRequested = false) →
        ends id status) :
    Runtime.Outcome ends state.runtime (state.step event).runtime := by
  cases event with
  | schedule id =>
      exact Runtime.scheduleBackgroundTask_outcome _ id (live id)
        (cancels id (Or.inr (Or.inl rfl)))
  | prioritize id =>
      simp only [step, Runtime.prioritizeBackground]
      split <;> exact .unmoved rfl rfl fun _ => ⟨rfl, rfl, rfl⟩
  | cancel id =>
      simp only [step, Runtime.cancel]
      split
      next => exact .unmoved rfl rfl fun _ => ⟨rfl, rfl, rfl⟩
      next =>
        split
        next =>
          have marked := Runtime.requestCancel_kept state.runtime id
          refine Runtime.Outcome.following
            (Runtime.finish_outcome _ id .cancelled _ ?_ (cancels id (Or.inr (Or.inr rfl)))) rfl rfl
            fun other => ⟨(marked other).finished, (marked other).terminal, (marked other).handler⟩
          exact (marked id).handler.trans ((live id).trans (by rw [← (marked id).finished]))
        next => exact .unmoved rfl rfl (Runtime.requestCancel_kept state.runtime id)
  | discard id reason => exact absurd rfl (kept id reason)
  | abort id =>
      simp only [step, Runtime.onAbort]
      split
      next => exact .unmoved rfl rfl fun _ => ⟨rfl, rfl, rfl⟩
      next => exact .unmoved rfl rfl (Runtime.requestCancel_kept state.runtime id)
  | ended id error =>
      refine Runtime.finish_outcome _ id _ _ (live id) (finishes id error rfl _ ?_)
      intro completed
      split at completed
      next => cases completed
      next unasked =>
        split at completed
        next => cases completed
        next silent => exact ⟨by simpa using silent, Bool.eq_false_iff.mpr unasked⟩
  | released id =>
      simp only [step, Runtime.releaseSlot]
      split
      next => exact .unmoved rfl rfl fun _ => ⟨rfl, rfl, rfl⟩
      next next' rest left =>
        have queued : next' ∈ state.runtime.queuedBackground := by
          apply (List.dropWhile_suffix state.runtime.skipped).subset
          rw [left]
          exact List.mem_cons_self
        exact Runtime.Outcome.following
          (Runtime.scheduleBackgroundTask_outcome _ next' (live next') (cancels next' (Or.inl queued)))
          rfl rfl fun _ => ⟨rfl, rfl, rfl⟩

theorem step_outcome (event : Event) (consistent : state.Consistent) (live : state.Live)
    (kept : ∀ id reason, event ≠ .discard id reason) :
    Runtime.Outcome (state.Ends event) state.runtime (state.step event).runtime := by
  apply step_moves event live kept
  · intro id cause
    exact Or.inl ⟨rfl, cause.imp_left (consistent.queuedScheduled id)⟩
  · intro id error same status plain
    exact Or.inr ⟨error, same, plain⟩

theorem step_live (event : Event) (live : state.Live)
    (kept : ∀ id reason, event ≠ .discard id reason) : (state.step event).Live := by
  intro id
  have same : Runtime.Kept state.runtime (state.step event).runtime id →
      (state.step event).runtime.finishHandlers id =
        !((state.step event).runtime.records id).finished := by
    intro kept
    rw [kept.handler, kept.finished, live id]
  have moved : Runtime.Outcome (fun _ _ => True) state.runtime (state.step event).runtime :=
    step_moves event live kept (fun _ _ => trivial) (fun _ _ _ _ _ => trivial)
  cases moved with
  | unmoved _ _ kept => exact same (kept id)
  | begun _ _ _ _ kept => exact same (kept id)
  | ended last _ _ _ _ _ finished _ handler kept =>
      by_cases different : id = last
      · rw [different, finished, handler]
        rfl
      · exact same (kept id different)

theorem step_scheduled (event : Event) (id : RecordId) (scheduled : id ∈ (state.step event).scheduled) :
    id ∈ state.scheduled ∨ event = .schedule id := by
  -- A record joins the scheduled ones by its own event only.
  cases event with
  | schedule other =>
      rcases List.mem_append.mp scheduled with earlier | last
      · exact Or.inl earlier
      · exact Or.inr (by rw [List.mem_singleton.mp last])
  | _ => exact Or.inl scheduled

end Scheduler

/-- The ways in which an event can lose a task or a wake-up. -/
inductive Miss where
  | overlooked
  | displaced
  | cleared
  | stalled
  | passedOver
  deriving DecidableEq

namespace Team

section Misses

variable (team : Team)

def wakeable (path : AgentPath) : Bool :=
  team.hasPendingChild path ||
    (team.agents.get path).any (fun agent => !agent.pendingTasks.isEmpty) ||
    (List.range team.nextRecord).any fun id =>
      (team.handlers id).any fun handler =>
        handler.stage = .flushing && parentPath (team.agentPath id) = path &&
          team.answers id handler.status handler.report

def displaces (id : RecordId) : Bool :=
  (team.handlers id).any fun handler =>
    (team.agents.get (team.agentPath id)).any fun agent =>
      handler.status = .completed && !agent.pendingTasks.isEmpty && !team.finished agent.record

def decides (id : RecordId) : Bool :=
  (team.handlers id).any fun handler =>
    (team.agents.get (team.agentPath id)).any fun agent =>
      team.answers id handler.status agent.report

def misses : TeamEvent → Miss → Bool
  -- A report of a later run hides the answer of this one.
  | .flushed id _, .overlooked =>
      !team.decides id &&
        (team.handlers id).any fun handler => team.answers id handler.status handler.report
  | .flushed id _, .displaced => !team.decides id && team.displaces id
  | .answered id, .displaced => team.displaces id
  | .followup _ targetPath _ _ aborted, .cleared =>
      aborted && (team.agents.get targetPath).any fun target => team.status target = .waitingResult
  -- A run completes, and its agent waits for nothing.
  | .ended id error, .stalled =>
      error.isNone && !(team.record id).cancelRequested &&
        ((team.agents.get (team.agentPath id)).any fun agent => reports agent.report .waiting) &&
        !team.wakeable (team.agentPath id)
  | .released id, .passedOver => !decide (team.scheduler.Keeps (.released id))
  | _, _ => false

def Spares (missed : List Miss) (team : Team) (event : TeamEvent) : Prop :=
  ∀ miss ∈ missed, team.misses event miss = false

instance spares_decidable (missed : List Miss) (team : Team) (event : TeamEvent) :
    Decidable (Spares missed team event) :=
  inferInstanceAs (Decidable (∀ miss ∈ missed, team.misses event miss = false))

def Closed (path : AgentPath) : Prop :=
  ∃ agent, team.agents.get path = some agent ∧ team.finished agent.record = true ∧
    (team.record agent.record).terminalStatus ≠ some .completed

end Misses

structure Sound (team : Team) : Prop where
  consistent : team.scheduler.Consistent
  live : team.scheduler.Live
  scheduled : ∀ id ∈ team.scheduler.scheduled, id < team.nextRecord
  terminal : ∀ id, (team.record id).terminalStatus.isSome = team.finished id
  ran : ∀ id status, (team.record id).terminalStatus = some status → status ≠ .cancelled →
    id ∈ team.scheduler.runtime.started
  once : team.agents.keys.Nodup
  rootFree : team.agents.get rootPath = none
  unknown : ∀ id, team.nextRecord ≤ id →
    team.finished id = false ∧ team.handlers id = none ∧ team.messages id = none
  current : ∀ path agent, team.agents.get path = some agent →
    agent.record < team.nextRecord ∧ team.agentPath agent.record = path
  earlier : ∀ id < team.nextRecord, ∃ agent, team.agents.get (team.agentPath id) = some agent ∧
    (id = agent.record ∨ (team.record id).terminalStatus = some .completed)
  parents : ∀ path agent, team.agents.get path = some agent →
    parentPath path = rootPath ∨ ∃ parent, team.agents.get (parentPath path) = some parent
  pending : ∀ id handler, team.handlers id = some handler →
    id < team.nextRecord ∧ (team.record id).terminalStatus = some handler.status

structure Follows (team : Team) (after : Scheduler) : Prop where
  consistent : after.Consistent
  live : after.Live
  scheduled : ∀ id ∈ after.scheduled, id < team.nextRecord

def Told (allowed : Miss → Prop) (team : Team) (id : RecordId) (handler : Handler) : Prop :=
  allowed .overlooked ∨ handler.stage = .delivering ∨
    team.answers id handler.status handler.report = false

inductive Change (allowed : Miss → Prop) (team : Team) : Team → Prop where
  | unmoved (after : Scheduler) (follows : team.Follows after)
      (started : after.runtime.started = team.scheduler.runtime.started)
      (kept : ∀ id, Runtime.Kept team.scheduler.runtime after.runtime id) :
      Change allowed team { team with scheduler := after }
  | begun (after : Scheduler) (id : RecordId) (follows : team.Follows after)
      (unfinished : team.finished id = false)
      (started : after.runtime.started = team.scheduler.runtime.started ++ [id])
      (kept : ∀ id, Runtime.Kept team.scheduler.runtime after.runtime id) :
      Change allowed team
        { team with scheduler := after, handed := team.begin team.handed id }
  | ended (after : Scheduler) (id : RecordId) (status : TerminalStatus) (agent : TeamAgent)
      (follows : team.Follows after) (unfinished : team.finished id = false)
      (known : id < team.nextRecord) (found : team.agents.get (team.agentPath id) = some agent)
      (ran : status ≠ .cancelled → id ∈ team.scheduler.runtime.started)
      (started : after.runtime.started = team.scheduler.runtime.started)
      (finished : (after.runtime.records id).finished = true)
      (terminal : (after.runtime.records id).terminalStatus = some status)
      (kept : ∀ other, other ≠ id → Runtime.Kept team.scheduler.runtime after.runtime other)
      (wakes : allowed .stalled ∨ (status = .completed → reports agent.report .waiting = true →
        team.wakeable (team.agentPath id) = true)) :
      Change allowed team
        { team with
          scheduler := after
          handlers := Function.update team.handlers id
            (some { status := status, report := agent.report, stage := .flushing }) }
  | spawned (path : AgentPath) (free : team.agents.get path = none) (below : path ≠ rootPath)
      (parent : parentPath path = rootPath ∨
        ∃ parent, team.agents.get (parentPath path) = some parent) :
      Change allowed team
        { team.setAgent path { record := team.nextRecord, report := none, pendingTasks := [] } with
          nextRecord := team.nextRecord + 1
          agentPath := Function.update team.agentPath team.nextRecord path }
  | reported (path : AgentPath) (agent : TeamAgent) (report : Option TeamReport)
      (found : team.agents.get path = some agent)
      (plain : team.finished agent.record = false ∨
        report = none ∧ (allowed .cleared ∨ team.status agent ≠ .waitingResult)) :
      Change allowed team (team.setAgent path { agent with report := report })
  | handed (path : AgentPath) (task : TeamTask)
      (present : path = rootPath ∨
        ∃ agent, team.agents.get path = some agent ∧ team.finished agent.record = false) :
      Change allowed team ((team.owe path task).hand path task)
  | parked (path : AgentPath) (agent : TeamAgent) (task : TeamTask)
      (found : team.agents.get path = some agent)
      (unfinished : team.finished agent.record = false) :
      Change allowed team ((team.owe path task).park path agent task)
  | resumed (path : AgentPath) (agent : TeamAgent) (task : TeamTask)
      (found : team.agents.get path = some agent)
      (receives : canReceiveMessage (team.status agent) = true) :
      Change allowed team ((team.owe path task).resumeRecord path agent (task, .reactivated))
  | unplaced (path : AgentPath) (task : TeamTask)
      (lost : allowed .overlooked ∨ team.Closed path) :
      Change allowed team (team.owe path task)
  | told (id : RecordId) (handler : Handler) (held : team.handlers id = some handler)
      (awake : ∀ agent, team.agents.get (parentPath (team.agentPath id)) = some agent →
        team.status agent ≠ .waitingResult) :
      Change allowed team (team.setHandler id (some { handler with stage := .delivering }))
  | unparked (id : RecordId) (handler : Handler) (agent : TeamAgent) (next : TeamTask)
      (rest : List TeamTask) (held : team.handlers id = some handler)
      (told : team.Told allowed id handler)
      (found : team.agents.get (team.agentPath id) = some agent)
      (waiting : agent.pendingTasks = next :: rest)
      (receives : canReceiveMessage (team.status agent) = true) :
      Change allowed team
        ((team.setHandler id none).resumeRecord (team.agentPath id)
          { agent with pendingTasks := rest } (next, .unparked))
  | settled (id : RecordId) (handler : Handler) (agent : TeamAgent) (left : List TeamTask)
      (held : team.handlers id = some handler) (told : team.Told allowed id handler)
      (found : team.agents.get (team.agentPath id) = some agent)
      (nothing : agent.pendingTasks = [] ∧ left = [] ∨
        allowed .displaced ∧ team.finished agent.record = false ∨
        team.Closed (team.agentPath id)) :
      Change allowed team
        ((team.setHandler id none).setAgent (team.agentPath id) { agent with pendingTasks := left })

end Team

end GrokPi.Subagents
