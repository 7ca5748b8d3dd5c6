import GrokPi.Workflow.Manager

set_option autoImplicit false

namespace GrokPi.Workflow

section Glances

def WorkflowTracker.glance (tracker : WorkflowTracker) (runId : Text) : Option (WorkflowRunStatus × Nat) :=
  (tracker.run? runId).map fun run => (run.state.status, run.executionEpoch)

structure Turns (change : TrackedRun → TrackedRun) (turn : WorkflowRunStatus → WorkflowRunStatus) : Prop where
  keeps : ∀ run, (change run).id = run.id
  status : ∀ run, (change run).state.status = turn run.state.status
  epoch : ∀ run, (change run).executionEpoch = run.executionEpoch

open WorkflowTracker

theorem glance_changeRun (tracker : WorkflowTracker) {change : TrackedRun → TrackedRun}
    {turn : WorkflowRunStatus → WorkflowRunStatus} (turns : Turns change turn) (runId other : Text) :
    (tracker.changeRun runId change).glance other =
      if other = runId then (tracker.glance runId).map fun held => (turn held.1, held.2) else tracker.glance other := by
  simp only [glance, run?, changeRun, Rows.get_update TrackedRun.id turns.keeps]
  by_cases here : other = runId
  · simp only [here, if_true, Option.map_map]
    congr 1
    funext run
    simp [turns.status, turns.epoch]
  · simp [here]

@[simp] theorem foldElapsed_status (moment : Moment) (run : TrackedRun) :
    (run.foldElapsed moment).state.status = run.state.status := by
  cases held : run.activeSince <;> simp [TrackedRun.foldElapsed, held]

@[simp] theorem foldElapsed_epoch (moment : Moment) (run : TrackedRun) :
    (run.foldElapsed moment).executionEpoch = run.executionEpoch := by
  cases held : run.activeSince <;> simp [TrackedRun.foldElapsed, held]

def pausedStatus (status : WorkflowRunStatus) : WorkflowRunStatus :=
  if status = .active then .userPaused else status

theorem pauseUser_turns (moment : Moment) (message : Option Text) : Turns (pauseUser moment message) pausedStatus := by
  refine ⟨(pauseUser_careful moment message).keeps, fun run => ?_, fun run => ?_⟩
  · by_cases active : run.state.status = .active
    · simp [pauseUser, active, pausedStatus, TrackedRun.change, userPaused, WorkflowRunState.recordEvent,
        WorkflowRunState.advanceRevision]
    · simp [pauseUser, active, pausedStatus]
  · by_cases active : run.state.status = .active
    · simp [pauseUser, active, TrackedRun.change]
    · simp [pauseUser, active]

theorem interrupt_turns (moment : Moment) (message : Text) :
    Turns (interrupt moment message) fun _ => .interrupted :=
  ⟨(interrupt_careful moment message).keeps, fun _ => rfl, fun run => by simp [interrupt, TrackedRun.change]⟩

def outcomeStatus (outcome : WorkflowOutcome) (status : WorkflowRunStatus) : WorkflowRunStatus :=
  if ignoresOutcomes status then status
  else
    match outcome with
    | .completed _ => .complete
    | .paused kind _ => .fromPause kind
    | .budgetExceeded _ => .budgetLimited
    | .cancelled => .cancelled
    | .failed _ => .failed

theorem applyOutcome_turns (moment : Moment) (outcome : WorkflowOutcome) :
    Turns (applyOutcome moment outcome) (outcomeStatus outcome) := by
  refine ⟨(applyOutcome_careful moment outcome).keeps, fun run => ?_, fun run => by simp [applyOutcome, TrackedRun.change]⟩
  simp only [applyOutcome, TrackedRun.change, settled, foldElapsed_status, outcomeStatus]
  split
  · simp [WorkflowRunState.recordEvent, WorkflowRunState.advanceRevision]
  · cases outcome <;> rfl

theorem outcomeStatus_stops (outcome : WorkflowOutcome) (status : WorkflowRunStatus) :
    outcomeStatus outcome status ≠ .active := by
  by_cases ignored : ignoresOutcomes status
  · simp only [outcomeStatus, ignored, if_true]
    rintro rfl
    cases ignored
  · simp only [outcomeStatus, ignored, Bool.false_eq_true, if_false]
    cases outcome with
    | paused kind message => cases kind <;> simp [WorkflowRunStatus.fromPause]
    | _ => simp

theorem pausedStatus_stops (status : WorkflowRunStatus) : pausedStatus status ≠ .active := by
  by_cases active : status = .active <;> simp [pausedStatus, active]

theorem settlement_turns (moment : Moment) (drainFailed pauseIntent : Bool) (outcome : WorkflowOutcome) :
    ∃ turn, Turns (Manager.settlement moment drainFailed pauseIntent outcome) turn ∧ ∀ status, turn status ≠ .active := by
  have applied := applyOutcome_turns moment
  have paused := pauseUser_turns moment none
  unfold Manager.settlement
  split
  · exact ⟨_, interrupt_turns moment _, fun _ => by simp⟩
  · split
    · exact ⟨_, paused, pausedStatus_stops⟩
    · exact ⟨_, paused, pausedStatus_stops⟩
    · exact ⟨_, applied outcome, outcomeStatus_stops outcome⟩

theorem change_turns (change : WorkflowRunState → WorkflowRunState)
    (keeps : ∀ state, (change state).runId = state.runId) (status : ∀ state, (change state).status = state.status) :
    Turns (TrackedRun.change change) id :=
  ⟨fun run => keeps run.state, fun run => status run.state, fun _ => rfl⟩

theorem glance_same (tracker : WorkflowTracker) {change : TrackedRun → TrackedRun} (turns : Turns change id)
    (runId : Text) : (tracker.changeRun runId change).glance = tracker.glance := by
  funext other
  rw [glance_changeRun tracker turns]
  by_cases here : other = runId
  · simp [here]
  · simp [here]

theorem reconcile_turns (used : Nat) : Turns (.change (reconcile used)) id := by
  apply change_turns
  · intro state
    simp only [reconcile]
    split <;> rfl
  · intro state
    simp only [reconcile]
    split <;> rfl

theorem served_glance (letters : Letters) (tracker : WorkflowTracker) (moment : Moment) {op : TrackerOp}
    (served : op.isServed) : (tracker.step letters (moment, op)).glance = tracker.glance := by
  cases op with
  | setPhase runId title =>
      refine glance_same _ (change_turns _ ?_ ?_) runId
      · intro state
        simp only [setPhase]
        split <;> rfl
      · intro state
        simp only [setPhase]
        split <;> rfl
  | reserveAgents runId count =>
      simp only [WorkflowTracker.step, reserveAgents]
      cases found : tracker.get runId with
      | none => rfl
      | some state =>
          dsimp only
          cases made : reserve count state with
          | error refused => rfl
          | ok reserved =>
              refine glance_same _ ⟨(reserved_careful count).keeps, fun run => ?_, fun _ => rfl⟩ runId
              cases again : reserve count run.state with
              | error refused => rfl
              | ok reserved =>
                  rw [(reserve_ok again).1]
                  rfl
  | releaseAgents runId count =>
      exact glance_same _ (change_turns (release count) (fun _ => rfl) fun _ => rfl) runId
  | agentStarted runId row =>
      exact glance_same _ (change_turns (agentStarted letters row) (fun _ => rfl) fun _ => rfl) runId
  | rebindAgentId runId agentId newAgentId =>
      refine glance_same _ (change_turns _ ?_ ?_) runId
      · intro state
        simp only [rebindAgentId, changeAgent]
        split <;> rfl
      · intro state
        simp only [rebindAgentId, changeAgent]
        split <;> rfl
  | agentFinished runId agentId rowState tokensUsed durationMs =>
      refine glance_same _ (change_turns _ ?_ ?_) runId
      · intro state
        simp only [agentFinished, changeAgent]
        split <;> rfl
      · intro state
        simp only [agentFinished, changeAgent]
        split <;> rfl
  | logMessage runId message =>
      exact glance_same _ (change_turns (logMessage moment message) (fun _ => rfl) fun _ => rfl) runId
  | markCompletionReported runId => rfl
  | takeUnreportedTerminalRuns => rfl
  | takeStatusReport =>
      simp only [WorkflowTracker.step, takeStatusReport]
      split <;> rfl
  | _ => cases served

theorem startRun_glance (tracker : WorkflowTracker) {runId : Text} (fresh : tracker.glance runId = none)
    (moment : Moment) (name objective : Text) (phases : List PhaseMeta) (agentBudget : Option Nat)
    (journalPath : Option Text) (other : Text) :
    (tracker.startRun moment runId name objective phases agentBudget journalPath).glance other =
      if other = runId then some (.active, 0) else tracker.glance other := by
  have absent : Rows.get TrackedRun.id tracker.runs runId = none := by simpa [glance, run?] using fresh
  simp only [glance, run?, startRun, Rows.get_append]
  by_cases here : other = runId
  · rw [here, absent]
    simp [Rows.get, TrackedRun.id, WorkflowRunState.recordEvent, WorkflowRunState.advanceRevision]
  · have apart : ¬ runId = other := Ne.symm here
    simp [here, apart, Rows.get, TrackedRun.id, WorkflowRunState.recordEvent, WorkflowRunState.advanceRevision]

theorem startRun_clearRun (tracker : WorkflowTracker) {runId : Text} (fresh : tracker.glance runId = none)
    (moment : Moment) (name objective : Text) (phases : List PhaseMeta) (agentBudget : Option Nat)
    (journalPath : Option Text) :
    (tracker.startRun moment runId name objective phases agentBudget journalPath).clearRun runId = tracker := by
  have absent : runId ∉ tracker.runs.map TrackedRun.id := by
    rw [← Rows.get_eq_none TrackedRun.id]
    simpa [glance, run?] using fresh
  have apart : ∀ run ∈ tracker.runs, ¬ run.id = runId := fun run member same =>
    absent (same ▸ List.mem_map_of_mem member)
  simp only [startRun, clearRun, Rows.remove]
  rw [List.eraseP_append_right _ (by simpa using apart), List.eraseP_cons_of_pos (by simp [TrackedRun.id,
    WorkflowRunState.recordEvent, WorkflowRunState.advanceRevision])]
  simp

theorem mayResume_resumable {state : WorkflowRunState} {newAgentBudget : Option Nat}
    (may : mayResume state newAgentBudget) : state.status.isResumable := by
  simp only [mayResume, Bool.and_eq_true] at may
  exact may.1

theorem resumeRun_glance (tracker : WorkflowTracker) (moment : Moment) (runId : Text) (newAgentBudget : Option Nat) :
    (tracker.resumeRun moment runId newAgentBudget = (none, tracker)) ∨
      ∃ state resumedTracker status epoch,
        tracker.resumeRun moment runId newAgentBudget = (some state, resumedTracker) ∧
          tracker.glance runId = some (status, epoch) ∧ status.isResumable ∧
          ∀ other, resumedTracker.glance other =
            if other = runId then some (.active, (epoch + 1) % 2 ^ 64) else tracker.glance other := by
  cases found : tracker.run? runId with
  | none => exact .inl (by simp [resumeRun, found])
  | some run =>
      by_cases may : mayResume run.state newAgentBudget
      · have keeps := (resumed_careful moment newAgentBudget).keeps
        have there : Rows.get TrackedRun.id tracker.runs runId = some run := found
        have runs : (tracker.resumeRun moment runId newAgentBudget).2.runs =
            Rows.update TrackedRun.id runId (resumed moment newAgentBudget) tracker.runs := by
          simp only [resumeRun, found, may, if_true, changeRun]
        have state : (tracker.resumeRun moment runId newAgentBudget).1 =
            some (resumed moment newAgentBudget run).state := by
          simp only [resumeRun, may, if_true, WorkflowTracker.get, run?, changeRun,
            Rows.get_update TrackedRun.id keeps, there, Option.map_some]
        refine .inr ⟨(resumed moment newAgentBudget run).state, (tracker.resumeRun moment runId newAgentBudget).2,
          run.state.status, run.executionEpoch, Prod.ext state rfl, ?_, mayResume_resumable may, fun other => ?_⟩
        · simp [glance, found]
        · simp only [glance, run?, runs, Rows.get_update TrackedRun.id keeps]
          by_cases here : other = runId
          · rw [if_pos here, if_pos here, there, Option.map_some, Option.map_some]
            rfl
          · rw [if_neg here, if_neg here]
      · exact .inl (by simp [resumeRun, found, may])

end Glances

section Invariant

abbrev Glance := Text → Option (WorkflowRunStatus × Nat)

structure Watched (n : Nat) (glance : Glance) (active : InsertionMap Text Nat) (retiring : List (Text × Nat))
    (executions : List Execution) : Prop where
  keys : active.keys.Nodup
  bound : active.length + retiring.length ≤ workflowMaxActiveRunsPerSession
  epochs : ∀ runId status epoch, glance runId = some (status, epoch) → epoch ≤ n
  past : ∀ (i : Nat) (e : Execution), executions[i]? = some e → ∃ status epoch, glance e.runId = some (status, epoch) ∧ e.epoch ≤ epoch
  once : ∀ (i j : Nat) (a b : Execution), executions[i]? = some a → executions[j]? = some b → a.runId = b.runId →
    a.epoch = b.epoch → i = j
  watched : ∀ runId epoch, glance runId = some (.active, epoch) →
    ∃ (i : Nat) (e : Execution), active.get runId = some i ∧ executions[i]? = some e ∧ e.runId = runId ∧
      e.epoch = epoch ∧ e.unsettled
  held : ∀ (i : Nat) (e : Execution), executions[i]? = some e → e.unsettled → (e.runId, i) ∈ active ∨ (e.runId, i) ∈ retiring
  entries : ∀ runId i, (runId, i) ∈ active → ∃ e : Execution, executions[i]? = some e ∧ e.runId = runId ∧
    (e.unsettled → ∃ status, glance runId = some (status, e.epoch) ∧ (status = .active ∨ status.isTerminal))

def Told (glance : Glance) (executions : List Execution) : Prop :=
  ∀ (i : Nat) (e : Execution), executions[i]? = some e → e.unsettled → e.cancel = false → glance e.runId = some (.active, e.epoch)

structure Same (change : Execution → Execution) : Prop where
  runId : ∀ e, (change e).runId = e.runId
  epoch : ∀ e, (change e).epoch = e.epoch

variable {n : Nat} {glance glance' : Glance} {active : InsertionMap Text Nat} {retiring : List (Text × Nat)}
  {executions : List Execution}

theorem getElem?_modify {change : Execution → Execution} {i j : Nat} {e : Execution}
    (there : (executions.modify i change)[j]? = some e) :
    ∃ old, executions[j]? = some old ∧ e = if i = j then change old else old := by
  rw [List.getElem?_modify] at there
  obtain ⟨old, found, same⟩ := Option.map_eq_some_iff.mp there
  refine ⟨old, found, ?_⟩
  by_cases here : i = j <;> simp_all

theorem modify_getElem? {change : Execution → Execution} {i j : Nat} {e : Execution}
    (there : executions[j]? = some e) :
    (executions.modify i change)[j]? = some (if i = j then change e else e) := by
  rw [List.getElem?_modify, there]
  by_cases here : i = j <;> simp [here]

theorem getElem?_concat {last e : Execution} {i : Nat} (there : (executions ++ [last])[i]? = some e) :
    executions[i]? = some e ∨ i = executions.length ∧ e = last := by
  rcases Nat.lt_trichotomy i executions.length with inside | end' | beyond
  · rw [List.getElem?_append_left inside] at there
    exact .inl there
  · subst end'
    simp only [List.getElem?_concat_length, Option.some.injEq] at there
    exact .inr ⟨rfl, there.symm⟩
  · rw [List.getElem?_eq_none (by simp; omega)] at there
    cases there

theorem concat_getElem? {last e : Execution} {i : Nat} (there : executions[i]? = some e) :
    (executions ++ [last])[i]? = some e := by
  rw [List.getElem?_append_left (List.getElem?_eq_some_iff.mp there).1]
  exact there

structure Stops (runId : Text) (glance glance' : Glance) : Prop where
  elsewhere : ∀ other, other ≠ runId → glance' other = glance other
  epoch : (glance' runId).map Prod.snd = (glance runId).map Prod.snd
  stopped : ∀ epoch, glance' runId ≠ some (.active, epoch)

namespace Stops

theorem back {runId : Text} (stops : Stops runId glance glance') {other : Text} {status : WorkflowRunStatus} {epoch : Nat}
    (held : glance' other = some (status, epoch)) : ∃ before, glance other = some (before, epoch) := by
  by_cases here : other = runId
  · subst here
    have same := stops.epoch
    rw [held, Option.map_some] at same
    obtain ⟨⟨before, epoch'⟩, found, rfl⟩ := Option.map_eq_some_iff.mp same.symm
    exact ⟨before, found⟩
  · exact ⟨status, (stops.elsewhere other here).symm.trans held⟩

theorem forth {runId : Text} (stops : Stops runId glance glance') {other : Text} {status : WorkflowRunStatus} {epoch : Nat}
    (held : glance other = some (status, epoch)) : ∃ after, glance' other = some (after, epoch) := by
  by_cases here : other = runId
  · subst here
    have same := stops.epoch
    rw [held, Option.map_some] at same
    obtain ⟨⟨after, epoch'⟩, found, rfl⟩ := Option.map_eq_some_iff.mp same
    exact ⟨after, found⟩
  · exact ⟨status, (stops.elsewhere other here).trans held⟩

theorem stillActive {runId : Text} (stops : Stops runId glance glance') {other : Text} {epoch : Nat}
    (held : glance' other = some (.active, epoch)) : other ≠ runId ∧ glance other = some (.active, epoch) := by
  have apart : other ≠ runId := by
    rintro rfl
    exact stops.stopped epoch held
  exact ⟨apart, (stops.elsewhere other apart).symm.trans held⟩

end Stops

theorem stops_of_turn (tracker : WorkflowTracker) {change : TrackedRun → TrackedRun}
    {turn : WorkflowRunStatus → WorkflowRunStatus} (turns : Turns change turn)
    (stops : ∀ status, turn status ≠ .active) (runId : Text) :
    Stops runId tracker.glance (tracker.changeRun runId change).glance := by
  refine ⟨fun other apart => ?_, ?_, fun epoch held => ?_⟩
  · rw [glance_changeRun tracker turns, if_neg apart]
  · rw [glance_changeRun tracker turns, if_pos rfl, Option.map_map]
    rfl
  · rw [glance_changeRun tracker turns, if_pos rfl] at held
    obtain ⟨⟨status, epoch'⟩, -, same⟩ := Option.map_eq_some_iff.mp held
    exact stops status (Prod.mk.inj same).1

namespace Watched

variable {status : WorkflowRunStatus}

theorem entry_current (watched : Watched n glance active retiring executions) {runId : Text} {i : Nat} {e : Execution}
    (found : executions[i]? = some e) (named : e.runId = runId)
    (held : glance runId = some (status, e.epoch)) {x : Nat} (entry : (runId, x) ∈ active) {a : Execution}
    (there : executions[x]? = some a) (open' : a.unsettled) : x = i := by
  obtain ⟨b, there', named', current⟩ := watched.entries runId x entry
  obtain rfl := Option.some.inj (there.symm.trans there')
  obtain ⟨status', held', -⟩ := current open'
  have epochs : a.epoch = e.epoch := by
    rw [held] at held'
    exact (Prod.mk.inj (Option.some.inj held')).2.symm
  exact watched.once x i a e there found (named'.trans named.symm) epochs

theorem mono {later : Nat} (watched : Watched n glance active retiring executions) (le : n ≤ later) :
    Watched later glance active retiring executions :=
  { watched with epochs := fun runId status epoch held => (watched.epochs runId status epoch held).trans le }

theorem turn (watched : Watched n glance active retiring executions) {runId : Text} (stops : Stops runId glance glance')
    (entries : ∀ i, (runId, i) ∈ active → ∀ e, executions[i]? = some e → e.unsettled →
      ∃ status, glance' runId = some (status, e.epoch) ∧ status.isTerminal) :
    Watched n glance' active retiring executions :=
  { keys := watched.keys
    bound := watched.bound
    epochs := fun other status epoch held => by
      obtain ⟨before, held'⟩ := stops.back held
      exact watched.epochs other before epoch held'
    past := fun i e there => by
      obtain ⟨status, epoch, held, le⟩ := watched.past i e there
      obtain ⟨after, held'⟩ := stops.forth held
      exact ⟨after, epoch, held', le⟩
    once := watched.once
    watched := fun other epoch held => watched.watched other epoch (stops.stillActive held).2
    held := watched.held
    entries := fun other i inside => by
      obtain ⟨e, there, named, current⟩ := watched.entries other i inside
      refine ⟨e, there, named, fun unsettled => ?_⟩
      by_cases here : other = runId
      · subst here
        obtain ⟨status, held, terminal⟩ := entries i inside e there unsettled
        exact ⟨status, held, .inr terminal⟩
      · rw [stops.elsewhere other here]
        exact current unsettled }

variable {change : Execution → Execution}

theorem past_modify (watched : Watched n glance active retiring executions)
    (same : Same change) {x i : Nat} {e : Execution} (there : (executions.modify x change)[i]? = some e) :
    ∃ status epoch, glance e.runId = some (status, epoch) ∧ e.epoch ≤ epoch := by
  obtain ⟨old, found, rfl⟩ := getElem?_modify there
  obtain ⟨status, epoch, held, le⟩ := watched.past i old found
  by_cases here : x = i
  · simp only [here, if_true, same.runId, same.epoch]
    exact ⟨status, epoch, held, le⟩
  · simp only [here, if_false]
    exact ⟨status, epoch, held, le⟩

theorem once_modify (watched : Watched n glance active retiring executions)
    (same : Same change) {x i j : Nat} {a b : Execution} (thereA : (executions.modify x change)[i]? = some a)
    (thereB : (executions.modify x change)[j]? = some b) (runs : a.runId = b.runId) (epochs : a.epoch = b.epoch) :
    i = j := by
  obtain ⟨oldA, foundA, rfl⟩ := getElem?_modify thereA
  obtain ⟨oldB, foundB, rfl⟩ := getElem?_modify thereB
  refine watched.once i j oldA oldB foundA foundB ?_ ?_
  · split at runs <;> split at runs <;> simpa [same.runId] using runs
  · split at epochs <;> split at epochs <;> simpa [same.epoch] using epochs

theorem modify (watched : Watched n glance active retiring executions)
    (same : Same change) {x : Nat} (fewer : ∀ e, executions[x]? = some e → (change e).unsettled → e.unsettled)
    (kept : ∀ e, executions[x]? = some e → glance e.runId = some (.active, e.epoch) → e.unsettled →
      (change e).unsettled) : Watched n glance active retiring (executions.modify x change) :=
  { keys := watched.keys
    bound := watched.bound
    epochs := watched.epochs
    past := fun _ _ there => watched.past_modify same there
    once := fun _ _ _ _ thereA thereB => watched.once_modify same thereA thereB
    watched := fun other epoch held => by
      obtain ⟨i, e, entry, there, named, epoch', unsettled⟩ := watched.watched other epoch held
      refine ⟨i, if x = i then change e else e, entry, modify_getElem? there, ?_⟩
      by_cases here : x = i
      · subst here
        simp only [if_true, same.runId, same.epoch]
        exact ⟨named, epoch', kept e there (by rw [named, epoch']; exact held) unsettled⟩
      · simp only [here, if_false]
        exact ⟨named, epoch', unsettled⟩
    held := fun i e there unsettled => by
      obtain ⟨old, found, rfl⟩ := getElem?_modify there
      by_cases here : x = i
      · subst here
        simp only [if_true, same.runId] at unsettled ⊢
        exact watched.held x old found (fewer old found unsettled)
      · simp only [here, if_false] at unsettled ⊢
        exact watched.held i old found unsettled
    entries := fun other i inside => by
      obtain ⟨e, there, named, current⟩ := watched.entries other i inside
      refine ⟨if x = i then change e else e, modify_getElem? there, ?_⟩
      by_cases here : x = i
      · subst here
        simp only [if_true, same.runId, same.epoch]
        exact ⟨named, fun unsettled => current (fewer e there unsettled)⟩
      · simp only [here, if_false]
        exact ⟨named, current⟩ }

theorem settle (watched : Watched n glance active retiring executions)
    (same : Same change) {x : Nat} {e : Execution} (found : executions[x]? = some e)
    (settled : (change e).unsettled = false) (current : glance e.runId = some (status, e.epoch))
    (stops : Stops e.runId glance glance') : Watched n glance' active retiring (executions.modify x change) := by
  refine
    { keys := watched.keys
      bound := watched.bound
      epochs := ?_
      past := ?_
      once := fun _ _ _ _ thereA thereB => watched.once_modify same thereA thereB
      watched := ?_
      held := ?_
      entries := ?_ }
  · intro other status' epoch held
    obtain ⟨before, held'⟩ := stops.back held
    exact watched.epochs other before epoch held'
  · intro i a there
    obtain ⟨status', epoch, held, le⟩ := watched.past_modify same there
    obtain ⟨after, held'⟩ := stops.forth held
    exact ⟨after, epoch, held', le⟩
  · intro other epoch held
    obtain ⟨apart, held'⟩ := stops.stillActive held
    obtain ⟨i, a, entry, there, named, epoch', unsettled⟩ := watched.watched other epoch held'
    have elsewhere : x ≠ i := by
      rintro rfl
      rw [found] at there
      obtain rfl := Option.some.inj there
      exact apart named.symm
    exact ⟨i, a, entry, by rw [modify_getElem? there, if_neg elsewhere], named, epoch', unsettled⟩
  · intro i a there unsettled
    obtain ⟨old, found', rfl⟩ := getElem?_modify there
    by_cases here : x = i
    · subst here
      rw [found] at found'
      obtain rfl := Option.some.inj found'
      simp only [if_true, settled] at unsettled
      cases unsettled
    · simp only [here, if_false] at unsettled ⊢
      exact watched.held i old found' unsettled
  · intro other i inside
    obtain ⟨a, there, named, ready⟩ := watched.entries other i inside
    refine ⟨if x = i then change a else a, modify_getElem? there, ?_⟩
    by_cases here : x = i
    · subst here
      rw [found] at there
      obtain rfl := Option.some.inj there
      simp only [if_true, same.runId, settled]
      exact ⟨named, fun none' => by cases none'⟩
    · simp only [here, if_false]
      refine ⟨named, fun unsettled => ?_⟩
      by_cases mine : other = e.runId
      · subst mine
        exact absurd (watched.entry_current found rfl current inside there unsettled).symm here
      · rw [stops.elsewhere other mine]
        exact ready unsettled

theorem reap (watched : Watched n glance active retiring executions) (terminal : Text → Bool)
    (gone : ∀ runId, terminal runId = true → ∀ epoch, glance runId ≠ some (.active, epoch)) :
    let parted := active.partition fun entry => terminal entry.1
    Watched n glance parted.2
      ((retiring ++ parted.1).filter fun entry => !(executions[entry.2]?).any Execution.isDone) executions := by
  intro parted
  have still : parted.2 = active.filter fun entry => !terminal entry.1 := by
    simp only [parted, List.partition_eq_filter_filter]
    rfl
  have ended : parted.1 = active.filter fun entry => terminal entry.1 := by
    simp only [parted, List.partition_eq_filter_filter]
  refine
    { keys := ?_
      bound := ?_
      epochs := watched.epochs
      past := watched.past
      once := watched.once
      watched := ?_
      held := ?_
      entries := ?_ }
  · rw [still]
    exact watched.keys.sublist (List.filter_sublist.map _)
  · have parts : parted.1.length + parted.2.length = active.length := by
      rw [still, ended]
      exact (List.length_eq_length_filter_add _).symm
    have fewer := List.length_filter_le (fun entry => !(executions[entry.2]?).any Execution.isDone) (retiring ++ parted.1)
    have bound := watched.bound
    rw [List.length_append] at fewer
    omega
  · intro runId epoch held
    obtain ⟨i, e, entry, rest⟩ := watched.watched runId epoch held
    refine ⟨i, e, ?_, rest⟩
    have goes : terminal runId = false := by
      cases case : terminal runId with
      | false => rfl
      | true => exact absurd held (gone runId case epoch)
    have member : (runId, i) ∈ parted.2 := by
      rw [still]
      exact List.mem_filter.mpr ⟨InsertionMap.get_mem entry, by simp [goes]⟩
    have keys : (InsertionMap.keys parted.2).Nodup := by
      rw [still]
      exact watched.keys.sublist (List.filter_sublist.map _)
    exact (InsertionMap.mem_get keys).mp member
  · intro i e there unsettled
    have open' : (!(executions[i]?).any Execution.isDone) = true := by
      rw [there]
      cases phase : e.phase <;> simp_all [Execution.isDone, Execution.unsettled]
    rcases watched.held i e there unsettled with inside | waiting
    · cases case : terminal e.runId with
      | false =>
          refine .inl ?_
          rw [still]
          exact List.mem_filter.mpr ⟨inside, by simp [case]⟩
      | true =>
          refine .inr (List.mem_filter.mpr ⟨List.mem_append_right _ ?_, open'⟩)
          rw [ended]
          exact List.mem_filter.mpr ⟨inside, case⟩
    · exact .inr (List.mem_filter.mpr ⟨List.mem_append_left _ waiting, open'⟩)
  · intro runId i inside
    rw [still] at inside
    exact watched.entries runId i (List.mem_filter.mp inside).1

/-- A run becomes active at an epoch that none of its executions has, and gets an execution. -/
structure Launches (n : Nat) (glance glance' : Glance) (active : InsertionMap Text Nat)
    (executions : List Execution) (runId : Text) (epoch : Nat) (execution : Execution) : Prop where
  becomes : glance' runId = some (.active, epoch)
  elsewhere : ∀ other, other ≠ runId → glance' other = glance other
  small : epoch ≤ n
  new : ∀ (i : Nat) (e : Execution), executions[i]? = some e → e.runId = runId → e.epoch < epoch
  idle : ∀ i, (runId, i) ∈ active → ∀ e, executions[i]? = some e → e.unsettled = false
  named : execution.runId = runId
  current : execution.epoch = epoch
  open' : execution.unsettled

section Launching

variable {runId : Text} {epoch : Nat} {execution : Execution}

theorem launch_epochs (watched : Watched n glance active retiring executions)
    (launches : Launches n glance glance' active executions runId epoch execution) (other : Text)
    (status : WorkflowRunStatus) (epoch' : Nat) (held : glance' other = some (status, epoch')) : epoch' ≤ n := by
  by_cases here : other = runId
  · rw [here, launches.becomes] at held
    cases held
    exact launches.small
  · rw [launches.elsewhere other here] at held
    exact watched.epochs other status epoch' held

theorem launch_past (watched : Watched n glance active retiring executions)
    (launches : Launches n glance glance' active executions runId epoch execution) (i : Nat) (e : Execution)
    (there : (executions ++ [execution])[i]? = some e) :
    ∃ status epoch, glance' e.runId = some (status, epoch) ∧ e.epoch ≤ epoch := by
  rcases getElem?_concat there with old | ⟨-, rfl⟩
  · obtain ⟨status, epoch', held, le⟩ := watched.past i e old
    by_cases here : e.runId = runId
    · exact ⟨.active, epoch, here ▸ launches.becomes, (launches.new i e old here).le⟩
    · exact ⟨status, epoch', by rw [launches.elsewhere _ here]; exact held, le⟩
  · exact ⟨.active, epoch, launches.named ▸ launches.becomes, launches.current.le⟩

theorem launch_once (watched : Watched n glance active retiring executions)
    (launches : Launches n glance glance' active executions runId epoch execution) (i j : Nat) (a b : Execution)
    (thereA : (executions ++ [execution])[i]? = some a) (thereB : (executions ++ [execution])[j]? = some b)
    (runs : a.runId = b.runId) (epochs : a.epoch = b.epoch) : i = j := by
  have named := launches.named
  have current := launches.current
  rcases getElem?_concat thereA with oldA | ⟨lastA, newA⟩
  · rcases getElem?_concat thereB with oldB | ⟨lastB, newB⟩
    · exact watched.once i j a b oldA oldB runs epochs
    · subst newB
      have before := launches.new i a oldA (runs.trans named)
      omega
  · rcases getElem?_concat thereB with oldB | ⟨lastB, newB⟩
    · subst newA
      have before := launches.new j b oldB (runs.symm.trans named)
      omega
    · exact lastA.trans lastB.symm

theorem launch_watched (watched : Watched n glance active retiring executions)
    (launches : Launches n glance glance' active executions runId epoch execution) (other : Text) (epoch' : Nat)
    (held : glance' other = some (.active, epoch')) :
    ∃ (i : Nat) (e : Execution), (active.set runId executions.length).get other = some i ∧
      (executions ++ [execution])[i]? = some e ∧ e.runId = other ∧ e.epoch = epoch' ∧ e.unsettled := by
  by_cases here : other = runId
  · subst here
    rw [launches.becomes] at held
    cases held
    exact ⟨executions.length, execution, by rw [InsertionMap.get_set, if_pos rfl], List.getElem?_concat_length,
      launches.named, launches.current, launches.open'⟩
  · rw [launches.elsewhere other here] at held
    obtain ⟨i, e, entry, there, rest⟩ := watched.watched other epoch' held
    exact ⟨i, e, by rw [InsertionMap.get_set, if_neg here]; exact entry, concat_getElem? there, rest⟩

theorem launch_held (watched : Watched n glance active retiring executions)
    (launches : Launches n glance glance' active executions runId epoch execution) (i : Nat) (e : Execution)
    (there : (executions ++ [execution])[i]? = some e) (unsettled : e.unsettled) :
    (e.runId, i) ∈ active.set runId executions.length ∨ (e.runId, i) ∈ retiring := by
  have keys := InsertionMap.keys_set_nodup watched.keys runId executions.length
  rcases getElem?_concat there with old | ⟨rfl, rfl⟩
  · rcases watched.held i e old unsettled with inside | waiting
    · by_cases here : e.runId = runId
      · rw [launches.idle i (here ▸ inside) e old] at unsettled
        cases unsettled
      · refine .inl ((InsertionMap.mem_get keys).mpr ?_)
        rw [InsertionMap.get_set, if_neg here]
        exact (InsertionMap.mem_get watched.keys).mp inside
    · exact .inr waiting
  · refine .inl ((InsertionMap.mem_get keys).mpr ?_)
    rw [InsertionMap.get_set, if_pos launches.named]

theorem launch_entries (watched : Watched n glance active retiring executions)
    (launches : Launches n glance glance' active executions runId epoch execution) (other : Text) (i : Nat)
    (inside : (other, i) ∈ active.set runId executions.length) :
    ∃ e : Execution, (executions ++ [execution])[i]? = some e ∧ e.runId = other ∧
      (e.unsettled → ∃ status, glance' other = some (status, e.epoch) ∧ (status = .active ∨ status.isTerminal)) := by
  have keys := InsertionMap.keys_set_nodup watched.keys runId executions.length
  have entry := (InsertionMap.mem_get keys).mp inside
  rw [InsertionMap.get_set] at entry
  by_cases here : other = runId
  · rw [if_pos here] at entry
    obtain rfl := Option.some.inj entry
    refine ⟨execution, List.getElem?_concat_length, launches.named.trans here.symm, fun _ => ?_⟩
    exact ⟨.active, by rw [here, launches.becomes, launches.current], .inl rfl⟩
  · rw [if_neg here] at entry
    obtain ⟨e, there, named', ready⟩ := watched.entries other i ((InsertionMap.mem_get watched.keys).mpr entry)
    refine ⟨e, concat_getElem? there, named', fun unsettled => ?_⟩
    rw [launches.elsewhere other here]
    exact ready unsettled

theorem launch (watched : Watched n glance active retiring executions)
    (launches : Launches n glance glance' active executions runId epoch execution)
    (room : active.length + retiring.length < workflowMaxActiveRunsPerSession) :
    Watched n glance' (active.set runId executions.length) retiring (executions ++ [execution]) where
  keys := InsertionMap.keys_set_nodup watched.keys runId executions.length
  bound := by
    have grown := InsertionMap.length_set_le active runId executions.length
    omega
  epochs := watched.launch_epochs launches
  past := watched.launch_past launches
  once := watched.launch_once launches
  watched := watched.launch_watched launches
  held := watched.launch_held launches
  entries := watched.launch_entries launches

end Launching

theorem renew (watched : Watched n glance active retiring executions) {runId : Text}
    {epoch : Nat} (becomes : glance' runId = some (status, epoch))
    (elsewhere : ∀ other, other ≠ runId → glance' other = glance other) (stopped : status ≠ .active) (small : epoch ≤ n)
    (past : ∀ (i : Nat) (e : Execution), executions[i]? = some e → e.runId = runId → e.epoch ≤ epoch)
    (idle : ∀ i, (runId, i) ∈ active → ∀ e, executions[i]? = some e → e.unsettled = false) :
    Watched n glance' active retiring executions :=
  { keys := watched.keys
    bound := watched.bound
    epochs := fun other status' epoch' held => by
      by_cases here : other = runId
      · subst here
        rw [becomes] at held
        cases held
        exact small
      · rw [elsewhere other here] at held
        exact watched.epochs other status' epoch' held
    past := fun i e there => by
      by_cases here : e.runId = runId
      · exact ⟨status, epoch, here ▸ becomes, past i e there here⟩
      · obtain ⟨status', epoch', held, le⟩ := watched.past i e there
        exact ⟨status', epoch', (elsewhere _ here).trans held, le⟩
    once := watched.once
    watched := fun other epoch' held => by
      by_cases here : other = runId
      · subst here
        rw [becomes] at held
        cases held
        exact absurd rfl stopped
      · rw [elsewhere other here] at held
        exact watched.watched other epoch' held
    held := watched.held
    entries := fun other i inside => by
      obtain ⟨e, there, named, ready⟩ := watched.entries other i inside
      refine ⟨e, there, named, fun unsettled => ?_⟩
      by_cases here : other = runId
      · subst here
        rw [idle i inside e there] at unsettled
        cases unsettled
      · rw [elsewhere other here]
        exact ready unsettled }

theorem retire (watched : Watched n glance active retiring executions) {runId : Text} {x : Nat}
    (found : active.get runId = some x) (same : Same change)
    (settles : ∀ e, (change e).unsettled = e.unsettled) (stops : Stops runId glance glance') :
    Watched n glance' (active.erase runId) (retiring ++ [(runId, x)]) (executions.modify x change) := by
  have entry : (runId, x) ∈ active := InsertionMap.get_mem found
  refine
    { keys := ?_
      bound := ?_
      epochs := ?_
      past := ?_
      once := ?_
      watched := ?_
      held := ?_
      entries := ?_ }
  · exact watched.keys.sublist (List.filter_sublist.map _)
  · have fewer : (active.erase runId).length + 1 ≤ active.length := by
      have shorter : (active.erase runId).length < active.length :=
        List.length_filter_lt_length_iff_exists.mpr ⟨_, entry, by simp⟩
      omega
    have bound := watched.bound
    simp only [List.length_append, List.length_singleton]
    omega
  · intro other status epoch held
    obtain ⟨before, held'⟩ := stops.back held
    exact watched.epochs other before epoch held'
  · intro i e there
    obtain ⟨status, epoch, held, le⟩ := watched.past_modify same there
    obtain ⟨after, held'⟩ := stops.forth held
    exact ⟨after, epoch, held', le⟩
  · exact fun _ _ _ _ thereA thereB => watched.once_modify same thereA thereB
  · intro other epoch held
    obtain ⟨apart, held'⟩ := stops.stillActive held
    obtain ⟨i, e, entry', there, named, epoch', unsettled⟩ := watched.watched other epoch held'
    have elsewhere : x ≠ i := by
      rintro rfl
      obtain ⟨e', there', named', -⟩ := watched.entries runId x entry
      rw [there] at there'
      obtain rfl := Option.some.inj there'
      exact apart (named.symm.trans named')
    refine ⟨i, e, ?_, ?_, named, epoch', unsettled⟩
    · rw [InsertionMap.get_erase, if_neg apart]
      exact entry'
    · rw [modify_getElem? there, if_neg elsewhere]
  · intro i e there unsettled
    obtain ⟨old, found', rfl⟩ := getElem?_modify there
    have unsettled' : old.unsettled := by
      split at unsettled
      · rwa [settles] at unsettled
      · exact unsettled
    have named : (if x = i then change old else old).runId = old.runId := by
      split
      · exact same.runId old
      · rfl
    rw [named]
    rcases watched.held i old found' unsettled' with inside | waiting
    · by_cases here : old.runId = runId
      · have one : x = i := by
          have first : active.get old.runId = some i := (InsertionMap.mem_get watched.keys).mp inside
          rw [here, found] at first
          exact Option.some.inj first
        exact .inr (by rw [here, one]; simp)
      · refine .inl (List.mem_filter.mpr ⟨inside, ?_⟩)
        simpa using here
    · exact .inr (List.mem_append_left _ waiting)
  · intro other i inside
    obtain ⟨inside', apart⟩ := List.mem_filter.mp inside
    have elsewhere : other ≠ runId := by simpa using apart
    obtain ⟨e, there, named, current⟩ := watched.entries other i inside'
    have differs : x ≠ i := by
      rintro rfl
      obtain ⟨e', there', named', -⟩ := watched.entries runId x entry
      rw [there] at there'
      obtain rfl := Option.some.inj there'
      exact elsewhere (named.symm.trans named')
    refine ⟨e, by rw [modify_getElem? there, if_neg differs], named, fun unsettled => ?_⟩
    rw [stops.elsewhere other elsewhere]
    exact current unsettled

end Watched

namespace Told

theorem modify (told : Told glance executions) {change : Execution → Execution} (same : Same change) {x : Nat}
    (fewer : ∀ e, (change e).unsettled → e.unsettled) (more : ∀ e, (change e).cancel = false → e.cancel = false) :
    Told glance (executions.modify x change) := by
  intro i e there unsettled uncancelled
  obtain ⟨old, found, rfl⟩ := getElem?_modify there
  by_cases here : x = i
  · simp only [here, if_true, same.runId, same.epoch] at unsettled uncancelled ⊢
    exact told i old found (fewer old unsettled) (more old uncancelled)
  · simp only [here, if_false] at unsettled uncancelled ⊢
    exact told i old found unsettled uncancelled

theorem elsewhere (told : Told glance executions) {runId : Text}
    (same : ∀ other, other ≠ runId → glance' other = glance other)
    (stopped : ∀ epoch, glance runId ≠ some (.active, epoch)) : Told glance' executions := by
  intro i e there unsettled uncancelled
  have before := told i e there unsettled uncancelled
  have apart : e.runId ≠ runId := by
    intro named
    rw [named] at before
    exact stopped _ before
  rw [same _ apart]
  exact before

theorem stop (told : Told glance executions) {runId : Text} (stops : Stops runId glance glance') {x : Nat}
    {change : Execution → Execution} (same : Same change) (fewer : ∀ e, (change e).unsettled → e.unsettled)
    (more : ∀ e, (change e).cancel = false → e.cancel = false)
    (mine : ∀ i e, executions[i]? = some e → e.runId = runId → glance runId = some (.active, e.epoch) → i = x)
    (ends : ∀ e, executions[x]? = some e → e.runId = runId → (change e).unsettled = false ∨ (change e).cancel = true) :
    Told glance' (executions.modify x change) := by
  intro i e there unsettled uncancelled
  have before := told.modify same fewer more (x := x) i e there unsettled uncancelled
  obtain ⟨old, found, rfl⟩ := getElem?_modify there
  by_cases named : old.runId = runId
  · have named' : (if x = i then change old else old).runId = runId := by
      split
      · exact (same.runId old).trans named
      · exact named
    have epoch : (if x = i then change old else old).epoch = old.epoch := by
      split
      · exact same.epoch old
      · rfl
    rw [named', epoch] at before
    obtain rfl := mine i old found named before
    simp only [if_true] at unsettled uncancelled
    rcases ends old found named with settled | cancelled
    · rw [settled] at unsettled
      cases unsettled
    · rw [cancelled] at uncancelled
      cases uncancelled
  · have apart : (if x = i then change old else old).runId ≠ runId := by
      split
      · rw [same.runId]
        exact named
      · exact named
    rw [stops.elsewhere _ apart]
    exact before

theorem launch (told : Told glance executions) {runId : Text} {epoch : Nat}
    (becomes : glance' runId = some (.active, epoch)) (elsewhere : ∀ other, other ≠ runId → glance' other = glance other)
    (stopped : ∀ epoch, glance runId ≠ some (.active, epoch)) {execution : Execution} (named : execution.runId = runId)
    (current : execution.epoch = epoch) : Told glance' (executions ++ [execution]) := by
  intro i e there unsettled uncancelled
  rcases getElem?_concat there with old | ⟨-, rfl⟩
  · have before := told i e old unsettled uncancelled
    have apart : e.runId ≠ runId := by
      intro same
      rw [same] at before
      exact stopped _ before
    rw [elsewhere _ apart]
    exact before
  · rw [named, current]
    exact becomes

end Told

end Invariant

section Steps

open WorkflowTracker

namespace Manager

abbrev Kept (n : Nat) (manager : Manager) : Prop :=
  Watched n manager.tracker.glance manager.active manager.retiring manager.executions

abbrev AllTold (manager : Manager) : Prop := Told manager.tracker.glance manager.executions

variable {n : Nat} {manager : Manager}

theorem terminal_glance (manager : Manager) (runId : Text) :
    manager.terminal runId = (manager.tracker.glance runId).any fun held => held.1.isTerminal := by
  simp only [terminal, WorkflowTracker.get, glance]
  cases manager.tracker.run? runId <;> rfl

variable {runId : Text}

theorem terminal_stopped (over' : manager.terminal runId = true) (epoch : Nat) :
    manager.tracker.glance runId ≠ some (.active, epoch) := by
  intro held
  rw [terminal_glance, held] at over'
  cases over'

theorem stops_here (stopped : ∀ epoch, manager.tracker.glance runId ≠ some (.active, epoch)) :
    Stops runId manager.tracker.glance manager.tracker.glance :=
  ⟨fun _ _ => rfl, rfl, stopped⟩

theorem same_id : Same (fun e => e) := ⟨fun _ => rfl, fun _ => rfl⟩

theorem reapTerminalRuns_kept (kept : manager.Kept n) : manager.reapTerminalRuns.Kept n :=
  kept.reap manager.terminal fun _ over' epoch => terminal_stopped over' epoch

theorem reapTerminalRuns_active {i : Nat} (inside : (runId, i) ∈ manager.reapTerminalRuns.active) :
    manager.terminal runId = false := by
  simp only [reapTerminalRuns, List.partition_eq_filter_filter, List.mem_filter] at inside
  simpa using inside.2

theorem modify_id (executions : List Execution) (x : Nat) : executions.modify x (fun e => e) = executions := by
  apply List.ext_getElem?
  intro i
  rw [List.getElem?_modify]
  cases executions[i]? <;> simp

theorem reapIfTerminal_kept (kept : manager.Kept n) (runId : Text) : (manager.reapIfTerminal runId).2.Kept n := by
  unfold reapIfTerminal
  split
  next over' =>
    split
    next execution found =>
      have retired := kept.retire found same_id (fun _ => rfl) (stops_here (terminal_stopped over'))
      rw [modify_id] at retired
      exact retired
    next => exact kept
  next => exact kept

theorem reapIfTerminal_told (told : manager.AllTold) (runId : Text) : (manager.reapIfTerminal runId).2.AllTold := by
  unfold reapIfTerminal
  split
  · split <;> exact told
  · exact told

theorem reapIfTerminal_not (running : (manager.reapIfTerminal runId).1 = false) :
    manager.terminal runId = false ∧ (manager.reapIfTerminal runId).2 = manager := by
  unfold reapIfTerminal at running ⊢
  split at running
  · split at running <;> cases running
  next going => simp [going]

theorem glance_epoch (tracker : WorkflowTracker) (runId : Text) :
    tracker.executionEpoch runId = (tracker.glance runId).map Prod.snd := by
  simp only [executionEpoch, glance]
  cases tracker.run? runId <;> rfl

theorem glance_get (tracker : WorkflowTracker) (runId : Text) :
    (tracker.glance runId).map Prod.fst = (tracker.get runId).map WorkflowRunState.status := by
  simp only [WorkflowTracker.get, glance]
  cases tracker.run? runId <;> rfl

variable {tracker : WorkflowTracker}

theorem launched_kept (kept : manager.Kept n) (room : manager.full = false)
    {epoch : Nat} (becomes : tracker.glance runId = some (.active, epoch))
    (elsewhere : ∀ other, other ≠ runId → tracker.glance other = manager.tracker.glance other) (small : epoch ≤ n)
    (new : ∀ (i : Nat) (e : Execution), manager.executions[i]? = some e → e.runId = runId → e.epoch < epoch)
    (idle : ∀ i, (runId, i) ∈ manager.active → ∀ e, manager.executions[i]? = some e → e.unsettled = false) :
    ((manager.withTracker tracker).launched runId).Kept n := by
  refine kept.launch
    { becomes := becomes
      elsewhere := elsewhere
      small := small
      new := new
      idle := idle
      named := rfl
      current := ?_
      open' := rfl } ?_
  · simp only [withTracker, glance_epoch, becomes, Option.map_some, Option.getD_some]
  · simpa [full] using room

theorem launched_told (told : manager.AllTold) {epoch : Nat}
    (becomes : tracker.glance runId = some (.active, epoch))
    (elsewhere : ∀ other, other ≠ runId → tracker.glance other = manager.tracker.glance other)
    (stopped : ∀ epoch, manager.tracker.glance runId ≠ some (.active, epoch)) :
    ((manager.withTracker tracker).launched runId).AllTold := by
  refine told.launch becomes elsewhere stopped rfl ?_
  simp only [withTracker, glance_epoch, becomes, Option.map_some, Option.getD_some]

theorem launchNew_cases (manager : Manager) (fresh : manager.tracker.glance runId = none)
    (surroundings : LaunchSurroundings) (moment : Moment) (name objective : Text) (phases : List PhaseMeta)
    (agentBudget : Option Nat) :
    let after := (manager.launchNew surroundings moment runId name objective phases agentBudget).2
    let reaped := manager.reapTerminalRuns
    after = reaped ∨ reaped.full = false ∧ ∃ tracker,
      (∀ other, tracker.glance other = if other = runId then some (.active, 0) else reaped.tracker.glance other) ∧
        after = (reaped.withTracker tracker).launched runId := by
  intro after reaped
  have fresh' : reaped.tracker.glance runId = none := fresh
  have started := startRun_glance reaped.tracker fresh' moment name objective phases
  simp only [after, launchNew]
  cases room : reaped.full with
  | true => simp [reaped]
  | false =>
      cases surroundings.store with
      | some error => simp [reaped]
      | none =>
          cases surroundings.persistError with
          | some error =>
              refine .inl ?_
              simp only [reaped] at fresh' ⊢
              simp only [Bool.false_eq_true, if_false, withTracker, startRun_clearRun _ fresh']
          | none =>
              refine .inr ⟨rfl, _, started (some (agentBudget.getD workflowDefaultAgentBudget))
                (if manager.reapTerminalRuns.sessionDir then some (journalRel runId) else none), ?_⟩
              simp only [reaped, Bool.false_eq_true, if_false]

theorem launchNew_kept (kept : manager.Kept n) (fresh : manager.tracker.glance runId = none)
    (surroundings : LaunchSurroundings) (moment : Moment) (name objective : Text) (phases : List PhaseMeta)
    (agentBudget : Option Nat) :
    (manager.launchNew surroundings moment runId name objective phases agentBudget).2.Kept n := by
  have reaped := reapTerminalRuns_kept kept
  have fresh' : manager.reapTerminalRuns.tracker.glance runId = none := fresh
  have unknown (i : Nat) (e : Execution) (there : manager.reapTerminalRuns.executions[i]? = some e) :
      e.runId ≠ runId := by
    rintro rfl
    obtain ⟨status, epoch, held, -⟩ := reaped.past i e there
    rw [fresh'] at held
    cases held
  rcases launchNew_cases manager fresh surroundings moment name objective phases agentBudget with
    same | ⟨room, tracker, becomes, launched⟩
  · rw [same]
    exact reaped
  · rw [launched]
    refine launched_kept reaped room ((becomes runId).trans (if_pos rfl))
      (fun other apart => (becomes other).trans (if_neg apart)) (Nat.zero_le n) ?_ ?_
    · intro i e there named
      exact absurd named (unknown i e there)
    · intro i inside e there
      obtain ⟨e', there', named, -⟩ := reaped.entries runId i inside
      exact absurd named (unknown i e' there')

theorem launchNew_told (told : manager.AllTold) (fresh : manager.tracker.glance runId = none)
    (surroundings : LaunchSurroundings) (moment : Moment) (name objective : Text) (phases : List PhaseMeta)
    (agentBudget : Option Nat) :
    (manager.launchNew surroundings moment runId name objective phases agentBudget).2.AllTold := by
  have reaped : manager.reapTerminalRuns.AllTold := told
  have fresh' : manager.reapTerminalRuns.tracker.glance runId = none := fresh
  rcases launchNew_cases manager fresh surroundings moment name objective phases agentBudget with
    same | ⟨-, tracker, becomes, launched⟩
  · rw [same]
    exact reaped
  · rw [launched]
    refine launched_told reaped ((becomes runId).trans (if_pos rfl))
      (fun other apart => (becomes other).trans (if_neg apart)) ?_
    intro epoch held
    rw [fresh'] at held
    cases held

theorem launchResume_cases (manager : Manager) (surroundings : LaunchSurroundings) (moment : Moment) (runId : Text)
    (newAgentBudget : Option Nat) :
    let after := (manager.launchResume surroundings moment runId newAgentBudget).2
    let reaped := manager.reapTerminalRuns
    (∃ tracker : WorkflowTracker, tracker.glance = reaped.tracker.glance ∧ after = reaped.withTracker tracker) ∨
      reaped.full = false ∧ ∃ tracker status epoch, reaped.tracker.glance runId = some (status, epoch) ∧
        status.isResumable ∧
        (∀ other, tracker.glance other =
          if other = runId then some (.active, (epoch + 1) % 2 ^ 64) else reaped.tracker.glance other) ∧
        (after = (reaped.withTracker tracker).launched runId ∨
          after = reaped.withTracker (tracker.changeRun runId (interrupt moment notPersisted))) := by
  intro after reaped
  have unchanged : reaped = reaped.withTracker reaped.tracker := rfl
  simp only [after, launchResume]
  cases room : reaped.full with
  | true => exact .inl ⟨_, rfl, unchanged⟩
  | false =>
      simp only [reaped, Bool.false_eq_true, if_false] at unchanged ⊢
      cases found : manager.reapTerminalRuns.tracker.get runId with
      | none => exact .inl ⟨_, rfl, unchanged⟩
      | some existing =>
          dsimp only
          cases refused : manager.reapTerminalRuns.resumeRefused surroundings runId existing with
          | some error => exact .inl ⟨_, rfl, unchanged⟩
          | none =>
              cases surroundings.journal with
              | error error => exact .inl ⟨_, rfl, unchanged⟩
              | ok reservations =>
                  dsimp only
                  have same := glance_same manager.reapTerminalRuns.tracker (reconcile_turns reservations) runId
                  rcases resumeRun_glance
                    (manager.reapTerminalRuns.tracker.changeRun runId (.change (reconcile reservations))) moment
                    runId newAgentBudget with refusal | ⟨state, tracker, status, epoch, resumes, held, may, becomes⟩
                  · refine .inl ⟨_, same, ?_⟩
                    rw [refusal]
                    dsimp only
                    split <;> rfl
                  · rw [same] at held becomes
                    refine .inr ⟨trivial, tracker, status, epoch, held, may, becomes, ?_⟩
                    rw [resumes]
                    cases surroundings.persistError with
                    | none => exact .inl rfl
                    | some error => exact .inr rfl

theorem resumable_stopped {status : WorkflowRunStatus} (may : status.isResumable) : status ≠ .active := by
  rintro rfl
  cases may

theorem launchResume_kept (kept : manager.Kept n) (small : n + 1 < 2 ^ 64) (surroundings : LaunchSurroundings)
    (moment : Moment) (runId : Text) (newAgentBudget : Option Nat) :
    (manager.launchResume surroundings moment runId newAgentBudget).2.Kept (n + 1) := by
  have reaped := reapTerminalRuns_kept kept
  rcases launchResume_cases manager surroundings moment runId newAgentBudget with
    ⟨tracker, same, after⟩ | ⟨room, tracker, status, epoch, held, may, becomes, after⟩
  · rw [after]
    have watched := reaped.mono (Nat.le_succ n)
    rw [← same] at watched
    exact watched
  · have bounded := reaped.epochs runId status epoch held
    have next : (epoch + 1) % 2 ^ 64 = epoch + 1 := Nat.mod_eq_of_lt (by omega)
    rw [next] at becomes
    have current := (becomes runId).trans (if_pos rfl)
    have elsewhere (other : Text) (apart : other ≠ runId) := (becomes other).trans (if_neg apart)
    have past (i : Nat) (e : Execution) (there : manager.reapTerminalRuns.executions[i]? = some e)
        (named : e.runId = runId) : e.epoch < epoch + 1 := by
      obtain ⟨status', epoch', held', le⟩ := reaped.past i e there
      rw [named, held] at held'
      cases held'
      exact Nat.lt_succ_of_le le
    -- the run is resumable, and was it over, it would have been reaped
    have idle (i : Nat) (inside : (runId, i) ∈ manager.reapTerminalRuns.active) (e : Execution)
        (there : manager.reapTerminalRuns.executions[i]? = some e) : e.unsettled = false := by
      cases case : e.unsettled with
      | false => rfl
      | true =>
          obtain ⟨e', there', -, ready⟩ := reaped.entries runId i inside
          obtain rfl := Option.some.inj (there.symm.trans there')
          obtain ⟨status', held', either⟩ := ready case
          rw [held] at held'
          cases held'
          rcases either with active | terminal
          · exact absurd active (resumable_stopped may)
          · have running := reapTerminalRuns_active inside
            have held'' : manager.tracker.glance runId = some (status, e.epoch) := held
            rw [terminal_glance, held''] at running
            simp [terminal] at running
    have grown := reaped.mono (Nat.le_succ n)
    rcases after with launched | interrupted
    · rw [launched]
      exact launched_kept grown room current elsewhere (by omega) past idle
    · rw [interrupted]
      have turned := glance_changeRun tracker (interrupt_turns moment notPersisted) runId
      have stopped : WorkflowRunStatus.interrupted ≠ .active := by simp
      refine grown.renew ?_ (fun other apart => ?_) stopped (Nat.succ_le_succ bounded)
        (fun i e there named => (past i e there named).le) idle
      · simp only [withTracker, turned, if_true, current, Option.map_some]
      · simp only [withTracker, turned, if_neg apart]
        exact elsewhere other apart

theorem launchResume_told (told : manager.AllTold) (surroundings : LaunchSurroundings) (moment : Moment) (runId : Text)
    (newAgentBudget : Option Nat) : (manager.launchResume surroundings moment runId newAgentBudget).2.AllTold := by
  have reaped : manager.reapTerminalRuns.AllTold := told
  rcases launchResume_cases manager surroundings moment runId newAgentBudget with
    ⟨tracker, same, after⟩ | ⟨-, tracker, status, epoch, held, may, becomes, after⟩
  · rw [after]
    rw [AllTold, ← same] at reaped
    exact reaped
  · have elsewhere (other : Text) (apart : other ≠ runId) := (becomes other).trans (if_neg apart)
    have stopped (epoch' : Nat) : manager.reapTerminalRuns.tracker.glance runId ≠ some (.active, epoch') := by
      rw [held]
      rintro ⟨⟩
      exact resumable_stopped may rfl
    rcases after with launched | interrupted
    · rw [launched]
      exact launched_told reaped ((becomes runId).trans (if_pos rfl)) elsewhere stopped
    · rw [interrupted]
      refine reaped.elsewhere (fun other apart => ?_) stopped
      simp only [withTracker, glance_changeRun tracker (interrupt_turns moment notPersisted), if_neg apart]
      exact elsewhere other apart

theorem reapIfTerminal_cases (manager : Manager) (runId : Text) :
    (manager.reapIfTerminal runId).1 = true ∨
      manager.terminal runId = false ∧ manager.reapIfTerminal runId = (false, manager) := by
  cases running : (manager.reapIfTerminal runId).1 with
  | true => exact .inl rfl
  | false =>
      obtain ⟨going, same⟩ := reapIfTerminal_not running
      exact .inr ⟨going, Prod.ext running same⟩

theorem retire_kept (kept : manager.Kept n) {x : Nat} (found : manager.active.get runId = some x)
    {change : Execution → Execution} (same : Same change) (settles : ∀ e, (change e).unsettled = e.unsettled)
    {turn : WorkflowRunStatus → WorkflowRunStatus} {turned : TrackedRun → TrackedRun} (turns : Turns turned turn)
    (stops : ∀ status, turn status ≠ .active) :
    (((manager.retire runId x).changeExecution x change).withTracker
      (manager.tracker.changeRun runId turned)).Kept n :=
  kept.retire found same settles (stops_of_turn _ turns stops runId)

theorem retire_told (kept : manager.Kept n) (told : manager.AllTold) {x : Nat}
    (found : manager.active.get runId = some x) {change : Execution → Execution} (same : Same change)
    (settles : ∀ e, (change e).unsettled = e.unsettled) (ends : ∀ e, (change e).cancel = true)
    {turn : WorkflowRunStatus → WorkflowRunStatus} {turned : TrackedRun → TrackedRun} (turns : Turns turned turn)
    (stops : ∀ status, turn status ≠ .active) :
    (((manager.retire runId x).changeExecution x change).withTracker
      (manager.tracker.changeRun runId turned)).AllTold := by
  refine told.stop (stops_of_turn _ turns stops runId) same (fun e open' => (settles e).symm.trans open')
    (fun e uncancelled => ?_) ?_ fun e _ _ => .inr (ends e)
  · rw [ends] at uncancelled
    cases uncancelled
  · intro i e there named active
    obtain ⟨j, e', entry, there', named', epoch, -⟩ := kept.watched runId e.epoch active
    rw [found] at entry
    obtain rfl := Option.some.inj entry
    exact kept.once i x e e' there there' (named.trans named'.symm) epoch.symm

theorem pauseExecution_same : Same fun e => { e with pauseIntent := true, cancel := true } :=
  ⟨fun _ => rfl, fun _ => rfl⟩

theorem cancelExecution_same : Same fun e => { e with cancel := true } := ⟨fun _ => rfl, fun _ => rfl⟩

theorem pause_kept (kept : manager.Kept n) (moment : Moment) (runId : Text) : (manager.pause moment runId).2.Kept n := by
  rcases reapIfTerminal_cases manager runId with ended | ⟨going, running⟩
  · simp only [pause, ended, if_true]
    exact reapIfTerminal_kept kept runId
  · simp only [pause, running]
    cases found : manager.active.get runId with
    | none => exact kept
    | some x =>
        have still : ((manager.retire runId x).changeExecution x fun e =>
          { e with pauseIntent := true, cancel := true }).terminal runId = false := going
        simp only [Bool.false_eq_true, if_false, pauseIfRunning, still]
        exact retire_kept kept found pauseExecution_same (fun _ => rfl) (pauseUser_turns moment none) pausedStatus_stops

theorem pause_told (kept : manager.Kept n) (told : manager.AllTold) (moment : Moment) (runId : Text) :
    (manager.pause moment runId).2.AllTold := by
  rcases reapIfTerminal_cases manager runId with ended | ⟨going, running⟩
  · simp only [pause, ended, if_true]
    exact reapIfTerminal_told told runId
  · simp only [pause, running]
    cases found : manager.active.get runId with
    | none => exact told
    | some x =>
        have still : ((manager.retire runId x).changeExecution x fun e =>
          { e with pauseIntent := true, cancel := true }).terminal runId = false := going
        simp only [Bool.false_eq_true, if_false, pauseIfRunning, still]
        exact retire_told kept told found pauseExecution_same (fun _ => rfl) (fun _ => rfl)
          (pauseUser_turns moment none) pausedStatus_stops

theorem cancel_kept (kept : manager.Kept n) (moment : Moment) (runId : Text) :
    (manager.cancel moment runId).2.Kept n := by
  rcases reapIfTerminal_cases manager runId with ended | ⟨going, running⟩
  · simp only [cancel, ended, if_true]
    exact reapIfTerminal_kept kept runId
  · simp only [cancel, running]
    cases found : manager.active.get runId with
    | none =>
        simp only [Bool.false_eq_true, if_false, cancelIfRunning, going]
        refine kept.turn (stops_of_turn _ (applyOutcome_turns moment _) (outcomeStatus_stops _) runId) ?_
        intro i inside
        rw [(InsertionMap.mem_get kept.keys).mp inside] at found
        cases found
    | some x =>
        have still : ((manager.retire runId x).changeExecution x fun e =>
          { e with cancel := true }).terminal runId = false := going
        simp only [Bool.false_eq_true, if_false, cancelIfRunning, still]
        exact retire_kept kept found cancelExecution_same (fun _ => rfl) (applyOutcome_turns moment _)
          (outcomeStatus_stops _)

theorem cancel_told (kept : manager.Kept n) (told : manager.AllTold) (moment : Moment) (runId : Text) :
    (manager.cancel moment runId).2.AllTold := by
  rcases reapIfTerminal_cases manager runId with ended | ⟨going, running⟩
  · simp only [cancel, ended, if_true]
    exact reapIfTerminal_told told runId
  · simp only [cancel, running]
    cases found : manager.active.get runId with
    | none =>
        simp only [Bool.false_eq_true, if_false, cancelIfRunning, going]
        have stops := stops_of_turn manager.tracker (applyOutcome_turns moment .cancelled)
          (outcomeStatus_stops _) runId
        refine told.elsewhere stops.elsewhere fun epoch active => ?_
        obtain ⟨i, e, entry, -⟩ := kept.watched runId epoch active
        rw [found] at entry
        cases entry
    | some x =>
        have still : ((manager.retire runId x).changeExecution x fun e =>
          { e with cancel := true }).terminal runId = false := going
        simp only [Bool.false_eq_true, if_false, cancelIfRunning, still]
        exact retire_told kept told found cancelExecution_same (fun _ => rfl) (fun _ => rfl)
          (applyOutcome_turns moment _) (outcomeStatus_stops _)

theorem controlRun_cases (manager : Manager) (moment : Moment) (key : Text) (control : WorkflowControl) :
    (manager.controlRun moment key control).2 = manager ∨
      ∃ runId, (manager.controlRun moment key control).2 = (manager.pause moment runId).2 ∨
        (manager.controlRun moment key control).2 = (manager.cancel moment runId).2 := by
  unfold controlRun
  split
  · exact .inl rfl
  next run found =>
    split
    · exact .inl rfl
    · refine .inr ⟨run.runId, ?_⟩
      have either : ∀ part : Bool × Manager,
          (if part.1 then (Except.ok run, part.2)
            else (Except.error (ControlError.notApplicable run.name
              (((part.2.tracker.get run.runId).map WorkflowRunState.status).getD run.status) control), part.2)).2 =
            part.2 := by
        intro part
        split <;> rfl
      cases control with
      | pause => exact .inl (either _)
      | stop => exact .inr (either _)

def drained (outcome : WorkflowOutcome) (e : Execution) : Execution :=
  match e.phase with
  | .executing => { e with phase := .draining outcome }
  | _ => e

theorem drained_same (outcome : WorkflowOutcome) : Same (drained outcome) := by
  constructor <;> intro e <;> simp only [drained] <;> split <;> rfl

theorem drained_unsettled (outcome : WorkflowOutcome) (e : Execution) :
    (drained outcome e).unsettled = e.unsettled ∧ (drained outcome e).cancel = e.cancel := by
  simp only [drained]
  split
  next executing => simp [Execution.unsettled, executing]
  next => exact ⟨rfl, rfl⟩

theorem engineEnds_kept (kept : manager.Kept n) (execution : Nat) (outcome : WorkflowOutcome) :
    (manager.engineEnds execution outcome).Kept n :=
  Watched.modify kept (drained_same outcome) (fun e _ open' => (drained_unsettled outcome e).1.symm.trans open')
    fun e _ _ open' => (drained_unsettled outcome e).1.trans open'

theorem engineEnds_told (told : manager.AllTold) (execution : Nat) (outcome : WorkflowOutcome) :
    (manager.engineEnds execution outcome).AllTold :=
  told.modify (drained_same outcome) (fun e open' => (drained_unsettled outcome e).1.symm.trans open')
    fun e uncancelled => (drained_unsettled outcome e).2.symm.trans uncancelled

theorem phase_same (phase : Phase) : Same fun e => { e with phase } := ⟨fun _ => rfl, fun _ => rfl⟩

theorem epoch_held {epoch : Nat}
    (current : tracker.executionEpoch runId = some epoch) : ∃ status, tracker.glance runId = some (status, epoch) := by
  rw [glance_epoch] at current
  obtain ⟨⟨status, epoch'⟩, held, rfl⟩ := Option.map_eq_some_iff.mp current
  exact ⟨status, held⟩

theorem watcherSettles_cases (manager : Manager) (moment : Moment) (x : Nat) (drainFailed : Bool) :
    manager.watcherSettles moment x drainFailed = manager ∨
      ∃ e turn change, manager.executions[x]? = some e ∧ e.unsettled ∧ Turns change turn ∧
        (∀ status, turn status ≠ .active) ∧
        (manager.tracker.executionEpoch e.runId = some e.epoch ∧
            manager.watcherSettles moment x drainFailed =
              (manager.changeExecution x fun e => { e with phase := .persisting }).withTracker
                (manager.tracker.changeRun e.runId change) ∨
          manager.tracker.executionEpoch e.runId ≠ some e.epoch ∧
            manager.watcherSettles moment x drainFailed =
              manager.changeExecution x fun e => { e with phase := .done }) := by
  cases found : manager.executions[x]? with
  | none => exact .inl (by simp only [watcherSettles, found])
  | some e =>
      cases phase : e.phase with
      | draining outcome =>
          obtain ⟨turn, turns, stops⟩ := settlement_turns moment drainFailed e.pauseIntent outcome
          refine .inr ⟨e, turn, _, rfl, by simp [Execution.unsettled, phase], turns, stops, ?_⟩
          by_cases current : manager.tracker.executionEpoch e.runId = some e.epoch
          · exact .inl ⟨current, by simp only [watcherSettles, found, phase, current, if_true]⟩
          · exact .inr ⟨current, by simp only [watcherSettles, found, phase, current, if_false]⟩
      | executing => exact .inl (by simp only [watcherSettles, found, phase])
      | persisting => exact .inl (by simp only [watcherSettles, found, phase])
      | done => exact .inl (by simp only [watcherSettles, found, phase])

theorem watcherSettles_kept (kept : manager.Kept n) (moment : Moment) (x : Nat) (drainFailed : Bool) :
    (manager.watcherSettles moment x drainFailed).Kept n := by
  rcases watcherSettles_cases manager moment x drainFailed with
    same | ⟨e, turn, change, found, -, turns, stops, ⟨current, after⟩ | ⟨superseded, after⟩⟩
  · rw [same]
    exact kept
  · obtain ⟨status, held⟩ := epoch_held current
    rw [after]
    exact Watched.settle kept (phase_same .persisting) found rfl held (stops_of_turn _ turns stops e.runId)
  · rw [after]
    refine Watched.modify kept (phase_same .done) (fun _ _ open' => absurd open' (by simp [Execution.unsettled])) ?_
    intro e' there active
    obtain rfl := Option.some.inj (found.symm.trans there)
    exact absurd (by rw [glance_epoch, active]; rfl) superseded

theorem watcherSettles_told (kept : manager.Kept n) (told : manager.AllTold) (moment : Moment) (x : Nat)
    (drainFailed : Bool) : (manager.watcherSettles moment x drainFailed).AllTold := by
  rcases watcherSettles_cases manager moment x drainFailed with
    same | ⟨e, turn, change, found, open', turns, stops, ⟨current, after⟩ | ⟨superseded, after⟩⟩
  · rw [same]
    exact told
  · obtain ⟨status, held⟩ := epoch_held current
    rw [after]
    refine Told.stop told (stops_of_turn _ turns stops e.runId) (phase_same .persisting)
      (fun _ unsettled => by cases unsettled) (fun _ uncancelled => uncancelled) ?_ fun _ _ _ => .inl rfl
    intro i e' there named active
    rw [held] at active
    exact kept.once i x e' e there found named (Prod.mk.inj (Option.some.inj active)).2.symm
  · rw [after]
    exact told.modify (phase_same .done) (fun _ unsettled => by cases unsettled) fun _ uncancelled => uncancelled

theorem watcherPersists_cases (manager : Manager) (moment : Moment) (x : Nat) (failure : Option Text) :
    manager.watcherPersists moment x failure = manager ∨
      ∃ e, manager.executions[x]? = some e ∧ e.unsettled = false ∧
        (manager.watcherPersists moment x failure = manager.changeExecution x (fun e => { e with phase := .done }) ∨
          ∃ error, failure = some error ∧
            manager.watcherPersists moment x failure =
              (manager.changeExecution x fun e => { e with phase := .done }).withTracker
                (manager.tracker.changeRun e.runId (interrupt moment (stateNotPersisted error)))) := by
  cases found : manager.executions[x]? with
  | none => exact .inl (by simp only [watcherPersists, found])
  | some e =>
      cases phase : e.phase with
      | persisting =>
          refine .inr ⟨e, rfl, by simp [Execution.unsettled, phase], ?_⟩
          cases failure with
          | none => exact .inl (by simp only [watcherPersists, found, phase])
          | some error =>
              refine .inr ⟨error, rfl, ?_⟩
              simp only [watcherPersists, found, phase]
              rfl
      | executing => exact .inl (by simp only [watcherPersists, found, phase])
      | draining outcome => exact .inl (by simp only [watcherPersists, found, phase])
      | done => exact .inl (by simp only [watcherPersists, found, phase])

theorem done_kept (kept : manager.Kept n) {x : Nat} {e : Execution} (found : manager.executions[x]? = some e)
    (settled : e.unsettled = false) : (manager.changeExecution x fun e => { e with phase := .done }).Kept n := by
  refine Watched.modify kept (phase_same .done) (fun _ _ unsettled => by cases unsettled) ?_
  intro e' there _ unsettled
  obtain rfl := Option.some.inj (found.symm.trans there)
  rw [settled] at unsettled
  cases unsettled

theorem watcherPersists_kept (kept : manager.Kept n) (moment : Moment) (x : Nat) (failure : Option Text) :
    (manager.watcherPersists moment x failure).Kept n := by
  rcases watcherPersists_cases manager moment x failure with same | ⟨e, found, settled, after | ⟨error, -, after⟩⟩
  · rw [same]
    exact kept
  · rw [after]
    exact done_kept kept found settled
  · rw [after]
    have turns := interrupt_turns moment (stateNotPersisted error)
    have done := done_kept kept found settled
    refine Watched.turn done (stops_of_turn _ turns (by simp) e.runId) ?_
    intro i inside e' there unsettled
    obtain ⟨e'', there', -, ready⟩ := done.entries e.runId i inside
    obtain rfl := Option.some.inj (there.symm.trans there')
    obtain ⟨status, held, -⟩ := ready unsettled
    refine ⟨.interrupted, ?_, rfl⟩
    have held' : manager.tracker.glance e.runId = some (status, e'.epoch) := held
    have turned := glance_changeRun manager.tracker turns e.runId e.runId
    rw [if_pos rfl, held', Option.map_some] at turned
    exact turned

/-- The epoch of the run is still that of the execution when its watcher is told that nothing was written. -/
def stillCurrent (manager : Manager) (command : Moment × ManagerOp) : Prop :=
  match command.2 with
  | .watcherPersists x (some _) =>
      ∀ e, manager.executions[x]? = some e → manager.tracker.executionEpoch e.runId = some e.epoch
  | _ => True

theorem watcherPersists_told (kept : manager.Kept n) (told : manager.AllTold) (moment : Moment) (x : Nat)
    (failure : Option Text) (current : manager.stillCurrent (moment, .watcherPersists x failure)) :
    (manager.watcherPersists moment x failure).AllTold := by
  have done : (manager.changeExecution x fun e => { e with phase := .done }).AllTold :=
    told.modify (phase_same .done) (fun _ unsettled => by cases unsettled) fun _ uncancelled => uncancelled
  rcases watcherPersists_cases manager moment x failure with same | ⟨e, found, settled, after | ⟨error, fails, after⟩⟩
  · rw [same]
    exact told
  · rw [after]
    exact done
  · rw [after]
    subst fails
    obtain ⟨status, held⟩ := epoch_held (current e found)
    have turns := interrupt_turns moment (stateNotPersisted error)
    have stops := stops_of_turn manager.tracker turns (by simp) e.runId
    refine Told.elsewhere done stops.elsewhere fun epoch active => ?_
    -- an active run has an open execution of this very epoch
    have active' : manager.tracker.glance e.runId = some (.active, epoch) := active
    obtain ⟨i, e', -, there, named, epoch', unsettled⟩ := kept.watched e.runId epoch active'
    rw [held] at active'
    have epochs : e'.epoch = e.epoch := epoch'.trans (Prod.mk.inj (Option.some.inj active')).2.symm
    obtain rfl := kept.once i x e' e there found named epochs
    obtain rfl := Option.some.inj (there.symm.trans found)
    rw [settled] at unsettled
    cases unsettled

def fresh (manager : Manager) (command : Moment × ManagerOp) : Prop :=
  match command.2 with
  | .launchNew _ runId _ _ _ _ => manager.tracker.get runId = none
  | _ => True

theorem fresh_glance (absent : tracker.get runId = none) : tracker.glance runId = none := by
  have none' := glance_get tracker runId
  rw [absent] at none'
  simpa using none'

variable (letters : Letters)

theorem step_kept (kept : manager.Kept n) (small : n + 1 < 2 ^ 64) {command : Moment × ManagerOp}
    (new : manager.fresh command) : (manager.step letters command).Kept (n + 1) := by
  have grown : manager.Kept (n + 1) := kept.mono (Nat.le_succ n)
  obtain ⟨moment, op⟩ := command
  cases op with
  | launchNew surroundings runId name objective phases agentBudget =>
      exact launchNew_kept grown (fresh_glance new) surroundings moment name objective phases agentBudget
  | launchResume surroundings runId newAgentBudget =>
      exact launchResume_kept kept small surroundings moment runId newAgentBudget
  | pause runId => exact pause_kept grown moment runId
  | cancel runId => exact cancel_kept grown moment runId
  | controlRun key control =>
      simp only [step]
      rcases controlRun_cases manager moment key control with same | ⟨runId, paused | cancelled⟩
      · rw [same]
        exact grown
      · rw [paused]
        exact pause_kept grown moment runId
      · rw [cancelled]
        exact cancel_kept grown moment runId
  | served op =>
      simp only [step]
      split
      next serves =>
        simp only [Kept, withTracker, served_glance letters manager.tracker moment serves]
        exact grown
      next => exact grown
  | engineEnds execution outcome => exact engineEnds_kept grown execution outcome
  | watcherSettles execution drainFailed => exact watcherSettles_kept grown moment execution drainFailed
  | watcherPersists execution failure => exact watcherPersists_kept grown moment execution failure

theorem step_told (kept : manager.Kept n) (told : manager.AllTold) {command : Moment × ManagerOp}
    (new : manager.fresh command) (current : manager.stillCurrent command) :
    (manager.step letters command).AllTold := by
  obtain ⟨moment, op⟩ := command
  cases op with
  | launchNew surroundings runId name objective phases agentBudget =>
      exact launchNew_told told (fresh_glance new) surroundings moment name objective phases agentBudget
  | launchResume surroundings runId newAgentBudget =>
      exact launchResume_told told surroundings moment runId newAgentBudget
  | pause runId => exact pause_told kept told moment runId
  | cancel runId => exact cancel_told kept told moment runId
  | controlRun key control =>
      simp only [step]
      rcases controlRun_cases manager moment key control with same | ⟨runId, paused | cancelled⟩
      · rw [same]
        exact told
      · rw [paused]
        exact pause_told kept told moment runId
      · rw [cancelled]
        exact cancel_told kept told moment runId
  | served op =>
      simp only [step]
      split
      next serves =>
        simp only [AllTold, withTracker, served_glance letters manager.tracker moment serves]
        exact told
      next => exact told
  | engineEnds execution outcome => exact engineEnds_told told execution outcome
  | watcherSettles execution drainFailed => exact watcherSettles_told kept told moment execution drainFailed
  | watcherPersists execution failure => exact watcherPersists_told kept told moment execution failure current

theorem run_kept {commands : List (Moment × ManagerOp)} :
    ∀ {n : Nat} {manager : Manager}, manager.Kept n → n + commands.length < 2 ^ 64 →
      Runs.Along (step letters) fresh manager commands →
      (Runs.run (step letters) manager commands).Kept (n + commands.length) := by
  induction commands with
  | nil => exact fun kept _ _ => kept
  | cons command rest ih =>
      intro n manager kept small along
      rw [List.length_cons] at small ⊢
      have once := step_kept letters kept (by omega) along.1
      have rested := ih once (by omega) along.2
      rw [show n + (rest.length + 1) = n + 1 + rest.length by omega]
      exact rested

theorem run_told {commands : List (Moment × ManagerOp)} :
    ∀ {n : Nat} {manager : Manager}, manager.Kept n → manager.AllTold → n + commands.length < 2 ^ 64 →
      Runs.Along (step letters) (fun manager command => manager.fresh command ∧ manager.stillCurrent command) manager
        commands →
      (Runs.run (step letters) manager commands).AllTold := by
  induction commands with
  | nil => exact fun _ told _ _ => told
  | cons command rest ih =>
      intro n manager kept told small along
      rw [List.length_cons] at small
      exact ih (step_kept letters kept (by omega) along.1.1) (step_told letters kept told along.1.1 along.1.2)
        (by omega) along.2

theorem restored_stopped (moment : Moment) (state : WorkflowRunState) : (restored moment state).status ≠ .active := by
  have ghosts (state : WorkflowRunState) : (cancelGhosts state).status = state.status := by
    unfold cancelGhosts
    split <;> rfl
  rw [restored, ghosts, interruptRestored]
  split
  · simp [WorkflowRunState.recordEvent, WorkflowRunState.advanceRevision]
  next stopped => exact stopped

theorem fromSnapshot_glance (moment : Moment) (snapshots : List WorkflowRunState)
    {status : WorkflowRunStatus} {epoch : Nat}
    (held : (fromSnapshot moment snapshots).glance runId = some (status, epoch)) : status ≠ .active ∧ epoch = 0 := by
  obtain ⟨run, found, same⟩ := Option.map_eq_some_iff.mp held
  obtain ⟨rfl, rfl⟩ := Prod.mk.inj same
  have member := Rows.get_mem TrackedRun.id found
  simp only [fromSnapshot, List.map_map] at member
  obtain ⟨state, -, rfl⟩ := List.mem_map.mp member
  exact ⟨restored_stopped moment state, rfl⟩

theorem start_kept (sessionDir : Bool) (moment : Moment) (snapshots : List WorkflowRunState) :
    (start sessionDir (fromSnapshot moment snapshots)).Kept 0 :=
  { keys := List.nodup_nil
    bound := by simp [start]
    epochs := fun _ _ _ held => (fromSnapshot_glance moment snapshots held).2.le
    past := fun i e there => by simp [start] at there
    once := fun i j a b there => by simp [start] at there
    watched := fun _ _ held => absurd rfl (fromSnapshot_glance moment snapshots held).1
    held := fun i e there => by simp [start] at there
    entries := fun runId i inside => by simp [start] at inside }

theorem filter_length_le {α : Type} (counts : α → Bool) (elements : List α) :
    ∀ marks : List Nat, (∀ (i : Nat) a, elements[i]? = some a → counts a → i ∈ marks) →
      (elements.filter counts).length ≤ marks.length := by
  induction elements using List.reverseRecOn with
  | nil => exact fun marks _ => Nat.zero_le _
  | append_singleton before last ih =>
      intro marks marked
      have inside (i : Nat) (a : α) (there : before[i]? = some a) : (before ++ [last])[i]? = some a := by
        rw [List.getElem?_append_left (List.getElem?_eq_some_iff.mp there).1]
        exact there
      rw [List.filter_append, List.length_append]
      by_cases counted : counts last
      · have mine := marked before.length last List.getElem?_concat_length counted
        have rest := ih (marks.erase before.length) fun i a there counted' => by
          have differs : i ≠ before.length := ((List.getElem?_eq_some_iff.mp there).1).ne
          exact (List.mem_erase_of_ne differs).mpr (marked i a (inside i a there) counted')
        have fewer := List.length_erase_of_mem mine
        have some' := List.length_pos_of_mem mine
        simp only [List.filter_cons, counted, if_true, List.filter_nil, List.length_singleton]
        omega
      · have rest := ih marks fun i a there => marked i a (inside i a there)
        simp only [List.filter_cons, counted, Bool.false_eq_true, if_false, List.filter_nil, List.length_nil]
        omega

theorem unsettled_bound (kept : manager.Kept n) :
    (manager.executions.filter Execution.unsettled).length ≤ workflowMaxActiveRunsPerSession := by
  have marked := filter_length_le Execution.unsettled manager.executions
    ((manager.active ++ manager.retiring).map Prod.snd) fun i e there unsettled => by
      rcases kept.held i e there unsettled with inside | waiting
      · exact List.mem_map.mpr ⟨_, List.mem_append_left _ inside, rfl⟩
      · exact List.mem_map.mpr ⟨_, List.mem_append_right _ waiting, rfl⟩
  have bound := kept.bound
  rw [List.length_map, List.length_append] at marked
  exact marked.trans bound

end Manager

open Manager

variable (letters : Letters)

/-- However launches, stops, engines and watchers interleave, no more engines are open than a session may have, and
every active run has exactly one of its current epoch, beside which only engines of earlier launches can be open. -/
theorem active_run_has_one_engine (sessionDir : Bool) (moment : Moment) (snapshots : List WorkflowRunState)
    (commands : List (Moment × ManagerOp)) (short : commands.length < 2 ^ 64)
    (along : Runs.Along (Manager.step letters) Manager.fresh (.start sessionDir (fromSnapshot moment snapshots)) commands) :
    let manager := Runs.run (Manager.step letters) (.start sessionDir (fromSnapshot moment snapshots)) commands
    (manager.executions.filter Execution.unsettled).length ≤ workflowMaxActiveRunsPerSession ∧
      ∀ runId state, manager.tracker.get runId = some state → state.status = .active →
        ∃ epoch, manager.tracker.executionEpoch runId = some epoch ∧
          (∃! i : Nat, ∃ e : Execution, manager.executions[i]? = some e ∧ e.runId = runId ∧ e.epoch = epoch ∧ e.unsettled) ∧
          ∀ e ∈ manager.executions, e.runId = runId → e.epoch ≤ epoch := by
  intro manager
  have kept := run_kept letters (start_kept sessionDir moment snapshots) (by omega) along
  refine ⟨unsettled_bound kept, fun runId state found active => ?_⟩
  have status := glance_get manager.tracker runId
  rw [found, Option.map_some, active] at status
  obtain ⟨⟨status', epoch⟩, held, rfl⟩ := Option.map_eq_some_iff.mp status
  have current : manager.tracker.executionEpoch runId = some epoch := by rw [glance_epoch, held]; rfl
  obtain ⟨i, e, -, there, named, epoch', unsettled⟩ := kept.watched runId epoch held
  refine ⟨epoch, current, ⟨i, ⟨e, there, named, epoch', unsettled⟩, ?_⟩, ?_⟩
  · rintro j ⟨other, there', named', epoch'', -⟩
    exact kept.once j i other e there' there (named'.trans named.symm) (epoch''.trans epoch'.symm)
  · intro other member named'
    obtain ⟨j, there'⟩ := List.mem_iff_getElem?.mp member
    obtain ⟨status, last, held', earlier⟩ := kept.past j other there'
    rw [named', held] at held'
    obtain ⟨-, rfl⟩ := Prod.mk.inj (Option.some.inj held')
    exact earlier

def written : LaunchSurroundings := { store := none, journal := .ok 0, persistError := none }

theorem active_run_has_one_engine_after_resume :
    let letters : Letters := { toLowercase := id, isAlphanumeric := Char.isAlphanum }
    let moment : Moment := { instant := 0, wall := [] }
    let commands : List (Moment × ManagerOp) :=
      [(moment, .launchNew written "wf_1".toList "goal".toList "ship".toList [] none), (moment, .pause "wf_1".toList),
        (moment, .launchResume written "wf_1".toList none), (moment, .engineEnds 0 .cancelled)]
    let manager := Runs.run (Manager.step letters) (.start true (fromSnapshot moment [])) commands
    (manager.executions.filter Execution.unsettled).length ≤ workflowMaxActiveRunsPerSession ∧
      ∀ runId state, manager.tracker.get runId = some state → state.status = .active →
        ∃ epoch, manager.tracker.executionEpoch runId = some epoch ∧
          (∃! i : Nat, ∃ e : Execution, manager.executions[i]? = some e ∧ e.runId = runId ∧ e.epoch = epoch ∧ e.unsettled) ∧
          ∀ e ∈ manager.executions, e.runId = runId → e.epoch ≤ epoch := by
  intro letters moment commands
  exact active_run_has_one_engine letters true moment [] commands (by decide) ⟨rfl, trivial, trivial, trivial, trivial⟩

/-- An engine that nobody told to stop works on the active run it was launched for, unless a watcher interrupts a run
that was resumed since. -/
theorem untold_engine_works_on_active_run (sessionDir : Bool) (moment : Moment) (snapshots : List WorkflowRunState)
    (commands : List (Moment × ManagerOp)) (short : commands.length < 2 ^ 64)
    (along : Runs.Along (Manager.step letters) (fun manager command => manager.fresh command ∧ manager.stillCurrent command)
      (.start sessionDir (fromSnapshot moment snapshots)) commands) :
    let manager := Runs.run (Manager.step letters) (.start sessionDir (fromSnapshot moment snapshots)) commands
    ∀ e ∈ manager.executions, e.unsettled → e.cancel = false →
      ∃ state, manager.tracker.get e.runId = some state ∧ state.status = .active ∧
        manager.tracker.executionEpoch e.runId = some e.epoch := by
  intro manager e member unsettled uncancelled
  obtain ⟨i, there⟩ := List.mem_iff_getElem?.mp member
  have told := run_told letters (start_kept sessionDir moment snapshots)
    (fun i e there => by simp [Manager.start] at there) (by omega) along
  have held := told i e there unsettled uncancelled
  have status := glance_get manager.tracker e.runId
  rw [held] at status
  obtain ⟨state, found, active⟩ := Option.map_eq_some_iff.mp status.symm
  exact ⟨state, found, active, by rw [glance_epoch, held]; rfl⟩

theorem untold_engine_works_after_resume :
    let letters : Letters := { toLowercase := id, isAlphanumeric := Char.isAlphanum }
    let moment : Moment := { instant := 0, wall := [] }
    let commands : List (Moment × ManagerOp) :=
      [(moment, .launchNew written "wf_1".toList "goal".toList "ship".toList [] none), (moment, .pause "wf_1".toList),
        (moment, .launchResume written "wf_1".toList none), (moment, .engineEnds 0 .cancelled)]
    let manager := Runs.run (Manager.step letters) (.start true (fromSnapshot moment [])) commands
    ∀ e ∈ manager.executions, e.unsettled → e.cancel = false →
      ∃ state, manager.tracker.get e.runId = some state ∧ state.status = .active ∧
        manager.tracker.executionEpoch e.runId = some e.epoch := by
  intro letters moment commands
  exact untold_engine_works_on_active_run letters true moment [] commands (by decide)
    ⟨⟨rfl, trivial⟩, ⟨trivial, trivial⟩, ⟨trivial, trivial⟩, ⟨trivial, trivial⟩, trivial⟩

/-- The watcher of the first engine waits for the disk while the run is resumed, and then interrupts it. -/
example :
    let letters : Letters := { toLowercase := id, isAlphanumeric := Char.isAlphanum }
    let moment : Moment := { instant := 0, wall := [] }
    let commands : List (Moment × ManagerOp) :=
      [(moment, .launchNew written "wf_1".toList "goal".toList "ship".toList [] none),
        (moment, .engineEnds 0 (.paused .infra [])), (moment, .watcherSettles 0 false),
        (moment, .launchResume written "wf_1".toList none), (moment, .watcherPersists 0 (some "disk full".toList))]
    let manager := Runs.run (Manager.step letters) (.start true (fromSnapshot moment [])) commands
    (manager.executions[1]?.map fun e => (e.unsettled, e.cancel)) = some (true, false) ∧
      (manager.tracker.get "wf_1".toList).map WorkflowRunState.status = some .interrupted :=
  ⟨rfl, rfl⟩

end Steps

end GrokPi.Workflow
