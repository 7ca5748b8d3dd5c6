import GrokPi.Workflow.RunTracker

set_option autoImplicit false

namespace GrokPi.Workflow

section Operations

inductive TrackerOp where
  | startRun (runId name objective : Text) (phases : List PhaseMeta) (agentBudget : Option Nat)
      (journalPath : Option Text)
  | resumeRun (runId : Text) (newAgentBudget : Option Nat)
  | setPhase (runId title : Text)
  | reserveAgents (runId : Text) (count : Nat)
  | releaseAgents (runId : Text) (count : Nat)
  | reconcileAgentsUsed (runId : Text) (used : Nat)
  | agentStarted (runId : Text) (row : WorkflowAgentRow)
  | rebindAgentId (runId agentId newAgentId : Text)
  | agentFinished (runId agentId rowState : Text) (tokensUsed durationMs : Nat)
  | logMessage (runId message : Text)
  | pauseUser (runId : Text) (message : Option Text)
  | interrupt (runId message : Text)
  | applyOutcome (runId : Text) (outcome : WorkflowOutcome)
  | clearRun (runId : Text)
  | markCompletionReported (runId : Text)
  | takeUnreportedTerminalRuns
  | takeStatusReport

namespace WorkflowTracker

def step (letters : Letters) (tracker : WorkflowTracker) (command : Moment × TrackerOp) : WorkflowTracker :=
  let moment := command.1
  match command.2 with
  | .startRun runId name objective phases agentBudget journalPath =>
      tracker.startRun moment runId name objective phases agentBudget journalPath
  | .resumeRun runId newAgentBudget => (tracker.resumeRun moment runId newAgentBudget).2
  | .setPhase runId title => tracker.changeRun runId (.change (setPhase moment title))
  | .reserveAgents runId count => (tracker.reserveAgents runId count).2
  | .releaseAgents runId count => (tracker.releaseAgents runId count).2
  | .reconcileAgentsUsed runId used => tracker.changeRun runId (.change (reconcile used))
  | .agentStarted runId row => tracker.changeRun runId (.change (agentStarted letters row))
  | .rebindAgentId runId agentId newAgentId => tracker.changeRun runId (.change (rebindAgentId agentId newAgentId))
  | .agentFinished runId agentId rowState tokensUsed durationMs =>
      tracker.changeRun runId (.change (agentFinished agentId rowState tokensUsed durationMs))
  | .logMessage runId message => tracker.changeRun runId (.change (logMessage moment message))
  | .pauseUser runId message => tracker.changeRun runId (pauseUser moment message)
  | .interrupt runId message => tracker.changeRun runId (interrupt moment message)
  | .applyOutcome runId outcome => tracker.changeRun runId (applyOutcome moment outcome)
  | .clearRun runId => tracker.clearRun runId
  | .markCompletionReported runId => tracker.markCompletionReported runId
  | .takeUnreportedTerminalRuns => tracker.takeUnreportedTerminalRuns.2
  | .takeStatusReport => (tracker.takeStatusReport moment).2

end WorkflowTracker

end Operations

section Revisions

def Moves (before after : WorkflowRunState) : Prop :=
  after = before ∨ addU64 before.revision 1 ≤ after.revision

namespace Moves

theorem refl (state : WorkflowRunState) : Moves state state := Or.inl rfl

theorem of_revision {before after : WorkflowRunState} (counted : after.revision = addU64 before.revision 1) :
    Moves before after :=
  Or.inr (Nat.le_of_eq counted.symm)

theorem trans {first second third : WorkflowRunState} (one : Moves first second) (two : Moves second third) :
    Moves first third := by
  rcases one with rfl | one
  · exact two
  · rcases two with rfl | two
    · exact Or.inr one
    · refine Or.inr ?_
      simp only [addU64] at one two ⊢
      omega

theorem same {before after : WorkflowRunState} (moves : Moves before after)
    (bounded : after.revision < maxU64) (revision : after.revision = before.revision) : after = before := by
  rcases moves with same | later
  · exact same
  · simp only [addU64] at later
    omega

end Moves

variable (moment : Moment)

@[simp] theorem recordEvent_revision (event : Text) (detail : Option Text) (state : WorkflowRunState) :
    (state.recordEvent moment event detail).revision = addU64 state.revision 1 := rfl

@[simp] theorem recordEvent_runId (event : Text) (detail : Option Text) (state : WorkflowRunState) :
    (state.recordEvent moment event detail).runId = state.runId := rfl

@[simp] theorem foldElapsed_revision (run : TrackedRun) :
    (run.foldElapsed moment).state.revision = run.state.revision := by
  cases held : run.activeSince with
  | none => simp [TrackedRun.foldElapsed, held]
  | some since => simp [TrackedRun.foldElapsed, held]

@[simp] theorem foldElapsed_runId (run : TrackedRun) :
    (run.foldElapsed moment).state.runId = run.state.runId := by
  cases held : run.activeSince with
  | none => simp [TrackedRun.foldElapsed, held]
  | some since => simp [TrackedRun.foldElapsed, held]

structure Careful (change : TrackedRun → TrackedRun) : Prop where
  keeps : ∀ run, (change run).id = run.id
  moves : ∀ run, Moves run.state (change run).state

theorem careful_change {change : WorkflowRunState → WorkflowRunState}
    (keeps : ∀ state, (change state).runId = state.runId) (moves : ∀ state, Moves state (change state)) :
    Careful (TrackedRun.change change) :=
  { keeps := fun run => keeps run.state
    moves := fun run => moves run.state }

open WorkflowTracker

theorem resumed_careful (newAgentBudget : Option Nat) : Careful (resumed moment newAgentBudget) :=
  { keeps := fun _ => rfl
    moves := fun _ => Moves.of_revision rfl }

theorem setPhase_careful (title : Text) : Careful (.change (setPhase moment title)) := by
  apply careful_change
  · intro state
    simp only [setPhase]
    split <;> rfl
  · intro state
    by_cases here : state.currentPhase = some title
    · simpa [setPhase, here] using Moves.refl state
    · exact Moves.of_revision (by simp [setPhase, here])

theorem release_careful (count : Nat) : Careful (.change (release count)) :=
  careful_change (fun _ => rfl) (fun _ => Moves.of_revision rfl)

theorem reserve_ok {count : Nat} {state reserved : WorkflowRunState} (ok : reserve count state = .ok reserved) :
    reserved = { state with agentsUsed := addU64 state.agentsUsed count }.advanceRevision ∧
      ∀ limit, state.agentBudget = some limit → addU64 state.agentsUsed count ≤ limit := by
  cases budget : state.agentBudget with
  | none =>
      simp only [reserve, budget, Except.ok.injEq] at ok
      exact ⟨ok.symm, by simp⟩
  | some limit =>
      simp only [reserve, budget] at ok
      by_cases beyond : limit < addU64 state.agentsUsed count
      · rw [if_pos beyond] at ok
        cases ok
      · rw [if_neg beyond] at ok
        exact ⟨(Except.ok.inj ok).symm, fun _ same => Option.some.inj same ▸ Nat.le_of_not_lt beyond⟩

theorem reserved_careful (count : Nat) :
    Careful fun run => { run with state := ((reserve count run.state).toOption).getD run.state } := by
  refine ⟨fun run => ?_, fun run => ?_⟩
  · cases made : reserve count run.state with
    | error refused => rfl
    | ok reserved =>
        rw [(reserve_ok made).1]
        rfl
  · cases made : reserve count run.state with
    | error refused => exact Moves.refl run.state
    | ok reserved =>
        rw [(reserve_ok made).1]
        exact Moves.of_revision rfl

theorem reconcile_careful (used : Nat) : Careful (.change (reconcile used)) := by
  apply careful_change
  · intro state
    simp only [reconcile]
    split <;> rfl
  · intro state
    by_cases same : state.agentsUsed = used
    · simpa [reconcile, same] using Moves.refl state
    · exact Moves.of_revision (by simp [reconcile, same, WorkflowRunState.advanceRevision])

theorem agentStarted_careful (letters : Letters) (row : WorkflowAgentRow) :
    Careful (.change (agentStarted letters row)) :=
  careful_change (fun _ => rfl) (fun _ => Moves.of_revision rfl)

theorem changeAgent_careful (agentId : Text) (change : WorkflowAgentRow → WorkflowAgentRow) :
    Careful (.change (changeAgent agentId change)) := by
  apply careful_change
  · intro state
    simp only [changeAgent]
    split <;> rfl
  · intro state
    cases found : Rows.get WorkflowAgentRow.agentId state.agents agentId with
    | none => simpa [changeAgent, found] using Moves.refl state
    | some row => exact Moves.of_revision (by simp [changeAgent, found, WorkflowRunState.advanceRevision])

theorem logMessage_careful (message : Text) : Careful (.change (logMessage moment message)) :=
  careful_change (fun _ => rfl) (fun _ => Moves.of_revision rfl)

theorem folded_careful (change : WorkflowRunState → WorkflowRunState)
    (keeps : ∀ state, (change state).runId = state.runId)
    (counted : ∀ state, (change state).revision = addU64 state.revision 1) :
    Careful fun run => (run.foldElapsed moment).change change := by
  refine ⟨fun run => ?_, fun run => Moves.of_revision ?_⟩
  · simp [TrackedRun.id, TrackedRun.change, keeps]
  · simp [TrackedRun.change, counted]

theorem pauseUser_careful (message : Option Text) : Careful (pauseUser moment message) := by
  have paused := folded_careful moment (userPaused moment message) (fun _ => rfl) (fun _ => rfl)
  refine ⟨fun run => ?_, fun run => ?_⟩
  · by_cases active : run.state.status = .active
    · simpa [pauseUser, active] using paused.keeps run
    · simp [pauseUser, active]
  · by_cases active : run.state.status = .active
    · simpa [pauseUser, active] using paused.moves run
    · simpa [pauseUser, active] using Moves.refl run.state

theorem interrupt_careful (message : Text) : Careful (interrupt moment message) :=
  folded_careful moment (interrupted moment message) (fun _ => rfl) (fun _ => rfl)

theorem outcomeApplied_counts (outcome : WorkflowOutcome) (state : WorkflowRunState) :
    (outcomeApplied moment outcome state).runId = state.runId ∧
      (outcomeApplied moment outcome state).revision = addU64 state.revision 1 := by
  cases outcome <;> exact ⟨rfl, rfl⟩

theorem applyOutcome_careful (outcome : WorkflowOutcome) : Careful (applyOutcome moment outcome) := by
  apply folded_careful
  · intro state
    by_cases ignored : ignoresOutcomes state.status
    · simp [settled, ignored]
    · simp [settled, ignored, outcomeApplied_counts]
  · intro state
    by_cases ignored : ignoresOutcomes state.status
    · simp [settled, ignored]
    · simp [settled, ignored, outcomeApplied_counts]

end Revisions

section Steps

open WorkflowTracker

variable (letters : Letters)

inductive Stepped (tracker : WorkflowTracker) : TrackerOp → WorkflowTracker → Prop
  | changed {op : TrackerOp} {after : WorkflowTracker} (runId : Text) (change : TrackedRun → TrackedRun)
      (careful : Careful change) (runs : after.runs = Rows.update TrackedRun.id runId change tracker.runs)
      (known : after.statusReportedRevisions = tracker.statusReportedRevisions) : Stepped tracker op after
  | started {runId name objective : Text} {phases : List PhaseMeta} {agentBudget : Option Nat}
      {journalPath : Option Text} {after : WorkflowTracker} (run : TrackedRun) (named : run.id = runId)
      (runs : after.runs = tracker.runs ++ [run])
      (known : after.statusReportedRevisions = tracker.statusReportedRevisions) :
      Stepped tracker (.startRun runId name objective phases agentBudget journalPath) after
  | cleared {after : WorkflowTracker} (runId : Text)
      (runs : after.runs = Rows.remove TrackedRun.id runId tracker.runs)
      (known : after.statusReportedRevisions = tracker.statusReportedRevisions) :
      Stepped tracker (.clearRun runId) after
  | noted {op : TrackerOp} {after : WorkflowTracker} (runs : after.runs = tracker.runs)
      (known : op ≠ .takeStatusReport → after.statusReportedRevisions = tracker.statusReportedRevisions) :
      Stepped tracker op after

theorem step_stepped (tracker : WorkflowTracker) (moment : Moment) (op : TrackerOp) :
    Stepped tracker op (tracker.step letters (moment, op)) := by
  cases op with
  | startRun runId name objective phases agentBudget journalPath =>
      exact .started _ rfl rfl rfl
  | resumeRun runId newAgentBudget =>
      simp only [WorkflowTracker.step, resumeRun]
      cases found : tracker.run? runId with
      | none => exact .noted rfl fun _ => rfl
      | some run =>
          by_cases may : mayResume run.state newAgentBudget
          · simp only [may, if_true]
            exact .changed runId _ (resumed_careful moment newAgentBudget) rfl rfl
          · simp only [may, Bool.false_eq_true, if_false]
            exact .noted rfl fun _ => rfl
  | setPhase runId title => exact .changed runId _ (setPhase_careful moment title) rfl rfl
  | reserveAgents runId count =>
      simp only [WorkflowTracker.step, reserveAgents]
      cases found : tracker.get runId with
      | none => exact .noted rfl fun _ => rfl
      | some state =>
          dsimp only
          cases made : reserve count state with
          | error refused => exact .noted rfl fun _ => rfl
          | ok reserved => exact .changed runId _ (reserved_careful count) rfl rfl
  | releaseAgents runId count => exact .changed runId _ (release_careful count) rfl rfl
  | reconcileAgentsUsed runId used => exact .changed runId _ (reconcile_careful used) rfl rfl
  | agentStarted runId row => exact .changed runId _ (agentStarted_careful letters row) rfl rfl
  | rebindAgentId runId agentId newAgentId => exact .changed runId _ (changeAgent_careful agentId _) rfl rfl
  | agentFinished runId agentId rowState tokensUsed durationMs =>
      exact .changed runId _ (changeAgent_careful agentId _) rfl rfl
  | logMessage runId message => exact .changed runId _ (logMessage_careful moment message) rfl rfl
  | pauseUser runId message => exact .changed runId _ (pauseUser_careful moment message) rfl rfl
  | interrupt runId message => exact .changed runId _ (interrupt_careful moment message) rfl rfl
  | applyOutcome runId outcome => exact .changed runId _ (applyOutcome_careful moment outcome) rfl rfl
  | clearRun runId => exact .cleared runId rfl rfl
  | markCompletionReported runId => exact .noted rfl fun _ => rfl
  | takeUnreportedTerminalRuns => exact .noted rfl fun _ => rfl
  | takeStatusReport =>
      refine .noted ?_ fun other => absurd rfl other
      simp only [WorkflowTracker.step, takeStatusReport]
      split <;> rfl

theorem step_run? {tracker : WorkflowTracker} (moment : Moment) {op : TrackerOp} {runId : Text} {before : TrackedRun}
    (found : tracker.run? runId = some before) (kept : op ≠ .clearRun runId) :
    ∃ after, (tracker.step letters (moment, op)).run? runId = some after ∧ Moves before.state after.state := by
  cases step_stepped letters tracker moment op with
  | changed changedId change careful runs known =>
      rw [run?, runs, Rows.get_update TrackedRun.id careful.keeps]
      by_cases here : runId = changedId
      · subst here
        refine ⟨change before, ?_, careful.moves before⟩
        simp only [if_true]
        rw [show Rows.get TrackedRun.id tracker.runs runId = some before from found, Option.map_some]
      · exact ⟨before, by rw [if_neg here]; exact found, Moves.refl before.state⟩
  | started run named runs known =>
      refine ⟨before, ?_, Moves.refl before.state⟩
      rw [run?, runs, Rows.get_append, show Rows.get TrackedRun.id tracker.runs runId = some before from found,
        Option.some_or]
  | cleared clearedId runs known =>
      refine ⟨before, ?_, Moves.refl before.state⟩
      have apart : runId ≠ clearedId := fun same => kept (by rw [same])
      rw [run?, runs, Rows.get_remove_ne TrackedRun.id apart]
      exact found
  | noted runs known =>
      exact ⟨before, by rw [run?, runs]; exact found, Moves.refl before.state⟩

theorem run_run? {tracker : WorkflowTracker} {runId : Text} {before : TrackedRun}
    (found : tracker.run? runId = some before) (commands : List (Moment × TrackerOp))
    (kept : ∀ command ∈ commands, command.2 ≠ .clearRun runId) :
    ∃ after, (Runs.run (step letters) tracker commands).run? runId = some after ∧
      Moves before.state after.state := by
  induction commands generalizing tracker before with
  | nil => exact ⟨before, found, Moves.refl before.state⟩
  | cons command rest ih =>
      obtain ⟨moment, op⟩ := command
      rw [List.forall_mem_cons] at kept
      obtain ⟨middle, foundMiddle, moved⟩ := step_run? letters moment found kept.1
      obtain ⟨after, foundAfter, movedOn⟩ := ih foundMiddle kept.2
      exact ⟨after, foundAfter, moved.trans movedOn⟩

theorem revision_identifies_state {tracker : WorkflowTracker} {runId : Text} {before after : WorkflowRunState}
    (commands : List (Moment × TrackerOp)) (kept : ∀ command ∈ commands, command.2 ≠ .clearRun runId)
    (found : tracker.get runId = some before)
    (foundAfter : (Runs.run (step letters) tracker commands).get runId = some after)
    (bounded : after.revision < maxU64) (revision : after.revision ≤ before.revision) : after = before := by
  obtain ⟨first, foundFirst, rfl⟩ := Option.map_eq_some_iff.mp found
  obtain ⟨last, foundLast, moves⟩ := run_run? letters foundFirst commands kept
  have same : last.state = after := by
    rw [WorkflowTracker.get, foundLast] at foundAfter
    exact Option.some.inj foundAfter
  subst same
  rcases moves with equal | later
  · exact equal
  · simp only [addU64] at later
    omega

theorem revision_identifies_reconciled_state :
    let letters : Letters := { toLowercase := id, isAlphanumeric := Char.isAlphanum }
    let moment : Moment := { instant := 0, wall := [] }
    let tracker := (fromSnapshot moment []).startRun moment "wf_1".toList "goal".toList "ship".toList [] (some 8) none
    let commands : List (Moment × TrackerOp) :=
      [(moment, .reconcileAgentsUsed "wf_1".toList 0), (moment, .takeUnreportedTerminalRuns)]
    ∃ before after, tracker.get "wf_1".toList = some before ∧
      (Runs.run (step letters) tracker commands).get "wf_1".toList = some after ∧ after = before := by
  intro letters moment tracker commands
  have kept : ∀ command ∈ commands, command.2 ≠ .clearRun "wf_1".toList := by simp [commands]
  have found : tracker.get "wf_1".toList = some (tracker.runs.head (by decide)).state := rfl
  have same : (Runs.run (step letters) tracker commands).get "wf_1".toList =
      some ((Runs.run (step letters) tracker commands).runs.head (by decide)).state := rfl
  exact ⟨_, _, found, same, revision_identifies_state letters commands kept found same (by decide) (by decide)⟩

end Steps

section Identities

open WorkflowTracker

variable (letters : Letters)

def Fresh (tracker : WorkflowTracker) (command : Moment × TrackerOp) : Prop :=
  match command.2 with
  | .startRun runId _ _ _ _ _ => runId ∉ tracker.ids ∧ tracker.statusReportedRevisions runId = none
  | _ => True

theorem step_distinct {tracker : WorkflowTracker} {command : Moment × TrackerOp} (distinct : tracker.ids.Nodup)
    (fresh : Fresh tracker command) : (tracker.step letters command).ids.Nodup := by
  obtain ⟨moment, op⟩ := command
  cases step_stepped letters tracker moment op with
  | changed runId change careful runs known =>
      rw [ids, runs, Rows.keys_update TrackedRun.id careful.keeps]
      exact distinct
  | started run named runs known =>
      have grown := distinct.concat fresh.1
      rw [ids, runs, List.map_append, List.map_singleton, named]
      rwa [List.concat_eq_append] at grown
  | cleared runId runs known =>
      rw [ids, runs]
      exact distinct.sublist ((Rows.remove_sublist TrackedRun.id runId tracker.runs).map TrackedRun.id)
  | noted runs known =>
      rw [ids, runs]
      exact distinct

theorem restored_runId (moment : Moment) (state : WorkflowRunState) : (restored moment state).runId = state.runId := by
  have charged : (chargeLeases moment state).runId = state.runId := by
    simp only [chargeLeases]
    split <;> rfl
  have interrupted : (interruptRestored moment (chargeLeases moment state)).runId = state.runId := by
    simp only [interruptRestored]
    split
    · exact charged
    · exact charged
  simp only [restored, cancelGhosts]
  split
  · exact interrupted
  · exact interrupted

theorem fromSnapshot_ids (moment : Moment) (snapshots : List WorkflowRunState) :
    (fromSnapshot moment snapshots).ids = snapshots.map WorkflowRunState.runId := by
  simp [ids, fromSnapshot, TrackedRun.id, restored_runId]

theorem fromSnapshot_distinct (moment : Moment) {snapshots : List WorkflowRunState}
    (distinct : (snapshots.map WorkflowRunState.runId).Nodup) : (fromSnapshot moment snapshots).ids.Nodup := by
  rw [fromSnapshot_ids]
  exact distinct

end Identities

section StatusReports

open WorkflowTracker

variable (letters : Letters)

structure Reporting where
  tracker : WorkflowTracker
  last : Text → Option WorkflowRunState

namespace Reporting

def start (tracker : WorkflowTracker) : Reporting := { tracker, last := fun _ => none }

def read (reporting : Reporting) (report : List WorkflowRunState) (runId : Text) : Option WorkflowRunState :=
  (Rows.get WorkflowRunState.runId report runId).or
    (if runId ∈ reporting.tracker.ids then reporting.last runId else none)

def step (reporting : Reporting) (command : Moment × TrackerOp) : Reporting :=
  { tracker := reporting.tracker.step letters command
    last :=
      match command.2 with
      | .takeStatusReport =>
          let report := (reporting.tracker.takeStatusReport command.1).1
          if report.isEmpty then reporting.last else reporting.read report
      | _ => reporting.last }

/-- The same state but for the time that the run has taken, which a report brings up to its moment. -/
def Told (shown state : WorkflowRunState) : Prop := { shown with elapsedMsFloor := state.elapsedMsFloor } = state

structure Noted (reporting : Reporting) : Prop where
  distinct : reporting.tracker.ids.Nodup
  known : ∀ runId, reporting.tracker.statusReportedRevisions runId =
    (reporting.last runId).map WorkflowRunState.revision
  moves : ∀ runId shown run, reporting.last runId = some shown → reporting.tracker.run? runId = some run →
    ∃ state, Told shown state ∧ Moves state run.state

variable {tracker : WorkflowTracker}

theorem start_noted (distinct : tracker.ids.Nodup)
    (unknown : ∀ runId, tracker.statusReportedRevisions runId = none) : (start tracker).Noted :=
  { distinct
    known := unknown
    moves := fun _ _ _ shown => by cases shown }

theorem folded_revisions (states : List WorkflowRunState) (known : Text → Option Nat)
    (distinct : (states.map WorkflowRunState.runId).Nodup) (runId : Text) :
    (states.foldl (fun known state => fun id => if id = state.runId then some state.revision else known id) known) runId =
      ((Rows.get WorkflowRunState.runId states runId).map WorkflowRunState.revision).or (known runId) := by
  induction states generalizing known with
  | nil => simp [Rows.get]
  | cons state rest ih =>
      simp only [List.map_cons, List.nodup_cons] at distinct
      rw [List.foldl_cons, ih _ distinct.2]
      by_cases here : state.runId = runId
      · have missing := (Rows.get_eq_none WorkflowRunState.runId).mpr (here ▸ distinct.1)
        rw [missing, if_pos here.symm]
        simp [Rows.get, here]
      · have elsewhere : ¬ runId = state.runId := Ne.symm here
        simp only [elsewhere, if_false]
        rw [Rows.get, Rows.get, List.find?_cons_of_neg (by simpa using here)]

theorem live_sublist (tracker : WorkflowTracker) : tracker.live.Sublist tracker.runs := List.filter_sublist

theorem live_get (distinct : tracker.ids.Nodup) {runId : Text} {run : TrackedRun}
    (found : Rows.get TrackedRun.id tracker.live runId = some run) : tracker.run? runId = some run := by
  have member := (live_sublist tracker).subset (Rows.get_mem TrackedRun.id found)
  have whole := Rows.mem_get TrackedRun.id distinct member
  rwa [Rows.get_key TrackedRun.id found] at whole

theorem takeStatusReport_known (distinct : tracker.ids.Nodup) (moment : Moment)
    (moved : tracker.moved = true) (runId : Text) :
    (tracker.takeStatusReport moment).2.statusReportedRevisions runId =
      ((Rows.get TrackedRun.id tracker.live runId).map fun run => run.state.revision).or
        (if runId ∈ tracker.ids then tracker.statusReportedRevisions runId else none) := by
  simp only [takeStatusReport, moved, Bool.not_true, Bool.false_eq_true, if_false]
  rw [folded_revisions]
  · simp only [Rows.get, List.find?_map, Option.map_map]
    rfl
  · simp only [List.map_map]
    exact distinct.sublist ((live_sublist tracker).map _)

theorem report_of_moved (moved : tracker.moved = true) (moment : Moment) :
    (tracker.takeStatusReport moment).1 =
      tracker.live.map fun run => { run.state with elapsedMsFloor := run.liveElapsedMs moment } := by
  simp [takeStatusReport, moved]

theorem report_isEmpty (tracker : WorkflowTracker) (moment : Moment) :
    (tracker.takeStatusReport moment).1.isEmpty = !tracker.moved := by
  cases moved : tracker.moved with
  | false => simp [takeStatusReport, moved]
  | true =>
      obtain ⟨run, member, -⟩ := List.any_eq_true.mp moved
      rw [report_of_moved moved, List.isEmpty_map]
      exact List.isEmpty_eq_false_iff_exists_mem.mpr ⟨run, member⟩

theorem read_report {reporting : Reporting} (moved : reporting.tracker.moved = true) (moment : Moment)
    (runId : Text) :
    reporting.read (reporting.tracker.takeStatusReport moment).1 runId =
      ((Rows.get TrackedRun.id reporting.tracker.live runId).map fun run =>
        { run.state with elapsedMsFloor := run.liveElapsedMs moment }).or
      (if runId ∈ reporting.tracker.ids then reporting.last runId else none) := by
  rw [read, report_of_moved moved]
  simp only [Rows.get, List.find?_map]
  rfl

theorem reported_noted {reporting : Reporting} (noted : reporting.Noted) (moment : Moment)
    (moved : reporting.tracker.moved = true) : (reporting.step letters (moment, .takeStatusReport)).Noted := by
  have runs : (reporting.tracker.takeStatusReport moment).2.runs = reporting.tracker.runs := by
    simp [takeStatusReport, moved]
  have filled : (reporting.tracker.takeStatusReport moment).1.isEmpty = false := by
    rw [report_isEmpty, moved]
    rfl
  refine ⟨step_distinct letters noted.distinct trivial, fun runId => ?_, fun runId shown run given found => ?_⟩
  · simp only [step, filled, Bool.false_eq_true, if_false, WorkflowTracker.step]
    rw [takeStatusReport_known noted.distinct moment moved runId, read_report moved, Option.map_or,
      noted.known runId, Option.map_map]
    split <;> rfl
  · simp only [step, filled, Bool.false_eq_true, if_false, read_report moved] at given
    have before : reporting.tracker.run? runId = some run := by
      simp only [step, WorkflowTracker.step, run?, runs] at found
      exact found
    cases live : Rows.get TrackedRun.id reporting.tracker.live runId with
    | some now =>
        have same := (live_get noted.distinct live).symm.trans before
        rw [live, Option.map_some, Option.some_or, Option.some.injEq] at given
        rw [← Option.some.inj same]
        exact ⟨now.state, by rw [← given, Told], Moves.refl now.state⟩
    | none =>
        rw [live, Option.map_none, Option.none_or] at given
        split at given
        · exact noted.moves runId shown run given before
        · cases given

theorem step_known (tracker : WorkflowTracker) (moment : Moment) {op : TrackerOp} (report : op ≠ .takeStatusReport) :
    (tracker.step letters (moment, op)).statusReportedRevisions = tracker.statusReportedRevisions := by
  cases step_stepped letters tracker moment op with
  | changed _ _ _ _ known => exact known
  | started _ _ _ known => exact known
  | cleared _ _ known => exact known
  | noted _ known => exact known report

theorem come_unknown {command : Moment × TrackerOp} (fresh : Fresh tracker command) {runId : Text}
    (absent : runId ∉ tracker.ids) (present : runId ∈ (tracker.step letters command).ids) :
    tracker.statusReportedRevisions runId = none := by
  obtain ⟨moment, op⟩ := command
  cases step_stepped letters tracker moment op with
  | changed changedId change careful runs _ =>
      rw [ids, runs, Rows.keys_update TrackedRun.id careful.keeps] at present
      exact absurd present absent
  | started new named runs _ =>
      rw [ids, runs, List.map_append, List.mem_append, List.map_singleton, List.mem_singleton] at present
      rcases present with old | rfl
      · exact absurd old absent
      · rw [named]
        exact fresh.2
  | cleared clearedId runs _ =>
      rw [ids, runs] at present
      exact absurd (((Rows.remove_sublist TrackedRun.id clearedId _).map TrackedRun.id).subset present) absent
  | noted runs _ =>
      rw [ids, runs] at present
      exact absurd present absent

theorem step_noted {reporting : Reporting} {command : Moment × TrackerOp} (noted : reporting.Noted)
    (fresh : Fresh reporting.tracker command) : (reporting.step letters command).Noted := by
  obtain ⟨moment, op⟩ := command
  by_cases report : op = .takeStatusReport
  · subst report
    by_cases moved : reporting.tracker.moved = true
    · exact reported_noted letters noted moment moved
    · simp only [Bool.not_eq_true] at moved
      have unchanged : reporting.step letters (moment, .takeStatusReport) = reporting := by
        simp [step, WorkflowTracker.step, takeStatusReport, moved]
      rw [unchanged]
      exact noted
  · have last : (reporting.step letters (moment, op)).last = reporting.last := by
      cases op <;> first | rfl | exact absurd rfl report
    refine ⟨step_distinct letters noted.distinct fresh, fun runId => ?_, fun runId shown run given found => ?_⟩
    · rw [last]
      exact (congrFun (step_known letters reporting.tracker moment report) runId).trans (noted.known runId)
    rw [last] at given
    simp only [step] at found
    cases held : reporting.tracker.run? runId with
    | some before =>
        by_cases cleared : op = .clearRun runId
        · subst cleared
          have gone := Rows.get_remove_self TrackedRun.id noted.distinct runId
          simp only [WorkflowTracker.step, clearRun, run?] at found
          rw [gone] at found
          cases found
        · obtain ⟨after, foundAfter, moved⟩ := step_run? letters moment held cleared
          have same := Option.some.inj (foundAfter.symm.trans found)
          obtain ⟨state, told, moves⟩ := noted.moves runId shown before given held
          exact ⟨state, told, same ▸ moves.trans moved⟩
    | none =>
        -- only a start brings a run that was not there, and then nothing was shown of it
        have present : runId ∈ (reporting.tracker.step letters (moment, op)).ids :=
          (Rows.get_isSome TrackedRun.id).mp (Option.isSome_of_eq_some found)
        have nothing := noted.known runId
        rw [come_unknown letters fresh ((Rows.get_eq_none TrackedRun.id).mp held) present, given] at nothing
        cases nothing

theorem takeStatusReport_nil (tracker : WorkflowTracker) (moment : Moment) :
    (tracker.takeStatusReport moment).1 = [] ↔
      ∀ run ∈ tracker.live, tracker.statusReportedRevisions run.id = some run.state.revision := by
  by_cases moved : tracker.moved = true
  · simp only [takeStatusReport, moved, Bool.not_true, Bool.false_eq_true, if_false, List.map_eq_nil_iff]
    obtain ⟨run, member, differs⟩ := List.any_eq_true.mp moved
    constructor
    · intro none'
      rw [none'] at member
      cases member
    · intro all
      simp [all run member] at differs
  · have still : ∀ run ∈ tracker.live, tracker.statusReportedRevisions run.id = some run.state.revision := by
      simpa [WorkflowTracker.moved] using moved
    simp only [Bool.not_eq_true] at moved
    simpa [takeStatusReport, moved] using still

end Reporting

open Reporting in
/--
A status report is empty exactly when every live run stands as a report last gave it; and when one has moved, it lists
every live run, those that stand still too, with the time each has taken by now.
-/
theorem status_report_misses_nothing (moment : Moment) (snapshots : List WorkflowRunState)
    (distinct : (snapshots.map WorkflowRunState.runId).Nodup) (commands : List (Moment × TrackerOp))
    (fresh : Runs.Along (Reporting.step letters) (fun reporting => Fresh reporting.tracker)
      (.start (fromSnapshot moment snapshots)) commands)
    (bounded : ∀ run ∈ (Runs.run (Reporting.step letters) (.start (fromSnapshot moment snapshots)) commands).tracker.live,
      run.state.revision < maxU64) (now : Moment) :
    let reporting := Runs.run (Reporting.step letters) (.start (fromSnapshot moment snapshots)) commands
    let report := (reporting.tracker.takeStatusReport now).1
    (report = [] ↔ ∀ run ∈ reporting.tracker.live, ∃ shown, reporting.last run.id = some shown ∧ Told shown run.state) ∧
    (report ≠ [] →
      report = reporting.tracker.live.map fun run => { run.state with elapsedMsFloor := run.liveElapsedMs now }) := by
  intro reporting report
  have noted : reporting.Noted := Runs.along_invariant (Reporting.step letters)
    (fun _ _ noted fresh => step_noted letters noted fresh) _ commands
    (start_noted (fromSnapshot_distinct moment distinct) fun _ => rfl) fresh
  refine ⟨?_, fun some' => report_of_moved ?_ now⟩
  · rw [takeStatusReport_nil]
    constructor
    · intro known run member
      have revision := (noted.known run.id).symm.trans (known run member)
      obtain ⟨shown, given, same⟩ := Option.map_eq_some_iff.mp revision
      have found := Rows.mem_get TrackedRun.id noted.distinct ((live_sublist reporting.tracker).subset member)
      obtain ⟨state, told, moves⟩ := noted.moves run.id shown run given found
      have kept : state.revision = run.state.revision := by
        rw [← same, ← told]
      exact ⟨shown, given, moves.same (bounded run member) kept.symm ▸ told⟩
    · intro shown run member
      obtain ⟨state, given, told⟩ := shown run member
      rw [noted.known, given, Option.map_some, ← told]
  · have filled := report_isEmpty reporting.tracker now
    rw [List.isEmpty_eq_false_iff.mpr some'] at filled
    simpa using filled.symm

theorem status_report_of_moved_run :
    let letters : Letters := { toLowercase := id, isAlphanumeric := Char.isAlphanum }
    let at' (instant : Nat) : Moment := { instant, wall := [] }
    let commands : List (Moment × TrackerOp) :=
      [(at' 0, .startRun "wf_1".toList "goal".toList "ship".toList [] (some 8) none),
        (at' 2, .startRun "wf_2".toList "goal".toList "test".toList [] none none),
        (at' 3, .takeStatusReport), (at' 5, .setPhase "wf_1".toList "plan".toList)]
    let reporting := Runs.run (Reporting.step letters) (.start (fromSnapshot (at' 0) [])) commands
    (reporting.tracker.takeStatusReport (at' 9)).1.map (fun state => (state.runId, state.revision, state.elapsedMsFloor)) =
      [("wf_1".toList, 2, 9), ("wf_2".toList, 1, 7)] := by
  intro letters at' commands reporting
  have reported := (status_report_misses_nothing letters (at' 0) [] (by simp) commands
    ⟨⟨by decide, rfl⟩, ⟨by decide, rfl⟩, trivial, trivial, trivial⟩ (by decide +kernel) (at' 9)).2 (by decide +kernel)
  rw [reported]
  decide +kernel

end StatusReports

section Completions

open WorkflowTracker

variable (letters : Letters)

/-- A tracker with how often each run was reported as over since it last went on, and the runs whose
end the model heard of otherwise. -/
structure Telling where
  tracker : WorkflowTracker
  told : Text → Nat
  heard : Finset Text

namespace Telling

def start (tracker : WorkflowTracker) : Telling := { tracker, told := fun _ => 0, heard := ∅ }

def listed (tracker : WorkflowTracker) : List WorkflowRunState :=
  tracker.takeUnreportedTerminalRuns.1.1 ++ tracker.takeUnreportedTerminalRuns.1.2

def step (telling : Telling) (command : Moment × TrackerOp) : Telling :=
  let tracker := telling.tracker.step letters command
  match command.2 with
  | .resumeRun runId newAgentBudget =>
      if (telling.tracker.resumeRun command.1 runId newAgentBudget).1.isSome then
        { tracker, told := Function.update telling.told runId 0, heard := telling.heard.erase runId }
      else { telling with tracker }
  | .markCompletionReported runId => { telling with tracker, heard := insert runId telling.heard }
  | .takeUnreportedTerminalRuns =>
      { telling with
        tracker
        told := fun runId => telling.told runId + ((listed telling.tracker).map WorkflowRunState.runId).count runId }
  | _ => { telling with tracker }

structure Counted (telling : Telling) : Prop where
  distinct : telling.tracker.ids.Nodup
  once : ∀ runId, telling.told runId ≤ 1
  reported : ∀ runId, runId ∈ telling.tracker.reportedTerminalRunIds ↔
    telling.told runId = 1 ∨ runId ∈ telling.heard

variable {tracker : WorkflowTracker}

theorem mem_listed {state : WorkflowRunState} :
    state ∈ listed tracker ↔ state ∈ tracker.list ∧ state.status.isCompletionReportable ∧
      state.runId ∉ tracker.reportedTerminalRunIds := by
  have all : state ∈ listed tracker ↔ state ∈ tracker.unreported := by
    simp only [listed, takeUnreportedTerminalRuns, List.partition_eq_filter_filter, List.mem_append, List.mem_filter,
      Function.comp, Bool.not_eq_true', decide_eq_true_eq, decide_eq_false_iff_not]
    tauto
  rw [all, unreported, List.mem_filter]
  simp

theorem listed_distinct (distinct : tracker.ids.Nodup) :
    ((listed tracker).map WorkflowRunState.runId).Nodup := by
  have sorted : (listed tracker).Perm tracker.unreported := by
    simp only [listed, takeUnreportedTerminalRuns, List.partition_eq_filter_filter]
    exact List.filter_append_perm _ _
  have kept : (tracker.unreported.map WorkflowRunState.runId).Sublist tracker.ids := by
    have names : tracker.ids = tracker.list.map WorkflowRunState.runId := by simp [ids, list, TrackedRun.id]
    rw [names]
    exact List.filter_sublist.map _
  exact (sorted.map _).nodup_iff.mpr (distinct.sublist kept)

def concernsReports : TrackerOp → Bool
  | .resumeRun _ _ | .markCompletionReported _ | .takeUnreportedTerminalRuns => true
  | _ => false

theorem step_quiet {op : TrackerOp} (quiet : concernsReports op = false) (telling : Telling) (moment : Moment) :
    telling.step letters (moment, op) = { telling with tracker := telling.tracker.step letters (moment, op) } ∧
      (telling.tracker.step letters (moment, op)).reportedTerminalRunIds =
        telling.tracker.reportedTerminalRunIds := by
  cases op with
  | resumeRun runId newAgentBudget => cases quiet
  | markCompletionReported runId => cases quiet
  | takeUnreportedTerminalRuns => cases quiet
  | reserveAgents runId count =>
      refine ⟨rfl, ?_⟩
      simp only [WorkflowTracker.step, reserveAgents]
      split
      · rfl
      · split <;> rfl
  | takeStatusReport =>
      refine ⟨rfl, ?_⟩
      simp only [WorkflowTracker.step, takeStatusReport]
      split <;> rfl
  | _ => exact ⟨rfl, rfl⟩

theorem step_counted {telling : Telling} {command : Moment × TrackerOp} (counted : telling.Counted)
    (fresh : Fresh telling.tracker command) : (telling.step letters command).Counted := by
  have distinct := step_distinct letters counted.distinct fresh
  obtain ⟨moment, op⟩ := command
  by_cases quiet : concernsReports op = false
  · obtain ⟨same, reported⟩ := step_quiet letters quiet telling moment
    rw [same]
    refine ⟨distinct, counted.once, fun other => ?_⟩
    simp only [reported]
    exact counted.reported other
  cases op with
  | resumeRun runId newAgentBudget =>
      by_cases resumes : (telling.tracker.resumeRun moment runId newAgentBudget).1.isSome
      · have reported : (telling.tracker.resumeRun moment runId newAgentBudget).2.reportedTerminalRunIds =
            telling.tracker.reportedTerminalRunIds.erase runId := by
          simp only [resumeRun] at resumes ⊢
          split at resumes
          · cases resumes
          · next run found =>
              split at resumes
              · next may =>
                  simp only [may, if_true]
                  rfl
              · cases resumes
        simp only [step, resumes, if_true]
        refine ⟨distinct, fun other => ?_, fun other => ?_⟩
        · by_cases here : other = runId
          · simp [here]
          · simpa [Function.update, here] using counted.once other
        · simp only [WorkflowTracker.step, reported]
          by_cases here : other = runId
          · simp [here]
          · simpa [Function.update, here] using counted.reported other
      · have unchanged : (telling.tracker.resumeRun moment runId newAgentBudget).2 = telling.tracker := by
          simp only [resumeRun] at resumes ⊢
          split
          · rfl
          · next run found =>
              simp only [found] at resumes
              by_cases may : mayResume run.state newAgentBudget
              · simp only [may, if_true] at resumes
                have there := Rows.get_update TrackedRun.id (resumed_careful moment newAgentBudget).keeps runId runId
                  telling.tracker.runs
                rw [if_pos rfl, show Rows.get TrackedRun.id telling.tracker.runs runId = some run from found] at there
                simp [WorkflowTracker.get, run?, changeRun, there] at resumes
              · simp [may]
        simp only [step, resumes, Bool.false_eq_true, if_false]
        refine ⟨distinct, counted.once, ?_⟩
        simp only [WorkflowTracker.step, unchanged]
        exact counted.reported
  | markCompletionReported runId =>
      refine ⟨distinct, counted.once, fun other => ?_⟩
      simp only [step, WorkflowTracker.step, markCompletionReported, Finset.mem_insert, counted.reported other]
      tauto
  | takeUnreportedTerminalRuns =>
      refine ⟨distinct, fun other => ?_, fun other => ?_⟩
      · simp only [step]
        have most := List.nodup_iff_count_le_one.mp (listed_distinct counted.distinct) other
        by_cases reported : other ∈ telling.tracker.reportedTerminalRunIds
        · have missing : other ∉ (listed telling.tracker).map WorkflowRunState.runId := by
            intro member
            obtain ⟨state, listed', rfl⟩ := List.mem_map.mp member
            exact (mem_listed.mp listed').2.2 reported
          rw [List.count_eq_zero_of_not_mem missing]
          exact counted.once other
        · have untold : telling.told other ≠ 1 := fun told => reported ((counted.reported other).mpr (Or.inl told))
          have once := counted.once other
          omega
      · have noted : other ∈ (telling.tracker.takeUnreportedTerminalRuns).2.reportedTerminalRunIds ↔
            other ∈ telling.tracker.reportedTerminalRunIds ∨
              other ∈ (listed telling.tracker).map WorkflowRunState.runId := by
          simp [takeUnreportedTerminalRuns, listed]
        simp only [step, WorkflowTracker.step]
        rw [noted, counted.reported other]
        have most := List.nodup_iff_count_le_one.mp (listed_distinct counted.distinct) other
        have once := counted.once other
        rw [← List.count_pos_iff]
        by_cases told : telling.told other = 1
        · have reported : other ∈ telling.tracker.reportedTerminalRunIds := (counted.reported other).mpr (Or.inl told)
          have missing : other ∉ (listed telling.tracker).map WorkflowRunState.runId := by
            intro member
            obtain ⟨state, listed', rfl⟩ := List.mem_map.mp member
            exact (mem_listed.mp listed').2.2 reported
          simp [told, List.count_eq_zero_of_not_mem missing]
        · have never : telling.told other = 0 := by omega
          simp only [never, zero_add, zero_ne_one, false_or]
          constructor
          · rintro (heard | counted')
            · exact Or.inr heard
            · exact Or.inl (by omega)
          · rintro (counted' | heard)
            · exact Or.inr (by omega)
            · exact Or.inl heard
  | _ => exact absurd rfl quiet

theorem start_counted (distinct : tracker.ids.Nodup)
    (none' : tracker.reportedTerminalRunIds = ∅) : (start tracker).Counted :=
  { distinct
    once := fun _ => Nat.zero_le 1
    reported := fun runId => by simp [start, none'] }

end Telling

open Telling in
/-- The end of a run is reported at most once until the run is resumed, and the next report has it
unless it was reported before or heard of otherwise. -/
theorem completion_told_once (moment : Moment) (snapshots : List WorkflowRunState)
    (distinct : (snapshots.map WorkflowRunState.runId).Nodup) (commands : List (Moment × TrackerOp))
    (fresh : Runs.Along (Telling.step letters) (fun telling => Fresh telling.tracker)
      (.start (fromSnapshot moment snapshots)) commands) :
    let telling := Runs.run (Telling.step letters) (.start (fromSnapshot moment snapshots)) commands
    (∀ runId, telling.told runId ≤ 1) ∧
      ∀ state, state ∈ listed telling.tracker ↔ state ∈ telling.tracker.list ∧
        state.status.isCompletionReportable ∧ telling.told state.runId = 0 ∧ state.runId ∉ telling.heard := by
  intro telling
  have counted : telling.Counted := Runs.along_invariant (Telling.step letters)
    (fun _ _ counted fresh => step_counted letters counted fresh) _ commands
    (start_counted (fromSnapshot_distinct moment distinct) rfl) fresh
  refine ⟨counted.once, fun state => ?_⟩
  have once := counted.once state.runId
  rw [mem_listed, counted.reported state.runId, not_or]
  constructor
  · rintro ⟨member, ended, untold, unheard⟩
    exact ⟨member, ended, by omega, unheard⟩
  · rintro ⟨member, ended, untold, unheard⟩
    exact ⟨member, ended, by omega, unheard⟩

theorem completion_told_after_resume :
    let letters : Letters := { toLowercase := id, isAlphanumeric := Char.isAlphanum }
    let moment : Moment := { instant := 0, wall := [] }
    let commands : List (Moment × TrackerOp) :=
      [(moment, .startRun "wf_1".toList "goal".toList "ship".toList [] (some 8) none),
        (moment, .applyOutcome "wf_1".toList .cancelled), (moment, .takeUnreportedTerminalRuns),
        (moment, .resumeRun "wf_1".toList none), (moment, .applyOutcome "wf_1".toList .cancelled)]
    let telling := Runs.run (Telling.step letters) (.start (fromSnapshot moment [])) commands
    (∀ runId, telling.told runId ≤ 1) ∧
      ∀ state, state ∈ Telling.listed telling.tracker ↔ state ∈ telling.tracker.list ∧
        state.status.isCompletionReportable ∧ telling.told state.runId = 0 ∧ state.runId ∉ telling.heard := by
  intro letters moment commands
  refine completion_told_once letters moment [] (by simp) commands ?_
  exact ⟨⟨by simp [Telling.start, ids, fromSnapshot], rfl⟩, trivial, trivial, trivial, trivial, trivial⟩

end Completions

end GrokPi.Workflow
