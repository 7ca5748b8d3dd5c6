import GrokPi.Shared.Runs
import GrokPi.Shared.Text

set_option autoImplicit false

namespace GrokPi.PlanMode

inductive PiPlanState where
  | inactive
  | pending
  | active
  | exitPending
  deriving DecidableEq, Repr

structure PiPlanSnapshot where
  state : PiPlanState
  wasPreviouslyActive : Bool
  reminderCount : UInt32
  pendingExitReminder : Bool
  awaitingPlanApproval : Bool
  deriving DecidableEq

structure PiPlanTracker where
  state : PiPlanState
  wasPreviouslyActive : Bool
  reminderCount : UInt32
  pendingExitReminder : Bool
  awaitingPlanApproval : Bool
  planFilePath : Text
  deriving DecidableEq

def PiPlanTracker.withPlanFile (planFilePath : Text) : PiPlanTracker :=
  { state := .inactive
    wasPreviouslyActive := false
    reminderCount := 0
    pendingExitReminder := false
    awaitingPlanApproval := false
    planFilePath := planFilePath }

def PiPlanTracker.snapshot (tracker : PiPlanTracker) : PiPlanSnapshot :=
  { state := tracker.state
    wasPreviouslyActive := tracker.wasPreviouslyActive
    reminderCount := tracker.reminderCount
    pendingExitReminder := tracker.pendingExitReminder
    awaitingPlanApproval := tracker.awaitingPlanApproval }

def PiPlanTracker.fromSnapshotWithPlanFile (planFilePath : Text) (snapshot : PiPlanSnapshot) :
    PiPlanTracker :=
  let collapsed : PiPlanSnapshot :=
    match snapshot.state with
    | .pending => { snapshot with state := .inactive }
    | .exitPending => { snapshot with state := .inactive, pendingExitReminder := true }
    | _ => snapshot
  { state := collapsed.state
    wasPreviouslyActive := collapsed.wasPreviouslyActive
    reminderCount := collapsed.reminderCount
    pendingExitReminder := collapsed.pendingExitReminder
    awaitingPlanApproval := collapsed.awaitingPlanApproval
    planFilePath := planFilePath }

def PiPlanTracker.shouldUseFullReminder (tracker : PiPlanTracker) : Bool :=
  tracker.reminderCount % 2 == 0

def PiPlanTracker.isReentry (tracker : PiPlanTracker) : Bool :=
  tracker.wasPreviouslyActive && tracker.state == .pending

def PiPlanTracker.enterPending (tracker : PiPlanTracker) : Bool × PiPlanTracker :=
  match tracker.state with
  | .inactive => (true, { tracker with state := .pending, pendingExitReminder := false })
  | .exitPending => (true, { tracker with state := .active, pendingExitReminder := false })
  | _ => (false, tracker)

def PiPlanTracker.activate (tracker : PiPlanTracker) : Bool × PiPlanTracker :=
  if tracker.state ≠ .pending then (false, tracker)
  else (true, { tracker with state := .active, wasPreviouslyActive := true, reminderCount := 0 })

def PiPlanTracker.userExit (tracker : PiPlanTracker) (turnInFlight : Bool) : PiPlanTracker :=
  let answered := { tracker with awaitingPlanApproval := false }
  match tracker.state with
  | .pending => { answered with state := .inactive }
  | .active =>
      if turnInFlight then { answered with state := .exitPending }
      else { answered with state := .inactive, pendingExitReminder := true }
  | _ => answered

def PiPlanTracker.completeDeferredExit (tracker : PiPlanTracker) : PiPlanTracker :=
  if tracker.state ≠ .exitPending then tracker
  else { tracker with state := .inactive, pendingExitReminder := true }

def PiPlanTracker.recordReminderInjected (tracker : PiPlanTracker) : PiPlanTracker :=
  { tracker with reminderCount := tracker.reminderCount + 1 }

def PiPlanTracker.clearPendingExitReminder (tracker : PiPlanTracker) : PiPlanTracker :=
  { tracker with pendingExitReminder := false }

def PiPlanTracker.resetAfterCompaction (tracker : PiPlanTracker) : PiPlanTracker :=
  if tracker.state = .active then { tracker with reminderCount := 0 } else tracker

def planModeFullReminder : Text :=
  "Plan mode is active. Do not make any edits or writes to the system.\n\n".toList ++
    "## Plan File:\n".toList ++
    "Write your plan to \x7bplan_path\x7d using the write or edit tool.\n".toList ++
    "This is the only file you are allowed to edit.\n\n".toList ++
    "Ask clarifying questions in your response when needed, or call ".toList ++
    "exit_plan_mode to present your plan to the user.".toList

def planModeSparseReminder : Text :=
  "Plan mode is still active. Do not make any edits or writes to the system ".toList ++
    "except for the plan file.".toList

def planModeReentryReminder : Text :=
  "## Returning to Plan Mode\n\n".toList ++
    "You are entering plan mode again after having previously exited it.\n".toList ++
    "A plan file exists at \x7bplan_path\x7d from your previous planning session.\n\n".toList ++
    "Ask clarifying questions in your response when needed, or call ".toList ++
    "exit_plan_mode to present your plan to the user.".toList

def planModeExitReminder : Text :=
  "You have exited plan mode. You can now make edits, run tools, and take actions.".toList

def wrapReminder (body : Text) : Text :=
  "<system-reminder>\n".toList ++ body ++ "\n</system-reminder>".toList

def formatReminder (template planPath : Text) : Text :=
  wrapReminder (template.replace "\x7bplan_path\x7d".toList planPath)

def exitReminder : Text := wrapReminder planModeExitReminder

def PiPlanTracker.buildReminderForPrompt (tracker : PiPlanTracker) : Option Text × PiPlanTracker :=
  if tracker.state = .pending then
    let template := if tracker.isReentry then planModeReentryReminder else planModeFullReminder
    (some (formatReminder template tracker.planFilePath), tracker.activate.2.recordReminderInjected)
  else if tracker.state = .active then
    let template :=
      if tracker.shouldUseFullReminder then planModeFullReminder else planModeSparseReminder
    (some (formatReminder template tracker.planFilePath), tracker.recordReminderInjected)
  else if tracker.pendingExitReminder then
    (some exitReminder, tracker.clearPendingExitReminder)
  else (none, tracker)

def activeReminders (planPath : Text) : List Text :=
  [planModeFullReminder, planModeSparseReminder, planModeReentryReminder].map
    (formatReminder · planPath)

theorem buildReminderForPrompt_active (tracker : PiPlanTracker)
    (planning : tracker.state = .pending ∨ tracker.state = .active) :
    ∃ text ∈ activeReminders tracker.planFilePath,
      tracker.buildReminderForPrompt.1 = some text ∧
        tracker.buildReminderForPrompt.2.state = .active := by
  rcases planning with pending | active
  · by_cases reentry : tracker.isReentry = true <;>
      simp [PiPlanTracker.buildReminderForPrompt, activeReminders, pending, reentry,
        PiPlanTracker.activate, PiPlanTracker.recordReminderInjected]
  · by_cases full : tracker.shouldUseFullReminder = true <;>
      simp [PiPlanTracker.buildReminderForPrompt, activeReminders, active, full,
        PiPlanTracker.recordReminderInjected]

theorem wrapReminder_injective : Function.Injective wrapReminder := by
  intro first second same
  exact List.append_cancel_left (List.append_cancel_right same)

theorem formatReminder_ne_exit (template planPath : Text) (c : Char)
    (first : template.head? = some c) (plain : '{' ≠ c) (other : 'Y' ≠ c) :
    exitReminder ≠ formatReminder template planPath := by
  obtain ⟨rest, rfl⟩ := List.head?_eq_some_iff.mp first
  obtain ⟨body, start⟩ := List.head?_eq_some_iff.mp
    (show planModeExitReminder.head? = some 'Y' by decide)
  have placeholder : "\x7bplan_path\x7d".toList = '{' :: "plan_path\x7d".toList := rfl
  intro same
  have bodies := wrapReminder_injective same
  rw [start, placeholder, Text.replace_cons_of_ne plain] at bodies
  exact other (List.cons.inj bodies).1

-- The templates already differ in their first character, which no path is substituted into.
theorem exitReminder_not_active (planPath : Text) : exitReminder ∉ activeReminders planPath := by
  simp only [activeReminders, List.map_cons, List.map_nil, List.mem_cons, List.not_mem_nil,
    or_false, not_or]
  exact ⟨formatReminder_ne_exit _ planPath 'P' (by decide) (by decide) (by decide),
    formatReminder_ne_exit _ planPath 'P' (by decide) (by decide) (by decide),
    formatReminder_ne_exit _ planPath '#' (by decide) (by decide) (by decide)⟩

section Sessions

inductive Command where
  | enterPending
  | buildReminder
  | userExit (turnInFlight : Bool)
  | completeDeferredExit
  | resetAfterCompaction
  | restart
  deriving DecidableEq

/-- The tracker together with the last plan-mode reminder the model was given. -/
structure Session where
  tracker : PiPlanTracker
  told : Option Text

def Session.start (planFilePath : Text) : Session :=
  { tracker := .withPlanFile planFilePath, told := none }

def Session.step (session : Session) : Command → Session
  | .enterPending => { session with tracker := session.tracker.enterPending.2 }
  | .buildReminder =>
      let (reminder, tracker) := session.tracker.buildReminderForPrompt
      { tracker := tracker, told := reminder.or session.told }
  | .userExit turnInFlight => { session with tracker := session.tracker.userExit turnInFlight }
  | .completeDeferredExit => { session with tracker := session.tracker.completeDeferredExit }
  | .resetAfterCompaction => { session with tracker := session.tracker.resetAfterCompaction }
  | .restart =>
      { session with
        tracker := .fromSnapshotWithPlanFile session.tracker.planFilePath session.tracker.snapshot }

def Session.ToldActive (session : Session) : Prop :=
  ∃ text ∈ session.told, text ∈ activeReminders session.tracker.planFilePath

/-- A model that was last told plan mode is on hears of the exit with the next prompt. -/
def Session.Informed (session : Session) : Prop :=
  session.ToldActive → session.tracker.state = .inactive →
    session.tracker.buildReminderForPrompt.1 = some exitReminder

instance (session : Session) : Decidable session.ToldActive :=
  inferInstanceAs (Decidable (∃ text ∈ session.told, _))

instance (session : Session) : Decidable session.Informed :=
  inferInstanceAs (Decidable (_ → _ → _))

def Command.leavesPending : Command → Bool
  | .userExit _ | .restart => true
  | _ => false

/-- The activation that replaced an undelivered exit reminder is not withdrawn. -/
def Session.Keeps (session : Session) (command : Command) : Prop :=
  ¬ (command.leavesPending ∧ session.tracker.state = .pending ∧ session.ToldActive)

instance (session : Session) (command : Command) : Decidable (session.Keeps command) :=
  inferInstanceAs (Decidable (¬ _))

structure Session.Consistent (session : Session) : Prop where
  exitQueued : session.ToldActive → session.tracker.state = .inactive →
    session.tracker.pendingExitReminder = true
  pendingClears : session.tracker.state = .pending → session.tracker.pendingExitReminder = false

theorem start_consistent (planFilePath : Text) : (Session.start planFilePath).Consistent := by
  constructor <;> simp [Session.start, PiPlanTracker.withPlanFile, Session.ToldActive]

theorem buildReminderForPrompt_inactive (tracker : PiPlanTracker)
    (inactive : tracker.state = .inactive) :
    tracker.buildReminderForPrompt =
      if tracker.pendingExitReminder then (some exitReminder, tracker.clearPendingExitReminder)
      else (none, tracker) := by
  simp [PiPlanTracker.buildReminderForPrompt, inactive]

theorem Session.Consistent.informed {session : Session} (consistent : session.Consistent) :
    session.Informed := by
  intro told inactive
  have queued := consistent.exitQueued told inactive
  rw [buildReminderForPrompt_inactive _ inactive, if_pos queued]

theorem buildReminder_consistent (session : Session) (consistent : session.Consistent) :
    (session.step .buildReminder).Consistent := by
  cases state : session.tracker.state with
  | pending =>
      obtain ⟨text, _, _, active⟩ :=
        buildReminderForPrompt_active session.tracker (Or.inl state)
      constructor <;> simp [Session.step, active]
  | active =>
      obtain ⟨text, _, _, active⟩ :=
        buildReminderForPrompt_active session.tracker (Or.inr state)
      constructor <;> simp [Session.step, active]
  | inactive =>
      have spoken := buildReminderForPrompt_inactive session.tracker state
      by_cases queued : session.tracker.pendingExitReminder = true
      · constructor <;>
          simp [Session.step, spoken, queued, Session.ToldActive, exitReminder_not_active,
            PiPlanTracker.clearPendingExitReminder]
      · constructor
        · intro told
          refine absurd (consistent.exitQueued ?_ state) queued
          simpa [Session.step, spoken, queued, Session.ToldActive] using told
        · simp [Session.step, spoken, queued, state]
  | exitPending =>
      by_cases queued : session.tracker.pendingExitReminder = true <;>
        constructor <;>
        simp [Session.step, PiPlanTracker.buildReminderForPrompt, state, queued,
          PiPlanTracker.clearPendingExitReminder]

theorem toldActive_quiet (session : Session) (command : Command) (quiet : command ≠ .buildReminder) :
    (session.step command).ToldActive ↔ session.ToldActive := by
  have path : (session.step command).tracker.planFilePath = session.tracker.planFilePath := by
    cases command with
    | buildReminder => exact absurd rfl quiet
    | enterPending => cases state : session.tracker.state <;>
        simp [Session.step, PiPlanTracker.enterPending, state]
    | userExit turnInFlight => cases state : session.tracker.state <;> cases turnInFlight <;>
        simp [Session.step, PiPlanTracker.userExit, state]
    | completeDeferredExit =>
        simp only [Session.step, PiPlanTracker.completeDeferredExit]; split <;> rfl
    | resetAfterCompaction =>
        simp only [Session.step, PiPlanTracker.resetAfterCompaction]; split <;> rfl
    | restart => rfl
  have told : (session.step command).told = session.told := by
    cases command <;> first | rfl | exact absurd rfl quiet
  rw [Session.ToldActive, Session.ToldActive, told, path]

theorem step_consistent (session : Session) (command : Command) (consistent : session.Consistent)
    (keeps : session.Keeps command) : (session.step command).Consistent := by
  by_cases prompt : command = .buildReminder
  · exact prompt ▸ buildReminder_consistent session consistent
  have queued := consistent.exitQueued
  have clear := consistent.pendingClears
  constructor
  · rw [toldActive_quiet session command prompt]
    intro told inactive
    -- Withdrawing a pending activation is harmless only while the model knows of none.
    have kept : command.leavesPending → session.tracker.state ≠ .pending :=
      fun leaves pending => keeps ⟨leaves, pending, told⟩
    cases state : session.tracker.state <;> cases command <;>
      simp_all [Session.step, Command.leavesPending, PiPlanTracker.enterPending,
        PiPlanTracker.userExit, PiPlanTracker.completeDeferredExit,
        PiPlanTracker.resetAfterCompaction, PiPlanTracker.fromSnapshotWithPlanFile,
        PiPlanTracker.snapshot]
    all_goals split at inactive <;> simp_all
  · intro pending
    cases state : session.tracker.state <;> cases command <;>
      simp_all [Session.step, PiPlanTracker.enterPending,
        PiPlanTracker.userExit, PiPlanTracker.completeDeferredExit,
        PiPlanTracker.resetAfterCompaction, PiPlanTracker.fromSnapshotWithPlanFile,
        PiPlanTracker.snapshot]
    all_goals split at pending <;> simp_all

theorem withdrawn_uninformed (session : Session) (command : Command)
    (consistent : session.Consistent) (withdrawn : ¬ session.Keeps command) :
    ¬ (session.step command).Informed := by
  -- A withdrawn activation leaves no exit reminder behind for the one it replaced.
  obtain ⟨leaves, pending, told⟩ := not_not.mp withdrawn
  have silent := consistent.pendingClears pending
  have quiet : command ≠ .buildReminder := by rintro rfl; simp [Command.leavesPending] at leaves
  have left : (session.step command).tracker.state = .inactive ∧
      (session.step command).tracker.pendingExitReminder = false := by
    cases command <;>
      simp_all [Session.step, Command.leavesPending, PiPlanTracker.userExit,
        PiPlanTracker.fromSnapshotWithPlanFile, PiPlanTracker.snapshot]
  intro informed
  have answer := informed ((toldActive_quiet session command quiet).mpr told) left.1
  simp [buildReminderForPrompt_inactive _ left.1, left.2] at answer

/-- Exactly the withdrawal of an unannounced re-activation leaves the model misinformed. -/
theorem reminders_follow_tracker (planFilePath : Text) (commands : List Command)
    (kept : Runs.Along Session.step Session.Keeps (Session.start planFilePath) commands) :
    let session := Runs.run Session.step (Session.start planFilePath) commands
    session.Informed ∧
      ∀ command, ¬ session.Keeps command → ¬ (session.step command).Informed := by
  have consistent := Runs.along_invariant Session.step step_consistent _ commands
    (start_consistent planFilePath) kept
  exact ⟨consistent.informed, fun command => withdrawn_uninformed _ command consistent⟩

theorem reminders_follow_tracker_toggled :
    let commands := [.enterPending, .buildReminder, .userExit false, .enterPending, .buildReminder,
      .userExit true, .completeDeferredExit]
    (Runs.run Session.step (Session.start "/s/plan.md".toList) commands).Informed :=
  (reminders_follow_tracker "/s/plan.md".toList
    [.enterPending, .buildReminder, .userExit false, .enterPending, .buildReminder,
      .userExit true, .completeDeferredExit] (by decide)).1

theorem double_toggle_uninformed :
    ¬ ∀ commands, (Runs.run Session.step (Session.start "/s/plan.md".toList) commands).Informed := by
  intro informed
  have kept : Runs.Along Session.step Session.Keeps (Session.start "/s/plan.md".toList)
      [.enterPending, .buildReminder, .userExit false, .enterPending] := by decide
  have consistent := Runs.along_invariant Session.step step_consistent _ _
    (start_consistent "/s/plan.md".toList) kept
  exact withdrawn_uninformed _ (.userExit false) consistent
    (fun keeps => keeps ⟨rfl, rfl, _, rfl, List.mem_cons_self⟩)
    (informed [.enterPending, .buildReminder, .userExit false, .enterPending, .userExit false])

end Sessions

end GrokPi.PlanMode
