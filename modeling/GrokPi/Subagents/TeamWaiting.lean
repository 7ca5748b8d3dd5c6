import GrokPi.Subagents.TeamSteps

set_option autoImplicit false

namespace GrokPi.Subagents

namespace Team

def Waits (team : Team) (agent : TeamAgent) : Prop :=
  (team.record agent.record).terminalStatus = some .completed ∧ reports agent.report .waiting = true

def Pends (team : Team) (child : AgentPath) : Prop :=
  ∃ holder, team.agents.get child = some holder ∧
    (team.finished holder.record = false ∨ team.Waits holder)

/-- The answer that a waiting parent gets, whatever else the report says. -/
def Speaks (handler : Handler) : Prop :=
  handler.status ≠ .completed ∨ reports handler.report .waiting = false

def Tells (team : Team) (id : RecordId) : Prop :=
  ∃ handler, team.handlers id = some handler ∧ handler.stage = .flushing ∧ Speaks handler

inductive Stirring (team : Team) (path : AgentPath) : Prop where
  | child (child : AgentPath) (below : parentPath child = path) (pends : team.Pends child)
  | answer (id : RecordId) (below : parentPath (team.agentPath id) = path) (tells : team.Tells id)
  | task (agent : TeamAgent) (found : team.agents.get path = some agent)
      (waiting : agent.pendingTasks ≠ []) (id : RecordId) (own : team.agentPath id = path)
      (handled : (team.handlers id).isSome = true)

def Awake (team : Team) : Prop :=
  ∀ path agent, team.agents.get path = some agent → team.Waits agent → team.Stirring path

theorem answers_speaks {team : Team} {id : RecordId} {handler : Handler}
    (answers : team.answers id handler.status handler.report = true) : Speaks handler := by
  simp only [Team.answers, quietReport, Bool.or_eq_true, decide_eq_true_eq, Bool.not_eq_true',
    Bool.or_eq_false_iff] at answers
  exact answers.imp_right And.left

theorem speaks_answers {team : Team} {id : RecordId} {handler : Handler} {agent : TeamAgent}
    (found : team.agents.get (parentPath (team.agentPath id)) = some agent)
    (waits : reports agent.report .waiting = true) (speaks : Speaks handler) :
    team.answers id handler.status handler.report = true := by
  have needs : team.parentNeedsCompletion (team.agentPath id) = true := by
    simp [Team.parentNeedsCompletion, found, waits]
  simp only [Team.answers, quietReport, needs, Bool.not_true, Bool.and_false, Bool.or_false,
    Bool.or_eq_true, decide_eq_true_eq, Bool.not_eq_true']
  exact speaks

theorem child_ne {child path : AgentPath} (below : parentPath child = path) (notRoot : path ≠ rootPath) :
    child ≠ path := by
  rintro rfl
  cases child with
  | nil => exact notRoot rfl
  | cons name above =>
      have length := congrArg List.length below
      simp [parentPath] at length

section Changes

variable {allowed : Miss → Prop} {team next : Team}

theorem Sound.stirring_of_wakeable (sound : team.Sound) {path : AgentPath} (notRoot : path ≠ rootPath)
    (wakeable : team.wakeable path = true) :
    (∃ child, parentPath child = path ∧ child ≠ path ∧ team.Pends child) ∨
      (∃ id, parentPath (team.agentPath id) = path ∧ team.Tells id) ∨
        ∃ agent, team.agents.get path = some agent ∧ agent.pendingTasks ≠ [] := by
  simp only [Team.wakeable, Bool.or_eq_true, List.any_eq_true, hasPendingChild] at wakeable
  rcases wakeable with (⟨⟨child, holder⟩, listed, pending⟩ | waiting) | ⟨id, _, tells⟩
  · left
    simp only [Bool.and_eq_true, decide_eq_true_eq, Bool.or_eq_true] at pending
    have found := (InsertionMap.mem_get sound.once).mp listed
    refine ⟨child, pending.1, child_ne pending.1 notRoot, holder, found, ?_⟩
    rcases pending.2 with (running | queued) | waits
    · left
      by_contra finished
      have settled := sound.terminal holder.record
      have finished := (Bool.not_eq_false _).mp finished
      simp only [status, finished, Bool.not_true, Bool.false_eq_true, if_false] at running
      split at running
      · split at running
        · cases running
        · split at running <;> cases running
      · cases running
      · cases running
      · cases running
    · exact Or.inl (status_queued sound.terminal holder queued)
    · exact Or.inr ((status_waiting sound.terminal holder).mp waits)
  · right
    right
    cases found : team.agents.get path with
    | none => simp [found] at waiting
    | some agent =>
        refine ⟨agent, rfl, fun nothing => ?_⟩
        simp [found, nothing] at waiting
  · right
    left
    cases held : team.handlers id with
    | none => simp [held] at tells
    | some handler =>
        simp only [held, Option.any_some, Bool.and_eq_true, decide_eq_true_eq] at tells
        exact ⟨id, tells.1.2, handler, held, tells.1.1, answers_speaks tells.2⟩

theorem Sound.waits_finished (sound : team.Sound) {agent : TeamAgent} (waits : team.Waits agent) :
    team.finished agent.record = true := by
  rw [← sound.terminal, waits.1]
  rfl

theorem Pends.under {after : Scheduler} {handlers : RecordId → Option Handler}
    {handed : AgentPath → List (TeamTask × Route)} {child : AgentPath} (pends : team.Pends child)
    (kept : ∀ holder, team.agents.get child = some holder →
      Runtime.Kept team.scheduler.runtime after.runtime holder.record) :
    Pends { team with scheduler := after, handlers := handlers, handed := handed } child := by
  obtain ⟨holder, found, pending⟩ := pends
  have same := kept holder found
  refine ⟨holder, found, pending.imp ?_ ?_⟩
  · intro unfinished
    exact same.finished.trans unfinished
  · exact fun waits => ⟨same.terminal.trans waits.1, waits.2⟩

theorem Awake.schedule (awake : team.Awake) {after : Scheduler}
    (handed : AgentPath → List (TeamTask × Route))
    (kept : ∀ id, Runtime.Kept team.scheduler.runtime after.runtime id) :
    Awake { team with scheduler := after, handed := handed } := by
  intro path agent found waits
  cases awake path agent found ⟨(kept agent.record).terminal.symm.trans waits.1, waits.2⟩ with
  | child child below pends => exact .child child below (pends.under fun holder _ => kept _)
  | answer id below tells => exact .answer id below tells
  | task agent found waiting id own handled => exact .task agent found waiting id own handled

theorem Awake.ended (awake : team.Awake) (sound : team.Sound) {after : Scheduler} {id : RecordId}
    {status : TerminalStatus} {agent : TeamAgent} (unfinished : team.finished id = false)
    (known : id < team.nextRecord) (found : team.agents.get (team.agentPath id) = some agent)
    (terminal : (after.runtime.records id).terminalStatus = some status)
    (kept : ∀ other, other ≠ id → Runtime.Kept team.scheduler.runtime after.runtime other)
    (wakes : status = .completed → reports agent.report .waiting = true →
      team.wakeable (team.agentPath id) = true) :
    Awake
      { team with
        scheduler := after
        handlers := Function.update team.handlers id
          (some { status := status, report := agent.report, stage := .flushing }) } := by
  have ⟨last, lastFound, current⟩ := sound.current_of_unfinished known unfinished
  rw [found] at lastFound
  obtain rfl := Option.some.inj lastFound
  have elsewhere : ∀ {child : AgentPath} {holder : TeamAgent}, child ≠ team.agentPath id →
      team.agents.get child = some holder → holder.record ≠ id := by
    intro child holder different held same
    apply different
    rw [← same]
    exact (sound.current child holder held).2.symm
  have older : ∀ other, (team.handlers other).isSome = true → other ≠ id := by
    rintro other held rfl
    obtain ⟨handler, held⟩ := Option.isSome_iff_exists.mp held
    have ends := sound.terminal other
    rw [(sound.pending other handler held).2, unfinished] at ends
    cases ends
  have tells : ∀ {other : RecordId}, team.Tells other → Tells
      { team with
        scheduler := after
        handlers := Function.update team.handlers id
          (some { status := status, report := agent.report, stage := .flushing }) } other := by
    intro other ⟨handler, held, told⟩
    refine ⟨handler, ?_, told⟩
    exact (Function.update_of_ne (older other (by simp [held])) _ _).trans held
  intro path waiter here waits
  by_cases own : path = team.agentPath id
  · subst own
    have same : agent = waiter := Option.some.inj (found.symm.trans here)
    subst same
    have completed : status = .completed := by
      have ends := waits.1
      change (after.runtime.records agent.record).terminalStatus = _ at ends
      rw [current, terminal] at ends
      exact Option.some.inj ends
    -- The run completes with a report to wait, and the guard names what is left to wake it.
    rcases sound.stirring_of_wakeable (sound.notRoot found) (wakes completed waits.2) with
      ⟨child, below, different, pends⟩ | ⟨other, below, told⟩ | ⟨holder, held, waiting⟩
    · refine .child child below (pends.under fun holder held => ?_)
      exact kept _ (elsewhere different held)
    · exact .answer other below (tells told)
    · refine .task holder held waiting id rfl ?_
      change (Function.update team.handlers id _ id).isSome = true
      rw [Function.update_self]
      rfl
  · have waited : team.Waits waiter :=
      ⟨(kept waiter.record (elsewhere own here)).terminal.symm.trans waits.1, waits.2⟩
    cases awake path waiter here waited with
    | child child below pends =>
        by_cases ended : child = team.agentPath id
        · subst ended
          -- The child's run is over: it waits itself or its answer is on the way.
          by_cases quiet : status = .completed ∧ reports agent.report .waiting = true
          · refine .child _ below ⟨agent, found, Or.inr ⟨?_, quiet.2⟩⟩
            change (after.runtime.records agent.record).terminalStatus = _
            rw [current, terminal, quiet.1]
          · refine .answer id below ⟨_, Function.update_self _ _ _, rfl, ?_⟩
            by_cases completed : status = .completed
            · exact Or.inr (Bool.eq_false_iff.mpr fun waiting => quiet ⟨completed, waiting⟩)
            · exact Or.inl completed
        · refine .child child below (pends.under fun holder held => ?_)
          exact kept _ (elsewhere ended held)
    | answer other below told => exact .answer other below (tells told)
    | task holder held waiting other at' handled =>
        refine .task holder held waiting other at' ?_
        exact (congrArg Option.isSome (Function.update_of_ne (older other handled) _ _)).trans handled

theorem Awake.transfer (awake : team.Awake)
    (waits : ∀ path agent, next.agents.get path = some agent → next.Waits agent →
      ∃ before, team.agents.get path = some before ∧ team.Waits before ∧
        (before.pendingTasks ≠ [] → agent.pendingTasks ≠ []))
    (pends : ∀ child, team.Pends child → next.Pends child)
    (tells : ∀ id agent, team.agents.get (parentPath (team.agentPath id)) = some agent →
      team.Waits agent → team.Tells id → next.Tells id ∧ next.agentPath id = team.agentPath id)
    (handled : ∀ id agent, next.agents.get (team.agentPath id) = some agent → next.Waits agent →
      agent.pendingTasks ≠ [] → (team.handlers id).isSome = true →
      next.agentPath id = team.agentPath id ∧ (next.handlers id).isSome = true) :
    next.Awake := by
  -- The agents that wait have waited before, and what stirs them is still there.
  intro path agent found waiting
  obtain ⟨before, earlier, waited, kept⟩ := waits path agent found waiting
  cases awake path before earlier waited with
  | child child below pending => exact .child child below (pends child pending)
  | answer id below told =>
      subst below
      obtain ⟨still, same⟩ := tells id before earlier waited told
      exact .answer id (by rw [same]) still
  | task holder held tasks id own has =>
      rw [earlier] at held
      obtain rfl := Option.some.inj held
      subst own
      obtain ⟨same, still⟩ := handled id agent found waiting (kept tasks) has
      exact .task agent found (kept tasks) id same still

theorem Awake.log (awake : team.Awake) (owed parked : AgentPath → List TeamTask)
    (handed : AgentPath → List (TeamTask × Route)) :
    Awake { team with owed := owed, parked := parked, handed := handed } := by
  apply awake.transfer
  · exact fun path agent found waits => ⟨agent, found, waits, id⟩
  · exact fun child pends => pends
  · exact fun id _ _ _ tells => ⟨tells, rfl⟩
  · exact fun id _ _ _ _ handled => ⟨rfl, handled⟩

theorem Pends.setAgent {path child : AgentPath} {agent changed : TeamAgent}
    (pends : team.Pends child) (found : team.agents.get path = some agent)
    (still : team.finished agent.record = false ∨ team.Waits agent →
      team.finished changed.record = false ∨ team.Waits changed) :
    (team.setAgent path changed).Pends child := by
  obtain ⟨holder, held, pending⟩ := pends
  by_cases here : child = path
  · subst here
    rw [found] at held
    obtain rfl := Option.some.inj held
    exact ⟨changed, by rw [get_setAgent, if_pos rfl], still pending⟩
  · exact ⟨holder, by rw [get_setAgent, if_neg here, held], pending⟩

theorem Awake.setAgent (awake : team.Awake) {path : AgentPath} {agent changed : TeamAgent}
    (found : team.agents.get path = some agent) (awoken : ¬ team.Waits changed)
    (still : team.finished agent.record = false ∨ team.Waits agent →
      team.finished changed.record = false) : (team.setAgent path changed).Awake := by
  -- An agent that does not wait takes the place of one.
  apply awake.transfer
  · intro other holder held waits
    rw [get_setAgent] at held
    split at held
    next =>
      obtain rfl := Option.some.inj held
      exact absurd waits awoken
    next => exact ⟨holder, held, waits, id⟩
  · exact fun child pends => pends.setAgent found fun pending => Or.inl (still pending)
  · exact fun id _ _ _ tells => ⟨tells, rfl⟩
  · exact fun id _ _ _ _ handled => ⟨rfl, handled⟩

theorem Awake.allocate (awake : team.Awake) (sound : team.Sound) {path : AgentPath}
    (agent : TeamAgent) (record : agent.record = team.nextRecord)
    (messages : RecordId → Option (TeamTask × Route)) :
    Awake
      { team.setAgent path agent with
        nextRecord := team.nextRecord + 1
        agentPath := Function.update team.agentPath team.nextRecord path
        messages := messages } := by
  have unfinished : team.finished agent.record = false := by
    rw [record]
    exact (sound.unknown _ (Nat.le_refl _)).1
  have old : ∀ id, (team.handlers id).isSome = true →
      Function.update team.agentPath team.nextRecord path id = team.agentPath id := by
    intro id held
    obtain ⟨handler, held⟩ := Option.isSome_iff_exists.mp held
    exact Function.update_of_ne (Nat.ne_of_lt (sound.pending id handler held).1) _ _
  apply awake.transfer
  · intro other holder held waits
    change (team.setAgent path agent).agents.get other = some holder at held
    rw [get_setAgent] at held
    split at held
    next =>
      obtain rfl := Option.some.inj held
      have finished := sound.waits_finished waits
      rw [unfinished] at finished
      cases finished
    next => exact ⟨holder, held, waits, id⟩
  · intro child ⟨holder, held, pending⟩
    by_cases here : child = path
    · subst here
      exact ⟨agent, (get_setAgent team child child agent).trans (if_pos rfl), Or.inl unfinished⟩
    · exact ⟨holder, (get_setAgent team path child agent).trans ((if_neg here).trans held), pending⟩
  · intro id _ _ _ tells
    obtain ⟨handler, held, told⟩ := tells
    exact ⟨⟨handler, held, told⟩, old id (by simp [held])⟩
  · exact fun id _ _ _ _ handled => ⟨old id handled, handled⟩

theorem Awake.setHandler (awake : team.Awake) {id : RecordId}
    (handler : Option Handler)
    (told : ∀ agent, team.agents.get (parentPath (team.agentPath id)) = some agent →
      team.Waits agent → ¬ team.Tells id)
    (last : handler = none → ∀ agent, team.agents.get (team.agentPath id) = some agent →
      team.Waits agent → agent.pendingTasks = []) : (team.setHandler id handler).Awake := by
  -- A handler that has told the parent, if the parent waits, may go.
  apply awake.transfer
  · exact fun path agent found waits => ⟨agent, found, waits, fun tasks => tasks⟩
  · exact fun child pends => pends
  · intro other agent found waits tells
    have different : other ≠ id := by
      rintro rfl
      exact told agent found waits tells
    obtain ⟨handler, held, rest⟩ := tells
    exact ⟨⟨handler, (Function.update_of_ne different _ _).trans held, rest⟩, rfl⟩
  · intro other agent found waits tasks handled
    refine ⟨rfl, ?_⟩
    change (Function.update team.handlers id handler other).isSome = true
    by_cases same : other = id
    · subst same
      rw [Function.update_self]
      cases handler with
      | none => exact absurd (last rfl agent found waits) tasks
      | some handler => rfl
    · rw [Function.update_of_ne same]
      exact handled

theorem Told.silent {id : RecordId} {handler : Handler} (told : team.Told allowed id handler)
    (seen : ¬ allowed .overlooked) (held : team.handlers id = some handler) (agent : TeamAgent)
    (found : team.agents.get (parentPath (team.agentPath id)) = some agent)
    (waits : team.Waits agent) : ¬ team.Tells id := by
  -- A waiting parent was told, unless the answer was overlooked.
  rintro ⟨same, here, flushing, speaks⟩
  rw [held] at here
  obtain rfl := Option.some.inj here
  rcases told.resolve_left seen with delivering | quiet
  · rw [flushing] at delivering
    cases delivering
  · rw [speaks_answers found waits.2 speaks] at quiet
    cases quiet

theorem Change.awake (change : Change allowed team next) (sound : team.Sound) (awake : team.Awake)
    (seen : ¬ allowed .overlooked) (kept : ¬ allowed .cleared) (led : ¬ allowed .stalled) :
    next.Awake := by
  cases change with
  | unmoved after follows started same => exact awake.schedule team.handed same
  | begun after id follows unfinished started same => exact awake.schedule _ same
  | ended after id status agent _ unfinished known found _ _ _ terminal same wakes =>
      exact awake.ended sound unfinished known found terminal same (wakes.resolve_left led)
  | spawned path free below parent => exact awake.allocate sound _ rfl team.messages
  | reported path agent report found plain =>
      rcases plain with unfinished | ⟨rfl, free⟩
      · refine awake.setAgent found ?_ fun _ => unfinished
        intro waits
        exact absurd (sound.waits_finished waits) (by simp [unfinished])
      · refine awake.setAgent found ?_ ?_
        · intro waits
          exact absurd waits.2 (by simp [reports])
        · rintro (unfinished | waits)
          · exact unfinished
          · exact absurd ((status_waiting sound.terminal agent).mpr waits) (free.resolve_left kept)
  | handed path task present => exact awake.log _ _ _
  | parked path agent task found unfinished =>
      have parked : (team.setAgent path
          { agent with pendingTasks := agent.pendingTasks ++ [task] }).Awake := by
        refine awake.setAgent found ?_ fun _ => unfinished
        intro waits
        exact absurd (sound.waits_finished waits) (by simp [unfinished])
      exact parked.log _ _ _
  | resumed path agent task found receives =>
      have resumed : (team.resumeRecord path agent (task, .reactivated)).Awake :=
        awake.allocate sound _ rfl _
      exact resumed.log _ _ _
  | unplaced path task lost => exact awake.log _ _ _
  | told id handler held resumed =>
      refine awake.setHandler _ ?_ ?_
      · intro agent found waits
        exact absurd ((status_waiting sound.terminal agent).mpr waits) (resumed agent found)
      · intro none
        cases none
  | unparked id handler agent next rest held told found waiting receives =>
      have known := (sound.pending id handler held).1
      have below : parentPath (team.agentPath id) ≠ team.agentPath id := by
        intro same
        exact child_ne same (sound.notRoot found) rfl
      have path : Function.update team.agentPath team.nextRecord (team.agentPath id) id =
          team.agentPath id := Function.update_of_ne (Nat.ne_of_lt known) _ _
      have resumed : (team.resumeRecord (team.agentPath id) { agent with pendingTasks := rest }
          (next, .unparked)).Awake := awake.allocate sound _ rfl _
      have found' := get_setAgent team (team.agentPath id)
      refine resumed.setHandler none ?_ ?_
      · intro parent held' waits
        change (team.setAgent (team.agentPath id) _).agents.get (parentPath
          (Function.update team.agentPath team.nextRecord (team.agentPath id) id)) = _ at held'
        rw [path, found', if_neg below] at held'
        exact told.silent seen held parent held' waits
      · intro _ owner held' waits
        change (team.setAgent (team.agentPath id) _).agents.get
          (Function.update team.agentPath team.nextRecord (team.agentPath id) id) = _ at held'
        rw [path, found', if_pos rfl] at held'
        obtain rfl := Option.some.inj held'
        have finished := sound.waits_finished waits
        rw [(sound.unknown _ (Nat.le_refl _)).1] at finished
        cases finished
  | settled id handler agent left held told found nothing =>
      have quiet : team.Waits agent → agent.pendingTasks = [] ∧ left = [] := by
        intro waits
        rcases nothing with none | ⟨_, unfinished⟩ | ⟨other, here, _, failed⟩
        · exact none
        · exact absurd (sound.waits_finished waits) (by simp [unfinished])
        · rw [found] at here
          obtain rfl := Option.some.inj here
          exact absurd waits.1 failed
      have settled : (team.setHandler id none).Awake := by
        refine awake.setHandler none (told.silent seen held) fun _ owner held' waits => ?_
        rw [found] at held'
        obtain rfl := Option.some.inj held'
        exact (quiet waits).1
      by_cases waits : team.Waits agent
      · obtain ⟨_, rfl⟩ := quiet waits
        have same : { agent with pendingTasks := [] } = agent := by
          cases agent
          simp_all
        have unchanged : (team.setHandler id none).setAgent (team.agentPath id) agent =
            team.setHandler id none := by
          simp only [Team.setAgent, Team.setHandler, InsertionMap.set_get found]
        rw [same, unchanged]
        exact settled
      · exact settled.setAgent found waits fun pending => pending.resolve_right waits

end Changes

theorem start_awake : start.Awake := by
  intro path agent found
  cases found

/-- The agents that wait in a quiescent team are above agents that wait, and paths are bounded. -/
theorem Quiescent.no_waiting {team : Team} (quiescent : team.Quiescent) (sound : team.Sound)
    (awake : team.Awake) (path : AgentPath) (agent : TeamAgent)
    (found : team.agents.get path = some agent) : ¬ team.Waits agent := by
  have settled : ∀ id, team.handlers id = none := by
    intro id
    by_cases known : id < team.nextRecord
    · exact quiescent.settled id known
    · exact (sound.unknown id (Nat.not_lt.mp known)).2.1
  have finished : ∀ child holder, team.agents.get child = some holder →
      team.finished holder.record = true := by
    intro child holder held
    have scheduled := quiescent.launched _ (sound.current child holder held).1
    rcases sound.consistent.tracked _ scheduled with finished | queued | running
    · exact finished
    · rw [quiescent.empty] at queued
      cases queued
    · rw [quiescent.idle] at running
      cases running
  have below : ∀ path agent, team.agents.get path = some agent → team.Waits agent →
      ∃ child holder, team.agents.get child = some holder ∧ team.Waits holder ∧
        child.length = path.length + 1 := by
    intro path agent found waits
    cases awake path agent found waits with
    | child child below pends =>
        obtain ⟨holder, held, pending⟩ := pends
        have waits := pending.resolve_left (by simp [finished child holder held])
        refine ⟨child, holder, held, waits, ?_⟩
        subst below
        have notRoot := sound.notRoot held
        cases child with
        | nil => exact absurd rfl notRoot
        | cons name above => rfl
    | answer id _ tells =>
        obtain ⟨handler, held, _⟩ := tells
        rw [settled id] at held
        cases held
    | task _ _ _ id _ handled => simp [settled id] at handled
  have bounded : ∀ child holder, team.agents.get child = some holder →
      child.length ≤ (team.agents.keys.map List.length).sum := by
    intro child holder held
    apply List.le_sum_of_mem
    exact List.mem_map.mpr ⟨child, InsertionMap.mem_keys.mpr ⟨holder, held⟩, rfl⟩
  -- By induction on how many levels are left below the path.
  have descend : ∀ levels path agent, team.agents.get path = some agent → team.Waits agent →
      (team.agents.keys.map List.length).sum < path.length + levels → False := by
    intro levels
    induction levels with
    | zero =>
        intro path agent found _ deep
        have := bounded path agent found
        omega
    | succ levels ih =>
        intro path agent found waits deep
        obtain ⟨child, holder, held, waiting, length⟩ := below path agent found waits
        exact ih child holder held waiting (by omega)
  exact fun waits => descend _ path agent found waits (Nat.lt_add_left _ (Nat.lt_succ_self _))

def wakeUps : List Miss := [.overlooked, .cleared, .stalled, .passedOver]

theorem no_coordinator_is_stranded (events : List TeamEvent)
    (possible : Runs.Along step Possible start events)
    (spared : Runs.Along step (Spares wakeUps) start events)
    (quiescent : (Runs.run step start events).Quiescent) (path : AgentPath) (agent : TeamAgent)
    (found : (Runs.run step start events).agents.get path = some agent) :
    (Runs.run step start events).status agent ≠ .waitingResult := by
  have ⟨sound, awake⟩ := @spared_run wakeUps (by decide) Awake
    (fun team next change sound awake => change.awake sound awake (by decide) (by decide) (by decide))
    start events start_sound start_awake possible spared
  intro waiting
  exact quiescent.no_waiting sound awake path agent found
    ((status_waiting sound.terminal agent).mp waiting)

def coordinator : AgentPath := ["lead".toList]

def waitingReport : TeamReport :=
  { state := .waiting
    summary := "The search is pending.".toList
    question := none }

def delegated : List TeamEvent :=
  [.spawn rootPath "lead".toList false, .spawn coordinator "search".toList false,
    .report coordinator waitingReport]

def resumedByChild : List TeamEvent :=
  delegated ++ [.ended 0 none, .flushed 0 [], .released 0, .ended 1 none,
    .flushed 1 "Found it.".toList, .answered 1, .released 1, .ended 2 none, .flushed 2 [],
    .answered 2, .released 2]

theorem no_coordinator_is_stranded_resumed :
    (Runs.run step start resumedByChild).status
      { record := 2, report := none, pendingTasks := [] } ≠ .waitingResult :=
  no_coordinator_is_stranded resumedByChild (by decide +kernel) (by decide +kernel)
    (by decide +kernel) coordinator _ (by decide +kernel)

def answeredWhileRunning : List TeamEvent :=
  delegated ++ [.ended 1 none, .flushed 1 "Found it.".toList, .answered 1, .released 1,
    .ended 0 none, .flushed 0 [], .released 0]

theorem answered_coordinator_is_stranded :
    ¬ ∀ events : List TeamEvent, Runs.Along step Possible start events →
      (Runs.run step start events).Quiescent →
      ∀ path agent, (Runs.run step start events).agents.get path = some agent →
        (Runs.run step start events).status agent ≠ .waitingResult := by
  intro claim
  have awake := claim answeredWhileRunning (by decide +kernel) (by decide +kernel) coordinator
    { record := 0, report := some waitingReport, pendingTasks := [] } (by decide +kernel)
  exact absurd awake (by decide +kernel)

end Team

end GrokPi.Subagents
