import GrokPi.Subagents.TeamSteps

set_option autoImplicit false

namespace GrokPi.Subagents

namespace Team

section Announcements

variable (team : Team)

def announcement (id : RecordId) (output : Text) (report : Option TeamReport) : Option TeamTask :=
  match team.handlers id with
  | some handler =>
      if team.answers id handler.status report then
        some (team.finalAnswer id { record := id, report := report, pendingTasks := [] }
          handler.status output)
      else none
  | none => none

/-- What `handleFinished` tells the parent, which goes by the report its agent has by now. -/
def told (id : RecordId) (output : Text) : Option TeamTask :=
  match team.agents.get (team.agentPath id) with
  | some agent => team.announcement id output agent.report
  | none => none

def awaitsFlush (path : AgentPath) : Bool :=
  (List.range team.nextRecord).any fun id =>
    team.agentPath id = path &&
      (team.handlers id).any fun handler => handler.stage = .flushing

def exposed (path : AgentPath) : Bool :=
  (team.agents.get path).any fun agent =>
    canReceiveMessage (team.status agent) && agent.report.isSome && team.awaitsFlush path

variable {id : RecordId}

theorem resumeHandler_tells {handler : Handler} {agent : TeamAgent}
    (held : team.handlers id = some handler)
    (found : team.agents.get (team.agentPath id) = some agent) (output : Text) :
    team.resumeHandler id handler output =
      match team.told id output with
      | some task =>
          ((team.owe (parentPath (team.agentPath id)) task).deliverFinalAnswer (team.agentPath id)
            task).setHandler id (some { handler with stage := .delivering })
      | none =>
          (if team.answers id handler.status handler.report then
            team.owe (parentPath (team.agentPath id))
              (team.finalAnswer id agent handler.status output)
          else team).shiftPending id handler.status := by
  -- The parent gets the announcement that `told` computes, and nothing where there is none.
  have same : team.finalAnswer id { record := id, report := agent.report, pendingTasks := [] }
      handler.status output = team.finalAnswer id agent handler.status output := rfl
  simp only [resumeHandler, told, announcement, held, found, same]
  by_cases answers : team.answers id handler.status agent.report = true
  · simp [answers]
  · simp [answers]

variable {team}

theorem awaitsFlush_iff {path : AgentPath} :
    team.awaitsFlush path = true ↔ ∃ id < team.nextRecord, ∃ handler,
      team.agentPath id = path ∧ team.handlers id = some handler ∧ handler.stage = .flushing := by
  simp only [awaitsFlush, List.any_eq_true, List.mem_range, Bool.and_eq_true, decide_eq_true_eq,
    Option.any_eq_true_iff_get]
  constructor
  · rintro ⟨id, known, here, some', flushing⟩
    exact ⟨id, known, (team.handlers id).get some', here, (Option.some_get some').symm, flushing⟩
  · rintro ⟨id, known, handler, here, held, flushing⟩
    refine ⟨id, known, here, by simp [held], ?_⟩
    simpa [held] using flushing

theorem finished_of_receives {agent : TeamAgent}
    (receives : canReceiveMessage (team.status agent) = true) :
    team.finished agent.record = true := by
  by_contra unfinished
  simp only [status, Bool.eq_false_iff.mpr unfinished, Bool.not_false, if_true] at receives
  split at receives
  · cases receives
  · split at receives <;> cases receives

theorem spared_of_hidden {path : AgentPath} {agent : TeamAgent} (hidden : team.exposed path = false)
    (found : team.agents.get path = some agent)
    (receives : canReceiveMessage (team.status agent) = true) :
    agent.report = none ∨ team.awaitsFlush path = false := by
  simp only [exposed, found, receives, Option.any_some, Bool.true_and, Bool.and_eq_false_iff,
    Option.isSome_eq_false_iff, Option.isNone_iff_eq_none] at hidden
  exact hidden

theorem awaitsFlush_settled {path : AgentPath} (id : RecordId)
    (quiet : team.awaitsFlush path = false) :
    (team.setHandler id none).awaitsFlush path = false := by
  rw [Bool.eq_false_iff] at quiet ⊢
  intro waits
  obtain ⟨other, known, handler, here, held, stage⟩ := awaitsFlush_iff.mp waits
  refine quiet (awaitsFlush_iff.mpr ⟨other, known, handler, here, ?_, stage⟩)
  by_cases same : other = id
  · simp [setHandler, same] at held
  · simpa [setHandler, same] using held

theorem follow_isSome (event : Event) (held : (team.handlers id).isSome = true) :
    ((team.follow event).handlers id).isSome = true := by
  simp only [follow]
  generalize List.drop _ _ = handled
  generalize team.handlers = handlers at held ⊢
  induction handled generalizing handlers with
  | nil => exact held
  | cons ended rest ih =>
      apply ih
      cases found : team.agents.get (team.agentPath ended.1) with
      | none => simpa [handleFinished, found] using held
      | some agent =>
          by_cases same : id = ended.1
          · simp [handleFinished, found, same]
          · simpa [handleFinished, found, same] using held

theorem reactivateAgent_isSome (path : AgentPath) (target : TeamAgent) (message : TeamTask × Route)
    (aborted : Bool) (held : (team.handlers id).isSome = true) :
    ((team.reactivateAgent path target message aborted).1.handlers id).isSome = true := by
  simp only [reactivateAgent]
  split
  · exact held
  · split
    · exact held
    · exact follow_isSome _ held

theorem deliver_isSome (path : AgentPath) (task : TeamTask) (held : (team.handlers id).isSome = true) :
    (((team.deliver path task).toOption.getD team).handlers id).isSome = true := by
  cases delivered : team.deliver path task with
  | error => exact held
  | ok next =>
      rw [(deliver_ok delivered).1]
      exact held

theorem deliverFinalAnswer_isSome (path : AgentPath) (task : TeamTask)
    (held : (team.handlers id).isSome = true) :
    ((team.deliverFinalAnswer path task).handlers id).isSome = true := by
  simp only [deliverFinalAnswer]
  split
  · split
    · exact reactivateAgent_isSome _ _ _ _ held
    · split
      · exact held
      · exact deliver_isSome _ _ held
  · exact deliver_isSome _ _ held

end Announcements

end Team

/-- `declared` logs the last report that was declared during a run. -/
structure Reporting where
  team : Team
  declared : RecordId → Option TeamReport

namespace Reporting

def start : Reporting := { team := .start, declared := fun _ => none }

def declare (state : Reporting) (path : AgentPath) (report : TeamReport) :
    RecordId → Option TeamReport :=
  match state.team.agents.get path, state.team.teamReport path report with
  | some agent, .ok _ => Function.update state.declared agent.record (some report)
  | _, _ => state.declared

def step (state : Reporting) (event : TeamEvent) : Reporting :=
  { team := state.team.step event
    declared :=
      match event with
      | .report path report => state.declare path report
      | _ => state.declared }

def Possible (state : Reporting) (event : TeamEvent) : Prop := state.team.Possible event

/-- The parent is told of a run by the report that was declared during the run. -/
def OwnReport (state : Reporting) : TeamEvent → Prop
  | .flushed id output =>
      state.team.told id output = state.team.announcement id output (state.declared id)
  | _ => True

/-- No report is replaced or cleared that the finish handler of a run has yet to read. -/
def Calm (state : Reporting) : TeamEvent → Prop
  | .report path report =>
      (state.team.teamReport path report).toBool = true → state.team.awaitsFlush path = false
  | .followup _ targetPath _ _ _ => state.team.exposed targetPath = false
  -- The answer of the run reactivates a parent that can receive it.
  | .flushed id output =>
      (state.team.announcement id output (state.declared id)).isSome = true →
        state.team.exposed (parentPath (state.team.agentPath id)) = false
  -- A task parked behind the run reactivates its agent.
  | .answered id =>
      ((state.team.handlers id).any fun handler => handler.status = .completed) = true →
        ((state.team.agents.get (state.team.agentPath id)).any fun agent =>
          !agent.pendingTasks.isEmpty) = true →
        state.team.exposed (state.team.agentPath id) = false
  | _ => True

instance possible_decidable (state : Reporting) : DecidablePred state.Possible :=
  fun event => inferInstanceAs (Decidable (state.team.Possible event))

instance calm_decidable (state : Reporting) : DecidablePred state.Calm
  | .report _ _ | .flushed _ _ => inferInstanceAs (Decidable (_ = true → _ = false))
  | .followup _ _ _ _ _ => inferInstanceAs (Decidable (_ = false))
  | .answered _ => inferInstanceAs (Decidable (_ = true → _ = true → _ = false))
  | .spawn _ _ _ | .launch _ | .interrupt _ | .abort _ | .ended _ _ | .released _ =>
      inferInstanceAs (Decidable True)

end Reporting

structure Attributed (declared : RecordId → Option TeamReport) (team : Team) : Prop where
  live : team.scheduler.Live
  rootFree : team.agents.get rootPath = none
  unknown : ∀ id, team.nextRecord ≤ id → team.agentPath id = rootPath ∧ declared id = none
  current : ∀ path agent, team.agents.get path = some agent →
    agent.record < team.nextRecord ∧ team.agentPath agent.record = path
  earlier : ∀ id < team.nextRecord, ∃ agent, team.agents.get (team.agentPath id) = some agent ∧
    (id = agent.record ∨ team.finished id = true)
  pending : ∀ id handler, team.handlers id = some handler →
    id < team.nextRecord ∧ team.finished id = true
  running : ∀ path agent, team.agents.get path = some agent →
    team.finished agent.record = false → agent.report = declared agent.record
  flushing : ∀ id handler agent, team.handlers id = some handler → handler.stage = .flushing →
    team.agents.get (team.agentPath id) = some agent →
      agent.report = declared id ∧ (agent.report = none ∨ id = agent.record)

namespace Attributed

variable {declared : RecordId → Option TeamReport} {team : Team}

theorem start : Attributed (fun _ => none) Team.start := by
  constructor
  · intro id
    rfl
  · rfl
  · exact fun id _ => ⟨rfl, rfl⟩
  · intro path agent found
    cases found
  · intro id known
    cases known
  · intro id handler held
    cases held
  · intro path agent found
    cases found
  · intro id handler agent held
    cases held

variable (attributed : Attributed declared team)
include attributed

theorem relog {next : Team} (scheduler : next.scheduler = team.scheduler)
    (agents : next.agents = team.agents) (nextRecord : next.nextRecord = team.nextRecord)
    (agentPath : next.agentPath = team.agentPath) (handlers : next.handlers = team.handlers) :
    Attributed declared next := by
  have finished : ∀ id, next.finished id = team.finished id := fun id => by
    simp only [Team.finished, Team.record, scheduler]
  constructor
  · rw [scheduler]
    exact attributed.live
  · rw [agents]
    exact attributed.rootFree
  · rw [nextRecord, agentPath]
    exact attributed.unknown
  · rw [agents, nextRecord, agentPath]
    exact attributed.current
  · simp only [agents, nextRecord, agentPath, finished]
    exact attributed.earlier
  · simp only [handlers, nextRecord, finished]
    exact attributed.pending
  · simp only [agents, finished]
    exact attributed.running
  · simp only [handlers, agents, agentPath]
    exact attributed.flushing

variable {agent : TeamAgent}

theorem handled {id : RecordId} (unfinished : team.finished id = false)
    (found : team.agents.get (team.agentPath id) = some agent) :
    id = agent.record ∧ id < team.nextRecord ∧ agent.report = declared id := by
  have known : id < team.nextRecord := by
    by_contra new
    rw [(attributed.unknown id (Nat.le_of_not_lt new)).1, attributed.rootFree] at found
    cases found
  obtain ⟨last, there, same | finished⟩ := attributed.earlier id known
  · rw [found] at there
    obtain rfl := Option.some.inj there
    refine ⟨same, known, ?_⟩
    rw [same]
    exact attributed.running _ agent found (same ▸ unfinished)
  · rw [unfinished] at finished
    cases finished

theorem follow (event : Event) (silent : ∀ id reason, event ≠ .discard id reason) :
    Attributed declared (team.follow event) := by
  have live := Scheduler.step_live event attributed.live silent
  have moved : Runtime.Outcome (fun _ _ => True) team.scheduler.runtime
      (team.scheduler.step event).runtime :=
    Scheduler.step_moves event attributed.live silent (fun _ _ => trivial)
      (fun _ _ _ _ _ => trivial)
  simp only [Team.follow]
  generalize team.scheduler.step event = after at *
  -- Where no run ends, every record is as finished as before and no handler is called.
  have unmoved : ∀ handed : AgentPath → List (TeamTask × Route),
      (∀ id, Runtime.Kept team.scheduler.runtime after.runtime id) →
      Attributed declared { team with scheduler := after, handed := handed } := by
    intro handed kept
    have finished : ∀ id, Team.finished { team with scheduler := after, handed := handed } id =
        team.finished id := fun id => (kept id).finished
    refine { attributed with live := ?_, earlier := ?_, pending := ?_, running := ?_ }
    · exact live
    · simp only [finished]
      exact attributed.earlier
    · simp only [finished]
      exact attributed.pending
    · simp only [finished]
      exact attributed.running
  cases moved with
  | unmoved started handled kept =>
      rw [started, handled, List.drop_length, List.drop_length]
      exact unmoved _ kept
  | begun id _ started handled kept =>
      rw [started, handled, List.drop_left, List.drop_length]
      exact unmoved _ kept
  | ended last status _ unfinished started handled finished terminal _ kept =>
      rw [started, handled, List.drop_left, List.drop_length]
      simp only [List.foldl_cons, List.foldl_nil]
      have monotone : ∀ id, team.finished id = true →
          (after.runtime.records id).finished = true := by
        intro id before
        by_cases same : id = last
        · exact same ▸ finished
        · exact (kept id same).finished.trans before
      have called : ∀ id handler, team.handleFinished team.handlers (last, status) id = some handler →
          team.handlers id = some handler ∨ id = last ∧ ∃ agent,
            team.agents.get (team.agentPath last) = some agent := by
        intro id handler held
        cases found : team.agents.get (team.agentPath last) with
        | none =>
            simp only [Team.handleFinished, found] at held
            exact Or.inl held
        | some agent =>
            simp only [Team.handleFinished, found] at held
            by_cases same : id = last
            · exact Or.inr ⟨same, agent, rfl⟩
            · rw [Function.update_of_ne same] at held
              exact Or.inl held
      constructor
      · exact live
      · exact attributed.rootFree
      · exact attributed.unknown
      · exact attributed.current
      · intro id known
        obtain ⟨agent, found, before⟩ := attributed.earlier id known
        exact ⟨agent, found, before.imp_right (monotone id)⟩
      · intro id handler held
        rcases called id handler held with earlier | ⟨rfl, agent, found⟩
        · exact (attributed.pending id handler earlier).imp_right (monotone id)
        · exact ⟨(attributed.handled unfinished found).2.1, finished⟩
      · intro path agent found open'
        apply attributed.running path agent found
        by_contra before
        have closed := monotone agent.record (by simpa using before)
        exact absurd (closed.symm.trans open') (by decide)
      · intro id handler agent held stage found
        rcases called id handler held with earlier | ⟨rfl, _⟩
        · exact attributed.flushing id handler agent earlier stage found
        · obtain ⟨last', _, own⟩ := attributed.handled unfinished found
          exact ⟨own, Or.inr last'⟩

variable {path : AgentPath}

theorem setAgent (next : TeamAgent)
    (found : team.agents.get path = some agent) (record : next.record = agent.record)
    (report : next.report = agent.report ∨ next.report = none ∧
      team.finished agent.record = true ∧ (agent.report = none ∨ team.awaitsFlush path = false)) :
    Attributed declared (team.setAgent path next) := by
  -- The agent keeps its record, and its report or one that no handler has yet to read.
  have below : path ≠ rootPath := by
    rintro rfl
    rw [attributed.rootFree] at found
    cases found
  constructor
  · exact attributed.live
  · rw [Team.get_setAgent, if_neg (Ne.symm below)]
    exact attributed.rootFree
  · exact attributed.unknown
  · intro other held got
    rw [Team.get_setAgent] at got
    split at got
    next here =>
      obtain rfl := Option.some.inj got
      rw [record, here]
      exact attributed.current path agent found
    next => exact attributed.current other held got
  · intro id known
    obtain ⟨holder, held, before⟩ := attributed.earlier id known
    by_cases here : team.agentPath id = path
    · rw [here, found] at held
      obtain rfl := Option.some.inj held
      exact ⟨next, by rw [Team.get_setAgent]; exact if_pos here, record ▸ before⟩
    · exact ⟨holder, by rw [Team.get_setAgent]; exact (if_neg here).trans held, before⟩
  · exact attributed.pending
  · intro other held got open'
    rw [Team.get_setAgent] at got
    split at got
    next here =>
      obtain rfl := Option.some.inj got
      rw [record] at open' ⊢
      rcases report with kept | ⟨_, ended, _⟩
      · exact kept.trans (attributed.running path agent found open')
      · exact absurd (ended.symm.trans open') (by decide)
    next => exact attributed.running other held got open'
  · intro id handler held waits stage got
    rw [Team.get_setAgent] at got
    split at got
    next here =>
      change team.agentPath id = path at here
      obtain rfl := Option.some.inj got
      have own := attributed.flushing id handler agent waits stage (here ▸ found)
      rw [record]
      rcases report with kept | ⟨cleared, _, nothing | quiet⟩
      · rw [kept]
        exact own
      · exact ⟨cleared.trans (nothing.symm.trans own.1), Or.inl cleared⟩
      · have known := (attributed.pending id handler waits).1
        rw [Team.awaitsFlush_iff.mpr ⟨id, known, handler, here, waits, stage⟩] at quiet
        cases quiet
    next => exact attributed.flushing id handler held waits stage got

theorem allocate (agent : TeamAgent)
    (messages : RecordId → Option (TeamTask × Route)) (below : path ≠ rootPath)
    (record : agent.record = team.nextRecord) (nothing : agent.report = none)
    (ended : ∀ previous, team.agents.get path = some previous →
      team.finished previous.record = true ∧
        (previous.report = none ∨ team.awaitsFlush path = false)) :
    Attributed declared
      { team.setAgent path agent with
        nextRecord := team.nextRecord + 1
        agentPath := Function.update team.agentPath team.nextRecord path
        messages := messages } := by
  -- A new record opens the next run of an agent, or the first.
  have older : ∀ {id}, id < team.nextRecord →
      Function.update team.agentPath team.nextRecord path id = team.agentPath id :=
    fun {id} known => Function.update_of_ne (Nat.ne_of_lt known) _ _
  constructor
  · exact attributed.live
  · change (team.setAgent path agent).agents.get rootPath = none
    rw [Team.get_setAgent, if_neg (Ne.symm below)]
    exact attributed.rootFree
  · intro id new
    have later : team.nextRecord < id := new
    refine ⟨?_, (attributed.unknown id later.le).2⟩
    exact (Function.update_of_ne (Nat.ne_of_gt later) _ _).trans
      (attributed.unknown id later.le).1
  · intro other held got
    change (team.setAgent path agent).agents.get other = some held at got
    rw [Team.get_setAgent] at got
    split at got
    next here =>
      obtain rfl := Option.some.inj got
      rw [record, here]
      exact ⟨Nat.lt_succ_self _, Function.update_self _ _ _⟩
    next =>
      have ⟨known, there⟩ := attributed.current other held got
      exact ⟨Nat.lt_succ_of_lt known, (older known).trans there⟩
  · intro id known
    change ∃ holder, (team.setAgent path agent).agents.get
      (Function.update team.agentPath team.nextRecord path id) = some holder ∧ _
    rcases Nat.lt_succ_iff_lt_or_eq.mp known with before | rfl
    · rw [older before, Team.get_setAgent]
      obtain ⟨holder, held, last⟩ := attributed.earlier id before
      by_cases here : team.agentPath id = path
      · rw [here] at held
        refine ⟨agent, if_pos here, Or.inr ?_⟩
        rcases last with same | finished
        · exact same ▸ (ended holder held).1
        · exact finished
      · exact ⟨holder, (if_neg here).trans held, last⟩
    · rw [Function.update_self, Team.get_setAgent]
      exact ⟨agent, if_pos rfl, Or.inl record.symm⟩
  · intro id handler held
    exact (attributed.pending id handler held).imp_left Nat.lt_succ_of_lt
  · intro other held got open'
    change (team.setAgent path agent).agents.get other = some held at got
    rw [Team.get_setAgent] at got
    split at got
    next =>
      obtain rfl := Option.some.inj got
      rw [nothing, record]
      exact (attributed.unknown _ le_rfl).2.symm
    next => exact attributed.running other held got open'
  · intro id handler held waits stage got
    have known := (attributed.pending id handler waits).1
    change (team.setAgent path agent).agents.get
      (Function.update team.agentPath team.nextRecord path id) = some held at got
    rw [older known, Team.get_setAgent] at got
    split at got
    next here =>
      obtain rfl := Option.some.inj got
      obtain ⟨previous, before, _⟩ := attributed.earlier id known
      have own := attributed.flushing id handler previous waits stage before
      rcases (ended previous (here ▸ before)).2 with none' | quiet
      · exact ⟨nothing.trans (none'.symm.trans own.1), Or.inl nothing⟩
      · rw [Team.awaitsFlush_iff.mpr ⟨id, known, handler, here, waits, stage⟩] at quiet
        cases quiet
    next => exact attributed.flushing id handler held waits stage got

theorem setHandler (id : RecordId) {handler : Option Handler}
    (later : ∀ last, handler = some last → last.stage = .delivering ∧
      (team.handlers id).isSome = true) :
    Attributed declared (team.setHandler id handler) := by
  refine { attributed with pending := ?_, flushing := ?_ }
  · intro other last held
    by_cases same : other = id
    · subst same
      obtain ⟨before, there⟩ := Option.isSome_iff_exists.mp
        (later last (by simpa [Team.setHandler] using held)).2
      exact attributed.pending other before there
    · exact attributed.pending other last (by simpa [Team.setHandler, same] using held)
  · intro other last agent held stage found
    by_cases same : other = id
    · subst same
      have going := (later last (by simpa [Team.setHandler] using held)).1
      rw [stage] at going
      cases going
    · exact attributed.flushing other last agent (by simpa [Team.setHandler, same] using held)
        stage found

theorem declare (report : TeamReport)
    (found : team.agents.get path = some agent) (quiet : team.awaitsFlush path = false) :
    Attributed (Function.update declared agent.record (some report))
      (team.setAgent path { agent with report := some report }) := by
  -- A report goes to the run that declares it, where no handler waits to read the agent's.
  have ⟨known, here⟩ := attributed.current path agent found
  have others : ∀ id, team.agentPath id ≠ path →
      Function.update declared agent.record (some report) id = declared id := by
    intro id elsewhere
    apply Function.update_of_ne
    rintro rfl
    exact elsewhere here
  constructor
  · exact attributed.live
  · rw [Team.get_setAgent, if_neg]
    · exact attributed.rootFree
    · rintro rfl
      rw [attributed.rootFree] at found
      cases found
  · intro id new
    have ⟨root, nothing⟩ := attributed.unknown id new
    refine ⟨root, ?_⟩
    rw [Function.update_of_ne (Nat.ne_of_gt (Nat.lt_of_lt_of_le known new))]
    exact nothing
  · intro other held got
    rw [Team.get_setAgent] at got
    split at got
    next there =>
      obtain rfl := Option.some.inj got
      exact ⟨known, here.trans there.symm⟩
    next => exact attributed.current other held got
  · intro id before
    obtain ⟨holder, held, last⟩ := attributed.earlier id before
    by_cases there : team.agentPath id = path
    · rw [there, found] at held
      obtain rfl := Option.some.inj held
      exact ⟨{ agent with report := some report },
        by rw [Team.get_setAgent]; exact if_pos there, last⟩
    · exact ⟨holder, by rw [Team.get_setAgent]; exact (if_neg there).trans held, last⟩
  · exact attributed.pending
  · intro other held got unfinished
    rw [Team.get_setAgent] at got
    split at got
    next =>
      obtain rfl := Option.some.inj got
      exact (Function.update_self agent.record (some report) declared).symm
    next different =>
      rw [others]
      · exact attributed.running other held got unfinished
      · rw [(attributed.current other held got).2]
        exact different
  · intro id handler held waits stage got
    have started := (attributed.pending id handler waits).1
    have elsewhere : team.agentPath id ≠ path := by
      intro there
      rw [Team.awaitsFlush_iff.mpr ⟨id, started, handler, there, waits, stage⟩] at quiet
      cases quiet
    rw [Team.get_setAgent] at got
    rw [others id elsewhere]
    exact attributed.flushing id handler held waits stage ((if_neg elsewhere).symm.trans got)

theorem reactivateAgent {target : TeamAgent}
    (found : team.agents.get path = some target) (message : TeamTask × Route) (aborted : Bool)
    (spared : canReceiveMessage (team.status target) = true →
      target.report = none ∨ team.awaitsFlush path = false) :
    Attributed declared (team.reactivateAgent path target message aborted).1 := by
  simp only [Team.reactivateAgent]
  split
  · exact attributed
  · next able =>
    have receives : canReceiveMessage (team.status target) = true := by simpa using able
    have finished := Team.finished_of_receives receives
    split
    · exact attributed.setAgent _ found rfl (Or.inr ⟨rfl, finished, spared receives⟩)
    · apply Attributed.follow
      · apply attributed.allocate { target with record := team.nextRecord, report := none }
        · rintro rfl
          rw [attributed.rootFree] at found
          cases found
        · rfl
        · rfl
        · intro previous held
          rw [found] at held
          obtain rfl := Option.some.inj held
          exact ⟨finished, spared receives⟩
      · intro _ _ same
        cases same

theorem delivered (path : AgentPath) (task : TeamTask) {next : Team}
    (delivered : team.deliver path task = .ok next) : Attributed declared next := by
  rw [(Team.deliver_ok delivered).1]
  exact attributed.relog rfl rfl rfl rfl rfl

theorem deliver (path : AgentPath) (task : TeamTask) :
    Attributed declared ((team.deliver path task).toOption.getD team) := by
  cases outcome : team.deliver path task with
  | error => exact attributed
  | ok next => exact attributed.delivered path task outcome

theorem park (found : team.agents.get path = some agent)
    (task : TeamTask) : Attributed declared (team.park path agent task) :=
  (attributed.setAgent { agent with pendingTasks := agent.pendingTasks ++ [task] } found
    rfl (Or.inl rfl)).relog rfl rfl rfl rfl rfl

theorem deliverFinalAnswer (path : AgentPath) (task : TeamTask)
    (hidden : team.exposed (parentPath path) = false) :
    Attributed declared (team.deliverFinalAnswer path task) := by
  simp only [Team.deliverFinalAnswer]
  split
  · next parent found =>
    split
    · exact attributed.reactivateAgent found _ _ (Team.spared_of_hidden hidden found)
    · split
      · exact attributed.park found task
      · exact attributed.deliver _ task
  · exact attributed.deliver _ task

theorem shiftPending (id : RecordId) (status : TerminalStatus)
    (spared : ∀ agent, team.agents.get (team.agentPath id) = some agent → status = .completed →
      agent.pendingTasks ≠ [] → canReceiveMessage (team.status agent) = true →
        agent.report = none ∨ (team.setHandler id none).awaitsFlush (team.agentPath id) = false) :
    Attributed declared (team.shiftPending id status) := by
  -- The handler of the run itself has read the report by then.
  have settled : Attributed declared (team.setHandler id none) :=
    attributed.setHandler id (fun _ none => by cases none)
  simp only [Team.shiftPending]
  split
  · exact settled
  · next agent found =>
    split
    · next completed =>
      split
      · exact settled
      · next task rest waiting =>
        have shifted := settled.setAgent { agent with pendingTasks := rest } found rfl
          (Or.inl rfl)
        apply shifted.reactivateAgent (by simp)
        intro receives
        apply spared agent found completed
        · rw [waiting]
          exact List.cons_ne_nil _ _
        · exact receives
    · exact settled.setAgent _ found rfl (Or.inl rfl)

theorem spawnAgent (senderPath : AgentPath) (taskName : Text) (deferStart : Bool) :
    Attributed declared ((team.spawnAgent senderPath taskName deferStart).toOption.getD team) := by
  simp only [Team.spawnAgent]
  split
  · exact attributed
  · split
    · exact attributed
    · next free =>
      have spawned := attributed.allocate
        { record := team.nextRecord, report := none, pendingTasks := [] } team.messages
        (List.cons_ne_nil taskName senderPath) rfl rfl (fun previous held => by
          simp [InsertionMap.has, childPath, held] at free)
      cases deferStart with
      | true => exact spawned
      | false =>
          apply spawned.follow
          intro _ _ same
          cases same

theorem followupTask (senderPath targetPath : AgentPath) (message : Text) (toolCall : Nat)
    (aborted : Bool) (hidden : team.exposed targetPath = false) :
    Attributed declared (team.followupTask senderPath targetPath message toolCall aborted).1 := by
  simp only [Team.followupTask]
  generalize TeamTask.mk senderPath message (.call toolCall) .newTask = task
  have running : ∀ next, team.deliver targetPath task = .ok next →
      Attributed declared (next.owe targetPath task) := by
    intro next outcome
    exact (attributed.delivered _ _ outcome).relog rfl rfl rfl rfl rfl
  split
  · split
    next next outcome => exact running next outcome
    next => exact attributed
  · split
    · exact attributed
    · next target found =>
      split
      · split
        · have promoted := attributed.follow (.prioritize target.record) (fun _ _ same => by
            cases same)
          exact (promoted.park found task).relog rfl rfl rfl rfl rfl
        · split
          next next outcome => exact running next outcome
          next => exact attributed
      · split
        · exact attributed
        · have next := attributed.reactivateAgent found (task, .reactivated) aborted
            (Team.spared_of_hidden hidden found)
          split
          · next outcome =>
            rw [outcome] at next
            exact next.relog rfl rfl rfl rfl rfl
          · next outcome =>
            rw [outcome] at next
            exact next

theorem told {id : RecordId} {handler : Handler} (held : team.handlers id = some handler)
    (stage : handler.stage = .flushing) (output : Text) :
    team.told id output = team.announcement id output (declared id) := by
  obtain ⟨agent, found, _⟩ := attributed.earlier id (attributed.pending id handler held).1
  simp only [Team.told, found, (attributed.flushing id handler agent held stage found).1]

theorem flushed {id : RecordId} {handler : Handler} (held : team.handlers id = some handler)
    (stage : handler.stage = .flushing) (output : Text)
    (hidden : (team.announcement id output (declared id)).isSome = true →
      team.exposed (parentPath (team.agentPath id)) = false) :
    Attributed declared (team.resumeHandler id handler output) := by
  obtain ⟨agent, found, _⟩ := attributed.earlier id (attributed.pending id handler held).1
  rw [Team.resumeHandler_tells team held found, attributed.told held stage]
  cases announced : team.announcement id output (declared id) with
  | some task =>
      have owed : Attributed declared (team.owe (parentPath (team.agentPath id)) task) :=
        attributed.relog rfl rfl rfl rfl rfl
      have answered := owed.deliverFinalAnswer (team.agentPath id) task
        (hidden (by rw [announced]; rfl))
      apply answered.setHandler id
      intro last same
      obtain rfl := Option.some.inj same
      exact ⟨rfl, Team.deliverFinalAnswer_isSome _ _ (by simp [Team.owe, held])⟩
  | none =>
      -- Another run whose handler waits would be the agent's last one, which this run is.
      have alone : agent.report = none ∨
          (team.setHandler id none).awaitsFlush (team.agentPath id) = false := by
        rcases (attributed.flushing id handler agent held stage found).2 with nothing | last
        · exact Or.inl nothing
        · by_cases nothing : agent.report = none
          · exact Or.inl nothing
          · refine Or.inr (Bool.eq_false_iff.mpr fun waits => ?_)
            obtain ⟨other, _, later, here, there, stage'⟩ := Team.awaitsFlush_iff.mp waits
            have different : other ≠ id := by
              rintro rfl
              simp [Team.setHandler] at there
            have waiting : team.handlers other = some later := by
              simpa [Team.setHandler, different] using there
            have own := attributed.flushing other later agent waiting stage' (here ▸ found)
            exact different ((own.2.resolve_left nothing).trans last.symm)
      have quiet : ∀ owed : AgentPath → List TeamTask,
          Attributed declared (Team.shiftPending { team with owed := owed } id handler.status) := by
        intro owed
        have logged : Attributed declared { team with owed := owed } :=
          attributed.relog rfl rfl rfl rfl rfl
        apply logged.shiftPending
        intro other there _ _ _
        obtain rfl := Option.some.inj (found.symm.trans there)
        exact alone
      simp only
      split
      · exact quiet _
      · exact quiet team.owed

end Attributed

namespace Reporting

theorem step_attributed (state : Reporting) (event : TeamEvent)
    (attributed : Attributed state.declared state.team)
    (guard : state.Possible event ∧ state.Calm event) :
    Attributed (state.step event).declared (state.step event).team := by
  obtain ⟨possible, calm⟩ := guard
  have runtime : ∀ event : Event, (∀ id reason, event ≠ .discard id reason) →
      Attributed state.declared (state.team.follow event) := attributed.follow
  cases event with
  | spawn senderPath taskName deferStart => exact attributed.spawnAgent senderPath taskName deferStart
  | launch path =>
      simp only [step, Team.step]
      split
      · exact runtime _ (fun _ _ same => by cases same)
      · exact attributed
  | followup senderPath targetPath message toolCall aborted =>
      exact attributed.followupTask senderPath targetPath message toolCall aborted calm
  | report path report =>
      simp only [Calm] at calm
      cases found : state.team.agents.get path with
      | none =>
          simp only [step, Team.step, declare, found, Team.teamReport]
          exact attributed
      | some agent =>
          simp only [step, Team.step, declare, found]
          cases outcome : state.team.teamReport path report with
          | error => exact attributed
          | ok next =>
              have set : next = state.team.setAgent path { agent with report := some report } := by
                simp only [Team.teamReport, found] at outcome
                split at outcome
                · cases outcome
                · split at outcome
                  · cases outcome
                  · exact (Except.ok.inj outcome).symm
              rw [set]
              exact attributed.declare report found (calm (by rw [outcome]; rfl))
  | interrupt targetPath =>
      simp only [step, Team.step, Team.teamInterrupt]
      split
      · exact attributed
      · split
        · exact attributed
        · split
          · exact attributed
          · exact runtime _ (fun _ _ same => by cases same)
  | abort id => exact runtime _ (fun _ _ same => by cases same)
  | ended id error => exact runtime _ (fun _ _ same => by cases same)
  | released id => exact runtime _ (fun _ _ same => by cases same)
  | flushed id output =>
      simp only [Possible, Team.Possible] at possible
      simp only [step, Team.step]
      split
      · next handler held =>
        rw [held] at possible
        exact attributed.flushed held (by simpa using possible) output calm
      · exact attributed
  | answered id =>
      simp only [Possible, Team.Possible] at possible
      simp only [Calm] at calm
      simp only [step, Team.step]
      split
      · next handler held =>
        apply attributed.shiftPending
        intro agent found completed waiting receives
        have hidden := calm (by simp [held, completed]) (by simp [found, waiting])
        exact (Team.spared_of_hidden hidden found receives).imp_right (Team.awaitsFlush_settled id)
      · exact attributed

theorem own_of_attributed (state : Reporting) (event : TeamEvent)
    (attributed : Attributed state.declared state.team) (possible : state.Possible event) :
    state.OwnReport event := by
  cases event with
  | flushed id output =>
      simp only [Possible, Team.Possible] at possible
      cases held : state.team.handlers id with
      | none => simp [held] at possible
      | some handler =>
          rw [held] at possible
          exact attributed.told held (by simpa using possible) output
  | _ => trivial

theorem calm_runs_announce_own_reports (events : List TeamEvent)
    (guarded : Runs.Along step (fun state event => state.Possible event ∧ state.Calm event) start
      events) : Runs.Along step OwnReport start events :=
  @Runs.along_follows _ _ step _ OwnReport (fun state => Attributed state.declared state.team)
    step_attributed (fun state event attributed guard => own_of_attributed state event attributed guard.1)
    start events Attributed.start guarded

def brief (state : TeamReportState) : TeamReport :=
  { state := state, summary := "Done.".toList, question := none }

def answeredReport : List TeamEvent :=
  [.spawn rootPath "a".toList false, .report ["a".toList] (brief .ready), .ended 0 none,
    .flushed 0 "Text.".toList, .answered 0, .released 0,
    .followup rootPath ["a".toList] "Again.".toList 1 false, .ended 1 none,
    .flushed 1 "Text.".toList]

theorem answered_report_is_own : Runs.Along step OwnReport start answeredReport :=
  calm_runs_announce_own_reports _ (by decide +kernel)

def overtakenReport : List TeamEvent :=
  [.spawn rootPath "a".toList false, .report ["a".toList] (brief .dropped), .ended 0 none,
    .followup rootPath ["a".toList] "Again.".toList 1 false]

theorem overtaken_report_is_lost :
    ¬ ∀ events : List TeamEvent, Runs.Along step Possible start events →
      Runs.Along step OwnReport start events := by
  intro claim
  have along := claim (overtakenReport ++ [.flushed 0 "Text.".toList]) (by decide +kernel)
  rw [Runs.along_append] at along
  have read : (Runs.run step start overtakenReport).team.told 0 "Text.".toList =
      (Runs.run step start overtakenReport).team.announcement 0 "Text.".toList
        ((Runs.run step start overtakenReport).declared 0) := along.2.1
  exact absurd read (by decide +kernel)

end Reporting

end GrokPi.Subagents
