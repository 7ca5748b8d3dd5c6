import GrokPi.Subagents.TeamChanges

set_option autoImplicit false

namespace GrokPi.Subagents

namespace Team

@[simp] theorem get_setAgent (team : Team) (path other : AgentPath) (agent : TeamAgent) :
    (team.setAgent path agent).agents.get other =
      if other = path then some agent else team.agents.get other :=
  InsertionMap.get_set _ _ _ _

section Status

variable {team : Team} (terminal : ∀ id, (team.record id).terminalStatus.isSome = team.finished id)
  (agent : TeamAgent)

include terminal

theorem status_unended (ends : (team.record agent.record).terminalStatus = none) :
    team.status agent = .running ∨ team.status agent = .queued := by
  have settled := terminal agent.record
  rw [ends] at settled
  simp only [status, ← settled, Option.isSome_none, Bool.not_false, if_true]
  split
  · exact Or.inl rfl
  split
  · exact Or.inr rfl
  · exact Or.inl rfl

theorem status_completed (ends : (team.record agent.record).terminalStatus = some .completed) :
    team.status agent =
      if reports agent.report .blocked then .waitingDecision
      else if reports agent.report .waiting then .waitingResult
      else .idle := by
  have settled := terminal agent.record
  rw [ends] at settled
  simp only [status, ← settled, ends, Option.isSome_some, Bool.not_true, Bool.false_eq_true, if_false]

theorem status_uncompleted {ended : TerminalStatus} (ends : (team.record agent.record).terminalStatus = some ended)
    (other : ended ≠ .completed) : team.status agent = .failed ∨ team.status agent = .cancelled := by
  have settled := terminal agent.record
  rw [ends] at settled
  simp only [status, ← settled, ends, Option.isSome_some, Bool.not_true, Bool.false_eq_true, if_false]
  cases ended with
  | completed => exact absurd rfl other
  | failed => exact Or.inl rfl
  | cancelled => exact Or.inr rfl

theorem status_receives : canReceiveMessage (team.status agent) = true ↔
    (team.record agent.record).terminalStatus = some .completed := by
  cases ends : (team.record agent.record).terminalStatus with
  | none => rcases status_unended terminal agent ends with status | status <;> simp [status, canReceiveMessage]
  | some ended =>
      by_cases completed : ended = .completed
      · subst completed
        rw [status_completed terminal agent ends]
        split
        · simp [canReceiveMessage]
        split
        · simp [canReceiveMessage]
        · simp [canReceiveMessage]
      · rcases status_uncompleted terminal agent ends completed with status | status <;>
          simp [status, canReceiveMessage, completed]

theorem status_waiting : team.status agent = .waitingResult ↔
    (team.record agent.record).terminalStatus = some .completed ∧
      reports agent.report .waiting = true := by
  cases ends : (team.record agent.record).terminalStatus with
  | none => rcases status_unended terminal agent ends with status | status <;> simp [status]
  | some ended =>
      by_cases completed : ended = .completed
      · subst completed
        rw [status_completed terminal agent ends]
        split
        next blocked =>
          -- One report does not say both.
          have other : reports agent.report .waiting = false := by
            cases report : agent.report with
            | none => simp [reports]
            | some report =>
                simp only [reports, report, Option.map_some, decide_eq_true_eq, Option.some.injEq] at blocked
                simp [reports, blocked]
          simp [other]
        next =>
          split
          next waits => simp [waits]
          next rests => simp [rests]
      · rcases status_uncompleted terminal agent ends completed with status | status <;> simp [status, completed]

theorem status_queued (queued : team.status agent = .queued) :
    team.finished agent.record = false := by
  by_contra finished
  have ended : (team.record agent.record).terminalStatus.isSome = true :=
    (terminal agent.record).trans ((Bool.not_eq_false _).mp finished)
  obtain ⟨ended, ends⟩ := Option.isSome_iff_exists.mp ended
  by_cases completed : ended = .completed
  · subst completed
    rw [status_completed terminal agent ends] at queued
    split at queued
    · cases queued
    split at queued <;> cases queued
  · rcases status_uncompleted terminal agent ends completed with status | status
    · cases status.symm.trans queued
    · cases status.symm.trans queued

end Status

theorem start_sound : start.Sound := by
  constructor
  · exact Scheduler.start_consistent _
  · intro id
    rfl
  · simp [start, Scheduler.start]
  · intro id
    rfl
  · intro id status ended
    cases ended
  · simp [start, InsertionMap.keys]
  · rfl
  · exact fun _ _ => ⟨rfl, rfl, rfl⟩
  · intro path agent found
    cases found
  · intro id known
    cases known
  · intro path agent found
    cases found
  · intro id handler held
    cases held

section Parts

variable {team : Team} (sound : team.Sound)

include sound

theorem Sound.schedule {after : Scheduler} (handlers : RecordId → Option Handler)
    (handed : AgentPath → List (TeamTask × Route)) (follows : team.Follows after)
    (terminal : ∀ id, (after.runtime.records id).terminalStatus.isSome =
      (after.runtime.records id).finished)
    (ran : ∀ id status, (after.runtime.records id).terminalStatus = some status →
      status ≠ .cancelled → id ∈ after.runtime.started)
    (grown : ∀ id status, (team.record id).terminalStatus = some status →
      (after.runtime.records id).terminalStatus = some status)
    (fresh : ∀ id, team.nextRecord ≤ id →
      (after.runtime.records id).finished = false ∧ handlers id = none)
    (pending : ∀ id handler, handlers id = some handler →
      id < team.nextRecord ∧ (after.runtime.records id).terminalStatus = some handler.status) :
    Sound { team with scheduler := after, handlers := handlers, handed := handed } := by
  constructor
  · exact follows.consistent
  · exact follows.live
  · exact follows.scheduled
  · exact terminal
  · exact ran
  · exact sound.once
  · exact sound.rootFree
  · intro id new
    exact ⟨(fresh id new).1, (fresh id new).2, (sound.unknown id new).2.2⟩
  · exact sound.current
  · intro id known
    obtain ⟨agent, found, same | completed⟩ := sound.earlier id known
    · exact ⟨agent, found, Or.inl same⟩
    · exact ⟨agent, found, Or.inr (grown id .completed completed)⟩
  · exact sound.parents
  · exact pending

theorem Sound.log (owed parked : AgentPath → List TeamTask)
    (handed : AgentPath → List (TeamTask × Route)) :
    Sound { team with owed := owed, parked := parked, handed := handed } := by
  exact { sound with }

variable {path : AgentPath}

theorem Sound.notRoot {agent : TeamAgent}
    (found : team.agents.get path = some agent) : path ≠ rootPath := by
  rintro rfl
  rw [sound.rootFree] at found
  cases found

theorem Sound.setAgent {agent changed : TeamAgent}
    (found : team.agents.get path = some agent) (same : changed.record = agent.record) :
    (team.setAgent path changed).Sound := by
  refine { sound with once := ?_, rootFree := ?_, current := ?_, earlier := ?_, parents := ?_ }
  · exact InsertionMap.keys_set_nodup sound.once _ _
  · rw [get_setAgent, if_neg (Ne.symm (sound.notRoot found))]
    exact sound.rootFree
  · intro other held got
    rw [get_setAgent] at got
    split at got
    next here =>
      obtain rfl := Option.some.inj got
      rw [same, here]
      exact sound.current path agent found
    next => exact sound.current other held got
  · intro id known
    obtain ⟨holder, held, last⟩ := sound.earlier id known
    change ∃ agent, (team.setAgent path changed).agents.get (team.agentPath id) = some agent ∧ _
    rw [get_setAgent]
    by_cases here : team.agentPath id = path
    · rw [here, found] at held
      obtain rfl := Option.some.inj held
      exact ⟨changed, by rw [if_pos here], by rw [same]; exact last⟩
    · exact ⟨holder, by rw [if_neg here, held], last⟩
  · intro other held got
    have parent : parentPath other = rootPath ∨
        ∃ parent, team.agents.get (parentPath other) = some parent := by
      rw [get_setAgent] at got
      split at got
      next here => exact here ▸ sound.parents path agent found
      next => exact sound.parents other held got
    refine parent.imp_right ?_
    rintro ⟨above, present⟩
    rw [get_setAgent]
    split
    · exact ⟨changed, rfl⟩
    · exact ⟨above, present⟩

theorem Sound.setHandler (id : RecordId) (handler : Option Handler)
    (known : ∀ held, handler = some held →
      id < team.nextRecord ∧ (team.record id).terminalStatus = some held.status) :
    (team.setHandler id handler).Sound := by
  refine { sound with unknown := ?_, pending := ?_ }
  · intro other new
    refine ⟨(sound.unknown other new).1, ?_, (sound.unknown other new).2.2⟩
    change Function.update team.handlers id handler other = none
    by_cases same : other = id
    · subst same
      rw [Function.update_self]
      cases handler with
      | none => rfl
      | some held => exact absurd (known held rfl).1 (Nat.not_lt.mpr new)
    · rw [Function.update_of_ne same]
      exact (sound.unknown other new).2.1
  · intro other held got
    change Function.update team.handlers id handler other = some held at got
    by_cases same : other = id
    · subst same
      rw [Function.update_self] at got
      exact known held got
    · rw [Function.update_of_ne same] at got
      exact sound.pending other held got

theorem Sound.allocate {agent : TeamAgent}
    (messages : RecordId → Option (TeamTask × Route)) (below : path ≠ rootPath)
    (record : agent.record = team.nextRecord)
    (others : ∀ id, id ≠ team.nextRecord → messages id = team.messages id)
    (parent : parentPath path = rootPath ∨
      ∃ parent, team.agents.get (parentPath path) = some parent)
    (last : ∀ previous, team.agents.get path = some previous →
      (team.record previous.record).terminalStatus = some .completed) :
    Sound
      { team.setAgent path agent with
        nextRecord := team.nextRecord + 1
        agentPath := Function.update team.agentPath team.nextRecord path
        messages := messages } := by
  -- A new record, of a new agent or of one whose last run completed.
  have old : ∀ id, id < team.nextRecord →
      Function.update team.agentPath team.nextRecord path id = team.agentPath id := fun id known =>
    Function.update_of_ne (Nat.ne_of_lt known) _ _
  constructor
  · exact sound.consistent
  · exact sound.live
  · exact fun id scheduled => Nat.lt_succ_of_lt (sound.scheduled id scheduled)
  · exact sound.terminal
  · exact sound.ran
  · exact InsertionMap.keys_set_nodup sound.once _ _
  · change (team.setAgent path agent).agents.get rootPath = none
    rw [get_setAgent, if_neg (Ne.symm below)]
    exact sound.rootFree
  · intro id new
    have old := sound.unknown id (Nat.le_of_succ_le new)
    refine ⟨old.1, old.2.1, ?_⟩
    change messages id = none
    rw [others id (Nat.ne_of_gt new)]
    exact old.2.2
  · intro other held got
    change (team.setAgent path agent).agents.get other = some held at got
    rw [get_setAgent] at got
    split at got
    next here =>
      obtain rfl := Option.some.inj got
      refine ⟨?_, ?_⟩
      · rw [record]
        exact Nat.lt_succ_self _
      · change Function.update team.agentPath team.nextRecord path agent.record = other
        rw [record, Function.update_self, here]
    next =>
      obtain ⟨known, at'⟩ := sound.current other held got
      refine ⟨Nat.lt_succ_of_lt known, ?_⟩
      change Function.update team.agentPath team.nextRecord path held.record = other
      rw [old _ known]
      exact at'
  · intro id known
    change ∃ holder, (team.setAgent path agent).agents.get
      (Function.update team.agentPath team.nextRecord path id) = some holder ∧ _
    by_cases new : id = team.nextRecord
    · rw [new, Function.update_self, get_setAgent, if_pos rfl]
      exact ⟨agent, rfl, Or.inl record.symm⟩
    · have known : id < team.nextRecord :=
        Nat.lt_of_le_of_ne (Nat.lt_succ_iff.mp known) new
      rw [old id known, get_setAgent]
      obtain ⟨holder, held, before⟩ := sound.earlier id known
      by_cases here : team.agentPath id = path
      · refine ⟨agent, if_pos here, Or.inr ?_⟩
        rw [here] at held
        rcases before with rfl | completed
        · exact last holder held
        · exact completed
      · exact ⟨holder, by rw [if_neg here, held], before⟩
  · intro other held got
    change (team.setAgent path agent).agents.get other = some held at got
    change _ ∨ ∃ above, (team.setAgent path agent).agents.get (parentPath other) = some above
    have above : parentPath other = rootPath ∨
        ∃ parent, team.agents.get (parentPath other) = some parent := by
      rw [get_setAgent] at got
      split at got
      next here => exact here ▸ parent
      next => exact sound.parents other held got
    refine above.imp_right ?_
    rintro ⟨above, present⟩
    rw [get_setAgent]
    split
    · exact ⟨agent, rfl⟩
    · exact ⟨above, present⟩
  · intro id handler held
    obtain ⟨known, ends⟩ := sound.pending id handler held
    exact ⟨Nat.lt_succ_of_lt known, ends⟩

theorem Sound.resumeRecord {agent : TeamAgent}
    (found : team.agents.get path = some agent) (receives : canReceiveMessage (team.status agent) = true)
    (shifted : TeamAgent) (message : TeamTask × Route) :
    (team.resumeRecord path shifted message).Sound := by
  apply sound.allocate
  · exact sound.notRoot found
  · rfl
  · exact fun id different => Function.update_of_ne different _ _
  · exact sound.parents path agent found
  · intro previous held
    rw [found] at held
    obtain rfl := Option.some.inj held
    exact (status_receives sound.terminal agent).mp receives

theorem Sound.kept {after : Scheduler} (handed : AgentPath → List (TeamTask × Route))
    (follows : team.Follows after)
    (listed : ∀ id ∈ team.scheduler.runtime.started, id ∈ after.runtime.started)
    (kept : ∀ id, Runtime.Kept team.scheduler.runtime after.runtime id) :
    Sound { team with scheduler := after, handed := handed } := by
  apply sound.schedule team.handlers handed follows
  · intro id
    rw [(kept id).terminal, (kept id).finished]
    exact sound.terminal id
  · intro id status ended ran
    rw [(kept id).terminal] at ended
    exact listed id (sound.ran id status ended ran)
  · intro id status ended
    rw [(kept id).terminal]
    exact ended
  · intro id new
    rw [(kept id).finished]
    exact ⟨(sound.unknown id new).1, (sound.unknown id new).2.1⟩
  · intro id handler held
    rw [(kept id).terminal]
    exact sound.pending id handler held

theorem Sound.ended {after : Scheduler} {id : RecordId} {status : TerminalStatus} (report : Option TeamReport)
    (stage : Stage) (follows : team.Follows after)
    (unfinished : team.finished id = false) (known : id < team.nextRecord)
    (ran : status ≠ .cancelled → id ∈ team.scheduler.runtime.started)
    (started : after.runtime.started = team.scheduler.runtime.started)
    (finished : (after.runtime.records id).finished = true)
    (terminal : (after.runtime.records id).terminalStatus = some status)
    (kept : ∀ other, other ≠ id → Runtime.Kept team.scheduler.runtime after.runtime other) :
    Sound
      { team with
        scheduler := after
        handlers := Function.update team.handlers id
          (some { status := status, report := report, stage := stage }) } := by
  have open' : (team.record id).terminalStatus = none := by
    have settled := sound.terminal id
    rw [unfinished] at settled
    exact Option.isNone_iff_eq_none.mp (by simpa using settled)
  apply sound.schedule _ team.handed follows
  · intro other
    by_cases same : other = id
    · rw [same, finished, terminal]
      rfl
    · rw [(kept other same).terminal, (kept other same).finished]
      exact sound.terminal other
  · intro other ending ended uncancelled
    rw [started]
    by_cases same : other = id
    · rw [same, terminal] at ended
      rw [same]
      exact ran (Option.some.inj ended ▸ uncancelled)
    · rw [(kept other same).terminal] at ended
      exact sound.ran other ending ended uncancelled
  · intro other ending ended
    by_cases same : other = id
    · rw [same, open'] at ended
      cases ended
    · rw [(kept other same).terminal]
      exact ended
  · intro other new
    have same : other ≠ id := Nat.ne_of_gt (Nat.lt_of_lt_of_le known new)
    rw [(kept other same).finished, Function.update_of_ne same]
    exact ⟨(sound.unknown other new).1, (sound.unknown other new).2.1⟩
  · intro other handler held
    by_cases same : other = id
    · subst same
      rw [Function.update_self] at held
      obtain rfl := Option.some.inj held
      exact ⟨known, terminal⟩
    · rw [Function.update_of_ne same] at held
      rw [(kept other same).terminal]
      exact sound.pending other handler held

end Parts

theorem Change.sound {allowed : Miss → Prop} {team next : Team} (change : Change allowed team next)
    (sound : team.Sound) : next.Sound := by
  cases change with
  | unmoved after follows started kept =>
      exact sound.kept team.handed follows (fun id listed => started ▸ listed) kept
  | begun after id follows unfinished started kept =>
      exact sound.kept _ follows (fun id listed => started ▸ List.mem_append_left _ listed) kept
  | ended after id status agent follows unfinished known found ran started finished terminal kept _ =>
      exact sound.ended agent.report .flushing follows unfinished known ran started finished terminal kept
  | spawned path free below parent =>
      apply sound.allocate team.messages below rfl (fun _ _ => rfl) parent
      intro previous held
      rw [free] at held
      cases held
  | reported path agent report found _ => exact sound.setAgent found rfl
  | handed path task _ => exact sound.log _ _ _
  | parked path agent task found _ =>
      have waiting : (team.setAgent path
          { agent with pendingTasks := agent.pendingTasks ++ [task] }).Sound :=
        sound.setAgent found rfl
      exact waiting.log _ _ _
  | resumed path agent task found receives =>
      exact (sound.resumeRecord found receives agent (task, .reactivated)).log _ _ _
  | unplaced path task _ => exact sound.log _ _ _
  | told id handler held _ =>
      apply sound.setHandler id
      intro last same
      obtain rfl := Option.some.inj same
      exact sound.pending id handler held
  | unparked id handler agent next rest held _ found _ receives =>
      have settled := sound.setHandler id none (fun _ none => by cases none)
      exact settled.resumeRecord found receives _ _
  | settled id handler agent left held _ found _ =>
      have settled := sound.setHandler id none (fun _ none => by cases none)
      exact settled.setAgent found rfl

section Chains

variable {allowed : Miss → Prop} {team : Team}

abbrev Changes (allowed : Miss → Prop) : Team → Team → Prop :=
  Relation.ReflTransGen (Change allowed)

variable {id : RecordId}

theorem Sound.current_of_unfinished (sound : team.Sound) (known : id < team.nextRecord)
    (unfinished : team.finished id = false) :
    ∃ agent, team.agents.get (team.agentPath id) = some agent ∧ agent.record = id := by
  obtain ⟨agent, found, rfl | completed⟩ := sound.earlier id known
  · exact ⟨agent, found, rfl⟩
  · have settled := sound.terminal id
    rw [completed, unfinished] at settled
    cases settled

theorem follow_change (sound : team.Sound) (event : Event)
    (possible : team.scheduler.Possible event) (keeps : team.scheduler.Keeps event)
    (silent : ∀ id reason, event ≠ .discard id reason)
    (known : ∀ id, event = .schedule id ∨ event = .cancel id → id < team.nextRecord)
    (wakes : ∀ id, event = .ended id none → (team.record id).cancelRequested = false →
      allowed .stalled ∨ ∀ agent, team.agents.get (team.agentPath id) = some agent →
        reports agent.report .waiting = true → team.wakeable (team.agentPath id) = true) :
    Change allowed team (team.follow event) := by
  have follows : team.Follows (team.scheduler.step event) :=
    { consistent := Scheduler.step_consistent _ event sound.consistent possible keeps
      live := Scheduler.step_live event sound.live silent
      scheduled := by
        intro id scheduled
        rcases Scheduler.step_scheduled event id scheduled with earlier | now
        · exact sound.scheduled id earlier
        · exact known id (Or.inl now) }
  have outcome := Scheduler.step_outcome event sound.consistent sound.live silent
  simp only [follow]
  generalize team.scheduler.step event = after at *
  cases outcome with
  | unmoved started handled kept =>
      rw [started, handled, List.drop_length, List.drop_length]
      exact .unmoved after follows started kept
  | begun id unfinished started handled kept =>
      rw [started, handled, List.drop_left, List.drop_length]
      exact .begun after id follows unfinished started kept
  | ended id status cause unfinished started handled finished terminal _ kept =>
      rw [started, handled, List.drop_left, List.drop_length]
      have running : ∀ error, event = .ended id error → id ∈ team.scheduler.runtime.started := by
        rintro error rfl
        exact sound.consistent.runningStarted id possible.1
      have here : id < team.nextRecord := by
        rcases cause with ⟨_, scheduled | named⟩ | ⟨error, same, _⟩
        · exact sound.scheduled id scheduled
        · exact known id named
        · exact sound.scheduled id (sound.consistent.startedScheduled id (running error same))
      obtain ⟨agent, found, _⟩ := sound.current_of_unfinished here unfinished
      have called : team.handleFinished team.handlers (id, status) =
          Function.update team.handlers id
            (some { status := status, report := agent.report, stage := .flushing }) := by
        simp only [handleFinished, found]
      simp only [List.foldl_cons, List.foldl_nil, called]
      refine .ended after id status agent follows unfinished here found ?_ started finished terminal
        kept ?_
      · intro uncancelled
        rcases cause with ⟨cancelled, _⟩ | ⟨error, same, _⟩
        · exact absurd cancelled uncancelled
        · exact running error same
      · by_cases completed : status = .completed
        · rcases cause with ⟨cancelled, _⟩ | ⟨error, same, plain⟩
          · rw [completed] at cancelled
            cases cancelled
          · obtain ⟨rfl, unasked⟩ := plain completed
            exact (wakes id same unasked).imp_right fun all _ waits => all agent found waits
        · exact Or.inr fun done => absurd done completed

theorem schedule_change (sound : team.Sound) (known : id < team.nextRecord)
    (new : id ∉ team.scheduler.scheduled) : Change allowed team (team.follow (.schedule id)) := by
  apply follow_change sound (.schedule id) new trivial
  · intro _ _ same
    cases same
  · rintro other (same | same)
    · cases same
      exact known
    · cases same
  · intro _ same
    cases same

theorem Sound.unscheduled (sound : team.Sound) : team.nextRecord ∉ team.scheduler.scheduled :=
  fun scheduled => Nat.lt_irrefl _ (sound.scheduled _ scheduled)

theorem follow_handlers (sound : team.Sound) (event : Event)
    (silent : ∀ id reason, event ≠ .discard id reason)
    (earlier : team.finished id = true) :
    (team.follow event).handlers id = team.handlers id := by
  have outcome := Scheduler.step_outcome event sound.consistent sound.live silent
  simp only [follow]
  cases outcome with
  | unmoved _ handled _ => rw [handled, List.drop_length, List.foldl_nil]
  | begun _ _ _ handled _ => rw [handled, List.drop_length, List.foldl_nil]
  | ended other status _ unfinished _ handled _ _ _ _ =>
      rw [handled, List.drop_left, List.foldl_cons, List.foldl_nil]
      have different : id ≠ other := by
        rintro rfl
        exact absurd (earlier.symm.trans unfinished) (by decide)
      cases found : team.agents.get (team.agentPath other) with
      | none => simp [handleFinished, found]
      | some agent => simp [handleFinished, found, different]

variable {path : AgentPath}

theorem deliver_ok {task : TeamTask} {next : Team} (delivered : team.deliver path task = .ok next) :
    next = team.hand path task ∧ (path = rootPath ∨
      ∃ agent, team.agents.get path = some agent ∧ team.finished agent.record = false) := by
  simp only [deliver] at delivered
  split at delivered
  next root => exact ⟨(Except.ok.inj delivered).symm, Or.inl root⟩
  next =>
    split at delivered
    next => cases delivered
    next agent found =>
      split at delivered
      next => split at delivered <;> cases delivered
      next unfinished =>
        exact ⟨(Except.ok.inj delivered).symm,
          Or.inr ⟨agent, found, Bool.eq_false_iff.mpr unfinished⟩⟩

theorem deliver_error {task : TeamTask} {error : Text}
    (refused : team.deliver path task = .error error) :
    path ≠ rootPath ∧ ∀ agent, team.agents.get path = some agent →
      team.finished agent.record = true := by
  simp only [deliver] at refused
  split at refused
  next => cases refused
  next below =>
    refine ⟨below, fun agent found => ?_⟩
    rw [found] at refused
    simp only at refused
    split at refused
    next finished => exact finished
    next => cases refused

variable {handler : Handler}

theorem Sound.closed_of_ended (sound : team.Sound)
    (held : team.handlers id = some handler) (failed : handler.status ≠ .completed) :
    team.Closed (team.agentPath id) := by
  -- A run that ended otherwise than completed is the last one of its agent.
  obtain ⟨known, ends⟩ := sound.pending id handler held
  obtain ⟨agent, found, rfl | completed⟩ := sound.earlier id known
  · refine ⟨agent, found, ?_, ?_⟩
    · rw [← sound.terminal, ends]
      rfl
    · rw [ends]
      exact fun same => failed (Option.some.inj same)
  · rw [ends] at completed
    exact absurd (Option.some.inj completed) failed

theorem Sound.closed_of_deaf (sound : team.Sound) {agent : TeamAgent}
    (found : team.agents.get path = some agent) (finished : team.finished agent.record = true)
    (deaf : ¬ canReceiveMessage (team.status agent) = true) : team.Closed path :=
  ⟨agent, found, finished, fun completed =>
    deaf ((status_receives sound.terminal agent).mpr completed)⟩

theorem shiftPending_changes (sound : team.Sound)
    (held : team.handlers id = some handler) (told : team.Told allowed id handler)
    (displaced : team.displaces id = true → allowed .displaced) :
    Changes allowed team (team.shiftPending id handler.status) := by
  obtain ⟨known, ends⟩ := sound.pending id handler held
  obtain ⟨agent, found, _⟩ := sound.earlier id known
  simp only [shiftPending, found]
  split
  next completed =>
    cases waiting : agent.pendingTasks with
    | nil =>
        have same : { agent with pendingTasks := [] } = agent := by
          cases agent
          simp_all
        have settled := Change.settled id handler agent [] held told found
          (Or.inl ⟨waiting, rfl⟩)
        rw [same] at settled
        have unchanged : (team.setHandler id none).setAgent (team.agentPath id) agent =
            team.setHandler id none := by
          simp only [setAgent, setHandler, InsertionMap.set_get found]
        rw [unchanged] at settled
        exact .single settled
    | cons next rest =>
        have shifted : ((team.setHandler id none).setAgent (team.agentPath id)
            { agent with pendingTasks := rest }).status { agent with pendingTasks := rest } =
              team.status agent := rfl
        simp only [reactivateAgent, shifted]
        split
        next deaf =>
          refine .single (Change.settled id handler agent rest held told found (Or.inr ?_))
          by_cases finished : team.finished agent.record = true
          · exact Or.inr (sound.closed_of_deaf found finished (by simpa using deaf))
          · refine Or.inl ⟨displaced ?_, Bool.eq_false_iff.mpr finished⟩
            simp [displaces, held, found, completed, waiting, finished]
        next receives =>
          have receives : canReceiveMessage (team.status agent) = true := by simpa using receives
          have unparked := Change.unparked id handler agent next rest held told found waiting receives
          have resumed : ((team.setHandler id none).setAgent (team.agentPath id)
              { agent with pendingTasks := rest }).resumeRecord (team.agentPath id)
                { agent with pendingTasks := rest } (next, .unparked) =
              (team.setHandler id none).resumeRecord (team.agentPath id)
                { agent with pendingTasks := rest } (next, .unparked) := by
            simp only [resumeRecord, setAgent, setHandler, InsertionMap.set_set]
          simp only [Bool.false_eq_true, if_false, resumed]
          exact (Relation.ReflTransGen.single unparked).tail
            (schedule_change (unparked.sound sound) (Nat.lt_succ_self _) sound.unscheduled)
  next failed =>
    exact .single (Change.settled id handler agent [] held told found
      (Or.inr (Or.inr (sound.closed_of_ended held failed))))

theorem Sound.idle_parent (sound : team.Sound) (idle : path = rootPath ∨
      ∃ agent, team.agents.get path = some agent ∧ team.finished agent.record = false) :
    ∀ agent, team.agents.get path = some agent → team.status agent ≠ .waitingResult := by
  intro agent found waits
  have completed := ((status_waiting sound.terminal agent).mp waits).1
  rcases idle with rfl | ⟨other, here, unfinished⟩
  · exact sound.notRoot found rfl
  · rw [found] at here
    obtain rfl := Option.some.inj here
    have settled := sound.terminal agent.record
    rw [completed, unfinished] at settled
    cases settled

theorem deliverFinalAnswer_changes (sound : team.Sound)
    (held : team.handlers id = some handler) (task : TeamTask) : Changes allowed team
      ((((team.owe (parentPath (team.agentPath id)) task).deliverFinalAnswer (team.agentPath id)
        task)).setHandler id (some { handler with stage := .delivering })) := by
  -- The answer of a run on its way to the parent, which is not left waiting.
  obtain ⟨known, ends⟩ := sound.pending id handler held
  have finished : team.finished id = true := by
    rw [← sound.terminal, ends]
    rfl
  obtain ⟨holder, here, _⟩ := sound.earlier id known
  have above := sound.parents _ holder here
  have owed : (team.owe (parentPath (team.agentPath id)) task).Sound := sound.log _ _ _
  generalize parent : parentPath (team.agentPath id) = path at *
  -- A direct delivery, which an agent that failed or was cancelled refuses.
  have direct : (∀ agent, team.agents.get path = some agent →
      ¬ canReceiveMessage (team.status agent) = true) →
      Changes allowed team ((((team.owe path task).deliver path task).toOption.getD
        (team.owe path task)).setHandler id (some { handler with stage := .delivering })) := by
    intro deaf
    cases delivered : (team.owe path task).deliver path task with
    | ok next =>
        obtain ⟨rfl, present⟩ := deliver_ok delivered
        have handed : Change allowed team _ := Change.handed path task present
        refine (Relation.ReflTransGen.single handed).tail
          (Change.told id handler held ?_)
        change ∀ agent, team.agents.get (parentPath (team.agentPath id)) = some agent → _
        rw [parent]
        exact sound.idle_parent present
    | error error =>
        obtain ⟨below, refused⟩ := deliver_error delivered
        obtain ⟨agent, found⟩ := above.resolve_left below
        have closed := sound.closed_of_deaf found (refused agent found) (deaf agent found)
        have unplaced : Change allowed team _ := Change.unplaced path task (Or.inr closed)
        refine (Relation.ReflTransGen.single unplaced).tail (Change.told id handler held ?_)
        change ∀ agent, team.agents.get (parentPath (team.agentPath id)) = some agent → _
        rw [parent]
        intro other got waits
        apply deaf other got
        rw [status_receives sound.terminal]
        exact ((status_waiting sound.terminal other).mp waits).1
  have kept : (team.owe path task).agents.get path = team.agents.get path := rfl
  simp only [deliverFinalAnswer, parent, kept]
  cases found : team.agents.get path with
  | none => exact direct (by simp [found])
  | some agent =>
      simp only
      split
      next receives =>
        have receives : canReceiveMessage (team.status agent) = true := receives
        have resumed : Change allowed team _ := Change.resumed path agent task found receives
        have next := resumed.sound sound
        have started : Change allowed _ _ :=
          schedule_change next (Nat.lt_succ_self _) sound.unscheduled
        have last := started.sound next
        have hears : (!canReceiveMessage ((team.owe path task).status agent)) = false := by
          rw [Bool.not_eq_false']
          exact receives
        simp only [reactivateAgent, hears, Bool.false_eq_true, if_false]
        refine ((Relation.ReflTransGen.single resumed).tail started).tail
          (Change.told id handler ?_ ?_)
        · exact (follow_handlers next _ (by rintro _ _ ⟨⟩) finished).trans held
        · intro other got waits
          have same : Function.update team.agentPath team.nextRecord path id = team.agentPath id :=
            Function.update_of_ne (Nat.ne_of_lt known) _ _
          change (team.setAgent path { agent with record := team.nextRecord, report := none }).agents.get
            (parentPath (Function.update team.agentPath team.nextRecord path id)) = some other at got
          rw [same, parent, get_setAgent, if_pos rfl] at got
          obtain rfl := Option.some.inj got
          exact absurd ((status_waiting last.terminal _).mp waits).2 (by simp [reports])
      next deaf =>
        have deaf : ¬ canReceiveMessage (team.status agent) = true := deaf
        split
        next queued =>
          have unfinished := status_queued sound.terminal agent queued
          have parked : Change allowed team _ := Change.parked path agent task found unfinished
          refine (Relation.ReflTransGen.single parked).tail (Change.told id handler held ?_)
          change ∀ other, (team.setAgent path
            { agent with pendingTasks := agent.pendingTasks ++ [task] }).agents.get
              (parentPath (team.agentPath id)) = some other → _
          rw [parent]
          have present := get_setAgent team path path
            { agent with pendingTasks := agent.pendingTasks ++ [task] }
          rw [if_pos rfl] at present
          exact (parked.sound sound).idle_parent (Or.inr ⟨_, present, unfinished⟩)
        next =>
          apply direct
          intro other got
          rw [found] at got
          obtain rfl := Option.some.inj got
          exact deaf

theorem spawnAgent_changes (sound : team.Sound) (senderPath : AgentPath) (taskName : Text)
    (deferStart : Bool) :
    Changes allowed team ((team.spawnAgent senderPath taskName deferStart).toOption.getD team) := by
  simp only [spawnAgent]
  split
  next => exact .refl
  next known =>
    split
    next => exact .refl
    next free =>
      have free : team.agents.get (childPath senderPath taskName) = none := by
        simpa [InsertionMap.has] using free
      have parent : senderPath = rootPath ∨ ∃ parent, team.agents.get senderPath = some parent := by
        simpa [InsertionMap.has, Option.ne_none_iff_exists', or_iff_not_imp_left] using known
      have spawned : Change allowed team _ :=
        Change.spawned (childPath senderPath taskName) free (List.cons_ne_nil _ _) parent
      simp only [Except.toOption, Option.getD_some]
      split
      next => exact .single spawned
      next =>
        exact (Relation.ReflTransGen.single spawned).tail
          (schedule_change (spawned.sound sound) (Nat.lt_succ_self _) sound.unscheduled)

theorem delivered_changes (path : AgentPath) (task : TeamTask) (next : Team)
    (delivered : team.deliver path task = .ok next) : Changes allowed team (next.owe path task) := by
  obtain ⟨rfl, present⟩ := deliver_ok delivered
  exact .single (Change.handed path task present)

theorem followupTask_changes (sound : team.Sound) (senderPath targetPath : AgentPath)
    (message : Text) (toolCall : Nat) (aborted : Bool)
    (cleared : team.misses (.followup senderPath targetPath message toolCall aborted) .cleared = true →
      allowed .cleared) :
    Changes allowed team
      (team.followupTask senderPath targetPath message toolCall aborted).1 := by
  simp only [followupTask]
  generalize TeamTask.mk senderPath message (.call toolCall) .newTask = task
  have direct : ∀ next, team.deliver targetPath task = .ok next →
      Changes allowed team (next.owe targetPath task) := delivered_changes targetPath task
  split
  next =>
    split
    next next delivered => exact direct next delivered
    next => exact .refl
  next below =>
    cases found : team.agents.get targetPath with
    | none => exact .refl
    | some target =>
        simp only
        split
        next unfinished =>
          have unfinished : team.finished target.record = false := by simpa using unfinished
          split
          next queued =>
            have promoted : Change allowed team (team.follow (.prioritize target.record)) := by
              apply follow_change sound (.prioritize target.record) trivial trivial
              · rintro _ _ ⟨⟩
              · rintro _ (⟨⟨⟩⟩ | ⟨⟨⟩⟩)
              · rintro _ ⟨⟩
            refine (Relation.ReflTransGen.single promoted).tail
              (Change.parked targetPath target task found ?_)
            have same : (team.follow (.prioritize target.record)).finished target.record =
                team.finished target.record := by
              simp only [finished, record, follow, Scheduler.step, Runtime.prioritizeBackground]
              split <;> rfl
            rw [same, unfinished]
          next =>
            split
            next next delivered => exact direct next delivered
            next => exact .refl
        next =>
          split
          next => exact .refl
          next receives =>
            have receives : canReceiveMessage (team.status target) = true := by simpa using receives
            have hears : (!canReceiveMessage (team.status target)) = false := by simp [receives]
            simp only [reactivateAgent, hears, Bool.false_eq_true, if_false]
            cases aborted with
            | true =>
                simp only [if_true]
                refine .single (Change.reported targetPath target none found (Or.inr ⟨rfl, ?_⟩))
                by_cases waits : team.status target = .waitingResult
                · refine Or.inl (cleared ?_)
                  simp [misses, found, waits]
                · exact Or.inr waits
            | false =>
                have resumed : Change allowed team _ :=
                  Change.resumed targetPath target task found receives
                simp only [Bool.false_eq_true, if_false]
                exact (Relation.ReflTransGen.single resumed).tail
                  (schedule_change (resumed.sound sound) (Nat.lt_succ_self _) sound.unscheduled)

theorem resumeHandler_changes (sound : team.Sound)
    (held : team.handlers id = some handler) (output : Text)
    (overlooked : team.misses (.flushed id output) .overlooked = true → allowed .overlooked)
    (displaced : team.misses (.flushed id output) .displaced = true → allowed .displaced) :
    Changes allowed team (team.resumeHandler id handler output) := by
  obtain ⟨known, _⟩ := sound.pending id handler held
  obtain ⟨agent, found, _⟩ := sound.earlier id known
  have decides : team.decides id = team.answers id handler.status agent.report := by
    simp [Team.decides, held, found]
  simp only [resumeHandler, found]
  split
  next delivers =>
    rw [if_pos (by simp [delivers])]
    exact deliverFinalAnswer_changes sound held _
  next quiet =>
    have quiet : team.answers id handler.status agent.report = false := Bool.eq_false_iff.mpr quiet
    rw [quiet] at decides
    split
    next due =>
      have due : team.answers id handler.status handler.report = true := by simpa [quiet] using due
      have allows : allowed .overlooked := overlooked (by simp [misses, decides, held, due])
      have unplaced : Change allowed team _ :=
        Change.unplaced (parentPath (team.agentPath id))
          (team.finalAnswer id agent handler.status output) (Or.inl allows)
      refine (Relation.ReflTransGen.single unplaced).trans
        (shiftPending_changes (unplaced.sound sound) held (Or.inl allows) ?_)
      intro (here : team.displaces id = true)
      exact displaced (by simp [misses, decides, here])
    next undue =>
      refine shiftPending_changes sound held (Or.inr (Or.inr ?_)) ?_
      · simpa [quiet] using undue
      · exact fun here => displaced (by simpa [misses, decides] using here)

theorem step_changes (sound : team.Sound) (event : TeamEvent) (possible : team.Possible event)
    (passes : team.misses event .passedOver = false)
    (allow : ∀ miss, team.misses event miss = true → allowed miss) :
    Changes allowed team (team.step event) := by
  cases event with
  | spawn senderPath taskName deferStart => exact spawnAgent_changes sound _ _ _
  | launch path =>
      simp only [step]
      cases found : team.agents.get path with
      | none => exact .refl
      | some agent =>
          have new : agent.record ∉ team.scheduler.scheduled := by
            simpa [Possible, found] using possible
          exact .single (schedule_change sound (sound.current path agent found).1 new)
  | followup senderPath targetPath message toolCall aborted =>
      exact followupTask_changes sound _ _ _ _ _ (allow .cleared)
  | report senderPath report =>
      simp only [step, teamReport]
      cases found : team.agents.get senderPath with
      | none => exact .refl
      | some agent =>
          simp only [Possible, found, Option.any_some, Bool.and_eq_true, Bool.not_eq_true'] at possible
          simp only
          split
          next => exact .refl
          next =>
            split
            next => exact .refl
            next => exact .single (Change.reported senderPath agent _ found (Or.inl possible.2))
  | interrupt targetPath =>
      simp only [step, teamInterrupt]
      split
      next => exact .refl
      next =>
        cases found : team.agents.get targetPath with
        | none => exact .refl
        | some target =>
            simp only
            split
            next => exact .refl
            next =>
              refine .single (follow_change sound (.cancel target.record) trivial trivial ?_ ?_ ?_)
              · rintro _ _ ⟨⟩
              · rintro _ (⟨⟨⟩⟩ | ⟨⟨⟩⟩)
                exact (sound.current targetPath target found).1
              · rintro _ ⟨⟩
  | abort id =>
      refine .single (follow_change sound (.abort id) trivial trivial ?_ ?_ ?_)
      · rintro _ _ ⟨⟩
      · rintro _ (⟨⟨⟩⟩ | ⟨⟨⟩⟩)
      · rintro _ ⟨⟩
  | ended id error =>
      refine .single (follow_change sound (.ended id error) possible trivial ?_ ?_ ?_)
      · rintro _ _ ⟨⟩
      · rintro _ (⟨⟨⟩⟩ | ⟨⟨⟩⟩)
      · rintro _ ⟨⟩ unasked
        by_cases stalled : team.misses (.ended id none) .stalled = true
        · exact Or.inl (allow .stalled stalled)
        · refine Or.inr fun agent found waits => ?_
          by_contra unwakeable
          apply stalled
          simp [misses, unasked, found, waits, Bool.eq_false_iff.mpr unwakeable]
  | released id =>
      refine .single (follow_change sound (.released id) possible ?_ ?_ ?_ ?_)
      · simpa [misses] using passes
      · rintro _ _ ⟨⟩
      · rintro _ (⟨⟨⟩⟩ | ⟨⟨⟩⟩)
      · rintro _ ⟨⟩
  | flushed id output =>
      simp only [step]
      cases held : team.handlers id with
      | none => exact .refl
      | some handler => exact resumeHandler_changes sound held output (allow .overlooked) (allow .displaced)
  | answered id =>
      simp only [step]
      cases held : team.handlers id with
      | none => exact .refl
      | some handler =>
          refine shiftPending_changes sound held (Or.inr (Or.inl ?_)) (allow .displaced)
          simpa [Possible, held] using possible

theorem spared_run {missed : List Miss} (passes : Miss.passedOver ∈ missed)
    {invariant : Team → Prop}
    (preserved : ∀ team next, Change (· ∉ missed) team next → team.Sound → invariant team →
      invariant next)
    (team : Team) (events : List TeamEvent) (sound : team.Sound) (initial : invariant team)
    (possible : Runs.Along step Possible team events)
    (spared : Runs.Along step (Spares missed) team events) :
    (Runs.run step team events).Sound ∧ invariant (Runs.run step team events) := by
  induction events generalizing team with
  | nil => exact ⟨sound, initial⟩
  | cons event rest ih =>
      have changes : Changes (· ∉ missed) team (team.step event) := by
        apply step_changes sound event possible.1 (spared.1 _ passes)
        intro miss misses listed
        rw [spared.1 miss listed] at misses
        cases misses
      have both : ∀ next, Changes (· ∉ missed) team next → next.Sound ∧ invariant next := by
        intro next changes
        induction changes with
        | refl => exact ⟨sound, initial⟩
        | tail _ change before =>
            exact ⟨change.sound before.1, preserved _ _ change before.1 before.2⟩
      have ⟨after, kept⟩ := both _ changes
      exact ih _ after kept possible.2 spared.2

end Chains

end Team

end GrokPi.Subagents
