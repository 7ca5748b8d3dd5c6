import GrokPi.Subagents.TeamSteps

set_option autoImplicit false

namespace GrokPi.Subagents

namespace Team

def tasks (entries : List (TeamTask × Route)) : List TeamTask := entries.map Prod.fst

def unparked (entries : List (TeamTask × Route)) : List TeamTask :=
  tasks (entries.filter fun entry => entry.2 = .unparked)

@[simp] theorem tasks_append (first second : List (TeamTask × Route)) :
    tasks (first ++ second) = tasks first ++ tasks second := List.map_append

@[simp] theorem unparked_append (first second : List (TeamTask × Route)) :
    unparked (first ++ second) = unparked first ++ unparked second := by
  simp [unparked]

def carried (team : Team) (id : RecordId) : List (TeamTask × Route) :=
  if id ∈ team.scheduler.runtime.started then [] else (team.messages id).toList

def parkedEntries (agent : TeamAgent) : List (TeamTask × Route) :=
  agent.pendingTasks.map fun task => (task, .unparked)

/-- The tasks on their way to an agent, in the order in which they will be handed over. -/
def inFlight (team : Team) (path : AgentPath) : List (TeamTask × Route) :=
  match team.agents.get path with
  | none => []
  | some agent => team.carried agent.record ++ parkedEntries agent

def Accounted (team : Team) (path : AgentPath) : Prop :=
  ∃ rest, (team.owed path).Perm (tasks (team.handed path ++ rest)) ∧
    team.parked path = unparked (team.handed path ++ rest) ∧
    (rest = team.inFlight path ∨ team.Closed path)

def Attended (team : Team) (path : AgentPath) : Prop :=
  ∀ agent, team.agents.get path = some agent → agent.pendingTasks ≠ [] →
    team.finished agent.record = false ∨ team.Closed path ∨
      ∃ id, team.agentPath id = path ∧ (team.handlers id).isSome = true

structure Delivering (team : Team) : Prop where
  accounted : ∀ path, team.Accounted path
  attended : ∀ path, team.Attended path

section Frames

variable {team next : Team} {path : AgentPath}

theorem Accounted.same (accounted : team.Accounted path) (owed : next.owed path = team.owed path)
    (parked : next.parked path = team.parked path) (handed : next.handed path = team.handed path)
    (flight : next.inFlight path = team.inFlight path)
    (closed : team.Closed path → next.Closed path) : next.Accounted path := by
  obtain ⟨rest, all, ordered, kept⟩ := accounted
  refine ⟨rest, ?_, ?_, ?_⟩
  · rw [owed, handed]
    exact all
  · rw [parked, handed]
    exact ordered
  · rw [flight]
    exact kept.imp_right closed

theorem inFlight_same (agents : next.agents.get path = team.agents.get path)
    (carried : ∀ agent, team.agents.get path = some agent →
      next.carried agent.record = team.carried agent.record) :
    next.inFlight path = team.inFlight path := by
  simp only [inFlight, agents]
  cases found : team.agents.get path with
  | none => rfl
  | some agent => simp only [carried agent found]

theorem closed_same (agents : next.agents.get path = team.agents.get path)
    (records : ∀ agent, team.agents.get path = some agent → team.finished agent.record = true →
      next.finished agent.record = true ∧
        (next.record agent.record).terminalStatus = (team.record agent.record).terminalStatus)
    (closed : team.Closed path) : next.Closed path := by
  obtain ⟨agent, found, finished, failed⟩ := closed
  obtain ⟨still, same⟩ := records agent found finished
  refine ⟨agent, agents.trans found, still, ?_⟩
  rw [same]
  exact failed

theorem closed_kept (agents : next.agents.get path = team.agents.get path)
    (kept : ∀ id, team.finished id = true →
      Runtime.Kept team.scheduler.runtime next.scheduler.runtime id) :
    team.Closed path → next.Closed path :=
  closed_same agents fun agent _ finished =>
    ⟨(kept agent.record finished).finished.trans finished, (kept agent.record finished).terminal⟩

theorem Sound.started_of_completed (sound : team.Sound) {id : RecordId}
    (completed : (team.record id).terminalStatus = some .completed) : team.carried id = [] := by
  simp only [carried]
  rw [if_pos (sound.ran id .completed completed (by decide))]

theorem not_closed {agent : TeamAgent} (found : team.agents.get path = some agent)
    (alive : team.finished agent.record = false ∨
      (team.record agent.record).terminalStatus = some .completed) : ¬ team.Closed path := by
  rintro ⟨other, here, finished, failed⟩
  rw [found] at here
  obtain rfl := Option.some.inj here
  rcases alive with unfinished | completed
  · rw [unfinished] at finished
    cases finished
  · exact failed completed

theorem tasks_middle (first last : List (TeamTask × Route)) (entry : TeamTask × Route) :
    (tasks (first ++ last) ++ [entry.1]).Perm (tasks ((first ++ [entry]) ++ last)) := by
  rw [tasks_append, tasks_append, tasks_append, List.append_assoc, List.append_assoc]
  exact List.Perm.append_left _ List.perm_append_comm

theorem tasks_last {owed : List TeamTask} {handed rest : List (TeamTask × Route)}
    (all : owed.Perm (tasks (handed ++ rest))) (entry : TeamTask × Route) :
    (owed ++ [entry.1]).Perm (tasks (handed ++ (rest ++ [entry]))) := by
  rw [← List.append_assoc, tasks_append (handed ++ rest)]
  exact all.append_right _

end Frames

section Changes

variable {allowed : Miss → Prop} {team next : Team}

theorem accounted_begun (sound : team.Sound) (accounted : ∀ path, team.Accounted path)
    {after : Scheduler} {id : RecordId} (follows : team.Follows after)
    (unfinished : team.finished id = false)
    (started : after.runtime.started = team.scheduler.runtime.started ++ [id])
    (kept : ∀ other, Runtime.Kept team.scheduler.runtime after.runtime other) (path : AgentPath) :
    Accounted { team with scheduler := after, handed := team.begin team.handed id } path := by
  have listed : id ∈ after.runtime.started := by
    rw [started]
    exact List.mem_append_right _ List.mem_cons_self
  have fresh : id ∉ team.scheduler.runtime.started := by
    have once := follows.consistent.startedOnce
    rw [started, List.nodup_append] at once
    exact fun earlier => once.2.2 id earlier id List.mem_cons_self rfl
  have known := follows.scheduled id (follows.consistent.startedScheduled id listed)
  obtain ⟨agent, found, rfl⟩ := sound.current_of_unfinished known unfinished
  by_cases here : path = team.agentPath agent.record
  · subst here
    obtain ⟨rest, all, ordered, flight⟩ := accounted (team.agentPath agent.record)
    have flight := flight.resolve_right (not_closed found (Or.inl unfinished))
    simp only [inFlight, found, carried, if_neg fresh] at flight
    have handed : team.begin team.handed agent.record (team.agentPath agent.record) =
        team.handed (team.agentPath agent.record) ++ (team.messages agent.record).toList := by
      cases carries : team.messages agent.record with
      | none => simp [Team.begin, carries]
      | some message => simp [Team.begin, carries]
    have moved : team.handed (team.agentPath agent.record) ++ rest =
        team.begin team.handed agent.record (team.agentPath agent.record) ++ parkedEntries agent := by
      rw [handed, flight, List.append_assoc]
    refine ⟨parkedEntries agent, ?_, ?_, Or.inl ?_⟩
    · exact moved ▸ all
    · exact moved ▸ ordered
    · simp only [inFlight, found, carried, if_pos listed, List.nil_append]
  · refine (accounted path).same rfl rfl ?_ ?_ ?_
    · cases carries : team.messages agent.record with
      | none => simp [Team.begin, carries]
      | some message => simp [Team.begin, carries, here]
    · refine inFlight_same rfl fun holder held => ?_
      have different : holder.record ≠ agent.record := by
        intro same
        apply here
        rw [← same]
        exact (sound.current path holder held).2.symm
      simp only [carried, started, List.mem_append, List.mem_singleton, different, or_false]
    · exact closed_kept rfl fun other _ => kept other

theorem Accounted.one (accounted : ∀ path, team.Accounted path) (path : AgentPath)
    (here : next.Accounted path)
    (owed : ∀ other, other ≠ path → next.owed other = team.owed other)
    (parked : ∀ other, other ≠ path → next.parked other = team.parked other)
    (handed : ∀ other, other ≠ path → next.handed other = team.handed other)
    (flight : ∀ other, other ≠ path → next.inFlight other = team.inFlight other)
    (closed : ∀ other, team.Closed other → next.Closed other) : ∀ path, next.Accounted path := by
  -- Only the accounts of one path change.
  intro other
  by_cases same : other = path
  · subst same
    exact here
  · exact (accounted other).same (owed other same) (parked other same) (handed other same)
      (flight other same) (closed other)

theorem inFlight_setAgent {path other : AgentPath} {agent : TeamAgent} (different : other ≠ path) :
    (team.setAgent path agent).inFlight other = team.inFlight other :=
  inFlight_same (by rw [get_setAgent, if_neg different]) fun _ _ => rfl

theorem closed_setAgent {path other : AgentPath} {agent changed : TeamAgent}
    (found : team.agents.get path = some agent) (same : changed.record = agent.record)
    (closed : team.Closed other) : (team.setAgent path changed).Closed other := by
  obtain ⟨holder, held, finished, failed⟩ := closed
  by_cases here : other = path
  · subst here
    rw [found] at held
    obtain rfl := Option.some.inj held
    refine ⟨changed, by rw [get_setAgent, if_pos rfl], ?_, ?_⟩
    · rw [same]
      exact finished
    · rw [same]
      exact failed
  · exact ⟨holder, by rw [get_setAgent, if_neg here, held], finished, failed⟩

variable {path : AgentPath}

theorem accounted_resumed (sound : team.Sound) (accounted : ∀ path, team.Accounted path)
    {agent shifted : TeamAgent} {message : TeamTask × Route}
    {owed : AgentPath → List TeamTask} (found : team.agents.get path = some agent)
    (receives : canReceiveMessage (team.status agent) = true)
    (elsewhere : ∀ other, other ≠ path → owed other = team.owed other)
    (all : ∀ handed, (team.owed path).Perm (tasks (handed ++ parkedEntries agent)) →
      (owed path).Perm (tasks (handed ++ message :: parkedEntries shifted)))
    (ordered : unparked (parkedEntries agent) = unparked (message :: parkedEntries shifted))
    (path' : AgentPath) :
    Accounted { team.resumeRecord path shifted message with owed := owed } path' := by
  -- A task of the new record of an agent whose earlier one completed.
  have completed := (status_receives sound.terminal agent).mp receives
  have fresh : team.nextRecord ∉ team.scheduler.runtime.started := fun started =>
    sound.unscheduled (sound.consistent.startedScheduled _ started)
  by_cases here : path' = path
  · subst here
    obtain ⟨rest, owes, parks, flight⟩ := accounted path'
    have flight := flight.resolve_right (not_closed found (Or.inr completed))
    simp only [inFlight, found, sound.started_of_completed completed, List.nil_append] at flight
    subst flight
    refine ⟨message :: parkedEntries shifted, all _ owes, ?_, Or.inl ?_⟩
    · change team.parked path' = _
      rw [parks, unparked_append, unparked_append, ordered]
      rfl
    · have now := get_setAgent team path' path'
        { shifted with record := team.nextRecord, report := none }
      rw [if_pos rfl] at now
      have carries : carried
          { team.resumeRecord path' shifted message with owed := owed } team.nextRecord =
          [message] := by
        simp only [carried]
        rw [if_neg (by exact fresh)]
        change (Function.update team.messages team.nextRecord (some message) team.nextRecord).toList = _
        rw [Function.update_self]
        rfl
      have reads : ({ team.resumeRecord path' shifted message with owed := owed } : Team).agents.get
          path' = some { shifted with record := team.nextRecord, report := none } := now
      simp only [inFlight, reads, carries]
      rfl
  · have apart := get_setAgent team path path'
      { shifted with record := team.nextRecord, report := none }
    rw [if_neg here] at apart
    refine (accounted path').same (elsewhere path' here) rfl rfl ?_ ?_
    · refine inFlight_same apart fun holder held => ?_
      have known := (sound.current path' holder held).1
      simp only [carried]
      change (if holder.record ∈ team.scheduler.runtime.started then [] else
        (Function.update team.messages team.nextRecord (some message) holder.record).toList) = _
      rw [Function.update_of_ne (Nat.ne_of_lt known)]
    · exact closed_same apart fun holder _ finished => ⟨finished, rfl⟩

theorem accounted_kept (accounted : ∀ path, team.Accounted path) (after : Scheduler)
    (handlers : RecordId → Option Handler)
    (started : after.runtime.started = team.scheduler.runtime.started)
    (kept : ∀ id, team.finished id = true → Runtime.Kept team.scheduler.runtime after.runtime id)
    (path : AgentPath) : Accounted { team with scheduler := after, handlers := handlers } path := by
  refine (accounted path).same rfl rfl rfl (inFlight_same rfl fun agent _ => ?_) ?_
  · simp only [carried, started]
  · exact closed_kept rfl kept

theorem accounted_spawned (sound : team.Sound) (accounted : ∀ path, team.Accounted path)
    (free : team.agents.get path = none) (other : AgentPath) : Accounted
      { team.setAgent path { record := team.nextRecord, report := none, pendingTasks := [] } with
        nextRecord := team.nextRecord + 1
        agentPath := Function.update team.agentPath team.nextRecord path } other := by
  have agents := get_setAgent team path other
    { record := team.nextRecord, report := none, pendingTasks := [] }
  by_cases here : other = path
  · subst here
    rw [if_pos rfl] at agents
    refine (accounted other).same rfl rfl rfl ?_ ?_
    · have nothing : team.messages team.nextRecord = none :=
        (sound.unknown _ (Nat.le_refl _)).2.2
      simp only [inFlight, free]
      change (match (team.setAgent other _).agents.get other with
        | none => []
        | some agent => _) = []
      rw [agents]
      change (if team.nextRecord ∈ team.scheduler.runtime.started then [] else
        (team.messages team.nextRecord).toList) ++ [] = []
      rw [nothing]
      simp
    · rintro ⟨holder, held, _⟩
      rw [free] at held
      cases held
  · rw [if_neg here] at agents
    refine (accounted other).same rfl rfl rfl (inFlight_same agents fun _ _ => rfl) ?_
    exact closed_same agents fun _ _ finished => ⟨finished, rfl⟩

theorem accounted_handed (accounted : ∀ path, team.Accounted path) (path : AgentPath) (task : TeamTask) :
    ∀ other, ((team.owe path task).hand path task).Accounted other := by
  obtain ⟨rest, owes, parks, flight⟩ := accounted path
  refine Accounted.one accounted path ⟨rest, ?_, ?_, flight⟩ ?_ (fun _ _ => rfl) ?_
    (fun _ _ => rfl) (fun _ closed => closed)
  · change (Function.update team.owed path (team.owed path ++ [task]) path).Perm
      (tasks (Function.update team.handed path (team.handed path ++ [(task, .delivered)]) path ++
        rest))
    rw [Function.update_self, Function.update_self]
    exact (owes.append_right [task]).trans (tasks_middle _ rest (task, .delivered))
  · change team.parked path = Team.unparked
      (Function.update team.handed path (team.handed path ++ [(task, .delivered)]) path ++ rest)
    rw [Function.update_self, parks]
    simp [Team.unparked]
  · exact fun other different => Function.update_of_ne different _ _
  · exact fun other different => Function.update_of_ne different _ _

theorem accounted_parked (accounted : ∀ path, team.Accounted path)
    {agent : TeamAgent} (task : TeamTask) (found : team.agents.get path = some agent)
    (unfinished : team.finished agent.record = false) :
    ∀ other, ((team.owe path task).park path agent task).Accounted other := by
  obtain ⟨rest, owes, parks, flight⟩ := accounted path
  have flight := flight.resolve_right (not_closed found (Or.inl unfinished))
  refine Accounted.one accounted path ⟨rest ++ [(task, .unparked)], ?_, ?_, Or.inl ?_⟩ ?_ ?_
    (fun _ _ => rfl) (fun other different => inFlight_setAgent different)
    fun _ => closed_setAgent found rfl
  · change (Function.update team.owed path (team.owed path ++ [task]) path).Perm _
    rw [Function.update_self]
    exact tasks_last owes (task, .unparked)
  · change Function.update team.parked path (team.parked path ++ [task]) path =
      Team.unparked (team.handed path ++ (rest ++ [(task, .unparked)]))
    rw [Function.update_self, ← List.append_assoc, unparked_append (team.handed path ++ rest), parks]
    simp [Team.unparked, tasks]
  · change _ = (team.setAgent path _).inFlight path
    simp only [inFlight, found] at flight
    simp only [inFlight, get_setAgent, if_true, flight]
    change _ = team.carried agent.record ++ _
    simp [parkedEntries]
  · exact fun other different => Function.update_of_ne different _ _
  · exact fun other different => Function.update_of_ne different _ _

theorem accounted_unplaced (accounted : ∀ path, team.Accounted path)
    (task : TeamTask) (closed : team.Closed path) : ∀ other, (team.owe path task).Accounted other := by
  obtain ⟨rest, owes, parks, _⟩ := accounted path
  refine Accounted.one accounted path
    ⟨rest ++ [(task, .delivered)], ?_, ?_, Or.inr closed⟩ ?_ (fun _ _ => rfl) (fun _ _ => rfl)
    (fun _ _ => rfl) (fun _ closed => closed)
  · change (Function.update team.owed path (team.owed path ++ [task]) path).Perm _
    rw [Function.update_self]
    exact tasks_last owes (task, .delivered)
  · change team.parked path = Team.unparked (team.handed path ++ (rest ++ [(task, .delivered)]))
    rw [parks]
    simp [Team.unparked]
  · exact fun other different => Function.update_of_ne different _ _

theorem accounted_settled (accounted : ∀ path, team.Accounted path) (id : RecordId) {agent : TeamAgent}
    {left : List TeamTask} (found : team.agents.get (team.agentPath id) = some agent)
    (nothing : agent.pendingTasks = [] ∧ left = [] ∨ team.Closed (team.agentPath id)) (other : AgentPath) :
    Accounted ((team.setHandler id none).setAgent (team.agentPath id) { agent with pendingTasks := left })
      other := by
  have closing : ∀ {path}, team.Closed path →
      Closed ((team.setHandler id none).setAgent (team.agentPath id)
        { agent with pendingTasks := left }) path := fun closed =>
    @closed_setAgent (team.setHandler id none) _ _ _ _ found rfl closed
  by_cases here : other = team.agentPath id
  · subst here
    obtain ⟨rest, owes, parks, flight⟩ := accounted (team.agentPath id)
    refine ⟨rest, owes, parks, ?_⟩
    rcases nothing with ⟨empty, rfl⟩ | closed
    · refine flight.imp (fun same => ?_) closing
      simp only [inFlight, found] at same
      simp only [inFlight, get_setAgent, if_true, same]
      rw [← empty]
      rfl
    · exact Or.inr (closing closed)
  · exact (accounted other).same rfl rfl rfl (inFlight_setAgent here) closing

theorem Change.accounted (change : Change allowed team next) (sound : team.Sound)
    (accounted : ∀ path, team.Accounted path) (seen : ¬ allowed .overlooked)
    (placed : ¬ allowed .displaced) : ∀ path, next.Accounted path := by
  cases change with
  | unmoved after follows started kept =>
      exact accounted_kept accounted after team.handlers started fun id _ => kept id
  | begun after id follows unfinished started kept =>
      exact accounted_begun sound accounted follows unfinished started kept
  | ended after id status agent follows unfinished known found ran started finished terminal kept _ =>
      refine accounted_kept accounted after _ started fun other already => kept other ?_
      rintro rfl
      rw [unfinished] at already
      cases already
  | spawned path free below parent => exact accounted_spawned sound accounted free
  | reported path agent report found plain =>
      intro other
      refine (accounted other).same rfl rfl rfl ?_ (closed_setAgent found rfl)
      by_cases here : other = path
      · subst here
        simp only [inFlight, get_setAgent, if_true, found]
        rfl
      · exact inFlight_setAgent here
  | handed path task present => exact accounted_handed accounted path task
  | parked path agent task found unfinished => exact accounted_parked accounted task found unfinished
  | resumed path agent task found receives =>
      refine accounted_resumed sound accounted found receives ?_ ?_ ?_
      · exact fun other different => Function.update_of_ne different _ _
      · intro handed owes
        change (Function.update team.owed path (team.owed path ++ [task]) path).Perm _
        rw [Function.update_self]
        refine (owes.append_right [task]).trans ?_
        have middle := tasks_middle handed (parkedEntries agent) (task, .reactivated)
        rwa [List.append_assoc] at middle
      · simp [Team.unparked]
  | unplaced path task lost => exact accounted_unplaced accounted task (lost.resolve_left seen)
  | told id handler held resumed =>
      exact fun path => (accounted path).same rfl rfl rfl rfl fun closed => closed
  | unparked id handler agent next rest held told found waiting receives =>
      have entries : parkedEntries agent =
          (next, .unparked) :: parkedEntries { agent with pendingTasks := rest } := by
        simp [parkedEntries, waiting]
      have resumed : ∀ path, Accounted (team.resumeRecord (team.agentPath id)
          { agent with pendingTasks := rest } (next, .unparked)) path :=
        accounted_resumed sound accounted found receives (fun _ _ => rfl)
          (fun _ owes => entries ▸ owes) (by rw [entries])
      exact fun path => (resumed path).same rfl rfl rfl rfl fun closed => closed
  | settled id handler agent left held told found nothing =>
      exact accounted_settled accounted id found
        (nothing.imp_right fun gone => gone.resolve_left fun moved => placed moved.1)

theorem update_isSome {handlers : RecordId → Option Handler} {other : RecordId}
    (has : (handlers other).isSome = true) (id : RecordId) (handler : Handler) :
    (Function.update handlers id (some handler) other).isSome = true := by
  by_cases same : other = id
  · rw [same, Function.update_self]
    rfl
  · rwa [Function.update_of_ne same]

theorem Attended.same (attended : team.Attended path)
    (agents : next.agents.get path = team.agents.get path)
    (records : ∀ agent, team.agents.get path = some agent → team.finished agent.record = false →
      next.finished agent.record = false ∨
        ∃ id, next.agentPath id = path ∧ (next.handlers id).isSome = true)
    (closed : team.Closed path → next.Closed path)
    (handled : ∀ id, team.agentPath id = path → (team.handlers id).isSome = true →
      next.agentPath id = path ∧ (next.handlers id).isSome = true) : next.Attended path := by
  intro agent found waiting
  rw [agents] at found
  rcases attended agent found waiting with unfinished | gone | ⟨id, own, has⟩
  · rcases records agent found unfinished with still | ended
    · exact Or.inl still
    · exact Or.inr (Or.inr ended)
  · exact Or.inr (Or.inl (closed gone))
  · exact Or.inr (Or.inr ⟨id, handled id own has⟩)

theorem attended_allocate (sound : team.Sound) (attended : ∀ path, team.Attended path)
    (path : AgentPath) (agent : TeamAgent) (record : agent.record = team.nextRecord)
    (messages : RecordId → Option (TeamTask × Route)) (other : AgentPath) :
    Attended
      { team.setAgent path agent with
        nextRecord := team.nextRecord + 1
        agentPath := Function.update team.agentPath team.nextRecord path
        messages := messages } other := by
  have agents := get_setAgent team path other agent
  by_cases here : other = path
  · rw [if_pos here] at agents
    intro holder held _
    change (team.setAgent path agent).agents.get other = some holder at held
    rw [agents] at held
    obtain rfl := Option.some.inj held
    refine Or.inl ?_
    rw [record]
    exact (sound.unknown _ (Nat.le_refl _)).1
  · rw [if_neg here] at agents
    refine (attended other).same agents (fun _ _ unfinished => Or.inl unfinished) ?_ ?_
    · exact closed_same agents fun _ _ finished => ⟨finished, rfl⟩
    · intro id own has
      obtain ⟨handler, held⟩ := Option.isSome_iff_exists.mp has
      have known := (sound.pending id handler held).1
      exact ⟨(Function.update_of_ne (Nat.ne_of_lt known) _ _).trans own, has⟩

theorem attended_settled (attended : ∀ path, team.Attended path) {id : RecordId}
    (own : ∀ agent, team.agents.get (team.agentPath id) = some agent → agent.pendingTasks ≠ [] →
      team.finished agent.record = false ∨ team.Closed (team.agentPath id)) (path : AgentPath) :
    (team.setHandler id none).Attended path := by
  by_cases here : path = team.agentPath id
  · subst here
    intro agent found waiting
    exact (own agent found waiting).imp_right Or.inl
  · refine (attended path).same rfl (fun _ _ unfinished => Or.inl unfinished)
      (fun closed => closed) ?_
    intro other at' has
    have different : other ≠ id := by
      rintro rfl
      exact here at'.symm
    exact ⟨at', (congrArg Option.isSome (Function.update_of_ne different _ _)).trans has⟩

theorem attended_setAgent (attended : ∀ path, team.Attended path)
    {agent changed : TeamAgent} (found : team.agents.get path = some agent)
    (same : changed.record = agent.record) (own : changed.pendingTasks ≠ [] → agent.pendingTasks ≠ [] ∨
      team.finished agent.record = false ∨ team.Closed path) (other : AgentPath) :
    (team.setAgent path changed).Attended other := by
  by_cases here : other = path
  · subst here
    intro holder held waiting
    rw [get_setAgent, if_pos rfl] at held
    obtain rfl := Option.some.inj held
    rw [same]
    rcases own waiting with earlier | unfinished | closed
    · exact (attended other agent found earlier).imp_right
        fun rest => rest.imp_left (closed_setAgent found same)
    · exact Or.inl unfinished
    · exact Or.inr (Or.inl (closed_setAgent found same closed))
  · exact (attended other).same (by rw [get_setAgent, if_neg here])
      (fun _ _ unfinished => Or.inl unfinished) (closed_setAgent found same)
      fun id own has => ⟨own, has⟩

theorem Change.attended (change : Change allowed team next) (sound : team.Sound)
    (attended : ∀ path, team.Attended path) (placed : ¬ allowed .displaced) :
    ∀ path, next.Attended path := by
  cases change with
  | unmoved after follows started kept =>
      intro path
      refine (attended path).same rfl (fun agent _ unfinished => Or.inl ?_) ?_
        fun id own has => ⟨own, has⟩
      · exact (kept agent.record).finished.trans unfinished
      · exact closed_kept rfl fun id _ => kept id
  | begun after id follows unfinished started kept =>
      intro path
      refine (attended path).same rfl (fun agent _ unfinished => Or.inl ?_) ?_
        fun id own has => ⟨own, has⟩
      · exact (kept agent.record).finished.trans unfinished
      · exact closed_kept rfl fun id _ => kept id
  | ended after id status agent follows unfinished known found ran started finished terminal kept _ =>
      intro path
      refine (attended path).same rfl (fun holder held open' => ?_) ?_
        fun other own has => ⟨own, update_isSome has id _⟩
      · by_cases same : holder.record = id
        · refine Or.inr ⟨id, ?_, ?_⟩
          · rw [← same]
            exact (sound.current path holder held).2
          · change (Function.update team.handlers id (some ⟨status, agent.report, .flushing⟩)
              id).isSome = true
            rw [Function.update_self]
            rfl
        · exact Or.inl ((kept holder.record same).finished.trans open')
      · refine closed_kept rfl fun other already => kept other ?_
        rintro rfl
        rw [unfinished] at already
        cases already
  | spawned path free below parent => exact attended_allocate sound attended path _ rfl team.messages
  | reported path agent report found plain =>
      exact attended_setAgent attended found rfl fun waiting => Or.inl waiting
  | handed path task present => exact attended
  | parked path agent task found unfinished =>
      exact attended_setAgent attended found rfl fun _ => Or.inr (Or.inl unfinished)
  | resumed path agent task found receives =>
      exact attended_allocate sound attended path
        { agent with record := team.nextRecord, report := none } rfl
        (Function.update team.messages team.nextRecord (some (task, .reactivated)))
  | unplaced path task lost => exact attended
  | told id handler held resumed =>
      intro path
      refine (attended path).same rfl (fun _ _ unfinished => Or.inl unfinished)
        (fun closed => closed) fun other own has => ⟨own, update_isSome has id _⟩
  | unparked id handler agent next rest held told found waiting receives =>
      have known := (sound.pending id handler held).1
      have path : Function.update team.agentPath team.nextRecord (team.agentPath id) id =
          team.agentPath id := Function.update_of_ne (Nat.ne_of_lt known) _ _
      have resumed : ∀ path, (team.resumeRecord (team.agentPath id)
          { agent with pendingTasks := rest } (next, .unparked)).Attended path :=
        attended_allocate sound attended (team.agentPath id)
          { agent with record := team.nextRecord, report := none, pendingTasks := rest } rfl
          (Function.update team.messages team.nextRecord (some (next, .unparked)))
      refine attended_settled resumed fun owner held' _ => Or.inl ?_
      change (team.setAgent (team.agentPath id) _).agents.get
        (Function.update team.agentPath team.nextRecord (team.agentPath id) id) = _ at held'
      rw [path, get_setAgent, if_pos rfl] at held'
      obtain rfl := Option.some.inj held'
      exact (sound.unknown _ (Nat.le_refl _)).1
  | settled id handler agent left held told found nothing =>
      have changed : ∀ path, (team.setAgent (team.agentPath id)
          { agent with pendingTasks := left }).Attended path := by
        refine attended_setAgent attended found rfl fun waiting => ?_
        rcases nothing with ⟨_, none⟩ | ⟨moved, _⟩ | closed
        · exact absurd none waiting
        · exact absurd moved placed
        · exact Or.inr (Or.inr closed)
      refine attended_settled changed fun owner held' waiting => Or.inr ?_
      have now := get_setAgent team (team.agentPath id) (team.agentPath id)
        { agent with pendingTasks := left }
      rw [if_pos rfl] at now
      rcases nothing with ⟨_, none⟩ | ⟨moved, _⟩ | closed
      · have held' : (team.setAgent (team.agentPath id)
            { agent with pendingTasks := left }).agents.get (team.agentPath id) = some owner := held'
        rw [now] at held'
        obtain rfl := Option.some.inj held'
        exact absurd none waiting
      · exact absurd moved placed
      · exact closed_setAgent found rfl closed

end Changes

theorem start_accounted (path : AgentPath) : start.Accounted path :=
  ⟨[], List.Perm.refl _, rfl, Or.inl rfl⟩

theorem start_attended (path : AgentPath) : start.Attended path := by
  intro agent found
  cases found

theorem Quiescent.delivered {team : Team} (quiescent : team.Quiescent) (sound : team.Sound)
    {path : AgentPath} (attended : team.Attended path) (open' : ¬ team.Closed path) :
    team.inFlight path = [] := by
  simp only [inFlight]
  cases found : team.agents.get path with
  | none => rfl
  | some agent =>
      have known := (sound.current path agent found).1
      have finished : team.finished agent.record = true := by
        rcases sound.consistent.tracked _ (quiescent.launched _ known) with over' | queued | running
        · exact over'
        · rw [quiescent.empty] at queued
          cases queued
        · rw [quiescent.idle] at running
          cases running
      have completed : (team.record agent.record).terminalStatus = some .completed := by
        by_contra failed
        exact open' ⟨agent, found, finished, failed⟩
      have empty : agent.pendingTasks = [] := by
        by_contra waiting
        rcases attended agent found waiting with unfinished | closed | ⟨id, _, handled⟩
        · rw [finished] at unfinished
          cases unfinished
        · exact open' closed
        · obtain ⟨handler, held⟩ := Option.isSome_iff_exists.mp handled
          rw [quiescent.settled id (sound.pending id handler held).1] at held
          cases held
      simp [sound.started_of_completed completed, parkedEntries, empty]

/-- What the events of a run must spare so that every task is handed over. -/
def deliveries : List Miss := [.overlooked, .displaced, .passedOver]

/-- Nothing is handed over that was not promised, and parked tasks keep their order; what was
promised to an agent is handed over, in flight, or its last run failed or was cancelled. -/
structure HandsOver (team : Team) : Prop where
  once : ∀ path, (tasks (team.handed path)).Subperm (team.owed path)
  ordered : ∀ path, unparked (team.handed path) <+: team.parked path
  promised : ∀ path, team.Closed path ∨
    (team.owed path).Perm (tasks (team.handed path) ++ tasks (team.inFlight path))
  settled : team.Quiescent → ∀ path, team.Closed path ∨
    (team.owed path).Perm (tasks (team.handed path))

theorem team_work_is_delivered (events : List TeamEvent)
    (possible : Runs.Along step Possible start events)
    (spared : Runs.Along step (Spares deliveries) start events) :
    (Runs.run step start events).HandsOver := by
  have ⟨sound, delivering⟩ := @spared_run deliveries (by decide) Delivering
    (fun team next change sound delivering =>
      { accounted := change.accounted sound delivering.accounted (by decide) (by decide)
        attended := change.attended sound delivering.attended (by decide) })
    start events start_sound ⟨start_accounted, start_attended⟩ possible spared
  generalize Runs.run step start events = team at *
  have promised : ∀ path, team.Closed path ∨
      (team.owed path).Perm (tasks (team.handed path) ++ tasks (team.inFlight path)) := by
    intro path
    obtain ⟨rest, all, _, same | closed⟩ := delivering.accounted path
    · rw [tasks_append, same] at all
      exact Or.inr all
    · exact Or.inl closed
  constructor
  · intro path
    obtain ⟨rest, all, _, _⟩ := delivering.accounted path
    rw [tasks_append] at all
    exact (List.sublist_append_left _ _).subperm.trans all.symm.subperm
  · intro path
    obtain ⟨rest, _, ordered, _⟩ := delivering.accounted path
    rw [ordered, unparked_append]
    exact List.prefix_append _ _
  · exact promised
  · intro quiescent path
    by_cases closed : team.Closed path
    · exact Or.inl closed
    · have all := (promised path).resolve_left closed
      rw [quiescent.delivered sound (delivering.attended path) closed] at all
      simpa [tasks] using Or.inr all

instance closed_decidable (team : Team) (path : AgentPath) : Decidable (team.Closed path) :=
  match found : team.agents.get path with
  | none => .isFalse fun ⟨_, here, _⟩ => by simp [found] at here
  | some agent =>
      decidable_of_iff
        (team.finished agent.record = true ∧
          (team.record agent.record).terminalStatus ≠ some .completed)
        ⟨fun ended => ⟨agent, found, ended⟩, fun ⟨_, here, ended⟩ => by
          rw [found] at here
          exact Option.some.inj here ▸ ended⟩

def fifth : AgentPath := ["e".toList]

def parkedTask : List TeamEvent :=
  [.spawn rootPath "a".toList false, .spawn rootPath "b".toList false,
    .spawn rootPath "c".toList false, .spawn rootPath "d".toList false,
    .spawn rootPath "e".toList false, .followup rootPath fifth "First.".toList 1 false,
    .ended 0 none, .flushed 0 [], .answered 0, .released 0, .ended 4 none, .flushed 4 []]

def othersEnd : List TeamEvent :=
  [.ended 1 none, .flushed 1 [], .answered 1, .released 1, .ended 2 none, .flushed 2 [],
    .answered 2, .released 2, .ended 3 none, .flushed 3 [], .answered 3, .released 3]

def lastRun : List TeamEvent := [.ended 5 none, .flushed 5 [], .answered 5, .released 5]

theorem team_work_is_delivered_parked :
    HandsOver (Runs.run step start (parkedTask ++ [.answered 4, .released 4] ++ othersEnd ++ lastRun)) :=
  team_work_is_delivered _ (by decide +kernel) (by decide +kernel)

def overtaken : List TeamEvent :=
  parkedTask ++ [.followup rootPath fifth "Second.".toList 2 false, .answered 4, .released 4] ++
    othersEnd ++ lastRun

theorem overtaken_task_is_lost :
    ¬ ∀ events : List TeamEvent, Runs.Along step Possible start events →
      (Runs.run step start events).HandsOver := by
  intro claim
  have handed := (claim overtaken (by decide +kernel)).settled (by decide +kernel) fifth
  exact absurd handed (by decide +kernel)

end Team

end GrokPi.Subagents
