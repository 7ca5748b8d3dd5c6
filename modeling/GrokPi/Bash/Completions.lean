import GrokPi.Bash.Tasks

set_option autoImplicit false

namespace GrokPi.Bash

namespace BashSession

def messages (session : BashSession) (id : TaskId) : Nat :=
  (session.delivered ++ session.pendingBashCompletions).countP fun message => message.taskId = id

structure Heard (session : BashSession) : Prop where
  settlesOnce : ∀ id < session.nextTaskOrdinal, (session.settled id).length ≤ 1
  settles : ∀ id < session.nextTaskOrdinal, (session.launched id).foreground = true →
    (session.launched id).registered = true →
      (session.launched id).logEnded = true ∨ (session.launched id).backgrounded = true →
        session.settled id =
          [if (session.launched id).backgrounded then .backgrounded else .completed]
  quiet : ∀ id < session.nextTaskOrdinal, (session.launched id).completed = true →
    (session.launched id).backgrounded = false → session.messages id = 0
  once : ∀ id < session.nextTaskOrdinal, (session.launched id).backgrounded = true →
    (session.launched id).logEnded = true →
      id ∈ session.killResults ∧ session.messages id = 0 ∨
        id ∉ session.killResults ∧ session.messages id = 1
  drained : session.agentRunning = false → session.pendingBashCompletions = []

/-- Where the child of a background task ends, its kills do not all come from the Pager. -/
def Fair (session : BashSession) : BashEvent → Prop
  | .childFailed id _ _ | .childClosed id _ _ _ =>
      (session.launched id).completed = false → (session.launched id).backgrounded = true →
        (session.launched id).explicitlyKilled = true → id ∈ session.killResults
  | _ => True

instance fair_decidable (session : BashSession) : DecidablePred session.Fair
  | .childFailed _ _ _ | .childClosed _ _ _ _ =>
      inferInstanceAs (Decidable (_ = false → _ = true → _ = true → _ ∈ session.killResults))
  | .launched _ _ _ | .registered _ | .timer _ | .controlBackground _ | .controlKill _ | .killTask _
  | .timedOut _ | .logFailed _ _ | .logEnded _ | .returned _ | .agentStart | .turnEnd
  | .agentBeforeSettle | .agentSettled => inferInstanceAs (Decidable True)

end BashSession

structure Account (task : BackgroundTask) (settled : List Settlement) (killed : Prop)
    (messages : Nat) : Prop where
  ended : task.logEnded = true → task.completed = true
  flagged : killed → task.explicitlyKilled = true
  fair : task.completed = true → task.backgrounded = true → task.explicitlyKilled = true → killed
  silent : task.logEnded = false ∨ task.backgrounded = false → messages = 0
  heard : task.backgrounded = true → task.logEnded = true →
    killed ∧ messages = 0 ∨ ¬ killed ∧ messages = 1
  promotable : task.promote = true → task.foregroundSettler = true
  waiting : task.foregroundSettler = true ↔
    task.registered = true ∧ task.foreground = true ∧ settled = []
  outcome : settled = [] ∨
    settled = [if task.backgrounded then .backgrounded else .completed] ∧
      (task.backgrounded = true ∨ task.completed = true)
  closed : task.registered = true → task.foreground = true →
    task.logEnded = true ∨ task.backgrounded = true → settled ≠ []
  early : task.registered = false → settled = [] ∧ (task.foreground = true → task.backgrounded = false)
  apart : task.foreground = false → task.backgrounded = true ∧ settled = []

structure Accounted (session : BashSession) : Prop where
  accounts : ∀ id, Account (session.launched id) (session.settled id) (id ∈ session.killResults)
    (session.messages id)
  unknown : ∀ id, session.nextTaskOrdinal ≤ id →
    session.settled id = [] ∧ id ∉ session.killResults ∧ session.messages id = 0
  known : ∀ id, session.listed id = true → id < session.nextTaskOrdinal
  drained : session.agentRunning = false → session.pendingBashCompletions = []

theorem Account.launch (toolCallId : ToolCallId) (command : Text) (backgrounded : Bool) :
    Account (.launch toolCallId command backgrounded) [] False 0 := by
  cases backgrounded <;> constructor <;> simp [BackgroundTask.launch]

namespace Account

variable {task : BackgroundTask} {settled : List Settlement} {killed : Prop} {messages : Nat}

theorem unflushed (account : Account task settled killed messages)
    (running : task.completed = false) : task.logEnded = false := by
  by_contra ended
  rw [account.ended (by simpa using ended)] at running
  cases running

theorem signal (account : Account task settled killed messages) (signal : Option Text) :
    Account { task with signal := signal } settled killed messages :=
  ⟨account.ended, account.flagged, account.fair, account.silent, account.heard, account.promotable,
    account.waiting, account.outcome, account.closed, account.early, account.apart⟩

theorem wait (account : Account task settled killed messages) (new : task.registered = false)
    (foreground : task.foreground = true) (running : task.completed = false) :
    Account { task with registered := true, foregroundSettler := true, promote := true } settled
      killed messages := by
  have ⟨nothing, plain⟩ := account.early new
  have open' := account.unflushed running
  exact {
    ended := account.ended
    flagged := account.flagged
    fair := account.fair
    silent := account.silent
    heard := account.heard
    promotable := fun _ => rfl
    waiting := ⟨fun _ => ⟨rfl, foreground, nothing⟩, fun _ => rfl⟩
    outcome := Or.inl nothing
    closed := fun _ _ closed => by
      rcases closed with ended | backgrounded
      · exact absurd (open'.symm.trans ended) (by decide)
      · exact absurd ((plain foreground).symm.trans backgrounded) (by decide)
    early := fun unregistered => by cases unregistered
    apart := account.apart }

theorem missed (account : Account task settled killed messages) (new : task.registered = false)
    (foreground : task.foreground = true) (completed : task.completed = true) :
    Account { task with registered := true, foregroundSettler := false, promote := false }
      (settled ++ [.completed]) killed messages := by
  -- The call finds its child ended already.
  have ⟨nothing, plain⟩ := account.early new
  exact {
    ended := account.ended
    flagged := account.flagged
    fair := account.fair
    silent := account.silent
    heard := account.heard
    promotable := fun promote => by cases promote
    waiting := by simp
    outcome := Or.inr ⟨by simp [nothing, plain foreground], Or.inr completed⟩
    closed := fun _ _ _ => by simp
    early := fun unregistered => by cases unregistered
    apart := fun background => absurd (background.symm.trans foreground) (by decide) }

theorem answer (account : Account task settled killed messages) (background : task.foreground = false) :
    Account { task with registered := true } settled killed messages :=
  { ended := account.ended
    flagged := account.flagged
    fair := account.fair
    silent := account.silent
    heard := account.heard
    promotable := account.promotable
    waiting := by
      have quiet : task.foregroundSettler = false := by
        rw [Bool.eq_false_iff, ne_eq, account.waiting]
        simp [background]
      simp [quiet, background]
    outcome := account.outcome
    closed := fun _ foreground => by simp [background] at foreground
    early := fun unregistered => by cases unregistered
    apart := account.apart }

theorem promote (account : Account task settled killed messages) (able : task.promote = true)
    (running : task.completed = false) :
    Account { task with backgrounded := true, foregroundSettler := false, promote := false }
      (settled ++ [.backgrounded]) killed messages := by
  obtain ⟨registered, foreground, nothing⟩ := account.waiting.mp (account.promotable able)
  have open' := account.unflushed running
  exact {
    ended := account.ended
    flagged := account.flagged
    fair := fun completed => by simp [running] at completed
    silent := fun _ => account.silent (Or.inl open')
    heard := fun _ ended => by simp [open'] at ended
    promotable := fun promote => by cases promote
    waiting := by simp
    outcome := Or.inr (by simp [nothing])
    closed := fun _ _ _ => by simp
    early := fun unregistered => by simp [registered] at unregistered
    apart := fun background => by simp [foreground] at background }

theorem finish (account : Account task settled killed messages)
    (fair : task.backgrounded = true → task.explicitlyKilled = true → killed) (code : Option Int)
    (signal : Option Text) (output : Text) :
    Account { task with completed := true, exitCode := code, signal := signal, output := output }
      settled killed messages :=
  { ended := fun _ => rfl
    flagged := account.flagged
    fair := fun _ => fair
    silent := account.silent
    heard := account.heard
    promotable := account.promotable
    waiting := account.waiting
    outcome := account.outcome.imp_right fun ⟨one, _⟩ => ⟨one, Or.inr rfl⟩
    closed := account.closed
    early := account.early
    apart := account.apart }

theorem kill (account : Account task settled killed messages) (running : task.completed = false)
    (now : Prop) (reason : Option Text) :
    Account { task with explicitlyKilled := true, signal := reason } settled now messages := by
  have open' := account.unflushed running
  exact {
    ended := account.ended
    flagged := fun _ => rfl
    fair := fun completed => by simp [running] at completed
    silent := account.silent
    heard := fun _ ended => by simp [open'] at ended
    promotable := account.promotable
    waiting := account.waiting
    outcome := account.outcome
    closed := account.closed
    early := account.early
    apart := account.apart }

theorem endLog (account : Account task settled killed messages) (completed : task.completed = true)
    (open' : task.logEnded = false) {told : Nat}
    (tells : told = if task.backgrounded && !task.explicitlyKilled then messages + 1 else messages) :
    Account { task with logEnded := true, foregroundSettler := false, promote := false }
      (if task.foregroundSettler then settled ++ [.completed] else settled) killed told := by
  -- The flushed log of a background task tells the model, unless `kill_task` did.
  have settles : (if task.foregroundSettler then settled ++ [.completed] else settled) = [] →
      settled = [] ∧ task.foregroundSettler = false := by
    intro none'
    cases waits : task.foregroundSettler with
    | true => simp [waits] at none'
    | false => simpa [waits] using none'
  exact {
    ended := fun _ => completed
    flagged := account.flagged
    fair := account.fair
    silent := fun kept => by
      have plain : task.backgrounded = false := by simpa using kept
      rw [tells, plain]
      exact account.silent (Or.inr plain)
    heard := fun backgrounded _ => by
      have backgrounded : task.backgrounded = true := backgrounded
      have before := account.silent (Or.inl open')
      cases flagged : task.explicitlyKilled with
      | true =>
          refine Or.inl ⟨account.fair completed backgrounded flagged, ?_⟩
          simp [tells, flagged, before]
      | false =>
          refine Or.inr ⟨fun killed => ?_, ?_⟩
          · exact absurd (flagged.symm.trans (account.flagged killed)) (by decide)
          · simp [tells, flagged, backgrounded, before]
    promotable := fun promote => by cases promote
    waiting := by
      constructor
      · intro waits
        cases waits
      · rintro ⟨registered, foreground, none'⟩
        have ⟨nothing, waits⟩ := settles none'
        rw [account.waiting.mpr ⟨registered, foreground, nothing⟩] at waits
        cases waits
    outcome := by
      cases waits : task.foregroundSettler with
      | true =>
          obtain ⟨registered, foreground, nothing⟩ := account.waiting.mp waits
          have plain : task.backgrounded = false := by
            by_contra backgrounded
            exact account.closed registered foreground (Or.inr (by simpa using backgrounded)) nothing
          exact Or.inr (by simp [nothing, plain, completed])
      | false => exact account.outcome
    closed := fun registered foreground _ none' => by
      have ⟨nothing, waits⟩ := settles none'
      rw [account.waiting.mpr ⟨registered, foreground, nothing⟩] at waits
      cases waits
    early := fun unregistered => by
      have early := account.early unregistered
      have waits : task.foregroundSettler = false := by
        by_contra waits
        have registered := (account.waiting.mp (by simpa using waits)).1
        exact absurd (unregistered.symm.trans registered) (by decide)
      simpa [waits] using early
    apart := fun background => by
      have apart := account.apart background
      have waits : task.foregroundSettler = false := by
        by_contra waits
        have foreground := (account.waiting.mp (by simpa using waits)).2.1
        exact absurd (background.symm.trans foreground) (by decide)
      simpa [waits] using apart }

end Account

namespace Accounted

variable {session : BashSession}

theorem start : Accounted BashSession.start where
  accounts _ := by simpa [BashSession.start, BashSession.messages] using Account.launch [] [] false
  unknown _ _ := ⟨rfl, List.not_mem_nil, rfl⟩
  known _ listed := by cases listed
  drained _ := rfl

theorem heard (accounted : Accounted session) : session.Heard where
  settlesOnce id _ := by
    rcases (accounted.accounts id).outcome with none' | ⟨one, _⟩
    · simp [none']
    · simp [one]
  settles id _ foreground registered closed := by
    have account := accounted.accounts id
    rcases account.outcome with none' | ⟨one, _⟩
    · exact absurd none' (account.closed registered foreground closed)
    · exact one
  quiet id _ _ kept := (accounted.accounts id).silent (Or.inr kept)
  once id _ backgrounded ended := (accounted.accounts id).heard backgrounded ended
  drained := accounted.drained

theorem of_one (accounted : Accounted session) {next : BashSession} (id : TaskId)
    (known : id < session.nextTaskOrdinal)
    (here : Account (next.launched id) (next.settled id) (id ∈ next.killResults) (next.messages id))
    (launched : ∀ other, other ≠ id → next.launched other = session.launched other)
    (settled : ∀ other, other ≠ id → next.settled other = session.settled other)
    (killed : ∀ other, other ≠ id → (other ∈ next.killResults ↔ other ∈ session.killResults))
    (messages : ∀ other, other ≠ id → next.messages other = session.messages other)
    (ordinal : next.nextTaskOrdinal = session.nextTaskOrdinal)
    (listed : ∀ other, next.listed other = true → other = id ∨ session.listed other = true)
    (drained : next.agentRunning = false → next.pendingBashCompletions = []) : Accounted next where
  accounts other := by
    -- The task, its settlements, its kill and its messages are all that one event changes.
    by_cases same : other = id
    · exact same ▸ here
    · rw [launched other same, settled other same, messages other same]
      have account := accounted.accounts other
      rwa [← killed other same] at account
  unknown other new := by
    rw [ordinal] at new
    have different : other ≠ id := Nat.ne_of_gt (Nat.lt_of_lt_of_le known new)
    rw [settled other different, killed other different, messages other different]
    exact accounted.unknown other new
  known other present := by
    rw [ordinal]
    rcases listed other present with rfl | earlier
    · exact known
    · exact accounted.known other earlier
  drained := drained

theorem setTask (accounted : Accounted session) (id : TaskId) (known : id < session.nextTaskOrdinal)
    (change : BackgroundTask → BackgroundTask)
    (here : Account (change (session.launched id)) (session.settled id) (id ∈ session.killResults)
      (session.messages id)) : Accounted (session.setTask id change) := by
  apply accounted.of_one id known
  · simp only [BashSession.setTask, Function.update_self]
    exact here
  · exact fun other different => Function.update_of_ne different _ _
  · exact fun _ _ => rfl
  · exact fun _ _ => Iff.rfl
  · exact fun _ _ => rfl
  · rfl
  · exact fun _ present => Or.inr present
  · exact accounted.drained

theorem relay (accounted : Accounted session) {next : BashSession}
    (launched : next.launched = session.launched) (settled : next.settled = session.settled)
    (killed : next.killResults = session.killResults) (messages : next.messages = session.messages)
    (ordinal : next.nextTaskOrdinal = session.nextTaskOrdinal)
    (listed : ∀ id, next.listed id = true → session.listed id = true)
    (drained : next.agentRunning = false → next.pendingBashCompletions = []) : Accounted next where
  accounts := by
    -- What pending messages are appended to, and whether the agent runs, is not counted.
    rw [launched, settled, killed, messages]
    exact accounted.accounts
  unknown := by
    rw [settled, killed, messages, ordinal]
    exact accounted.unknown
  known id present := by
    rw [ordinal]
    exact accounted.known id (listed id present)
  drained := drained

theorem appendBashCompletions (accounted : Accounted session) (running : Bool) :
    Accounted { session.appendBashCompletions with agentRunning := running } := by
  refine accounted.relay ?_ ?_ ?_ ?_ ?_ ?_ ?_
  · rfl
  · rfl
  · rfl
  · funext id
    simp [BashSession.messages, BashSession.appendBashCompletions]
  · rfl
  · exact fun _ present => present
  · exact fun _ => rfl

theorem startTask (accounted : Accounted session) (toolCallId : ToolCallId) (command : Text)
    (backgrounded : Bool) : Accounted (session.startTask toolCallId command backgrounded) where
  accounts id := by
    by_cases same : id = session.nextTaskOrdinal
    · subst same
      have ⟨settled, killed, messages⟩ := accounted.unknown _ le_rfl
      have account := Account.launch toolCallId command backgrounded
      simp only [BashSession.startTask, Function.update_self, settled]
      rw [show ∀ other, BashSession.messages { session with
          launched := Function.update session.launched session.nextTaskOrdinal
            (.launch toolCallId command backgrounded)
          nextTaskOrdinal := session.nextTaskOrdinal + 1 } other = session.messages other
        from fun _ => rfl, messages]
      simpa [killed] using account
    · simp only [BashSession.startTask, Function.update_of_ne same]
      exact accounted.accounts id
  unknown id new := accounted.unknown id (Nat.le_of_succ_le new)
  known id present := Nat.lt_succ_of_lt (accounted.known id present)
  drained := accounted.drained

theorem listed_set {id other : TaskId} {toolCallId : ToolCallId}
    (present : BashSession.listed { session with tasks := session.tasks.set toolCallId id } other = true) :
    other = id ∨ session.listed other = true := by
  simp only [BashSession.listed, List.any_eq_true, decide_eq_true_eq] at present ⊢
  obtain ⟨entry, member, rfl⟩ := present
  rcases InsertionMap.mem_set member with rfl | earlier
  · exact Or.inl rfl
  · exact Or.inr ⟨entry, earlier, rfl⟩

theorem list (accounted : Accounted session) (id : TaskId) (known : id < session.nextTaskOrdinal)
    (toolCallId : ToolCallId) :
    Accounted { session with tasks := session.tasks.set toolCallId id } where
  accounts := accounted.accounts
  unknown := accounted.unknown
  known other present := by
    rcases listed_set present with rfl | earlier
    · exact known
    · exact accounted.known other earlier
  drained := accounted.drained

theorem settle (accounted : Accounted session) (id : TaskId) (known : id < session.nextTaskOrdinal)
    (change : BackgroundTask → BackgroundTask) (outcome : Settlement)
    (here : Account
      { change (session.launched id) with foregroundSettler := false, promote := false }
      (session.settled id ++ [outcome]) (id ∈ session.killResults) (session.messages id)) :
    Accounted ((session.setTask id change).settle id outcome) := by
  apply accounted.of_one id known
  · simp only [BashSession.settle, BashSession.setTask, Function.update_self]
    exact here
  · intro other different
    simp [BashSession.settle, BashSession.setTask, different]
  · exact fun other different => Function.update_of_ne different _ _
  · exact fun _ _ => Iff.rfl
  · exact fun _ _ => rfl
  · rfl
  · exact fun _ present => Or.inr present
  · exact accounted.drained

theorem register (accounted : Accounted session) (id : TaskId) (known : id < session.nextTaskOrdinal)
    (new : (session.launched id).registered = false) : Accounted (session.register id) := by
  have account := accounted.accounts id
  have listed := accounted.list id known (session.launched id).toolCallId
  cases foreground : (session.launched id).foreground with
  | false =>
      simp only [BashSession.register, foreground, Bool.false_eq_true, if_false]
      exact listed.setTask id known _ (account.answer foreground)
  | true =>
      cases completed : (session.launched id).completed with
      | true =>
          simp only [BashSession.register, foreground, completed, if_true]
          exact listed.settle id known _ .completed (account.missed new foreground completed)
      | false =>
          simp only [BashSession.register, foreground, completed, if_true, Bool.false_eq_true, if_false]
          exact listed.setTask id known _ (account.wait new foreground completed)

theorem promote (accounted : Accounted session) (id : TaskId) (known : id < session.nextTaskOrdinal) :
    Accounted (session.promote id) := by
  simp only [BashSession.promote]
  split
  · exact accounted
  · next able =>
    simp only [Bool.or_eq_true, Bool.not_eq_true', not_or, Bool.not_eq_false, Bool.not_eq_true] at able
    exact accounted.settle id known _ .backgrounded
      ((accounted.accounts id).promote able.1.1 able.1.2)

theorem finishTask (accounted : Accounted session) (id : TaskId)
    (known : id < session.nextTaskOrdinal) (code : Option Int) (signal : Option Text) (output : Text)
    (fair : (session.launched id).completed = false → (session.launched id).backgrounded = true →
      (session.launched id).explicitlyKilled = true → id ∈ session.killResults) :
    Accounted (session.finishTask id code signal output) := by
  simp only [BashSession.finishTask]
  split
  · exact accounted
  · next running =>
    exact accounted.setTask id known _
      ((accounted.accounts id).finish (fair (Bool.eq_false_iff.mpr running)) _ _ _)

theorem controlKill (accounted : Accounted session) (id : TaskId) :
    Accounted (session.controlKill id) := by
  simp only [BashSession.controlKill]
  split
  · exact accounted
  · next able =>
    simp only [Bool.or_eq_true, Bool.not_eq_true', not_or, Bool.not_eq_false, Bool.not_eq_true] at able
    exact accounted.setTask id (accounted.known id able.1) _
      ((accounted.accounts id).kill able.2 _ _)

theorem killTask (accounted : Accounted session) (id : TaskId) :
    Accounted (session.killTask id).1 := by
  simp only [BashSession.killTask]
  split
  · exact accounted
  · next present =>
    split
    · exact accounted
    · next running =>
      have known := accounted.known id (by simpa using present)
      apply accounted.of_one id known
      · simp only [BashSession.markKilled, BashSession.setTask, Function.update_self]
        exact (accounted.accounts id).kill (Bool.eq_false_iff.mpr running) _ _
      · exact fun other different => Function.update_of_ne different _ _
      · exact fun _ _ => rfl
      · intro other different
        simp [different]
      · exact fun _ _ => rfl
      · rfl
      · exact fun _ earlier => Or.inr earlier
      · exact accounted.drained

structure Told (session : BashSession) (message : BashCompletionMessage) (next : BashSession) :
    Prop where
  launched : next.launched = session.launched
  settled : next.settled = session.settled
  killed : next.killResults = session.killResults
  ordinal : next.nextTaskOrdinal = session.nextTaskOrdinal
  tasks : next.tasks = session.tasks
  drained : (session.agentRunning = false → session.pendingBashCompletions = []) →
    next.agentRunning = false → next.pendingBashCompletions = []
  messages : ∀ id, next.messages id = session.messages id + if message.taskId = id then 1 else 0

theorem notifyBashCompletion_told (session : BashSession) (message : BashCompletionMessage) :
    Told session message (session.notifyBashCompletion message) := by
  cases running : session.agentRunning with
  | true =>
      have told : session.notifyBashCompletion message =
          { session with
            pendingBashCompletions := session.pendingBashCompletions ++ [message] } := by
        simp [BashSession.notifyBashCompletion, running]
      rw [told]
      refine ⟨rfl, rfl, rfl, rfl, rfl, ?_, ?_⟩
      · intro _ idle
        exact absurd (running.symm.trans idle) (by decide)
      · intro id
        simp only [BashSession.messages, List.countP_append, List.countP_singleton,
          decide_eq_true_eq]
        omega
  | false =>
      have told : session.notifyBashCompletion message =
          { session with delivered := session.delivered ++ [message] } := by
        simp [BashSession.notifyBashCompletion, running]
      rw [told]
      refine ⟨rfl, rfl, rfl, rfl, rfl, fun drained => drained, ?_⟩
      intro id
      simp only [BashSession.messages, List.countP_append, List.countP_singleton, decide_eq_true_eq]
      omega

theorem logged (accounted : Accounted session) {told : BashSession} (id : TaskId)
    (known : id < session.nextTaskOrdinal) (completed : (session.launched id).completed = true)
    (open' : (session.launched id).logEnded = false) (launched : told.launched = session.launched)
    (settled : told.settled = session.settled) (killed : told.killResults = session.killResults)
    (ordinal : told.nextTaskOrdinal = session.nextTaskOrdinal) (tasks : told.tasks = session.tasks)
    (drained : told.agentRunning = false → told.pendingBashCompletions = [])
    (others : ∀ other, other ≠ id → told.messages other = session.messages other)
    (tells : told.messages id =
      if (session.launched id).backgrounded && !(session.launched id).explicitlyKilled then
        session.messages id + 1
      else session.messages id) :
    Accounted (if (session.launched id).foregroundSettler then
      (told.setTask id fun task => { task with logEnded := true }).settle id .completed
    else told.setTask id fun task => { task with logEnded := true }) := by
  -- The account of a task at its flushed log, where `told` has or has not told the model.
  have account := (accounted.accounts id).endLog completed open' tells
  cases waits : (session.launched id).foregroundSettler with
  | true =>
      rw [waits] at account
      simp only [if_true] at account ⊢
      apply accounted.of_one id known
      · simp only [BashSession.settle, BashSession.setTask, Function.update_self, launched, settled,
          killed]
        exact account
      · intro other different
        simp [BashSession.settle, BashSession.setTask, different, launched]
      · intro other different
        simp [BashSession.settle, BashSession.setTask, different, settled]
      · exact fun other _ => by simp [BashSession.settle, BashSession.setTask, killed]
      · exact others
      · exact ordinal
      · intro other present
        refine Or.inr ?_
        rw [← present]
        simp [BashSession.listed, BashSession.settle, BashSession.setTask, tasks]
      · exact drained
  | false =>
      -- Where the call does not wait, there is no promotion to take back.
      have still : (session.launched id).promote = false := by
        rw [Bool.eq_false_iff]
        intro able
        exact absurd (waits.symm.trans ((accounted.accounts id).promotable able)) (by decide)
      have same : { session.launched id with
            logEnded := true, foregroundSettler := false, promote := false } =
          { session.launched id with logEnded := true } := by
        generalize session.launched id = task at waits still
        cases task
        simp only at waits still
        rw [waits, still]
      rw [waits, same] at account
      simp only [Bool.false_eq_true, if_false] at account ⊢
      apply accounted.of_one id known
      · simp only [BashSession.setTask, Function.update_self, launched, settled, killed]
        exact account
      · intro other different
        simp [BashSession.setTask, different, launched]
      · intro other _
        simp [BashSession.setTask, settled]
      · exact fun other _ => by simp [BashSession.setTask, killed]
      · exact others
      · exact ordinal
      · intro other present
        refine Or.inr ?_
        rw [← present]
        simp [BashSession.listed, BashSession.setTask, tasks]
      · exact drained

theorem endLog (accounted : Accounted session) (id : TaskId) (known : id < session.nextTaskOrdinal)
    (completed : (session.launched id).completed = true)
    (open' : (session.launched id).logEnded = false) : Accounted (session.endLog id) := by
  simp only [BashSession.endLog]
  cases tells : (session.launched id).backgrounded && !(session.launched id).explicitlyKilled with
  | true =>
      simp only [if_true]
      have told := notifyBashCompletion_told session (completedMessage id (session.launched id))
      have named : (completedMessage id (session.launched id)).taskId = id := rfl
      apply accounted.logged id known completed open' told.launched told.settled told.killed
        told.ordinal told.tasks (told.drained accounted.drained)
      · intro other different
        rw [told.messages, named, if_neg (Ne.symm different), Nat.add_zero]
      · rw [tells, told.messages, named, if_pos rfl, if_pos rfl]
  | false =>
      simp only [Bool.false_eq_true, if_false]
      apply accounted.logged id known completed open' rfl rfl rfl rfl rfl accounted.drained
      · exact fun _ _ => rfl
      · rw [tells]
        rfl

theorem step (accounted : Accounted session) (event : BashEvent) (possible : session.Possible event)
    (fair : session.Fair event) : Accounted (session.step event) := by
  cases event with
  | launched toolCallId command backgrounded =>
      exact accounted.startTask toolCallId command backgrounded
  | registered id => exact accounted.register id possible.1 possible.2
  | timer id => exact accounted.promote id possible
  | controlBackground toolCallId =>
      simp only [BashSession.step]
      split
      · next id found =>
        apply accounted.promote id
        apply accounted.known id
        simp only [BashSession.listed, List.any_eq_true, decide_eq_true_eq]
        exact ⟨_, InsertionMap.get_mem found, rfl⟩
      · exact accounted
  | controlKill id => exact accounted.controlKill id
  | killTask id => exact accounted.killTask id
  | timedOut id =>
      simp only [BashSession.step]
      split
      · exact accounted
      · exact accounted.setTask id possible (fun task => { task with signal := some "timeout".toList })
          ((accounted.accounts id).signal _)
  | logFailed id message =>
      exact accounted.setTask id possible
        (fun task =>
          { task with signal := task.signal <|> some ("output_log_error:".toList ++ message) })
        ((accounted.accounts id).signal _)
  | childFailed id message output =>
      have marked := accounted.setTask id possible
        (fun task => { task with signal := some message }) ((accounted.accounts id).signal _)
      apply marked.finishTask id possible
      simp only [BashSession.setTask, Function.update_self]
      exact fair
  | childClosed id code signal output => exact accounted.finishTask id possible code signal output fair
  | logEnded id => exact accounted.endLog id possible.1 possible.2.1 possible.2.2
  | returned id =>
      simp only [BashSession.step]
      split
      · exact accounted
      · refine accounted.relay rfl rfl rfl rfl rfl ?_ accounted.drained
        intro other present
        simp only [BashSession.listed, List.any_eq_true] at present ⊢
        obtain ⟨entry, member, same⟩ := present
        exact ⟨entry, List.mem_of_mem_filter member, same⟩
  | agentStart =>
      refine accounted.relay rfl rfl rfl rfl rfl (fun _ present => present) ?_
      intro idle
      cases idle
  | turnEnd => exact accounted.appendBashCompletions session.agentRunning
  | agentBeforeSettle => exact accounted.appendBashCompletions session.agentRunning
  | agentSettled => exact accounted.appendBashCompletions false

end Accounted

namespace BashSession

/-- In a run where no background task ends by kills of the Pager alone, the model hears of
every end once. -/
theorem fair_runs_are_heard (events : List BashEvent)
    (guarded : Runs.Along step (fun session event => session.Possible event ∧ session.Fair event) start
      events) : (Runs.run step start events).Heard :=
  (@Runs.along_invariant _ _ step (fun session event => session.Possible event ∧ session.Fair event)
    Accounted (fun _ event accounted guard => accounted.step event guard.1 guard.2) start events
    Accounted.start guarded).heard

def promotedEnd : List BashEvent :=
  [.agentStart, .launched ['c'] "make".toList false, .registered 0, .timer 0,
    .childClosed 0 (some 0) none [], .logEnded 0, .turnEnd, .agentSettled]

theorem promoted_end_is_heard : (Runs.run step start promotedEnd).Heard :=
  fair_runs_are_heard _ (by decide)

def pagerKilled : List BashEvent :=
  [.launched ['c'] "make".toList true, .registered 0, .controlKill 0,
    .childClosed 0 none (some "SIGKILL".toList) [], .logEnded 0]

theorem pager_kill_is_not_heard :
    ¬ ∀ events : List BashEvent, Runs.Along step Possible start events →
      (Runs.run step start events).Heard := by
  intro claim
  have heard := (claim pagerKilled (by decide)).once 0 (by decide) (by decide) (by decide)
  exact absurd heard (by decide)

end BashSession

end GrokPi.Bash
