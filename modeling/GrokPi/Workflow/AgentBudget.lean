import GrokPi.Workflow.EngineCalls
import GrokPi.Workflow.TrackerRuns

set_option autoImplicit false

namespace GrokPi.Workflow

section Service

abbrev Sent := List Nat × HostRequest

/-- What becomes of a request: a service that is told to stop refuses what it still gets. -/
inductive Service where
  | takes
  | cancels
  | gone

/-- What a run meets at each of its requests, by what it sent before. -/
structure Surroundings where
  service : List Sent → Service
  persistError : List Sent → Option Text
  answer : List Sent → (call : HostCall) → Reply call.Result
  clock : Nat → Nat

def budgetState (run : WorkflowRunState) : BudgetState :=
  { total := run.agentBudget
    spent := run.agentsUsed
    reserved := 0
    remaining := run.agentBudget.map fun total => total - run.agentsUsed }

variable (around : Surroundings)

def hostReply (sent : List Sent) (run : WorkflowRunState) : (call : HostCall) → Reply call.Result
  | .budget => .value (budgetState run)
  | .spawnAgent opts => around.answer sent (.spawnAgent opts)
  | .renderTemplate name vars => around.answer sent (.renderTemplate name vars)
  | .writeScratchFile name content => around.answer sent (.writeScratchFile name content)
  | .readScratchFile name => around.answer sent (.readScratchFile name)
  | .gitDiffSince commit => around.answer sent (.gitDiffSince commit)

def bookReservation (sent : List Sent) (run : WorkflowRunState) (count : Nat) : Reply Unit × WorkflowRunState :=
  match WorkflowTracker.reserve count run with
  | .error (requested, maximum) => (.error (.agentCallQuotaExceeded requested maximum), run)
  | .ok reserved =>
      match around.persistError sent with
      | none => (.value (), reserved)
      | some error =>
          (.error (.failed ("workflow agent-budget reservation could not be persisted: ".toList ++ error)),
            WorkflowTracker.release count reserved)

def serve (sent : List Sent) (run : WorkflowRunState) : (request : HostRequest) → Reply request.Result × WorkflowRunState
  | .reserveAgentCalls count => bookReservation around sent run count
  | .releaseAgentCalls count => (.value (), WorkflowTracker.release count run)
  | .host call => (hostReply around sent run call, run)

def respond (sent : List Sent) (run : WorkflowRunState) (request : HostRequest) :
    Reply request.Result × WorkflowRunState :=
  match around.service sent with
  | .takes => serve around sent run request
  | .cancels => (.error .cancelled, run)
  | .gone => (.dropped, run)

def booksFrom (prior : List Sent) (run : WorkflowRunState) : List Sent → WorkflowRunState
  | [] => run
  | item :: rest => booksFrom (prior ++ [item]) (respond around prior run item.2).2 rest

def books (start : WorkflowRunState) (sent : List Sent) : WorkflowRunState := booksFrom around [] start sent

def hostService (start : WorkflowRunState) : Host :=
  { reply := fun sent request => (respond around sent (books around start sent) request).1
    clock := around.clock }

theorem booksFrom_append (prior : List Sent) (run : WorkflowRunState) (first second : List Sent) :
    booksFrom around prior run (first ++ second) =
      booksFrom around (prior ++ first) (booksFrom around prior run first) second := by
  induction first generalizing prior run with
  | nil => simp [booksFrom]
  | cons item rest ih => simp [booksFrom, ih]

theorem books_concat (start : WorkflowRunState) (sent : List Sent) (item : Sent) :
    books around start (sent ++ [item]) = (respond around sent (books around start sent) item.2).2 := by
  simp [books, booksFrom_append, booksFrom]

end Service

section Amounts

def spawnKind : Text := "spawn_agent".toList

def reservationCount (entries : List JournalEntry) : Nat := entries.countP fun entry => entry.kind = spawnKind

def HostRequest.starts : HostRequest → Bool
  | .host (.spawnAgent _) => true
  | _ => false

def HostRequest.gives : HostRequest → Nat
  | .releaseAgentCalls count => count
  | _ => 0

def startedAgents (sent : List Sent) : Nat := sent.countP fun item => item.2.starts

def givenBack (sent : List Sent) : Nat := (sent.map fun item => item.2.gives).sum

@[simp] theorem startedAgents_concat (sent : List Sent) (item : Sent) :
    startedAgents (sent ++ [item]) = startedAgents sent + if item.2.starts then 1 else 0 := by
  simp [startedAgents, List.countP_append, List.countP_singleton]

@[simp] theorem givenBack_concat (sent : List Sent) (item : Sent) :
    givenBack (sent ++ [item]) = givenBack sent + item.2.gives := by
  simp [givenBack]

theorem reservationCount_concat (entries : List JournalEntry) (entry : JournalEntry) :
    reservationCount (entries ++ [entry]) = reservationCount entries + if entry.kind = spawnKind then 1 else 0 := by
  simp [reservationCount, List.countP_append, List.countP_singleton]

end Amounts

section Bookings

variable {around : Surroundings} {start : WorkflowRunState} {limit : Nat}

structure Within (limit : Nat) (run : WorkflowRunState) : Prop where
  budget : run.agentBudget = some limit
  used : run.agentsUsed ≤ limit
  room : limit < maxU64

theorem reserve_within {count : Nat} {run reserved : WorkflowRunState} (within : Within limit run)
    (ok : WorkflowTracker.reserve count run = .ok reserved) :
    Within limit reserved ∧ reserved.agentsUsed = run.agentsUsed + count := by
  obtain ⟨rfl, bound⟩ := reserve_ok ok
  have most := bound limit within.budget
  have room := within.room
  have exact' : addU64 run.agentsUsed count = run.agentsUsed + count := by
    simp only [addU64] at most ⊢
    omega
  exact ⟨⟨within.budget, most, room⟩, exact'⟩

theorem release_within {count : Nat} {run : WorkflowRunState} (within : Within limit run) :
    Within limit (WorkflowTracker.release count run) :=
  ⟨within.budget, Nat.le_trans (Nat.sub_le _ _) within.used, within.room⟩

theorem bookReservation_spec {sent : List Sent} {count : Nat} {run : WorkflowRunState} (within : Within limit run) :
    Within limit (bookReservation around sent run count).2 ∧
      ((bookReservation around sent run count).1 = .value () ∧
          (bookReservation around sent run count).2.agentsUsed = run.agentsUsed + count ∨
        (bookReservation around sent run count).1 ≠ .value () ∧
          (bookReservation around sent run count).2.agentsUsed = run.agentsUsed) := by
  cases made : WorkflowTracker.reserve count run with
  | error refused =>
      obtain ⟨requested, maximum⟩ := refused
      simp only [bookReservation, made]
      exact ⟨within, .inr ⟨by simp, by trivial⟩⟩
  | ok reserved =>
      obtain ⟨booked, used⟩ := reserve_within within made
      cases persists : around.persistError sent with
      | none =>
          simp only [bookReservation, made, persists]
          exact ⟨booked, .inl ⟨by trivial, used⟩⟩
      | some error =>
          simp only [bookReservation, made, persists]
          refine ⟨release_within booked, .inr ⟨by simp, ?_⟩⟩
          simp only [WorkflowTracker.release, WorkflowRunState.advanceRevision, used]
          omega

theorem respond_within {sent : List Sent} {run : WorkflowRunState} (within : Within limit run)
    (request : HostRequest) : Within limit (respond around sent run request).2 := by
  cases service : around.service sent with
  | cancels => simpa [respond, service] using within
  | gone => simpa [respond, service] using within
  | takes =>
      simp only [respond, service]
      cases request with
      | reserveAgentCalls count => exact (bookReservation_spec within).1
      | releaseAgentCalls count => exact release_within within
      | host call => exact within

theorem books_within (within : Within limit start) (sent : List Sent) : Within limit (books around start sent) := by
  induction sent using List.reverseRecOn with
  | nil => exact within
  | append_singleton earlier item ih =>
      rw [books_concat]
      exact respond_within ih item.2

end Bookings

section Balances

variable {ext : Externals} {around : Surroundings} {start : WorkflowRunState} {limit : Nat}

/-- So many more agent calls may be recorded, and so many more agents started, than are booked. -/
structure Balanced (around : Surroundings) (start : WorkflowRunState) (tape : Tape) (recordable startable : Nat) :
    Prop where
  recorded : reservationCount tape.journal + recordable ≤ (books around start tape.sent).agentsUsed
  started : start.agentsUsed + startedAgents tape.sent + startable ≤
    (books around start tape.sent).agentsUsed + givenBack tape.sent

namespace Balanced

theorem mono {tape : Tape} {recordable startable recordable' startable' : Nat}
    (balanced : Balanced around start tape recordable startable) (fewer : recordable' ≤ recordable)
    (fewer' : startable' ≤ startable) : Balanced around start tape recordable' startable' := by
  have recorded := balanced.recorded
  have started := balanced.started
  exact ⟨by omega, by omega⟩

theorem congr {tape after : Tape} {recordable startable : Nat}
    (balanced : Balanced around start tape recordable startable) (sent : after.sent = tape.sent)
    (journal : after.journal = tape.journal) : Balanced around start after recordable startable := by
  obtain ⟨recorded, started⟩ := balanced
  exact ⟨by rw [sent, journal]; exact recorded, by rw [sent]; exact started⟩

end Balanced

theorem ask_sent (host : Host) (seqs : List Nat) (request : HostRequest) (tape : Tape) :
    (ask host seqs request tape).2.sent = tape.sent ++ [(seqs, request)] := rfl

variable {recordable startable : Nat} {tape : Tape}

theorem ask_other
    (balanced : Balanced around start tape recordable startable) (seqs : List Nat) {call : HostCall}
    (other : (HostRequest.host call).starts = false) :
    Balanced around start (ask (hostService around start) seqs (.host call) tape).2 recordable startable := by
  have books' : books around start (tape.sent ++ [(seqs, .host call)]) = books around start tape.sent := by
    rw [books_concat]
    cases service : around.service tape.sent <;> simp [respond, service, serve]
  obtain ⟨recorded, started⟩ := balanced
  refine ⟨?_, ?_⟩
  · rw [ask_sent, books']
    exact recorded
  · rw [ask_sent, books', startedAgents_concat, givenBack_concat]
    simpa [other, HostRequest.gives] using started

theorem ask_spawn
    (balanced : Balanced around start tape recordable (startable + 1)) (seqs : List Nat) (opts : AgentOpts) :
    Balanced around start (ask (hostService around start) seqs (.host (.spawnAgent opts)) tape).2 recordable startable := by
  have books' : books around start (tape.sent ++ [(seqs, .host (.spawnAgent opts))]) = books around start tape.sent := by
    rw [books_concat]
    cases service : around.service tape.sent <;> simp [respond, service, serve]
  obtain ⟨recorded, started⟩ := balanced
  refine ⟨?_, ?_⟩
  · rw [ask_sent, books']
    exact recorded
  · rw [ask_sent, books', startedAgents_concat, givenBack_concat]
    simp only [HostRequest.starts, HostRequest.gives, if_true]
    omega

theorem reserve_balanced (within : Within limit start) (balanced : Balanced around start tape 0 0)
    (seqs : List Nat) :
    (∃ after, reserveAgentCalls (hostService around start) seqs tape = (.ok (), after) ∧
        Balanced around start after seqs.length seqs.length ∧ after.seq = tape.seq ∧ after.journal = tape.journal) ∨
      ∃ thrown after, reserveAgentCalls (hostService around start) seqs tape = (.error thrown, after) ∧
        Balanced around start after 0 0 := by
  by_cases none' : seqs = []
  · subst none'
    exact .inl ⟨tape, rfl, balanced, rfl, rfl⟩
  have some' : seqs.isEmpty = false := by simpa using none'
  have asked : (ask (hostService around start) seqs (.reserveAgentCalls seqs.length) tape).1 =
      (respond around tape.sent (books around start tape.sent) (.reserveAgentCalls seqs.length)).1 := rfl
  have booked : books around start (tape.sent ++ [(seqs, .reserveAgentCalls seqs.length)]) =
      (respond around tape.sent (books around start tape.sent) (.reserveAgentCalls seqs.length)).2 :=
    books_concat around start tape.sent _
  have cases' : (respond around tape.sent (books around start tape.sent) (.reserveAgentCalls seqs.length)).1 = .value () ∧
        (respond around tape.sent (books around start tape.sent) (.reserveAgentCalls seqs.length)).2.agentsUsed =
          (books around start tape.sent).agentsUsed + seqs.length ∨
      (respond around tape.sent (books around start tape.sent) (.reserveAgentCalls seqs.length)).1 ≠ .value () ∧
        (respond around tape.sent (books around start tape.sent) (.reserveAgentCalls seqs.length)).2.agentsUsed =
          (books around start tape.sent).agentsUsed := by
    cases service : around.service tape.sent with
    | cancels => exact .inr ⟨by simp [respond, service], by simp [respond, service]⟩
    | gone => exact .inr ⟨by simp [respond, service], by simp [respond, service]⟩
    | takes =>
        simp only [respond, service]
        exact (bookReservation_spec (books_within within tape.sent)).2
  rw [← booked, ← asked] at cases'
  have refused (unbooked : (books around start (tape.sent ++ [(seqs, .reserveAgentCalls seqs.length)])).agentsUsed =
      (books around start tape.sent).agentsUsed) :
      Balanced around start (ask (hostService around start) seqs (.reserveAgentCalls seqs.length) tape).2 0 0 := by
    obtain ⟨recorded, started⟩ := balanced
    refine ⟨?_, ?_⟩
    · rw [ask_sent, unbooked]
      exact recorded
    · rw [ask_sent, unbooked, startedAgents_concat, givenBack_concat]
      simpa [HostRequest.starts, HostRequest.gives] using started
  unfold reserveAgentCalls
  rw [if_neg (by simp [some'])]
  dsimp only
  rcases cases' with ⟨granted, used⟩ | ⟨denied, unbooked⟩
  · rw [granted]
    refine .inl ⟨_, rfl, ?_, rfl, rfl⟩
    obtain ⟨recorded, started⟩ := balanced
    refine ⟨?_, ?_⟩
    · rw [ask_sent, used]
      exact Nat.add_le_add_right recorded _
    · rw [ask_sent, used, startedAgents_concat, givenBack_concat]
      simp only [HostRequest.starts, HostRequest.gives, Bool.false_eq_true, if_false]
      omega
  · have kept := refused unbooked
    generalize (ask (hostService around start) seqs (.reserveAgentCalls seqs.length) tape).1 = reply at denied
    cases reply with
    | value value => exact absurd rfl denied
    | dropped => exact .inr ⟨_, _, rfl, kept⟩
    | error error =>
        cases error with
        | agentCallQuotaExceeded requested maximum => exact .inr ⟨_, _, rfl, kept⟩
        | budgetExceeded => exact .inr ⟨_, _, rfl, kept⟩
        | cancelled => exact .inr ⟨_, _, rfl, kept⟩
        | unsupported message => exact .inr ⟨_, _, rfl, kept.congr rfl rfl⟩
        | failed message => exact .inr ⟨_, _, rfl, kept.congr rfl rfl⟩

theorem release_balanced {startable : Nat} {seqs : List Nat}
    (balanced : Balanced around start tape seqs.length startable) :
    Balanced around start (releaseAgentCalls (hostService around start) seqs tape) 0 startable := by
  by_cases none' : seqs = []
  · subst none'
    exact balanced
  have some' : seqs.isEmpty = false := by simpa using none'
  have booked : books around start (tape.sent ++ [(seqs, .releaseAgentCalls seqs.length)]) =
      (respond around tape.sent (books around start tape.sent) (.releaseAgentCalls seqs.length)).2 :=
    books_concat around start tape.sent _
  have least : (books around start tape.sent).agentsUsed - seqs.length ≤
      (books around start (tape.sent ++ [(seqs, .releaseAgentCalls seqs.length)])).agentsUsed := by
    rw [booked]
    cases service : around.service tape.sent <;>
      simp [respond, service, serve, WorkflowTracker.release, WorkflowRunState.advanceRevision]
  obtain ⟨recorded, started⟩ := balanced
  simp only [releaseAgentCalls, some', Bool.false_eq_true, if_false]
  refine ⟨?_, ?_⟩
  · rw [ask_sent]
    have journal : (ask (hostService around start) seqs (.releaseAgentCalls seqs.length) tape).2.journal =
      tape.journal := rfl
    rw [journal]
    omega
  · rw [ask_sent, startedAgents_concat, givenBack_concat]
    simp only [HostRequest.starts, HostRequest.gives, Bool.false_eq_true, if_false]
    omega

theorem record_other
    (balanced : Balanced around start tape recordable startable) (host : Host) (seq : Nat) {kind : Text}
    (other : kind ≠ spawnKind) (hash : Text) (value : Json) :
    Balanced around start (record host seq kind hash value tape).2 recordable startable := by
  unfold record
  dsimp only
  split
  · exact balanced.congr rfl rfl
  · obtain ⟨recorded, started⟩ := balanced
    exact ⟨by simpa [reservationCount_concat, other] using recorded, started⟩

theorem record_spawn
    (balanced : Balanced around start tape (recordable + 1) startable) (host : Host) (seq : Nat) (hash : Text)
    (value : Json) : Balanced around start (record host seq spawnKind hash value tape).2 recordable startable := by
  unfold record
  dsimp only
  split
  · exact (balanced.mono (Nat.le_succ _) (Nat.le_refl _)).congr rfl rfl
  · obtain ⟨recorded, started⟩ := balanced
    refine ⟨?_, started⟩
    simp only [reservationCount_concat, if_true]
    omega

end Balances

section Calls

variable {ext : Externals} {around : Surroundings} {start : WorkflowRunState} {limit : Nat}
variable {tape : Tape} {recordable startable : Nat}

theorem recordAnswer_other
    (balanced : Balanced around start tape recordable startable) (host : Host) (seq : Nat) {kind : Text}
    (other : kind ≠ spawnKind) (hash : Text) (value : Json) (result : Except Thrown Json) (given : Answer) :
    Balanced around start (recordAnswer host seq kind hash value result given tape).2 recordable startable := by
  have recorded := record_other balanced host seq other hash value
  unfold recordAnswer
  split
  next token after same =>
    rw [same] at recorded
    exact recorded
  next after same =>
    rw [same] at recorded
    exact recorded.congr rfl rfl

theorem recordAnswer_spawn
    (balanced : Balanced around start tape (recordable + 1) startable) (host : Host) (seq : Nat) (hash : Text)
    (value : Json) (result : Except Thrown Json) (given : Answer) :
    Balanced around start (recordAnswer host seq spawnKind hash value result given tape).2 recordable startable := by
  have recorded := record_spawn balanced host seq hash value
  unfold recordAnswer
  split
  next token after same =>
    rw [same] at recorded
    exact recorded
  next after same =>
    rw [same] at recorded
    exact recorded.congr rfl rfl

theorem kind_other {call : HostCall} (other : (HostRequest.host call).starts = false) : call.kind ≠ spawnKind := by
  cases call with
  | spawnAgent opts => cases other
  | budget => exact (by decide : "budget".toList ≠ "spawn_agent".toList)
  | renderTemplate name vars => exact (by decide : "render_template".toList ≠ "spawn_agent".toList)
  | writeScratchFile name content => exact (by decide : "write_scratch_file".toList ≠ "spawn_agent".toList)
  | readScratchFile name => exact (by decide : "read_scratch_file".toList ≠ "spawn_agent".toList)
  | gitDiffSince commit => exact (by decide : "git_diff_since".toList ≠ "spawn_agent".toList)

theorem hostCall_other (balanced : Balanced around start tape recordable startable) {call : HostCall}
    (other : (HostRequest.host call).starts = false) :
    Balanced around start (hostCall ext (hostService around start) call tape).2 recordable startable := by
  unfold hostCall
  split
  · exact balanced
  next seq after next =>
    have moved : Balanced around start after recordable startable := by
      rw [(nextSeq_ok next).2.1]
      exact balanced.congr rfl rfl
    split
    · exact moved
    · split <;> exact moved.congr rfl rfl
    · have asked := ask_other moved [seq] other
      have recorded := fun value result given => recordAnswer_other asked (hostService around start) seq
        (kind_other other) (call.hash ext) value result given
      dsimp only
      split
      · exact asked
      · exact asked.congr rfl rfl
      · exact asked
      · exact asked
      · exact recorded _ _ _
      · exact recorded _ _ _
      · exact recorded _ _ _

theorem hostCall_spawn_replayed (balanced : Balanced around start tape 0 0) (opts : AgentOpts)
    {recorded : Json} (found : HostCall.replay ext (.spawnAgent opts) tape.journal tape.seq = .ok (some recorded)) :
    Balanced around start (hostCall ext (hostService around start) (.spawnAgent opts) tape).2 0 0 := by
  unfold hostCall
  split
  · exact balanced
  next seq after next =>
    obtain ⟨rfl, rfl, -⟩ := nextSeq_ok next
    simp only [found]
    split <;> exact balanced.congr rfl rfl

theorem recordAnswer_final (host : Host) (seq : Nat) (kind hash : Text) (value : Json) {result : Except Thrown Json}
    (given : Answer) (tape : Tape) (final : ∀ thrown, result = .error thrown → isResumableUnjournaledTerminal thrown = false)
    {thrown : Thrown} (ended : (recordAnswer host seq kind hash value result given tape).1 = .error thrown) :
    isResumableUnjournaledTerminal thrown = false := by
  unfold recordAnswer at ended
  split at ended
  next token after same =>
    obtain rfl := Except.error.inj ended
    simp only [record] at same
    split at same
    · cases same
      rfl
    · cases same
  next after same => exact final thrown ended

theorem hostCall_spawn_live (balanced : Balanced around start tape 1 1) (opts : AgentOpts)
    (missing : HostCall.replay ext (.spawnAgent opts) tape.journal tape.seq = .ok none) :
    Balanced around start (hostCall ext (hostService around start) (.spawnAgent opts) tape).2 0 0 ∧
      ∀ thrown, (hostCall ext (hostService around start) (.spawnAgent opts) tape).1 = .error thrown →
        isResumableUnjournaledTerminal thrown = true →
        Balanced around start (hostCall ext (hostService around start) (.spawnAgent opts) tape).2 1 0 := by
  unfold hostCall
  split
  next token next =>
    exact ⟨balanced.mono (Nat.zero_le 1) (Nat.zero_le 1), fun thrown _ _ =>
      balanced.mono (Nat.le_refl 1) (Nat.zero_le 1)⟩
  next seq after next =>
    obtain ⟨rfl, rfl, -⟩ := nextSeq_ok next
    simp only [missing]
    have moved : Balanced around start { tape with seq := tape.seq + 1 } 1 (0 + 1) := balanced.congr rfl rfl
    have asked := ask_spawn moved [tape.seq] opts
    generalize (ask (hostService around start) [tape.seq] (.host (.spawnAgent opts)) { tape with seq := tape.seq + 1 }) =
      made at asked
    obtain ⟨reply, sent⟩ := made
    dsimp only at asked ⊢
    have spent := asked.mono (Nat.zero_le 1) (Nat.le_refl 0)
    have recorded (value : Json) {result : Except Thrown Json} (given : Answer)
        (final : ∀ thrown, result = .error thrown → isResumableUnjournaledTerminal thrown = false) :
        let made := recordAnswer (hostService around start) tape.seq (HostCall.kind (.spawnAgent opts))
          (HostCall.hash ext (.spawnAgent opts)) value result given sent
        Balanced around start made.2 0 0 ∧ ∀ thrown, made.1 = .error thrown →
          isResumableUnjournaledTerminal thrown = true → Balanced around start made.2 1 0 := by
      refine ⟨recordAnswer_spawn asked _ _ _ _ _ _, fun thrown ended resumable => ?_⟩
      rw [recordAnswer_final _ _ _ _ _ given sent final ended] at resumable
      cases resumable
    cases reply with
    | dropped => exact ⟨spent, fun _ _ _ => asked⟩
    | value result => exact recorded _ _ (fun _ none' => by cases none')
    | error error =>
        cases error with
        | agentCallQuotaExceeded requested maximum =>
            exact ⟨spent.congr rfl rfl, fun _ _ _ => asked.congr rfl rfl⟩
        | budgetExceeded => exact ⟨spent, fun _ _ _ => asked⟩
        | cancelled => exact ⟨spent, fun _ _ _ => asked⟩
        | unsupported message => exact recorded _ _ (fun _ same => by cases same; rfl)
        | failed message => exact recorded _ _ (fun _ same => by cases same; rfl)

theorem spawnAgentCall_balanced (within : Within limit start) (balanced : Balanced around start tape 0 0)
    (opts : AgentOpts) :
    Balanced around start (spawnAgentCall ext (hostService around start) opts tape).2 0 0 := by
  unfold spawnAgentCall
  dsimp only
  cases found : HostCall.replay ext (.spawnAgent opts) tape.journal tape.seq with
  | error error => exact balanced
  | ok found' =>
      dsimp only
      rcases reserve_balanced within balanced (if found'.isNone then [tape.seq] else []) with
        ⟨after, granted, booked, seq, journal⟩ | ⟨thrown, after, denied, kept⟩
      · rw [granted]
        dsimp only
        rw [← seq, ← journal] at found
        cases found' with
        | some recorded =>
            have made := hostCall_spawn_replayed booked opts found
            split
            next value last same =>
              rw [same] at made
              exact made
            next thrown last same =>
              rw [same] at made
              split
              · exact made
              · exact made
        | none =>
            obtain ⟨made, resumable⟩ := hostCall_spawn_live booked opts found
            split
            next value last same =>
              rw [same] at made
              exact made
            next thrown last same =>
              rw [same] at made resumable
              split
              next ends =>
                have freed : Balanced around start last [tape.seq].length 0 := resumable thrown rfl ends
                exact release_balanced freed
              next => exact made
      · rw [denied]
        exact kept

theorem valueCall_balanced (balanced : Balanced around start tape 0 0) {call : HostCall}
    (other : (HostRequest.host call).starts = false) :
    Balanced around start (valueCall ext (hostService around start) call tape).2 0 0 := by
  have made : Balanced around start (hostCall ext (hostService around start) call tape).2 0 0 :=
    hostCall_other balanced other
  unfold valueCall
  split
  next value after same =>
    rw [same] at made
    exact made
  next thrown after same =>
    rw [same] at made
    exact made

theorem awaitUser_balanced (balanced : Balanced around start tape 0 0) (kind message : Text) :
    Balanced around start (awaitUser ext (hostService around start) kind message tape).2 0 0 := by
  have other : "await_user".toList ≠ spawnKind := (by decide : "await_user".toList ≠ "spawn_agent".toList)
  unfold awaitUser
  split
  · exact balanced
  · dsimp only
    split
    · exact balanced
    next seq after next =>
      obtain ⟨rfl, rfl, -⟩ := nextSeq_ok next
      have moved : Balanced around start { tape with seq := tape.seq + 1 } 0 0 := balanced.congr rfl rfl
      split
      · exact moved.congr rfl rfl
      · exact moved
      · have recorded := record_other moved (hostService around start) tape.seq other (awaitHash ext kind message) .null
        split
        next token last same =>
          rw [same] at recorded
          exact recorded
        next last same =>
          rw [same] at recorded
          exact recorded

def unrecorded (resolved : List Resolved) : Nat := resolved.countP fun item => item.live.isSome

theorem resolve_replayed (seq : Nat) (value : Json) : (resolve (.replayed seq value)).live.isSome = false := rfl

theorem resolve_live_isSome (seq : Nat) (hash : Text) (reply : Reply AgentResult) :
    (resolve (.live seq hash reply)).live.isSome = true := by
  obtain ⟨value, same⟩ := resolve_live seq hash reply
  rw [same]
  rfl

theorem issue_balanced {items : List AgentOpts} {live : List Nat} {recordable : Nat}
    (found : liveSeqs ext tape.journal tape.seq items = .ok live)
    (balanced : Balanced around start tape recordable live.length) :
    Balanced around start (issue ext (hostService around start) items tape).2 recordable 0 ∧
      (issue ext (hostService around start) items tape).2.journal = tape.journal ∧
      ∀ pending, (issue ext (hostService around start) items tape).1 = .ok pending →
        unrecorded (pending.map resolve) ≤ live.length := by
  induction items generalizing tape live with
  | nil =>
      refine ⟨balanced.mono (Nat.le_refl _) (Nat.zero_le _), rfl, fun pending issued => ?_⟩
      cases issued
      exact Nat.zero_le _
  | cons opts rest ih =>
      simp only [liveSeqs] at found
      cases replayed : HostCall.replay ext (.spawnAgent opts) tape.journal tape.seq with
      | error error =>
          rw [replayed] at found
          cases found
      | ok had =>
          rw [replayed] at found
          dsimp only at found
          cases later : liveSeqs ext tape.journal (tape.seq + 1) rest with
          | error error =>
              rw [later] at found
              cases found
          | ok live' =>
              rw [later] at found
              obtain rfl := Except.ok.inj found
              unfold issue
              split
              next token next =>
                refine ⟨balanced.mono (Nat.le_refl _) (Nat.zero_le _), rfl, fun pending issued => ?_⟩
                cases issued
              next seq after next =>
                obtain ⟨rfl, rfl, -⟩ := nextSeq_ok next
                simp only [replayed]
                cases had with
                | some value =>
                    have moved : Balanced around start { tape with seq := tape.seq + 1 } recordable live'.length :=
                      balanced.congr rfl rfl
                    obtain ⟨made, journal, few⟩ := ih later moved
                    refine ⟨made, journal, fun pending issued => ?_⟩
                    dsimp only at issued
                    cases rest' : (issue ext (hostService around start) rest { tape with seq := tape.seq + 1 }).1 with
                    | error token =>
                        rw [rest'] at issued
                        cases issued
                    | ok pending' =>
                        rw [rest'] at issued
                        obtain rfl := Except.ok.inj issued
                        have fewer := few pending' rest'
                        simpa [unrecorded, resolve_replayed] using fewer
                | none =>
                    have moved : Balanced around start { tape with seq := tape.seq + 1 } recordable (live'.length + 1) :=
                      balanced.congr rfl rfl
                    have asked := ask_spawn moved [tape.seq] opts
                    have journal : (ask (hostService around start) [tape.seq] (.host (.spawnAgent opts))
                      { tape with seq := tape.seq + 1 }).2.journal = tape.journal := rfl
                    have seq : (ask (hostService around start) [tape.seq] (.host (.spawnAgent opts))
                      { tape with seq := tape.seq + 1 }).2.seq = tape.seq + 1 := rfl
                    generalize (ask (hostService around start) [tape.seq] (.host (.spawnAgent opts))
                      { tape with seq := tape.seq + 1 }) = made at asked journal seq
                    obtain ⟨reply, sent⟩ := made
                    dsimp only at asked journal seq ⊢
                    rw [← journal, ← seq] at later
                    obtain ⟨made, journal', few⟩ := ih later asked
                    refine ⟨made, journal'.trans journal, fun pending issued => ?_⟩
                    cases rest' : (issue ext (hostService around start) rest sent).1 with
                    | error token =>
                        rw [rest'] at issued
                        cases issued
                    | ok pending' =>
                        rw [rest'] at issued
                        obtain rfl := Except.ok.inj issued
                        have fewer := few pending' rest'
                        simp only [unrecorded] at fewer
                        simpa [unrecorded, resolve_live_isSome] using fewer

theorem recordAll_balanced {resolved : List Resolved} {recordable : Nat}
    (enough : unrecorded resolved ≤ recordable) (balanced : Balanced around start tape recordable 0) (host : Host) :
    Balanced around start (recordAll host resolved tape).2 0 0 := by
  induction resolved generalizing tape recordable with
  | nil => exact balanced.mono (Nat.zero_le _) (Nat.le_refl 0)
  | cons item rest ih =>
      cases live : item.live with
      | none =>
          simp only [recordAll, live]
          exact ih (by simpa [unrecorded, live] using enough) balanced
      | some recorded =>
          obtain ⟨hash, value⟩ := recorded
          have room : unrecorded rest + 1 ≤ recordable := by simpa [unrecorded, live] using enough
          have made := record_spawn (balanced.mono room (Nat.le_refl 0)) host item.seq hash value
          simp only [recordAll, live]
          split
          next token after same =>
            change record host item.seq spawnKind hash value tape = _ at same
            rw [same] at made
            exact made.mono (Nat.zero_le _) (Nat.le_refl 0)
          next after same =>
            change record host item.seq spawnKind hash value tape = _ at same
            rw [same] at made
            exact ih (Nat.le_refl _) made

theorem parallel_balanced (within : Within limit start) (balanced : Balanced around start tape 0 0)
    (items : List AgentOpts) :
    Balanced around start (parallel ext (hostService around start) items tape).2 0 0 := by
  unfold parallel
  split
  · exact balanced
  cases found : liveSeqs ext tape.journal tape.seq items with
  | error error => exact balanced
  | ok live =>
      dsimp only
      rcases reserve_balanced within balanced live with
        ⟨after, granted, booked, seq, journal⟩ | ⟨thrown, after, denied, kept⟩
      · rw [granted]
        dsimp only
        rw [← seq, ← journal] at found
        obtain ⟨sent, -, few⟩ := issue_balanced found booked
        split
        next token last same =>
          rw [same] at sent
          exact sent.mono (Nat.zero_le _) (Nat.le_refl 0)
        next pending last same =>
          rw [same] at sent few
          have answered : Balanced around start
              { last with
                answers := last.answers ++ (pending.map resolve).map fun item => (item.seq, item.answer) }
              live.length 0 := sent.congr rfl rfl
          split
          · exact release_balanced answered
          · exact recordAll_balanced (few pending rfl) answered _
      · rw [denied]
        exact kept

theorem perform_balanced (within : Within limit start) (balanced : Balanced around start tape 0 0)
    (call : Call) : Balanced around start (perform ext (hostService around start) call tape).2 0 0 := by
  have begun : Balanced around start (begin' ext call tape) 0 0 := balanced.congr rfl rfl
  unfold perform
  dsimp only
  cases call with
  | host call =>
      cases call with
      | spawnAgent opts => exact spawnAgentCall_balanced within begun opts
      | budget => exact valueCall_balanced begun rfl
      | renderTemplate name vars => exact valueCall_balanced begun rfl
      | writeScratchFile name content => exact valueCall_balanced begun rfl
      | readScratchFile name => exact valueCall_balanced begun rfl
      | gitDiffSince commit => exact valueCall_balanced begun rfl
  | parallel items => exact parallel_balanced within begun items
  | awaitUser kind message => exact awaitUser_balanced begun kind message

theorem run_balanced (within : Within limit start) (script : Script)
    (balanced : Balanced around start tape 0 0) :
    Balanced around start (Replay.run (perform ext (hostService around start)) script tape).2 0 0 := by
  induction script generalizing tape with
  | finish result => exact balanced
  | perform call next ih =>
      have made : Balanced around start (perform ext (hostService around start) call tape).2 0 0 :=
        perform_balanced within balanced call
      rw [Replay.run_perform]
      cases performed : perform ext (hostService around start) call tape with
      | mk result after =>
          rw [performed] at made
          cases result with
          | ok returned => exact ih returned made
          | error token => exact made

end Calls

section Runs

variable (ext : Externals) (around : Surroundings)

theorem runWorkflow_balanced (script : Script) (journal : List JournalEntry) {start : WorkflowRunState} {limit : Nat}
    (within : Within limit start) (charged : reservationCount journal ≤ start.agentsUsed) :
    Balanced around start (runWorkflow ext (hostService around start) script journal).2 0 0 := by
  have begun : Balanced around start (.start journal) 0 0 := ⟨charged, Nat.le_refl _⟩
  simp only [runWorkflow]
  exact run_balanced within script begun

/-- At the end of a run that began with its journal charged, no more agents were started than are
booked or were given back, no more agent calls are in the journal than are charged, and at no request
was the budget exceeded. -/
theorem agent_budget_holds (script : Script) (journal : List JournalEntry) {start : WorkflowRunState} {limit : Nat}
    (within : Within limit start) (charged : reservationCount journal ≤ start.agentsUsed) :
    let tape := (runWorkflow ext (hostService around start) script journal).2
    (∀ count, (books around start (tape.sent.take count)).agentsUsed ≤ limit) ∧
      reservationCount tape.journal ≤ (books around start tape.sent).agentsUsed ∧
      start.agentsUsed + startedAgents tape.sent ≤ (books around start tape.sent).agentsUsed + givenBack tape.sent := by
  intro tape
  have ended := runWorkflow_balanced ext around script journal within charged
  exact ⟨fun count => (books_within within _).used, ended.recorded, ended.started⟩

def plainSurroundings : Surroundings :=
  { service := fun _ => .takes
    persistError := fun _ => none
    answer := fun _ call =>
      match call with
      | .spawnAgent _ =>
          .value
            { agentId := "a1".toList
              success := true
              output := .null
              cancelled := false
              tokensUsed := 1
              durationMs := 1 }
      | .budget => .dropped
      | .renderTemplate _ _ => .dropped
      | .writeScratchFile _ _ => .dropped
      | .readScratchFile _ => .dropped
      | .gitDiffSince _ => .dropped
    clock := fun seq => seq }

def plainHashes : Externals :=
  { requestHash := fun kind payload => kind ++ payload.print
    valueToDynamic := .ok }

def agentNamed (label : Text) : AgentOpts :=
  { prompt := "look".toList
    label := some label
    model := none
    effort := none
    maxOutputTokens := none
    agentType := none
    capabilityMode := none
    isolationWorktree := false
    forkContext := false
    resumeFrom := none
    outputSchema := none
    phase := none }

def threeAgents : Script :=
  .perform (.parallel [agentNamed "a".toList, agentNamed "b".toList]) fun _ =>
    .perform (.host (.spawnAgent (agentNamed "c".toList))) fun _ => .finish (.complete .null)

def startedRun (limit : Nat) : TrackedRun :=
  { state :=
      { runId := "wf_1".toList
        revision := 1
        name := "goal".toList
        objective := "ship".toList
        status := .active
        phases := []
        currentPhase := none
        agentBudget := some limit
        agentsUsed := 0
        tokenLeases := []
        agentUsageIncomplete := false
        elapsedMsFloor := 0
        pauseMessage := none
        history := []
        journalPath := none
        resultSummary := none
        agents := [] }
    activeSince := some 0
    executionEpoch := 0 }

theorem agent_budget_holds_for_two :
    let start := (startedRun 2).state
    let tape := (runWorkflow plainHashes (hostService plainSurroundings start) threeAgents []).2
    (∀ count, (books plainSurroundings start (tape.sent.take count)).agentsUsed ≤ 2) ∧
      reservationCount tape.journal ≤ (books plainSurroundings start tape.sent).agentsUsed ∧
      start.agentsUsed + startedAgents tape.sent ≤
        (books plainSurroundings start tape.sent).agentsUsed + givenBack tape.sent := by
  have within : Within 2 (startedRun 2).state := ⟨rfl, by decide, by decide⟩
  exact agent_budget_holds plainHashes plainSurroundings threeAgents [] within (by decide)

end Runs

section Resumes

open WorkflowTracker

variable (ext : Externals)

structure Episode where
  moment : Moment
  script : Script
  around : Surroundings
  newAgentBudget : Option Nat
  /-- How much of the journal is there when it is loaded. -/
  kept : Nat
  pauseIntent : Bool

structure Life where
  journal : List JournalEntry
  run : TrackedRun

def settle (episode : Episode) (outcome : WorkflowOutcome) (run : TrackedRun) : TrackedRun :=
  match episode.pauseIntent, outcome with
  | true, .cancelled => pauseUser episode.moment none run
  | true, .paused _ _ => pauseUser episode.moment none run
  | _, outcome => applyOutcome episode.moment outcome run

def execute (episode : Episode) (journal : List JournalEntry) (run : TrackedRun) : Life :=
  let (outcome, tape) := runWorkflow ext (hostService episode.around run.state) episode.script journal
  { journal := tape.journal
    run := settle episode outcome { run with state := books episode.around run.state tape.sent } }

def launchResume (episode : Episode) (journal : List JournalEntry) (run : TrackedRun) : Bool × TrackedRun :=
  if !run.state.status.isResumable then (false, run)
  else if run.state.status = .budgetLimited ∧ maxAgentBudget ≤ run.state.agentsUsed then (false, run)
  else
    let reconciled := run.change (reconcile (reservationCount journal))
    if mayResume reconciled.state episode.newAgentBudget then
      (true, resumed episode.moment episode.newAgentBudget reconciled)
    else (false, reconciled)

def Life.resume (life : Life) (episode : Episode) : Life :=
  let journal := life.journal.take episode.kept
  match launchResume episode journal life.run with
  | (true, run) => execute ext episode journal run
  | (false, run) => { journal, run }

/-- The budget holds, and every agent call that the journal may come to have again is charged. -/
structure Charged (least : Nat) (life : Life) : Prop where
  within : ∃ limit, least ≤ limit ∧ Within limit life.run.state
  charged : reservationCount life.journal ≤ life.run.state.agentsUsed

theorem pauseUser_budget (moment : Moment) (message : Option Text) (run : TrackedRun) :
    (pauseUser moment message run).state.agentBudget = run.state.agentBudget ∧
      (pauseUser moment message run).state.agentsUsed = run.state.agentsUsed := by
  by_cases active : run.state.status = .active
  · cases held : run.activeSince <;>
      simp [pauseUser, active, TrackedRun.foldElapsed, held, TrackedRun.change, userPaused,
        WorkflowRunState.recordEvent, WorkflowRunState.advanceRevision]
  · simp [pauseUser, active]

theorem settled_budget (moment : Moment) (outcome : WorkflowOutcome) (state : WorkflowRunState) :
    (settled moment outcome state).agentBudget = state.agentBudget ∧
      (settled moment outcome state).agentsUsed = state.agentsUsed := by
  by_cases ignored : ignoresOutcomes state.status
  · simp [settled, ignored, WorkflowRunState.recordEvent, WorkflowRunState.advanceRevision]
  · cases outcome <;>
      simp [settled, ignored, outcomeApplied, WorkflowRunState.recordEvent, WorkflowRunState.advanceRevision]

theorem applyOutcome_budget (moment : Moment) (outcome : WorkflowOutcome) (run : TrackedRun) :
    (applyOutcome moment outcome run).state.agentBudget = run.state.agentBudget ∧
      (applyOutcome moment outcome run).state.agentsUsed = run.state.agentsUsed := by
  have folded := settled_budget moment outcome (run.foldElapsed moment).state
  cases held : run.activeSince with
  | none => simpa [applyOutcome, TrackedRun.change, TrackedRun.foldElapsed, held] using folded
  | some since => simpa [applyOutcome, TrackedRun.change, TrackedRun.foldElapsed, held] using folded

theorem settle_budget (episode : Episode) (outcome : WorkflowOutcome) (run : TrackedRun) :
    (settle episode outcome run).state.agentBudget = run.state.agentBudget ∧
      (settle episode outcome run).state.agentsUsed = run.state.agentsUsed := by
  unfold settle
  split
  · exact pauseUser_budget _ _ _
  · exact pauseUser_budget _ _ _
  · exact applyOutcome_budget _ _ _

theorem execute_charged (episode : Episode) {journal : List JournalEntry} {run : TrackedRun} {least limit : Nat}
    (above : least ≤ limit) (within : Within limit run.state) (charged : reservationCount journal ≤ run.state.agentsUsed) :
    Charged least (execute ext episode journal run) := by
  have recorded := (runWorkflow_balanced ext episode.around episode.script journal within charged).recorded
  have booked : Within limit (books episode.around run.state
      (runWorkflow ext (hostService episode.around run.state) episode.script journal).2.sent) := books_within within _
  simp only [execute]
  generalize runWorkflow ext (hostService episode.around run.state) episode.script journal = ended at recorded booked
  obtain ⟨outcome, tape⟩ := ended
  obtain ⟨budget, used⟩ := settle_budget episode outcome
    { run with state := books episode.around run.state tape.sent }
  refine ⟨⟨limit, above, ?_⟩, ?_⟩
  · exact ⟨budget.trans booked.budget, used.symm ▸ booked.used, booked.room⟩
  · rw [used]
    exact recorded

theorem reservationCount_take (journal : List JournalEntry) (kept : Nat) :
    reservationCount (journal.take kept) ≤ reservationCount journal :=
  (List.take_sublist kept journal).countP_le

theorem reconcile_used (used : Nat) (state : WorkflowRunState) :
    (reconcile used state).agentsUsed = used ∧ (reconcile used state).agentBudget = state.agentBudget := by
  by_cases same : state.agentsUsed = used
  · simp [reconcile, same]
  · simp [reconcile, same, WorkflowRunState.advanceRevision]

theorem resumed_budget (moment : Moment) (newAgentBudget : Option Nat) (run : TrackedRun) :
    (resumed moment newAgentBudget run).state.agentBudget =
        (candidateBudget run.state newAgentBudget).or run.state.agentBudget ∧
      (resumed moment newAgentBudget run).state.agentsUsed = run.state.agentsUsed := ⟨rfl, rfl⟩

theorem resumed_within (moment : Moment) {newAgentBudget : Option Nat} {run : TrackedRun} {limit : Nat}
    (within : Within limit run.state) (bounded : ∀ raised, newAgentBudget = some raised → raised < maxU64) :
    ∃ limit', limit ≤ limit' ∧ Within limit' (resumed moment newAgentBudget run).state := by
  obtain ⟨budget, used⟩ := resumed_budget moment newAgentBudget run
  have holds := within.used
  have room := within.room
  cases given : newAgentBudget with
  | none =>
      rw [given, candidateBudget, within.budget, Option.some_or] at budget
      exact ⟨limit, Nat.le_refl limit, by rw [given] at used; exact ⟨budget, used.symm ▸ holds, room⟩⟩
  | some raised =>
      rw [given, candidateBudget, within.budget, Option.some_or, Option.getD_some] at budget
      rw [given] at used
      have bound := bounded raised given
      exact ⟨max raised limit, Nat.le_max_right _ _, budget,
        used.symm ▸ holds.trans (Nat.le_max_right _ _), Nat.max_lt.mpr ⟨bound, room⟩⟩

theorem launchResume_within (episode : Episode) {journal : List JournalEntry} {run : TrackedRun} {limit : Nat}
    (within : Within limit run.state) (charged : reservationCount journal ≤ run.state.agentsUsed)
    (bounded : ∀ raised, episode.newAgentBudget = some raised → raised < maxU64) :
    (∃ limit', limit ≤ limit' ∧ Within limit' (launchResume episode journal run).2.state) ∧
      reservationCount journal ≤ (launchResume episode journal run).2.state.agentsUsed := by
  have same : ∃ limit', limit ≤ limit' ∧ Within limit' run.state := ⟨limit, Nat.le_refl limit, within⟩
  obtain ⟨used, budget⟩ := reconcile_used (reservationCount journal) run.state
  have reconciled : Within limit (run.change (reconcile (reservationCount journal))).state :=
    ⟨budget.trans within.budget, used.symm ▸ charged.trans within.used, within.room⟩
  unfold launchResume
  split
  · exact ⟨same, charged⟩
  · split
    · exact ⟨same, charged⟩
    · dsimp only
      split
      · refine ⟨resumed_within episode.moment reconciled bounded, ?_⟩
        rw [(resumed_budget _ _ _).2]
        exact Nat.le_of_eq used.symm
      · exact ⟨⟨limit, Nat.le_refl limit, reconciled⟩, Nat.le_of_eq used.symm⟩

theorem resume_charged {life : Life} {episode : Episode} {least : Nat} (charged : Charged least life)
    (bounded : ∀ raised, episode.newAgentBudget = some raised → raised < maxU64) :
    Charged least (life.resume ext episode) := by
  obtain ⟨⟨limit, above, within⟩, count⟩ := charged
  have fewer := (reservationCount_take life.journal episode.kept).trans count
  obtain ⟨⟨limit', above', within'⟩, count'⟩ := launchResume_within episode within fewer bounded
  unfold Life.resume
  dsimp only
  split
  next run same =>
    rw [same] at within' count'
    exact execute_charged ext episode (above.trans above') within' count'
  next run same =>
    rw [same] at within' count'
    exact ⟨⟨limit', above.trans above', within'⟩, count'⟩

/-- However often a run is resumed, its budget is only ever raised and holds, and no reading of its
journal charges more than is charged. -/
theorem agent_budget_over_resumes (first : Episode) {run : TrackedRun} {limit : Nat} (within : Within limit run.state)
    (episodes : List Episode)
    (bounded : ∀ episode ∈ episodes, ∀ raised, episode.newAgentBudget = some raised → raised < maxU64) :
    let life := Runs.run (Life.resume ext) (execute ext first [] run) episodes
    (∃ limit', limit ≤ limit' ∧ life.run.state.agentBudget = some limit' ∧ life.run.state.agentsUsed ≤ limit') ∧
      ∀ kept, reservationCount (life.journal.take kept) ≤ life.run.state.agentsUsed := by
  intro life
  have begun : Charged limit (execute ext first [] run) :=
    execute_charged ext first (Nat.le_refl limit) within (Nat.zero_le _)
  have guarded : Runs.Along (Life.resume ext)
      (fun _ episode => ∀ raised, episode.newAgentBudget = some raised → raised < maxU64)
      (execute ext first [] run) episodes := Runs.along_of_forall _ _ bounded
  have charged : Charged limit life := Runs.along_invariant (Life.resume ext)
    (fun _ _ charged bounded => resume_charged ext charged bounded) _ episodes begun guarded
  obtain ⟨⟨limit', above, within'⟩, count⟩ := charged
  exact ⟨⟨limit', above, within'.budget, within'.used⟩, fun kept => (reservationCount_take life.journal kept).trans count⟩

theorem agent_budget_over_resumes_raised :
    let moment : Moment := { instant := 0, wall := [] }
    let first : Episode :=
      { moment
        script := threeAgents
        around := plainSurroundings
        newAgentBudget := none
        kept := 0
        pauseIntent := false }
    let again : Episode := { first with newAgentBudget := some 3, kept := 2 }
    let life := Runs.run (Life.resume plainHashes) (execute plainHashes first [] (startedRun 2)) [again]
    (∃ limit', 2 ≤ limit' ∧ life.run.state.agentBudget = some limit' ∧ life.run.state.agentsUsed ≤ limit') ∧
      ∀ kept, reservationCount (life.journal.take kept) ≤ life.run.state.agentsUsed := by
  intro moment first again
  have within : Within 2 (startedRun 2).state := ⟨rfl, by decide, by decide⟩
  refine agent_budget_over_resumes plainHashes first within [again] ?_
  intro episode member raised given
  rw [List.mem_singleton.mp member] at given
  obtain rfl := Option.some.inj given
  decide

end Resumes

end GrokPi.Workflow
