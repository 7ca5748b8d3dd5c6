import GrokPi.Workflow.Engine

set_option autoImplicit false

namespace GrokPi.Workflow

variable (ext : Externals) (host : Host)

def Plain : Call → Json → Prop
  | .host _, result => replayTerminal result = none
  | .parallel _, _ => True
  | .awaitUser _ _, result => result = .null

def verdict : Call → List JournalEntry → Except ControlToken (Except Text Json)
  | .host _, entries =>
      match entries with
      | [entry] =>
          match replayHostError entry.result with
          | some message => .ok (.error message)
          | none => .ok (ext.valueToDynamic entry.result)
      | _ => .ok (.ok .null)
  | .parallel items, entries =>
      if maxParallel < items.length then .ok (.error (tooManyItems items.length))
      else caught (conclude ext (entries.map fun entry => answerOf entry.result) none)
  | .awaitUser kind _, _ =>
      match PauseKind.parse kind with
      | .error message => .ok (.error message)
      | .ok _ => .ok (.ok .null)

def reading : Replay.Reading Call (Except Text Json) ControlToken JournalEntry Answer where
  width call := (callItems ext call).length
  Fits call seq index entry :=
    entry.seq = seq ∧ (callItems ext call)[index]? = some (entry.kind, entry.reqHash) ∧ Plain call entry.result
  answerOf entry := answerOf entry.result
  verdict := verdict ext
  limit := maxHostCalls
  Broken token := ∃ error, token = .fatal (.journal error)

section Growth

structure Grows (before after : Tape) : Prop where
  performed : after.performed = before.performed
  answers : before.answers <+: after.answers
  heard : before.heard <+: after.heard

variable {ext host}

theorem Grows.refl (tape : Tape) : Grows tape tape := ⟨rfl, List.prefix_rfl, List.prefix_rfl⟩

theorem Grows.trans {first second third : Tape} (one : Grows first second) (two : Grows second third) :
    Grows first third :=
  ⟨two.performed.trans one.performed, one.answers.trans two.answers, one.heard.trans two.heard⟩

theorem nextSeq_ok {tape after : Tape} {seq : Nat} (next : nextSeq tape = .ok (seq, after)) :
    seq = tape.seq ∧ after = { tape with seq := tape.seq + 1 } ∧ tape.seq + 1 ≤ maxHostCalls := by
  unfold nextSeq at next
  split at next
  · cases next
  next room =>
    cases next
    exact ⟨rfl, rfl, Nat.le_of_not_lt room⟩

theorem ask_grows (seqs : List Nat) (request : HostRequest) (tape : Tape) :
    Grows tape (ask host seqs request tape).2 := ⟨rfl, List.prefix_rfl, List.prefix_rfl⟩

theorem answer_grows (seq : Nat) (given : Answer) (tape : Tape) : Grows tape (answer seq given tape) :=
  ⟨rfl, List.prefix_append _ _, List.prefix_rfl⟩

theorem refuse_grows (tape : Tape) : Grows tape (refuse tape) :=
  ⟨rfl, List.prefix_rfl, List.prefix_append _ _⟩

theorem record_grows (seq : Nat) (kind hash : Text) (value : Json) (tape : Tape) :
    Grows tape (record host seq kind hash value tape).2 := by
  unfold record
  dsimp only
  split <;> exact ⟨rfl, List.prefix_rfl, List.prefix_append _ _⟩

theorem recordAnswer_grows (seq : Nat) (kind hash : Text) (value : Json) (result : Except Thrown Json)
    (given : Answer) (tape : Tape) :
    Grows tape (recordAnswer host seq kind hash value result given tape).2 := by
  have recorded := @record_grows host seq kind hash value tape
  unfold recordAnswer
  split
  next token after same =>
    rw [same] at recorded
    exact recorded
  next after same =>
    rw [same] at recorded
    exact recorded.trans (answer_grows seq given after)

theorem nextSeq_grows {tape after : Tape} {seq : Nat} (next : nextSeq tape = .ok (seq, after)) :
    Grows tape after := by
  rw [(nextSeq_ok next).2.1]
  exact ⟨rfl, List.prefix_rfl, List.prefix_rfl⟩

theorem hostCall_grows (call : HostCall) (tape : Tape) : Grows tape (hostCall ext host call tape).2 := by
  unfold hostCall
  split
  · exact Grows.refl tape
  next seq after next =>
    have first := nextSeq_grows next
    split
    · exact first
    · split
      · exact first.trans (answer_grows _ _ _)
      · exact first.trans (answer_grows _ _ _)
    · have asked := first.trans (@ask_grows host [seq] (.host call) after)
      dsimp only
      split
      · exact asked
      · exact (asked.trans (answer_grows _ _ _)).trans (refuse_grows _)
      · exact asked
      · exact asked
      · exact asked.trans (recordAnswer_grows _ _ _ _ _ _ _)
      · exact asked.trans (recordAnswer_grows _ _ _ _ _ _ _)
      · exact asked.trans (recordAnswer_grows _ _ _ _ _ _ _)

theorem reserve_grows (seqs : List Nat) (tape : Tape) : Grows tape (reserveAgentCalls host seqs tape).2 := by
  unfold reserveAgentCalls
  split
  · exact Grows.refl tape
  · have asked := @ask_grows host seqs (.reserveAgentCalls seqs.length) tape
    dsimp only
    split
    · exact asked
    · exact asked
    · exact asked
    · exact asked
    · exact asked
    · exact asked.trans (refuse_grows _)
    · exact asked.trans (refuse_grows _)

theorem release_grows (seqs : List Nat) (tape : Tape) : Grows tape (releaseAgentCalls host seqs tape) := by
  unfold releaseAgentCalls
  split
  · exact Grows.refl tape
  · exact ask_grows _ _ _

theorem valueCall_grows (call : HostCall) (tape : Tape) : Grows tape (valueCall ext host call tape).2 := by
  have made := @hostCall_grows ext host call tape
  unfold valueCall
  split
  next value after same =>
    rw [same] at made
    exact made
  next thrown after same =>
    rw [same] at made
    exact made

theorem spawnAgentCall_grows (opts : AgentOpts) (tape : Tape) :
    Grows tape (spawnAgentCall ext host opts tape).2 := by
  unfold spawnAgentCall
  dsimp only
  split
  · exact Grows.refl tape
  next found _ =>
    have reserved := @reserve_grows host (if found.isNone = true then [tape.seq] else []) tape
    split
    next thrown after same =>
      rw [same] at reserved
      exact reserved
    next after same =>
      rw [same] at reserved
      have made := @hostCall_grows ext host (.spawnAgent opts) after
      split
      next value last same' =>
        rw [same'] at made
        exact reserved.trans made
      next thrown last same' =>
        rw [same'] at made
        split
        · exact (reserved.trans made).trans (release_grows _ _)
        · exact reserved.trans made

theorem awaitUser_grows (kind message : Text) (tape : Tape) :
    Grows tape (awaitUser ext host kind message tape).2 := by
  unfold awaitUser
  split
  · exact Grows.refl tape
  · dsimp only
    split
    · exact Grows.refl tape
    next seq after next =>
      have first := nextSeq_grows next
      split
      · exact first.trans (answer_grows _ _ _)
      · exact first
      · have recorded := @record_grows host seq "await_user".toList (awaitHash ext kind message) .null after
        split
        next token last same =>
          rw [same] at recorded
          exact first.trans recorded
        next last same =>
          rw [same] at recorded
          exact first.trans recorded

theorem issue_grows (items : List AgentOpts) (tape : Tape) : Grows tape (issue ext host items tape).2 := by
  induction items generalizing tape with
  | nil => exact Grows.refl tape
  | cons opts rest ih =>
      unfold issue
      split
      · exact Grows.refl tape
      next seq after next =>
        have first := nextSeq_grows next
        split
        · exact first
        · exact first.trans (ih after)
        · exact (first.trans (ask_grows _ _ _)).trans (ih _)

theorem recordAll_grows (items : List Resolved) (tape : Tape) : Grows tape (recordAll host items tape).2 := by
  induction items generalizing tape with
  | nil => exact Grows.refl tape
  | cons item rest ih =>
      unfold recordAll
      split
      · exact ih tape
      next hash value _ =>
        have recorded := @record_grows host item.seq "spawn_agent".toList hash value tape
        split
        next token after same =>
          rw [same] at recorded
          exact recorded
        next after same =>
          rw [same] at recorded
          exact recorded.trans (ih after)

theorem parallel_grows (items : List AgentOpts) (tape : Tape) :
    Grows tape (parallel ext host items tape).2 := by
  unfold parallel
  split
  · exact Grows.refl tape
  · split
    · exact Grows.refl tape
    next live _ =>
      have reserved := @reserve_grows host live tape
      split
      next thrown after same =>
        rw [same] at reserved
        exact reserved
      next after same =>
        rw [same] at reserved
        have issued := @issue_grows ext host items after
        split
        next token last same' =>
          rw [same'] at issued
          exact reserved.trans issued
        next pending last same' =>
          rw [same'] at issued
          have resolved : Grows last { last with
              answers := last.answers ++ (pending.map resolve).map fun item => (item.seq, item.answer) } :=
            ⟨rfl, List.prefix_append _ _, List.prefix_rfl⟩
          dsimp only
          split
          · exact ((reserved.trans issued).trans resolved).trans (release_grows _ _)
          · exact ((reserved.trans issued).trans resolved).trans (recordAll_grows _ _)

theorem dispatch_grows (call : Call) (tape : Tape) : Grows tape (dispatch ext host call tape).2 := by
  unfold dispatch
  split
  · exact spawnAgentCall_grows _ _
  · exact valueCall_grows _ _
  · exact parallel_grows _ _
  · exact awaitUser_grows _ _ _

end Growth

section Calmness

/-- A change that no answer and no entry comes from: only requests for later calls are sent. -/
structure Calm (first : Nat) (before after : Tape) : Prop where
  journal : after.journal = before.journal
  seq : after.seq = before.seq
  answers : after.answers = before.answers
  heard : before.heard <+: after.heard
  refused : .refused ∈ after.heard → .refused ∈ before.heard
  sent : ∀ seqs request, (seqs, request) ∈ after.sent →
    (seqs, request) ∈ before.sent ∨ ∀ seq ∈ seqs, first ≤ seq

variable {ext host}

theorem Calm.refl (first : Nat) (tape : Tape) : Calm first tape tape :=
  ⟨rfl, rfl, rfl, List.prefix_rfl, id, fun _ _ member => .inl member⟩

variable {first : Nat}

theorem Calm.trans {before middle after : Tape} (one : Calm first before middle)
    (two : Calm first middle after) : Calm first before after := by
  refine ⟨two.journal.trans one.journal, two.seq.trans one.seq, two.answers.trans one.answers,
    one.heard.trans two.heard, fun refused => one.refused (two.refused refused), ?_⟩
  intro seqs request member
  rcases two.sent seqs request member with old | late
  · exact one.sent seqs request old
  · exact .inr late

theorem advances_calm {before middle after last : Tape} (one : Calm before.journal.length before middle)
    (advances : Replay.Advances (reading ext) middle after) (two : Calm before.journal.length after last) :
    Replay.Advances (reading ext) before last := by
  refine ⟨?_, ?_, ?_⟩
  · rw [two.journal, ← one.journal]
    exact advances.journal
  · intro seqs request member
    rcases two.sent seqs request member with old | late
    · rcases advances.sent seqs request old with old' | late
      · exact one.sent seqs request old'
      · rw [one.journal] at late
        exact .inr late
    · exact .inr late
  · intro seq given member
    rw [two.journal, ← one.answers]
    rw [two.answers] at member
    exact advances.answers seq given member

theorem performs_calm {call : Call} {before middle after last : Tape}
    {result : Except ControlToken (Except Text Json)} (one : Calm before.journal.length before middle)
    (performs : Replay.Performs (reading ext) call middle result after)
    (two : Calm before.journal.length after last) : Replay.Performs (reading ext) call before result last := by
  -- A call between calm changes does what the call does.
  cases performs with
  | replayed whole verdict sound seq same calm advances inside answered =>
      rw [one.journal, one.seq] at whole verdict
      refine .replayed whole verdict sound (by rw [two.seq, seq, one.seq])
        (two.journal.trans (same.trans one.journal)) (fun refused => one.refused (calm (two.refused refused)))
        (advances_calm one advances two) ?_ ?_
      · rw [two.answers, two.journal, ← one.answers]
        exact inside
      · rw [two.answers, ← one.seq]
        exact answered
  | recorded beyond length fits matches' verdict sound calm advances inside =>
      rw [one.journal, one.seq] at beyond
      rw [one.seq] at length matches' verdict
      refine .recorded beyond (by rw [two.journal, length]) (by rw [two.journal]; exact fits)
        (by rw [two.journal]; exact matches') ?_ sound
        (fun refused => one.refused (calm (two.refused refused))) (advances_calm one advances two) ?_
      · rw [two.seq, two.journal]
        exact verdict
      · rw [two.answers, two.journal, ← one.answers]
        exact inside
  | refused beyond same heard advances =>
      rw [one.journal, one.seq] at beyond
      exact .refused beyond (two.journal.trans (same.trans one.journal)) (two.heard.subset heard)
        (advances_calm one advances two)
  | ended beyond same sound advances =>
      rw [one.journal, one.seq] at beyond
      exact .ended beyond (two.journal.trans (same.trans one.journal)) sound (advances_calm one advances two)

theorem ask_calm {seqs : List Nat} (late : ∀ seq ∈ seqs, first ≤ seq) (request : HostRequest)
    (tape : Tape) : Calm first tape (ask host seqs request tape).2 := by
  refine ⟨rfl, rfl, rfl, List.prefix_rfl, id, ?_⟩
  intro seqs' request' member
  rcases List.mem_append.mp member with old | new
  · exact .inl old
  · cases List.mem_singleton.mp new
    exact .inr late

theorem Calm.withSeq {before after : Tape} (calm : Calm first before after) (seq : Nat) :
    Calm first { before with seq } { after with seq } :=
  { calm with seq := rfl }

theorem release_calm {seqs : List Nat} (late : ∀ seq ∈ seqs, first ≤ seq) (tape : Tape) :
    Calm first tape (releaseAgentCalls host seqs tape) := by
  unfold releaseAgentCalls
  split
  · exact Calm.refl first tape
  · exact ask_calm late _ tape

theorem begin_calm (first : Nat) (call : Call) (tape : Tape) : Calm first tape (begin' ext call tape) := by
  refine ⟨rfl, rfl, rfl, ?_, ?_, fun _ _ member => .inl member⟩
  · unfold begin'
    dsimp only
    split
    · exact List.prefix_append _ _
    · exact List.prefix_rfl
  · unfold begin'
    dsimp only
    split
    · intro refused
      simpa using refused
    · exact id

theorem reserve_cases {seqs : List Nat} (late : ∀ seq ∈ seqs, first ≤ seq) (tape : Tape) :
    (∃ after, reserveAgentCalls host seqs tape = (.ok (), after) ∧ Calm first tape after) ∨
      seqs ≠ [] ∧
        ((∃ message after, reserveAgentCalls host seqs tape = (.error (.runtime message), refuse after) ∧
            Calm first tape after) ∨
          ∃ token after, reserveAgentCalls host seqs tape = (.error (.terminated token), after) ∧
            Calm first tape after ∧ ¬ (reading ext).Broken token) := by
  -- A reservation is granted, or passes an error on, or ends the run.
  unfold reserveAgentCalls
  split
  · exact .inl ⟨tape, rfl, Calm.refl first tape⟩
  next some' =>
    have asked := @ask_calm host first seqs late (.reserveAgentCalls seqs.length) tape
    have some'' : seqs ≠ [] := by
      intro none'
      exact some' (by simp [none'])
    dsimp only
    split
    · exact .inl ⟨_, rfl, asked⟩
    · exact .inr ⟨some'', .inr ⟨_, _, rfl, asked, by simp [reading, droppedReply]⟩⟩
    · exact .inr ⟨some'', .inr ⟨_, _, rfl, asked, by simp [reading]⟩⟩
    · exact .inr ⟨some'', .inr ⟨_, _, rfl, asked, by simp [reading]⟩⟩
    · exact .inr ⟨some'', .inr ⟨_, _, rfl, asked, by simp [reading, budgetExceeded]⟩⟩
    · exact .inr ⟨some'', .inl ⟨_, _, rfl, asked⟩⟩
    · exact .inr ⟨some'', .inl ⟨_, _, rfl, asked⟩⟩

end Calmness

section Results

theorem get_absent {members : List (Text × Json)} {name : Text} (absent : name ∉ members.map Prod.fst) :
    (Json.object members).get name = none := by
  have other : ∀ member ∈ members.reverse, ¬ decide (member.1 = name) = true := by
    intro member there same
    exact absent (List.mem_map.mpr ⟨member, List.mem_reverse.mp there, by simpa using same⟩)
  rw [Json.get, List.find?_eq_none.mpr other]
  rfl

theorem plain_of_absent {members : List (Text × Json)} (terminal : hostTerminalKey ∉ members.map Prod.fst)
    (error : hostErrorKey ∉ members.map Prod.fst) :
    replayTerminal (.object members) = none ∧ replayHostError (.object members) = none := by
  simp [replayTerminal, replayHostError, get_absent terminal, get_absent error]

theorem agentResult_plain (result : AgentResult) :
    replayTerminal result.toJson = none ∧ replayHostError result.toJson = none := by
  let names := ["agent_id", "success", "output", "cancelled", "tokens_used", "duration_ms"].map String.toList
  have terminal : hostTerminalKey ∉ names := by decide
  have error : hostErrorKey ∉ names := by decide
  exact plain_of_absent terminal error

theorem host_result_plain (call : HostCall) (result : call.Result) :
    replayTerminal (call.toResult result) = none ∧ replayHostError (call.toResult result) = none := by
  -- No result of the host is taken for a sentinel.
  cases call with
  | spawnAgent opts => exact agentResult_plain result
  | budget =>
      let names := ["total", "spent", "reserved", "remaining"].map String.toList
      have terminal : hostTerminalKey ∉ names := by decide
      have error : hostErrorKey ∉ names := by decide
      exact plain_of_absent terminal error
  | renderTemplate name vars => exact ⟨rfl, rfl⟩
  | writeScratchFile name content => exact ⟨rfl, rfl⟩
  | readScratchFile name => exact ⟨rfl, rfl⟩
  | gitDiffSince commit => exact ⟨rfl, rfl⟩

theorem answerOf_plain {result : Json} (plain : replayTerminal result = none ∧ replayHostError result = none) :
    answerOf result = .value result := by
  simp [answerOf, plain.1, plain.2]

theorem errorSentinel_plain (message : Text) : replayTerminal (hostErrorSentinel message) = none := by
  have absent : hostTerminalKey ∉ [hostErrorKey] := by decide
  rw [replayTerminal, hostErrorSentinel, get_absent absent]
  rfl

theorem errorSentinel_error (message : Text) : replayHostError (hostErrorSentinel message) = some message := by
  simp [replayHostError, hostErrorSentinel, Json.get, Json.asText]

theorem answerOf_errorSentinel (message : Text) : answerOf (hostErrorSentinel message) = .error message := by
  simp [answerOf, errorSentinel_plain, errorSentinel_error]

theorem answerOf_terminalSentinel (kind : Text) : answerOf (hostTerminalSentinel kind) = .terminal kind := by
  simp [answerOf, replayTerminal, hostTerminalSentinel, Json.get, Json.asText]

end Results

section SingleCalls

variable {ext host} {entries : List JournalEntry}

theorem replay_had (call : HostCall) {seq : Nat} {entry : JournalEntry}
    (there : entries[seq]? = some entry) (place : entry.seq = seq) (kind : entry.kind = call.kind)
    (hash : entry.reqHash = call.hash ext) : call.replay ext entries seq = .ok (some entry.result) := by
  have normal : Journal.replay entries seq call.kind (call.hash ext) = .ok (some entry.result) := by
    simp [Journal.replay, there, place, kind, hash]
  cases call with
  | spawnAgent opts =>
      have normal' : Journal.replay entries seq "spawn_agent".toList (HostCall.hash ext (.spawnAgent opts)) =
          .ok (some entry.result) := normal
      simp only [HostCall.replay, replaySpawnAgent, normal']
  | budget => exact normal
  | renderTemplate name vars => exact normal
  | writeScratchFile name content => exact normal
  | readScratchFile name => exact normal
  | gitDiffSince commit => exact normal

theorem replay_missing (call : HostCall) {seq : Nat}
    (missing : entries[seq]? = none) : call.replay ext entries seq = .ok none := by
  have normal (kind hash : Text) : Journal.replay entries seq kind hash = .ok none := by
    simp [Journal.replay, missing]
  cases call with
  | spawnAgent opts =>
      simp only [HostCall.replay, replaySpawnAgent, normal]
      split <;> rfl
  | budget => exact normal _ _
  | renderTemplate name vars => exact normal _ _
  | writeScratchFile name content => exact normal _ _
  | readScratchFile name => exact normal _ _
  | gitDiffSince commit => exact normal _ _

structure Asked (before after : Tape) : Prop where
  journal : after.journal = before.journal
  seq : after.seq = before.seq + 1
  answers : after.answers = before.answers
  heard : after.heard = before.heard
  sent : ∀ seqs request, (seqs, request) ∈ after.sent →
    (seqs, request) ∈ before.sent ∨ seqs = [before.seq]

def returned (value : Json) : Except Thrown Json :=
  match replayHostError value with
  | some message => .error (.runtime message)
  | none => .ok value

inductive Lived (ext : Externals) (host : Host) (call : HostCall) (tape : Tape) :
    Except Thrown Json × Tape → Prop
  | recorded (value : Json) {asked : Tape} (sent : Asked tape asked) (room : tape.seq + 1 ≤ maxHostCalls)
      (plain : replayTerminal value = none) :
      Lived ext host call tape
        (recordAnswer host tape.seq call.kind (call.hash ext) value (returned value) (answerOf value) asked)
  | refused (message : Text) {asked : Tape} (sent : Asked tape asked) :
      Lived ext host call tape (.error (.runtime message), refuse (answer tape.seq (.error message) asked))
  | ended {token : ControlToken} {after : Tape} (sound : ¬ (reading ext).Broken token)
      (journal : after.journal = tape.journal) (answers : after.answers = tape.answers)
      (sent : ∀ seqs request, (seqs, request) ∈ after.sent →
        (seqs, request) ∈ tape.sent ∨ seqs = [tape.seq]) :
      Lived ext host call tape (.error (.terminated token), after)

theorem hostCall_live (call : HostCall) (tape : Tape)
    (missing : call.replay ext tape.journal tape.seq = .ok none) :
    Lived ext host call tape (hostCall ext host call tape) := by
  unfold hostCall
  by_cases full : maxHostCalls < tape.seq + 1
  · rw [nextSeq, if_pos full]
    exact .ended (by simp [reading]) rfl rfl fun _ _ member => .inl member
  · rw [nextSeq, if_neg full]
    simp only [missing]
    have asked : Asked tape (ask host [tape.seq] (.host call) { tape with seq := tape.seq + 1 }).2 := by
      refine ⟨rfl, rfl, rfl, rfl, ?_⟩
      intro seqs request member
      rcases List.mem_append.mp member with old | new
      · exact .inl old
      · cases List.mem_singleton.mp new
        exact .inr rfl
    have room := Nat.le_of_not_lt full
    have failed (message : Text) :
        Lived ext host call tape
          (recordAnswer host tape.seq call.kind (call.hash ext) (hostErrorSentinel message)
            (.error (.runtime message)) (.error message)
            (ask host [tape.seq] (.host call) { tape with seq := tape.seq + 1 }).2) := by
      have recorded := @Lived.recorded ext host call tape (hostErrorSentinel message) _ asked room
        (errorSentinel_plain message)
      rwa [answerOf_errorSentinel, returned, errorSentinel_error] at recorded
    split
    · exact .ended (by simp [reading, droppedReply]) rfl rfl asked.sent
    · exact .refused _ asked
    · exact .ended (by simp [reading, budgetExceeded]) rfl rfl asked.sent
    · exact .ended (by simp [reading]) rfl rfl asked.sent
    · exact failed _
    · exact failed _
    next result _ =>
      have plain := host_result_plain call result
      have recorded := @Lived.recorded ext host call tape (call.toResult result) _ asked room plain.1
      rwa [answerOf_plain plain, returned, plain.2] at recorded

theorem hostCall_replayed (call : HostCall) (tape : Tape) {recorded : Json}
    (had : call.replay ext tape.journal tape.seq = .ok (some recorded)) (room : tape.seq + 1 ≤ maxHostCalls)
    (plain : replayTerminal recorded = none) :
    hostCall ext host call tape =
      (returned recorded, answer tape.seq (answerOf recorded) { tape with seq := tape.seq + 1 }) := by
  unfold hostCall
  rw [nextSeq, if_neg (by omega)]
  simp only [had, returned, answerOf, plain]
  cases replayHostError recorded <;> rfl

def delivered (ext : Externals) (result : Except Thrown Json) : Except Thrown Json :=
  result.bind (toDynamic ext)

theorem valueCall_eq (call : HostCall) (tape : Tape) :
    valueCall ext host call tape =
      (delivered ext (hostCall ext host call tape).1, (hostCall ext host call tape).2) := by
  unfold valueCall delivered
  rcases hostCall ext host call tape with ⟨result, after⟩
  cases result <;> rfl

theorem caught_returned (value : Json) :
    caught (delivered ext (returned value)) =
      match replayHostError value with
      | some message => .ok (.error message)
      | none => .ok (ext.valueToDynamic value) := by
  unfold returned
  cases replayHostError value with
  | some message => rfl
  | none =>
      simp only [delivered, Except.bind, toDynamic]
      cases ext.valueToDynamic value <;> rfl

variable {tape : Tape}

theorem record_next {seq : Nat} (kind hash : Text) (value : Json) (next : seq = tape.journal.length) :
    record host seq kind hash value tape =
      (.ok (), { tape with
        heard := tape.heard ++ [.journal]
        journal := tape.journal ++
          [{ seq, kind, reqHash := hash, result := value, atMs := host.clock seq }] }) := by
  simp [record, Journal.validateSequence, next]

theorem slice_last (entries : List JournalEntry) (entry : JournalEntry) :
    Replay.slice (entries ++ [entry]) entries.length 1 = [entry] := by
  simp [Replay.slice]

theorem slice_one {seq : Nat} {entry : JournalEntry}
    (there : entries[seq]? = some entry) : Replay.slice entries seq 1 = [entry] := by
  obtain ⟨inside, same⟩ := List.getElem?_eq_some_iff.mp there
  rw [Replay.slice, List.drop_eq_getElem_cons inside, same]
  rfl

theorem width_host (call : HostCall) : (reading ext).width (.host call) = 1 := rfl

theorem caught_delivered_returned (value : Json) :
    ∃ given, caught (delivered ext (returned value)) = .ok given := by
  rw [caught_returned]
  cases replayHostError value with
  | some message => exact ⟨_, rfl⟩
  | none => exact ⟨_, rfl⟩

theorem lived_performs {call : HostCall} {made : Except Thrown Json × Tape}
    (lived : Lived ext host call tape made) (end' : tape.seq = tape.journal.length) :
    Replay.Performs (reading ext) (.host call) tape (caught (delivered ext made.1)) made.2 := by
  -- A call made at the journal's end.
  have beyond : tape.journal.length < tape.seq + (reading ext).width (.host call) := by
    rw [width_host]
    omega
  have behind : ∀ {seqs : List Nat}, seqs = [tape.seq] → ∀ seq ∈ seqs, tape.journal.length ≤ seq := by
    intro seqs only seq there
    rw [only, List.mem_singleton] at there
    omega
  cases lived with
  | ended sound journal answers sent =>
      refine .ended beyond journal sound ⟨by rw [journal], ?_, ?_⟩
      · exact fun seqs request member => (sent seqs request member).imp_right behind
      · intro seq given member
        rw [answers] at member
        exact .inl member
  | refused message sent =>
      refine .refused beyond sent.journal (by simp [refuse]) ⟨by rw [refuse, answer, sent.journal], ?_, ?_⟩
      · exact fun seqs request member => (sent.sent seqs request member).imp_right behind
      · intro seq given member
        rcases List.mem_append.mp member with old | new
        · rw [sent.answers] at old
          exact .inl old
        · right
          cases List.mem_singleton.mp new
          intro entry there
          obtain ⟨inside, _⟩ := List.getElem?_eq_some_iff.mp there
          simp only [refuse, answer, sent.journal] at inside
          omega
  | recorded value sent room plain =>
      have next : tape.seq = _ := end'.trans (congrArg List.length sent.journal.symm)
      have ⟨given, result⟩ := @caught_delivered_returned ext value
      rw [recordAnswer, record_next _ _ _ next]
      simp only
      rw [result]
      set entry : JournalEntry :=
        { seq := tape.seq, kind := call.kind, reqHash := call.hash ext, result := value,
          atMs := host.clock tape.seq } with entry'
      refine .recorded beyond ?length ?fits ?matches' ?verdict ?sound ?calm ⟨?journal, ?sent, ?answers⟩ ?inside
      case length => simp [answer, sent.journal, width_host, end']
      case fits =>
        have limit : (reading ext).limit = maxHostCalls := rfl
        rw [limit]
        simp only [answer, sent.journal, List.length_append, List.length_cons, List.length_nil]
        omega
      case matches' =>
        intro index other below there
        have first : index = 0 := by
          rw [width_host] at below
          omega
        subst first
        rw [answer, sent.journal, Nat.add_zero, end', List.getElem?_concat_length, Option.some.injEq] at there
        rw [← there]
        exact ⟨rfl, rfl, plain⟩
      case verdict =>
        intro returned' same
        cases same
        refine ⟨by simp [answer, sent.journal, sent.seq, end'], ?_⟩
        simp only [answer, sent.journal, width_host, end', slice_last]
        rw [← result, caught_returned]
        rfl
      case sound =>
        intro stop none'
        cases none'
      case calm =>
        intro refused
        simpa [answer, sent.heard] using refused
      case journal =>
        rw [answer, sent.journal]
        exact List.prefix_append _ _
      case sent =>
        exact fun seqs request member => (sent.sent seqs request member).imp_right behind
      case answers =>
        intro seq given' member
        rcases List.mem_append.mp member with old | new
        · rw [sent.answers] at old
          exact .inl old
        · right
          cases List.mem_singleton.mp new
          intro other there
          rw [answer, sent.journal, end', List.getElem?_concat_length, Option.some.injEq] at there
          rw [← there]
          rfl
      case inside =>
        intro seq given' member
        rcases List.mem_append.mp member with old | new
        · rw [sent.answers] at old
          exact .inl old
        · right
          cases List.mem_singleton.mp new
          simp [answer, sent.journal, end']

theorem hostCall_performs (call : HostCall) (place : tape.seq ≤ tape.journal.length)
    (limit : tape.journal.length ≤ maxHostCalls)
    (matches' : Replay.Matches (reading ext) tape.journal tape.seq (.host call)) :
    Replay.Performs (reading ext) (.host call) tape (caught (delivered ext (hostCall ext host call tape).1))
      (hostCall ext host call tape).2 := by
  cases there : tape.journal[tape.seq]? with
  | none =>
      have end' : tape.seq = tape.journal.length :=
        Nat.le_antisymm place (List.getElem?_eq_none_iff.mp there)
      exact lived_performs (hostCall_live call tape (replay_missing call there)) end'
  | some entry =>
      obtain ⟨inside, _⟩ := List.getElem?_eq_some_iff.mp there
      have ⟨seq, item, plain⟩ := matches' 0 entry (by rw [width_host]; omega) there
      have item' : (call.kind, call.hash ext) = (entry.kind, entry.reqHash) := by
        simpa [callItems] using item
      have ⟨kind, hash⟩ := Prod.mk.inj item'
      have had := @replay_had ext _ call _ entry there seq kind.symm hash.symm
      have ⟨given, result⟩ := @caught_delivered_returned ext entry.result
      rw [hostCall_replayed call tape had (by omega) plain]
      simp only
      rw [result]
      refine .replayed ?whole ?verdict ?sound rfl rfl id ⟨List.prefix_rfl, fun _ _ member => .inl member, ?answers⟩
        ?inside ?answered
      case whole =>
        rw [width_host]
        omega
      case verdict =>
        rw [width_host, slice_one there, ← result, caught_returned]
        rfl
      case sound =>
        intro stop none'
        cases none'
      case answers =>
        intro seq' given' member
        rcases List.mem_append.mp member with old | new
        · exact .inl old
        · right
          cases List.mem_singleton.mp new
          intro other there'
          cases there.symm.trans there'
          rfl
      case inside =>
        intro seq' given' member
        rcases List.mem_append.mp member with old | new
        · exact .inl old
        · right
          cases List.mem_singleton.mp new
          exact inside
      case answered =>
        intro index below
        rw [width_host] at below
        have first : index = 0 := by omega
        subst first
        exact ⟨answerOf entry.result, List.mem_append_right _ (List.mem_singleton.mpr rfl)⟩

theorem unreserved_performs {call : Call} {tape after : Tape}
    (beyond : tape.journal.length < tape.seq + (reading ext).width call)
    (calm : Calm tape.journal.length tape after) :
    (∀ message, Replay.Performs (reading ext) call tape (.ok (.error message)) (refuse after)) ∧
      ∀ token, ¬ (reading ext).Broken token → Replay.Performs (reading ext) call tape (.error token) after := by
  -- A reservation that is not granted ends the call without an entry.
  have advances : Replay.Advances (reading ext) tape after :=
    advances_calm (Calm.refl _ tape) (Replay.advances_refl tape) calm
  constructor
  · intro message
    exact .refused beyond calm.journal (by simp [refuse]) ⟨advances.journal, advances.sent, advances.answers⟩
  · intro token sound
    exact .ended beyond calm.journal sound advances

theorem spawnAgentCall_performs (opts : AgentOpts) (place : tape.seq ≤ tape.journal.length)
    (limit : tape.journal.length ≤ maxHostCalls)
    (matches' : Replay.Matches (reading ext) tape.journal tape.seq (.host (.spawnAgent opts))) :
    Replay.Performs (reading ext) (.host (.spawnAgent opts)) tape
      (caught (spawnAgentCall ext host opts tape).1) (spawnAgentCall ext host opts tape).2 := by
  -- the reservation and the release are around the call, and for this call or later ones
  have around (live : List Nat) (late : ∀ seq ∈ live, tape.journal.length ≤ seq) {middle : Tape}
      (calm : Calm tape.journal.length tape middle) {result : Except Thrown Json} {after : Tape}
      (made : hostCall ext host (.spawnAgent opts) middle = (result, after)) :
      (∀ value, result = .ok value →
        Replay.Performs (reading ext) (.host (.spawnAgent opts)) tape (caught (toDynamic ext value)) after) ∧
      ∀ thrown, result = .error thrown → ∀ last, last =
        (if isResumableUnjournaledTerminal thrown then (.error thrown, releaseAgentCalls host live after)
          else (.error thrown, after)) →
        Replay.Performs (reading ext) (.host (.spawnAgent opts)) tape (caught last.1) last.2 := by
    have performs := @hostCall_performs ext host middle (.spawnAgent opts)
      (by rw [calm.journal, calm.seq]; exact place) (by rw [calm.journal]; exact limit)
      (by rw [calm.journal, calm.seq]; exact matches')
    rw [made] at performs
    constructor
    · rintro value rfl
      exact performs_calm calm performs (Calm.refl _ after)
    · rintro thrown rfl _ rfl
      split
      · exact performs_calm calm performs (release_calm late after)
      · exact performs_calm calm performs (Calm.refl _ after)
  unfold spawnAgentCall
  cases there : tape.journal[tape.seq]? with
  | some entry =>
      obtain ⟨seq, item, plain⟩ := matches' 0 entry (by rw [width_host]; omega) there
      have item' : (HostCall.kind (.spawnAgent opts), HostCall.hash ext (.spawnAgent opts)) =
          (entry.kind, entry.reqHash) := by
        simpa [callItems] using item
      obtain ⟨kind, hash⟩ := Prod.mk.inj item'
      have had := @replay_had ext _ (.spawnAgent opts) _ entry there seq kind.symm hash.symm
      simp only [had, Option.isNone_some, Bool.false_eq_true, if_false, reserveAgentCalls, List.isEmpty_nil, if_true]
      split
      next value after made => exact (around [] (by simp) (Calm.refl _ tape) made).1 value rfl
      next thrown after made => exact (around [] (by simp) (Calm.refl _ tape) made).2 thrown rfl _ rfl
  | none =>
      have missing := @replay_missing ext _ (.spawnAgent opts) _ there
      have late : ∀ seq ∈ [tape.seq], tape.journal.length ≤ seq := by
        simpa using List.getElem?_eq_none_iff.mp there
      have beyond : tape.journal.length < tape.seq + (reading ext).width (.host (.spawnAgent opts)) := by
        rw [width_host]
        have end' := List.getElem?_eq_none_iff.mp there
        omega
      simp only [missing, Option.isNone_none, if_true]
      rcases @reserve_cases ext host _ _ late tape with
        ⟨middle, granted, calm⟩ | ⟨_, ⟨message, after, refused, calm⟩ | ⟨token, after, ended, calm, sound⟩⟩
      · simp only [granted]
        split
        next value after made => exact (around [tape.seq] late calm made).1 value rfl
        next thrown after made => exact (around [tape.seq] late calm made).2 thrown rfl _ rfl
      · simp only [refused]
        exact (unreserved_performs beyond calm).1 message
      · simp only [ended]
        exact (unreserved_performs beyond calm).2 token sound

theorem callItems_await (kind message : Text) :
    callItems ext (.awaitUser kind message) =
      match PauseKind.parse kind with
      | .error _ => []
      | .ok _ => [("await_user".toList, awaitHash ext kind message)] := by
  rfl

theorem width_eq (call : Call) : (reading ext).width call = (callItems ext call).length := rfl

theorem empty_performs {call : Call} {given : Except Text Json} (none' : callItems ext call = [])
    (place : tape.seq ≤ tape.journal.length)
    (same : verdict ext call [] = .ok given) : Replay.Performs (reading ext) call tape (.ok given) tape := by
  -- A call that takes no sequence number returns the same with any journal.
  have zero : (reading ext).width call = 0 := by rw [width_eq, none']; rfl
  refine .replayed (by rw [zero]; exact place) ?_ ?_ (by rw [zero]; rfl) rfl id (Replay.advances_refl tape)
    (fun _ _ member => .inl member) ?_
  · rw [zero]
    exact same.symm
  · intro stop none''
    cases none''
  · intro index below
    rw [zero] at below
    omega

theorem width_await {kind message : Text} {pause : PauseKind} (parsed : PauseKind.parse kind = .ok pause) :
    (reading ext).width (.awaitUser kind message) = 1 := by
  rw [width_eq, callItems_await, parsed]
  rfl

theorem awaitUser_replayed {kind message : Text} {pause : PauseKind} (parsed : PauseKind.parse kind = .ok pause)
    {entry : JournalEntry} (there : tape.journal[tape.seq]? = some entry)
    (limit : tape.journal.length ≤ maxHostCalls)
    (matches' : Replay.Matches (reading ext) tape.journal tape.seq (.awaitUser kind message)) :
    Replay.Performs (reading ext) (.awaitUser kind message) tape (caught (awaitUser ext host kind message tape).1)
      (awaitUser ext host kind message tape).2 := by
  have one := @width_await ext kind message pause parsed
  obtain ⟨inside, _⟩ := List.getElem?_eq_some_iff.mp there
  have ⟨seq, item, plain⟩ := matches' 0 entry (by rw [one]; omega) there
  have items : callItems ext (.awaitUser kind message) = [("await_user".toList, awaitHash ext kind message)] := by
    rw [callItems_await, parsed]
  rw [items, List.getElem?_cons_zero, Option.some.injEq] at item
  have ⟨kind', hash⟩ := Prod.mk.inj item
  have had : Journal.replay tape.journal tape.seq "await_user".toList (awaitHash ext kind message) =
      .ok (some entry.result) := by
    simp [Journal.replay, there, seq, ← kind', ← hash]
  have null : answerOf entry.result = .value .null := by
    rw [show entry.result = .null from plain]
    rfl
  have next : nextSeq tape = .ok (tape.seq, { tape with seq := tape.seq + 1 }) := by
    rw [nextSeq, if_neg (by omega)]
  simp only [awaitUser, parsed, next, had]
  refine .replayed (by rw [one]; exact inside) ?verdict ?sound (by rw [one]; rfl) rfl id
    ⟨List.prefix_rfl, fun _ _ member => .inl member, ?answers⟩ ?inside ?answered
  case verdict => simp only [caught, reading, verdict, parsed]
  case sound =>
    intro stop none'
    cases none'
  case answers =>
    intro seq' given member
    rcases List.mem_append.mp member with old | new
    · exact .inl old
    · right
      cases List.mem_singleton.mp new
      intro other there'
      cases there.symm.trans there'
      exact null
  case inside =>
    intro seq' given member
    rcases List.mem_append.mp member with old | new
    · exact .inl old
    · right
      cases List.mem_singleton.mp new
      exact inside
  case answered =>
    intro index below
    rw [one] at below
    have first : index = 0 := by omega
    subst first
    exact ⟨.value .null, List.mem_append_right _ (List.mem_singleton.mpr rfl)⟩

theorem awaitUser_recorded {kind message : Text} {pause : PauseKind} (parsed : PauseKind.parse kind = .ok pause)
    (end' : tape.seq = tape.journal.length) :
    Replay.Performs (reading ext) (.awaitUser kind message) tape (caught (awaitUser ext host kind message tape).1)
      (awaitUser ext host kind message tape).2 := by
  have one := @width_await ext kind message pause parsed
  have beyond : tape.journal.length < tape.seq + (reading ext).width (.awaitUser kind message) := by
    rw [one]
    omega
  have missing : Journal.replay tape.journal tape.seq "await_user".toList (awaitHash ext kind message) =
      .ok none := by
    simp [Journal.replay, end']
  simp only [awaitUser, parsed]
  by_cases full : maxHostCalls < tape.seq + 1
  · rw [nextSeq, if_pos full]
    exact .ended beyond rfl (by simp [reading]) (Replay.advances_refl tape)
  · rw [nextSeq, if_neg full]
    simp only [missing]
    have next : tape.seq = ({ tape with seq := tape.seq + 1 } : Tape).journal.length := end'
    rw [record_next _ _ _ next]
    dsimp only
    refine .recorded beyond ?length ?fits ?matches' ?verdict ?sound ?calm
      ⟨List.prefix_append _ _, fun _ _ member => .inl member, fun _ _ member => .inl member⟩
      (fun _ _ member => .inl member)
    case length => simp [one, end']
    case fits =>
      have limit' : (reading ext).limit = maxHostCalls := rfl
      rw [limit']
      simp only [List.length_append, List.length_cons, List.length_nil]
      omega
    case matches' =>
      intro index other below there'
      rw [one] at below
      have first : index = 0 := by omega
      subst first
      simp only [Nat.add_zero, end'] at there'
      rw [List.getElem?_concat_length, Option.some.injEq] at there'
      rw [← there']
      exact ⟨by rw [end', Nat.add_zero], by rw [callItems_await, parsed]; rfl, rfl⟩
    case verdict =>
      intro given none'
      cases none'
    case sound =>
      intro stop same
      cases same
      simp [reading]
    case calm =>
      intro refused
      simpa using refused

theorem awaitUser_performs (kind message : Text) (place : tape.seq ≤ tape.journal.length)
    (limit : tape.journal.length ≤ maxHostCalls)
    (matches' : Replay.Matches (reading ext) tape.journal tape.seq (.awaitUser kind message)) :
    Replay.Performs (reading ext) (.awaitUser kind message) tape (caught (awaitUser ext host kind message tape).1)
      (awaitUser ext host kind message tape).2 := by
  cases parsed : PauseKind.parse kind with
  | error error =>
      have given : awaitUser ext host kind message tape = (.error (.runtime error), tape) := by
        simp only [awaitUser, parsed]
      rw [given]
      refine empty_performs ?_ place ?_
      · rw [callItems_await, parsed]
      · simp only [verdict, parsed]
  | ok pause =>
      cases there : tape.journal[tape.seq]? with
      | some entry => exact awaitUser_replayed parsed there limit matches'
      | none =>
          exact awaitUser_recorded parsed (Nat.le_antisymm place (List.getElem?_eq_none_iff.mp there))

end SingleCalls

section Batches

variable {ext host}

def itemHash (ext : Externals) (opts : AgentOpts) : Text := HostCall.hash ext (.spawnAgent opts)

def MatchesItems (ext : Externals) (journal : List JournalEntry) (seq : Nat) (items : List AgentOpts) : Prop :=
  ∀ index opts entry, items[index]? = some opts → journal[seq + index]? = some entry →
    entry.seq = seq + index ∧ entry.kind = "spawn_agent".toList ∧ entry.reqHash = itemHash ext opts

variable {journal : List JournalEntry} {seq : Nat}

theorem matchesItems_cons {opts : AgentOpts} {rest : List AgentOpts} :
    MatchesItems ext journal seq (opts :: rest) ↔
      (∀ entry, journal[seq]? = some entry →
        entry.seq = seq ∧ entry.kind = "spawn_agent".toList ∧ entry.reqHash = itemHash ext opts) ∧
      MatchesItems ext journal (seq + 1) rest := by
  constructor
  · intro all
    refine ⟨fun entry there => all 0 opts entry rfl there, ?_⟩
    intro index opts' entry item there
    have shift : seq + 1 + index = seq + (index + 1) := by omega
    rw [shift] at there ⊢
    exact all (index + 1) opts' entry item there
  · intro ⟨first, later⟩ index opts' entry item there
    cases index with
    | zero =>
        cases item
        exact first entry there
    | succ index =>
        have shift : seq + (index + 1) = seq + 1 + index := by omega
        rw [shift] at there ⊢
        exact later index opts' entry item there

/-- How the items are resolved: from their entries, or live with what is recorded for them. -/
inductive Resolves (ext : Externals) (journal : List JournalEntry) : Nat → List AgentOpts → List Resolved → Prop
  | nil (seq : Nat) : Resolves ext journal seq [] []
  | had {seq : Nat} {opts : AgentOpts} {rest : List AgentOpts} {resolved : List Resolved} (entry : JournalEntry)
      (there : journal[seq]? = some entry) (later : Resolves ext journal (seq + 1) rest resolved) :
      Resolves ext journal seq (opts :: rest) ({ seq, answer := answerOf entry.result, live := none } :: resolved)
  | live {seq : Nat} {opts : AgentOpts} {rest : List AgentOpts} {resolved : List Resolved} (value : Json)
      (missing : journal[seq]? = none) (later : Resolves ext journal (seq + 1) rest resolved) :
      Resolves ext journal seq (opts :: rest)
        ({ seq, answer := answerOf value, live := some (itemHash ext opts, value) } :: resolved)

theorem resolve_live (seq : Nat) (hash : Text) (reply : Reply AgentResult) :
    ∃ value, resolve (.live seq hash reply) = { seq, answer := answerOf value, live := some (hash, value) } := by
  have null : answerOf .null = .value .null := rfl
  cases reply with
  | value result =>
      exact ⟨result.toJson, by rw [resolve, answerOf_plain (agentResult_plain result)]⟩
  | dropped => exact ⟨hostTerminalSentinel terminalDroppedReply, by rw [resolve, answerOf_terminalSentinel]⟩
  | error error =>
      cases error with
      | agentCallQuotaExceeded requested maximum => exact ⟨.null, by rw [resolve, null]⟩
      | budgetExceeded => exact ⟨hostTerminalSentinel terminalBudget, by rw [resolve, answerOf_terminalSentinel]⟩
      | cancelled => exact ⟨hostTerminalSentinel terminalCancelled, by rw [resolve, answerOf_terminalSentinel]⟩
      | unsupported message => exact ⟨.null, by rw [resolve, null]⟩
      | failed message => exact ⟨.null, by rw [resolve, null]⟩

variable {items : List AgentOpts}

theorem liveSeqs_ok (matches' : MatchesItems ext journal seq items) :
    ∃ live, liveSeqs ext journal seq items = .ok live ∧ (∀ place ∈ live, journal.length ≤ place) ∧
      (seq + items.length ≤ journal.length → live = []) := by
  induction items generalizing seq with
  | nil => exact ⟨[], rfl, by simp, fun _ => rfl⟩
  | cons opts rest ih =>
      have ⟨first, later⟩ := matchesItems_cons.mp matches'
      have ⟨live, found, late, none'⟩ := ih later
      cases there : journal[seq]? with
      | some entry =>
          have ⟨place, kind, hash⟩ := first entry there
          have had := @replay_had ext _ (.spawnAgent opts) _ entry there place kind hash
          refine ⟨live, ?_, late, fun whole => none' (by simp at whole; omega)⟩
          simp [liveSeqs, had, found, Except.map]
      | none =>
          have missing := @replay_missing ext _ (.spawnAgent opts) _ there
          have end' := List.getElem?_eq_none_iff.mp there
          refine ⟨seq :: live, ?_, ?_, fun whole => by simp at whole; omega⟩
          · simp [liveSeqs, missing, found, Except.map]
          · intro place member
            rcases List.mem_cons.mp member with rfl | member
            · exact end'
            · exact late place member

theorem issue_cases (tape : Tape) (matches' : MatchesItems ext tape.journal tape.seq items) :
    (∃ pending after, issue ext host items tape = (.ok pending, after) ∧
        Resolves ext tape.journal tape.seq items (pending.map resolve) ∧
        tape.seq + items.length ≤ max tape.seq maxHostCalls ∧
        Calm tape.journal.length { tape with seq := tape.seq + items.length } after) ∨
      ∃ token after, issue ext host items tape = (.error token, after) ∧ ¬ (reading ext).Broken token ∧
        maxHostCalls < tape.seq + items.length ∧
        Calm tape.journal.length { tape with seq := after.seq } after := by
  -- The batch is sent, or the run has made all the calls it may make.
  induction items generalizing tape with
  | nil => exact .inl ⟨[], tape, rfl, .nil _, by simp, Calm.refl _ _⟩
  | cons opts rest ih =>
      have ⟨first, later⟩ := matchesItems_cons.mp matches'
      unfold issue
      by_cases full : maxHostCalls < tape.seq + 1
      · rw [nextSeq, if_pos full]
        refine .inr ⟨_, tape, rfl, by simp [reading], ?_, Calm.refl _ _⟩
        simp only [List.length_cons]
        omega
      · rw [nextSeq, if_neg full]
        simp only
        cases there : tape.journal[tape.seq]? with
        | some entry =>
            have ⟨place, kind, hash⟩ := first entry there
            have had := @replay_had ext _ (.spawnAgent opts) _ entry there place kind hash
            simp only [had]
            rcases ih { tape with seq := tape.seq + 1 } later with
              ⟨pending, after, issued, resolves, room, calm⟩ | ⟨token, after, issued, sound, beyond, calm⟩
            · refine .inl ⟨.replayed tape.seq entry.result :: pending, after, ?_, .had entry there resolves, ?_, ?_⟩
              · rw [issued]
                rfl
              · simp only [List.length_cons] at room ⊢
                omega
              · rw [List.length_cons, Nat.add_comm rest.length 1, ← Nat.add_assoc]
                exact calm
            · refine .inr ⟨token, after, ?_, sound, ?_, calm⟩
              · rw [issued]
                rfl
              · simp only [List.length_cons] at beyond ⊢
                omega
        | none =>
            have missing := @replay_missing ext _ (.spawnAgent opts) _ there
            have end' := List.getElem?_eq_none_iff.mp there
            have asked := @ask_calm host tape.journal.length [tape.seq] (by simpa using end')
              (.host (.spawnAgent opts)) { tape with seq := tape.seq + 1 }
            simp only [missing]
            generalize sent : ask host [tape.seq] (.host (.spawnAgent opts)) { tape with seq := tape.seq + 1 } =
              made at asked
            obtain ⟨reply, middle⟩ := made
            have journal : middle.journal = tape.journal := asked.journal
            have seq : middle.seq = tape.seq + 1 := asked.seq
            have later' : MatchesItems ext middle.journal middle.seq rest := by
              rw [journal, seq]
              exact later
            obtain ⟨value, live⟩ := resolve_live tape.seq (itemHash ext opts) reply
            rcases ih middle later' with
              ⟨pending, after, issued, resolves, room, calm⟩ | ⟨token, after, issued, sound, beyond, calm⟩
            · have calm' : Calm tape.journal.length { middle with seq := tape.seq + 1 + rest.length } after := by
                rw [← journal, ← seq]
                exact calm
              rw [journal, seq] at resolves
              rw [seq] at room
              refine .inl ⟨.live tape.seq (itemHash ext opts) reply :: pending, after, ?_, ?_, ?_, ?_⟩
              · simp only [issued]
                rfl
              · rw [List.map_cons, live]
                exact .live value there resolves
              · simp only [List.length_cons] at room ⊢
                omega
              · rw [List.length_cons, Nat.add_comm rest.length 1, ← Nat.add_assoc]
                exact (asked.withSeq _).trans calm'
            · have calm' : Calm tape.journal.length { middle with seq := after.seq } after := by
                rw [← journal]
                exact calm
              rw [seq] at beyond
              refine .inr ⟨token, after, ?_, sound, ?_, ?_⟩
              · simp only [issued]
                rfl
              · simp only [List.length_cons] at beyond ⊢
                omega
              · exact (asked.withSeq _).trans calm'

variable {resolved : List Resolved}

theorem resolves_length (resolves : Resolves ext journal seq items resolved) :
    resolved.length = items.length := by
  induction resolves with
  | nil seq => rfl
  | had entry there later ih => simp [ih]
  | live value missing later ih => simp [ih]

theorem resolves_seq (resolves : Resolves ext journal seq items resolved) {index : Nat}
    {item : Resolved} (there : resolved[index]? = some item) : item.seq = seq + index := by
  induction resolves generalizing index with
  | nil seq => simp at there
  | had entry there' later ih =>
      cases index with
      | zero => cases there; rfl
      | succ index =>
          rw [ih there]
          omega
  | live value missing later ih =>
      cases index with
      | zero => cases there; rfl
      | succ index =>
          rw [ih there]
          omega

structure Covers (ext : Externals) (journal : List JournalEntry) (seq : Nat) (items : List AgentOpts)
    (resolved : List Resolved) : Prop where
  items : MatchesItems ext journal seq items
  answers : ∀ index item entry, resolved[index]? = some item → journal[seq + index]? = some entry →
    answerOf entry.result = item.answer

theorem covers_cons {opts : AgentOpts} {rest : List AgentOpts}
    {item : Resolved} (entry : JournalEntry) (there : journal[seq]? = some entry)
    (place : entry.seq = seq) (kind : entry.kind = "spawn_agent".toList) (hash : entry.reqHash = itemHash ext opts)
    (given : answerOf entry.result = item.answer) (later : Covers ext journal (seq + 1) rest resolved) :
    Covers ext journal seq (opts :: rest) (item :: resolved) := by
  constructor
  · refine matchesItems_cons.mpr ⟨?_, later.items⟩
    intro entry' there'
    cases there.symm.trans there'
    exact ⟨place, kind, hash⟩
  · intro index item' entry' found there'
    cases index with
    | zero =>
        cases found
        cases there.symm.trans there'
        exact given
    | succ index =>
        have shift : seq + (index + 1) = seq + 1 + index := by omega
        rw [shift] at there'
        exact later.answers index item' entry' found there'

theorem recordAll_ok (resolves : Resolves ext journal seq items resolved)
    (matches' : MatchesItems ext journal seq items) {tape : Tape} (extends' : journal <+: tape.journal)
    (place : seq ≤ journal.length ∧ tape.journal = journal ∨
      journal.length ≤ seq ∧ tape.journal.length = seq) :
    ∃ more heard,
      recordAll host resolved tape =
          (none, { tape with journal := tape.journal ++ more, heard := tape.heard ++ heard }) ∧
        .refused ∉ heard ∧
        (journal.length < seq + items.length → (tape.journal ++ more).length = seq + items.length) ∧
        (seq + items.length ≤ journal.length → more = []) ∧
        Covers ext (tape.journal ++ more) seq items resolved := by
  induction resolves generalizing tape with
  | nil seq =>
      refine ⟨[], [], by simp [recordAll], by simp, ?_, fun _ => rfl, ?_⟩
      · intro beyond
        simp only [List.length_nil, Nat.add_zero] at beyond
        simp only [List.append_nil, List.length_nil, Nat.add_zero]
        omega
      · exact ⟨by intro index opts entry none'; simp at none', by intro index item entry none'; simp at none'⟩
  | @had seq opts rest resolved entry there later ih =>
      obtain ⟨inside, _⟩ := List.getElem?_eq_some_iff.mp there
      have ⟨first, matches''⟩ := matchesItems_cons.mp matches'
      have same : tape.journal = journal := by
        rcases place with ⟨_, same⟩ | ⟨early, _⟩
        · exact same
        · omega
      obtain ⟨more, heard, recorded, calm, length, none', covers⟩ := ih matches'' extends' (.inl ⟨inside, same⟩)
      have ⟨place', kind, hash⟩ := first entry there
      refine ⟨more, heard, by rw [recordAll]; exact recorded, calm, ?_, ?_, ?_⟩
      · intro beyond
        rw [List.length_cons] at beyond ⊢
        rw [length (by omega)]
        omega
      · intro whole
        rw [List.length_cons] at whole
        exact none' (by omega)
      · refine covers_cons entry ?_ place' kind hash rfl covers
        rw [same, List.getElem?_append_left inside]
        exact there
  | @live seq opts rest resolved value missing later ih =>
      have end' := List.getElem?_eq_none_iff.mp missing
      have ⟨_, matches''⟩ := matchesItems_cons.mp matches'
      have next : seq = tape.journal.length := by
        rcases place with ⟨before, same⟩ | ⟨_, length⟩
        · rw [same]
          omega
        · exact length.symm
      let entry : JournalEntry :=
        { seq, kind := "spawn_agent".toList, reqHash := itemHash ext opts, result := value, atMs := host.clock seq }
      let after : Tape := { tape with heard := tape.heard ++ [.journal], journal := tape.journal ++ [entry] }
      obtain ⟨more, heard, recorded, calm, length, none', covers⟩ :=
        @ih matches'' after (extends'.trans (List.prefix_append _ _))
          (.inr ⟨by omega, by simp [after, next]⟩)
      refine ⟨entry :: more, .journal :: heard, ?_, by simpa using calm, ?_, ?_, ?_⟩
      · rw [recordAll]
        simp only [record_next _ _ _ next]
        rw [show recordAll host resolved _ = _ from recorded]
        simp [after, entry]
      · intro beyond
        rw [List.length_cons] at beyond ⊢
        have length' := length (by omega)
        simp only [after, List.append_assoc, List.singleton_append] at length'
        rw [length']
        omega
      · intro whole
        rw [List.length_cons] at whole
        omega
      · have split : tape.journal ++ entry :: more = after.journal ++ more := by simp [after]
        rw [split]
        refine covers_cons entry ?_ rfl rfl rfl rfl covers
        have inside : seq < after.journal.length := by simp [after, next]
        rw [List.getElem?_append_left inside]
        simp [after, next]

theorem covers_slice (covers : Covers ext journal seq items resolved)
    (length : resolved.length = items.length) (inside : seq + items.length ≤ journal.length) :
    (Replay.slice journal seq items.length).map (fun entry => answerOf entry.result) =
      resolved.map Resolved.answer := by
  apply List.ext_getElem?
  intro index
  rw [List.getElem?_map, List.getElem?_map, Replay.slice, List.getElem?_take, List.getElem?_drop]
  by_cases below : index < items.length
  · have there : journal[seq + index]? = some journal[seq + index] := List.getElem?_eq_getElem (by omega)
    have found : resolved[index]? = some resolved[index] := List.getElem?_eq_getElem (by omega)
    rw [if_pos below, there, found, Option.map_some, Option.map_some, covers.answers index _ _ found there]
  · rw [if_neg below, List.getElem?_eq_none (by omega)]
    rfl

theorem callItems_parallel (few : ¬ maxParallel < items.length) :
    callItems ext (.parallel items) = items.map fun opts => ("spawn_agent".toList, itemHash ext opts) := by
  rw [callItems, if_neg few]
  rfl

theorem matches_parallel (few : ¬ maxParallel < items.length) :
    Replay.Matches (reading ext) journal seq (.parallel items) ↔ MatchesItems ext journal seq items := by
  have width : (reading ext).width (.parallel items) = items.length := by
    rw [width_eq, callItems_parallel few, List.length_map]
  constructor
  · intro matches' index opts entry item there
    have below : index < items.length := (List.getElem?_eq_some_iff.mp item).1
    have ⟨place, fits, _⟩ := matches' index entry (by rw [width]; exact below) there
    rw [callItems_parallel few, List.getElem?_map, item, Option.map_some, Option.some.injEq] at fits
    have ⟨kind, hash⟩ := Prod.mk.inj fits
    exact ⟨place, kind.symm, hash.symm⟩
  · intro matches' index entry below there
    rw [width] at below
    have item : items[index]? = some items[index] := List.getElem?_eq_getElem below
    have ⟨place, kind, hash⟩ := matches' index _ entry item there
    refine ⟨place, ?_, trivial⟩
    rw [callItems_parallel few, List.getElem?_map, item, Option.map_some, kind, hash]

theorem mapM_toDynamic (values : List Json) :
    (∃ message, values.mapM (toDynamic ext) = .error (.runtime message)) ∨
      ∃ delivered, values.mapM (toDynamic ext) = .ok delivered := by
  induction values with
  | nil => exact .inr ⟨[], rfl⟩
  | cons value rest ih =>
      rw [List.mapM_cons]
      cases given : ext.valueToDynamic value with
      | error message => exact .inl ⟨message, by simp [toDynamic, given, Except.mapError, bind, Except.bind]⟩
      | ok dynamic =>
          rcases ih with ⟨message, failed⟩ | ⟨delivered, done⟩
          · exact .inl ⟨message, by simp [toDynamic, given, Except.mapError, failed, bind, Except.bind]⟩
          · exact .inr ⟨dynamic :: delivered, by
              simp [toDynamic, given, Except.mapError, done, bind, Except.bind, pure, Except.pure]⟩

theorem conclude_sound (answers : List Answer) {token : ControlToken}
    (ended : caught (conclude ext answers none) = .error token) : ¬ (reading ext).Broken token := by
  unfold conclude at ended
  split at ended
  next kind _ =>
    cases ended
    intro broken
    obtain ⟨error, same⟩ := broken
    unfold hostTerminalError at same
    split at same
    · cases same
    · split at same
      · cases same
      · split at same <;> cases same
  · split at ended
    · cases ended
    · dsimp only at ended
      rcases @mapM_toDynamic ext (answers.filterMap Answer.value?) with ⟨message, failed⟩ | ⟨delivered, done⟩
      · rw [failed] at ended
        cases ended
      · rw [done] at ended
        cases ended

theorem conclude_resumable {answers : List Answer} (resumable : answers.any Answer.resumable = true) :
    ∃ token, caught (conclude ext answers none) = .error token := by
  obtain ⟨given, member, terminal⟩ := List.any_eq_true.mp resumable
  have some' : (answers.findSome? Answer.terminal?).isSome := by
    rw [List.findSome?_isSome_iff]
    refine ⟨given, member, ?_⟩
    cases given with
    | terminal kind => rfl
    | value value => simp [Answer.resumable] at terminal
    | error message => simp [Answer.resumable] at terminal
  obtain ⟨kind, first⟩ := Option.isSome_iff_exists.mp some'
  exact ⟨hostTerminalError kind, by simp only [conclude, first]; rfl⟩

structure Batch (ext : Externals) (items : List AgentOpts) (resolved : List Resolved) (before after : Tape) :
    Prop where
  length : resolved.length = items.length
  seq : after.seq = before.seq + items.length
  room : before.seq + items.length ≤ max before.seq maxHostCalls
  answers : after.answers = before.answers ++ resolved.map fun item => (item.seq, item.answer)
  places : ∀ index item, resolved[index]? = some item → item.seq = before.seq + index
  refused : .refused ∈ after.heard → .refused ∈ before.heard
  sent : ∀ seqs request, (seqs, request) ∈ after.sent →
    (seqs, request) ∈ before.sent ∨ ∀ seq ∈ seqs, before.journal.length ≤ seq

theorem batch_calm {before after last : Tape}
    (batch : Batch ext items resolved before after) (calm : Calm before.journal.length after last) :
    Batch ext items resolved before last :=
  { length := batch.length
    seq := calm.seq.trans batch.seq
    room := batch.room
    answers := calm.answers.trans batch.answers
    places := batch.places
    refused := fun refused => batch.refused (calm.refused refused)
    sent := by
      intro seqs request member
      rcases calm.sent seqs request member with old | late
      · exact batch.sent seqs request old
      · exact .inr late }

variable {before after : Tape}

theorem batch_answer (batch : Batch ext items resolved before after) {given : Answer}
    (member : (seq, given) ∈ after.answers) : (seq, given) ∈ before.answers ∨
      ∃ index item, resolved[index]? = some item ∧ seq = before.seq + index ∧ given = item.answer := by
  rw [batch.answers] at member
  rcases List.mem_append.mp member with old | new
  · exact .inl old
  · obtain ⟨item, there, same⟩ := List.mem_map.mp new
    obtain ⟨index, found⟩ := List.mem_iff_getElem?.mp there
    cases same
    exact .inr ⟨index, item, found, batch.places index item found, rfl⟩

theorem batch_advances
    (batch : Batch ext items resolved before after) (extends' : before.journal <+: after.journal)
    (longer : after.journal <+: journal)
    (covers : Covers ext journal before.seq items resolved) : Replay.Advances (reading ext) before after := by
  refine ⟨extends', batch.sent, ?_⟩
  intro seq given member
  rcases batch_answer batch member with old | ⟨index, item, found, place, same⟩
  · exact .inl old
  · right
    intro entry there
    obtain ⟨more, rfl⟩ := longer
    have inside := (List.getElem?_eq_some_iff.mp there).1
    rw [place] at there inside
    rw [same]
    exact covers.answers index item entry found (by rw [List.getElem?_append_left inside]; exact there)

theorem batch_had (few : ¬ maxParallel < items.length) (batch : Batch ext items resolved before after)
    (same : after.journal = before.journal) (covers : Covers ext before.journal before.seq items resolved)
    (whole : before.seq + items.length ≤ before.journal.length) :
    Replay.Performs (reading ext) (.parallel items) before
      (caught (conclude ext (resolved.map Resolved.answer) none)) after := by
  have width : (reading ext).width (.parallel items) = items.length := by
    rw [width_eq, callItems_parallel few, List.length_map]
  refine .replayed (by rw [width]; exact whole) ?verdict (fun _ ended => conclude_sound _ ended)
    (by rw [width]; exact batch.seq) same batch.refused
    (batch_advances batch (by rw [same]) (by rw [same]) covers) ?inside ?answered
  case verdict =>
    rw [width]
    have given := covers_slice covers batch.length whole
    simp only [reading, verdict, if_neg few, given]
  case inside =>
    intro seq given member
    rcases batch_answer batch member with old | ⟨index, item, found, place, _⟩
    · exact .inl old
    · right
      have below := (List.getElem?_eq_some_iff.mp found).1
      have length := batch.length
      rw [same]
      omega
  case answered =>
    intro index below
    rw [width, ← batch.length] at below
    have found : resolved[index]? = some resolved[index] := List.getElem?_eq_getElem below
    refine ⟨resolved[index].answer, ?_⟩
    rw [batch.answers]
    refine List.mem_append_right _ (List.mem_map.mpr ⟨resolved[index], List.getElem_mem below, ?_⟩)
    rw [batch.places index _ found]

theorem batch_recorded
    (few : ¬ maxParallel < items.length) (batch : Batch ext items resolved before after)
    (extends' : before.journal <+: after.journal) (covers : Covers ext after.journal before.seq items resolved)
    (place : before.seq ≤ maxHostCalls) (beyond : before.journal.length < before.seq + items.length)
    (length : after.journal.length = before.seq + items.length) :
    Replay.Performs (reading ext) (.parallel items) before
      (caught (conclude ext (resolved.map Resolved.answer) none)) after := by
  have width : (reading ext).width (.parallel items) = items.length := by
    rw [width_eq, callItems_parallel few, List.length_map]
  refine .recorded (by rw [width]; exact beyond) (by rw [width]; exact length)
    (by rw [length]; exact Nat.le_trans batch.room (Nat.max_le.mpr ⟨place, Nat.le_refl _⟩)) ((matches_parallel few).mpr covers.items) ?verdict
    (fun _ ended => conclude_sound _ ended) batch.refused
    (batch_advances batch extends' List.prefix_rfl covers) ?inside
  case verdict =>
    intro given same
    refine ⟨by rw [batch.seq, length], ?_⟩
    rw [width]
    have answers := covers_slice covers batch.length (Nat.le_of_eq length.symm)
    simp only [reading, verdict, if_neg few, answers]
    exact same
  case inside =>
    intro seq given member
    rcases batch_answer batch member with old | ⟨index, item, found, place, _⟩
    · exact .inl old
    · right
      have below := (List.getElem?_eq_some_iff.mp found).1
      have count := batch.length
      omega

theorem parallel_cases (few : ¬ maxParallel < items.length) (tape : Tape)
    (matches' : MatchesItems ext tape.journal tape.seq items) :
    (tape.journal.length < tape.seq + items.length ∧
        ((∃ message after, parallel ext host items tape = (.error (.runtime message), refuse after) ∧
            Calm tape.journal.length tape after) ∨
          ∃ token after, parallel ext host items tape = (.error (.terminated token), after) ∧
            Calm tape.journal.length tape after ∧ ¬ (reading ext).Broken token)) ∨
      (∃ token after, parallel ext host items tape = (.error (.terminated token), after) ∧
          maxHostCalls < tape.seq + items.length ∧
          Calm tape.journal.length { tape with seq := after.seq } after ∧ ¬ (reading ext).Broken token) ∨
      ∃ resolved answered live, Resolves ext tape.journal tape.seq items resolved ∧
        Batch ext items resolved tape answered ∧ answered.journal = tape.journal ∧
        tape.heard <+: answered.heard ∧
        (∀ seq ∈ live, tape.journal.length ≤ seq) ∧
        parallel ext host items tape =
          if (resolved.map Resolved.answer).any Answer.resumable then
            (conclude ext (resolved.map Resolved.answer) none, releaseAgentCalls host live answered)
          else
            let recorded := recordAll host resolved answered
            (conclude ext (resolved.map Resolved.answer) recorded.1, recorded.2) := by
  -- A batch up to its answers: it is refused or ends the run, or is answered.
  obtain ⟨live, found, late, none'⟩ := liveSeqs_ok matches'
  have beyond (some' : live ≠ []) : tape.journal.length < tape.seq + items.length := by
    by_contra whole
    exact some' (none' (Nat.le_of_not_lt whole))
  unfold parallel
  rw [if_neg few]
  simp only [found]
  rcases @reserve_cases ext host _ live late tape with
    ⟨middle, granted, calm⟩ | ⟨some', ⟨message, after, refused, calm⟩ | ⟨token, after, ended, calm, sound⟩⟩
  · simp only [granted]
    have matches'' : MatchesItems ext middle.journal middle.seq items := by
      rw [calm.journal, calm.seq]
      exact matches'
    rcases @issue_cases ext host items middle matches'' with
      ⟨pending, after, issued, resolves, room, calm'⟩ | ⟨token, after, issued, sound, past, calm'⟩
    · simp only [issued]
      rw [calm.journal, calm.seq] at resolves
      rw [calm.seq] at room
      have whole : Calm tape.journal.length { tape with seq := tape.seq + items.length } after := by
        have sent : Calm tape.journal.length { middle with seq := middle.seq + items.length } after := by
          rw [← calm.journal]
          exact calm'
        rw [calm.seq] at sent
        exact (calm.withSeq _).trans sent
      refine .inr (.inr ⟨pending.map resolve,
        { after with answers := after.answers ++ (pending.map resolve).map fun item => (item.seq, item.answer) },
        live, resolves, ?_, whole.journal, ?_, late, ?_⟩)
      · exact
          { length := resolves_length resolves
            seq := whole.seq
            room
            answers := by rw [whole.answers]
            places := fun index item there => resolves_seq resolves there
            refused := whole.refused
            sent := whole.sent }
      · exact whole.heard
      · rfl
    · simp only [issued]
      rw [calm.seq] at past
      refine .inr (.inl ⟨token, after, rfl, past, ?_, sound⟩)
      have sent : Calm tape.journal.length { middle with seq := after.seq } after := by
        rw [← calm.journal]
        exact calm'
      exact (calm.withSeq _).trans sent
  · simp only [refused]
    exact .inl ⟨beyond some', .inl ⟨message, after, rfl, calm⟩⟩
  · simp only [ended]
    exact .inl ⟨beyond some', .inr ⟨token, after, rfl, calm, sound⟩⟩

theorem parallel_performs (items : List AgentOpts) {tape : Tape} (place : tape.seq ≤ tape.journal.length)
    (limit : tape.journal.length ≤ maxHostCalls)
    (matches' : Replay.Matches (reading ext) tape.journal tape.seq (.parallel items)) :
    Replay.Performs (reading ext) (.parallel items) tape (caught (parallel ext host items tape).1)
      (parallel ext host items tape).2 := by
  by_cases few : ¬ maxParallel < items.length
  · have matches'' := (matches_parallel few).mp matches'
    have width : (reading ext).width (.parallel items) = items.length := by
      rw [width_eq, callItems_parallel few, List.length_map]
    rcases @parallel_cases ext host items few tape matches'' with
      ⟨beyond, ⟨message, after, refused, calm⟩ | ⟨token, after, ended, calm, sound⟩⟩ |
        ⟨token, after, ended, past, calm, sound⟩ |
        ⟨resolved, answered, live, resolves, batch, same, _, late, made⟩
    · rw [refused]
      exact (unreserved_performs (by rw [width]; exact beyond) calm).1 message
    · rw [ended]
      exact (unreserved_performs (by rw [width]; exact beyond) calm).2 token sound
    · rw [ended]
      have advances := @advances_calm ext { tape with seq := after.seq } _ _ _ (Calm.refl _ _)
        (Replay.advances_refl _) calm
      exact .ended (by rw [width]; omega) calm.journal sound
        ⟨advances.journal, advances.sent, advances.answers⟩
    · have place' : tape.seq ≤ tape.journal.length ∧ answered.journal = tape.journal ∨
          tape.journal.length ≤ tape.seq ∧ answered.journal.length = tape.seq := .inl ⟨place, same⟩
      obtain ⟨more, heard, recorded, calm, length, none', covers⟩ :=
        @recordAll_ok ext host _ _ _ _ resolves matches'' answered (by rw [same]) place'
      rw [same] at covers length
      have released := @release_calm host _ _ late answered
      have batch' : Batch ext items resolved tape
          { answered with journal := answered.journal ++ more, heard := answered.heard ++ heard } := by
        refine { batch with refused := ?_ }
        intro refused
        rcases List.mem_append.mp refused with old | new
        · exact batch.refused old
        · exact absurd new calm
      rw [made]
      by_cases whole : tape.seq + items.length ≤ tape.journal.length
      · have nothing := none' whole
        subst nothing
        rw [List.append_nil] at covers
        split
        · exact batch_had few (batch_calm batch released) (released.journal.trans same) covers whole
        · simp only [recorded]
          exact batch_had few batch' (by simpa using same) covers whole
      · have beyond := Nat.lt_of_not_le whole
        split
        next resumable =>
          obtain ⟨token, ended⟩ := @conclude_resumable ext _ resumable
          have sound := conclude_sound _ ended
          rw [ended]
          refine .ended (by rw [width]; exact beyond) (released.journal.trans same) sound
            (batch_advances (batch_calm batch released) ?_ ?_ covers)
          · rw [released.journal, same]
          · rw [released.journal, same]
            exact List.prefix_append _ _
        next =>
          simp only [recorded]
          refine batch_recorded few batch' ?_ ?_ (by omega) beyond ?_
          · simp only [same]
            exact List.prefix_append _ _
          · simp only [same]
            exact covers
          · simp only [same]
            exact length beyond
  · have many := Decidable.not_not.mp few
    unfold parallel
    rw [if_pos many]
    refine empty_performs ?_ place ?_
    · rw [callItems, if_pos many]
    · simp only [verdict, if_pos many]

theorem perform_performs (call : Call) (tape : Tape) (place : tape.seq ≤ tape.journal.length)
    (limit : tape.journal.length ≤ maxHostCalls)
    (matches' : Replay.Matches (reading ext) tape.journal tape.seq call) :
    Replay.Performs (reading ext) call tape (perform ext host call tape).1 (perform ext host call tape).2 := by
  refine performs_calm (@begin_calm ext _ call tape) ?_ (Calm.refl _ _)
  have place' : (begin' ext call tape).seq ≤ (begin' ext call tape).journal.length := place
  have limit' : (begin' ext call tape).journal.length ≤ maxHostCalls := limit
  have matches'' : Replay.Matches (reading ext) (begin' ext call tape).journal (begin' ext call tape).seq call :=
    matches'
  have value (call : HostCall) {tape : Tape} (place : tape.seq ≤ tape.journal.length)
      (limit : tape.journal.length ≤ maxHostCalls)
      (matches' : Replay.Matches (reading ext) tape.journal tape.seq (.host call)) :
      Replay.Performs (reading ext) (.host call) tape (caught (valueCall ext host call tape).1)
        (valueCall ext host call tape).2 := by
    rw [valueCall_eq]
    exact hostCall_performs call place limit matches'
  cases call with
  | host call =>
      cases call with
      | spawnAgent opts => exact spawnAgentCall_performs opts place' limit' matches''
      | budget => exact value .budget place' limit' matches''
      | renderTemplate name vars => exact value (.renderTemplate name vars) place' limit' matches''
      | writeScratchFile name content => exact value (.writeScratchFile name content) place' limit' matches''
      | readScratchFile name => exact value (.readScratchFile name) place' limit' matches''
      | gitDiffSince commit => exact value (.gitDiffSince commit) place' limit' matches''
  | parallel items => exact parallel_performs items place' limit' matches''
  | awaitUser kind message => exact awaitUser_performs kind message place' limit' matches''

end Batches

section Apart

variable {ext host}

def Quiet (before after : Tape) : Prop := ∃ more, after.heard = before.heard ++ more ∧ .journal ∉ more

theorem quiet_after {before middle after : Tape} (quiet : Quiet before after)
    (first : before.heard <+: middle.heard) (second : middle.heard <+: after.heard) :
    Quiet before middle ∧ Quiet middle after := by
  obtain ⟨more, heard, calm⟩ := quiet
  obtain ⟨early, early'⟩ := first
  obtain ⟨late, late'⟩ := second
  have split : more = early ++ late := by
    rw [← late', ← early', List.append_assoc] at heard
    exact (List.append_cancel_left heard).symm
  rw [split] at calm
  exact ⟨⟨early, early'.symm, fun member => calm (List.mem_append_left _ member)⟩,
    ⟨late, late'.symm, fun member => calm (List.mem_append_right _ member)⟩⟩

theorem not_quiet {before after : Tape} (noted : before.heard ++ [.journal] <+: after.heard) :
    ¬ Quiet before after := by
  intro ⟨more, heard, calm⟩
  obtain ⟨late, late'⟩ := noted
  rw [← late', List.append_assoc] at heard
  rw [← List.append_cancel_left heard] at calm
  exact calm (by simp)

theorem begin_quiet {call : Call} {tape : Tape} (quiet : Quiet tape (begin' ext call tape)) :
    ∀ index, index < (callItems ext call).length → tape.journal[tape.seq + index]? = none := by
  intro index below
  by_contra some'
  have had : (List.range (callItems ext call).length).any
      (fun index => tape.journal[tape.seq + index]?.isSome) = true := by
    refine List.any_eq_true.mpr ⟨index, List.mem_range.mpr below, ?_⟩
    exact Option.isSome_iff_ne_none.mpr some'
  refine not_quiet ?_ quiet
  simp only [begin', had, if_true]
  exact List.prefix_rfl

structure Alone (ext : Externals) (before after : Tape) (result : Except Thrown Json) : Prop where
  advances : Replay.Advances (reading ext) before after
  journal : after.journal = before.journal
  sound : ∀ stop, caught result = .error stop → ¬ (reading ext).Broken stop

theorem runtime_sound (message : Text) :
    ∀ stop, caught (.error (.runtime message)) = .error stop → ¬ (reading ext).Broken stop := by
  intro stop none'
  cases none'

theorem token_sound {token : ControlToken} (sound : ¬ (reading ext).Broken token) :
    ∀ stop, caught (.error (.terminated token)) = .error stop → ¬ (reading ext).Broken stop := by
  intro stop same
  cases same
  exact sound

variable {result : Except Thrown Json}

theorem calm_alone {first : Nat} {before after : Tape}
    (late : before.journal.length ≤ first) (calm : Calm first { before with seq := after.seq } after)
    (sound : ∀ stop, caught result = .error stop → ¬ (reading ext).Broken stop) :
    Alone ext before after result := by
  refine ⟨⟨by rw [calm.journal], ?_, ?_⟩, calm.journal, sound⟩
  · intro seqs request member
    rcases calm.sent seqs request member with old | new
    · exact .inl old
    · exact .inr fun seq there => Nat.le_trans late (new seq there)
  · intro seq given member
    rw [calm.answers] at member
    exact .inl member

theorem record_heard (seq : Nat) (kind hash : Text) (value : Json) (tape : Tape) :
    (record host seq kind hash value tape).2.heard = tape.heard ++ [.journal] := by
  unfold record
  dsimp only
  split <;> rfl

theorem recordAnswer_heard (seq : Nat) (kind hash : Text) (value : Json) (result : Except Thrown Json)
    (given : Answer) (tape : Tape) :
    (recordAnswer host seq kind hash value result given tape).2.heard = tape.heard ++ [.journal] := by
  have noted := @record_heard host seq kind hash value tape
  unfold recordAnswer
  split
  next token after made =>
    rw [made] at noted
    exact noted
  next after made =>
    rw [made] at noted
    exact noted

theorem recordAll_heard (seq : Nat) (given : Answer) (hash : Text) (value : Json) (rest : List Resolved)
    (tape : Tape) :
    tape.heard ++ [.journal] <+:
      (recordAll host ({ seq, answer := given, live := some (hash, value) } :: rest) tape).2.heard := by
  have noted := @record_heard host seq "spawn_agent".toList hash value tape
  unfold recordAll
  dsimp only
  split
  next token after made =>
    rw [made] at noted
    rw [noted]
  next after made =>
    rw [made] at noted
    rw [← noted]
    exact (recordAll_grows rest after).heard

theorem alone_calm {before middle after last : Tape}
    (one : Calm before.journal.length before middle) (alone : Alone ext middle after result)
    (two : Calm before.journal.length after last) : Alone ext before last result :=
  ⟨advances_calm one alone.advances two, two.journal.trans (alone.journal.trans one.journal), alone.sound⟩

theorem delivered_sound (sound : ∀ stop, caught result = .error stop → ¬ (reading ext).Broken stop) :
    ∀ stop, caught (delivered ext result) = .error stop → ¬ (reading ext).Broken stop := by
  intro stop ended
  cases result with
  | error thrown => exact sound stop ended
  | ok value =>
      simp only [delivered, Except.bind, toDynamic] at ended
      cases given : ext.valueToDynamic value <;> simp [given, Except.mapError, caught] at ended

theorem hostCall_alone (call : HostCall) (tape : Tape) (missing : tape.journal[tape.seq]? = none)
    (quiet : Quiet tape (hostCall ext host call tape).2) :
    Alone ext tape (hostCall ext host call tape).2 (hostCall ext host call tape).1 := by
  have end' := List.getElem?_eq_none_iff.mp missing
  have lived := @hostCall_live ext host call tape (replay_missing call missing)
  generalize hostCall ext host call tape = made at lived quiet
  have late {seqs : List Nat} {sent : List (List Nat × HostRequest)} {request : HostRequest}
      (asked : (seqs, request) ∈ sent ∨ seqs = [tape.seq]) :
      (seqs, request) ∈ sent ∨ ∀ seq ∈ seqs, tape.journal.length ≤ seq := by
    rcases asked with old | new
    · exact .inl old
    · right
      intro seq there
      rw [new, List.mem_singleton] at there
      omega
  cases lived with
  | ended sound journal answers sent =>
      refine ⟨⟨by rw [journal], fun seqs request member => late (sent seqs request member), ?_⟩, journal,
        token_sound sound⟩
      intro seq given member
      rw [answers] at member
      exact .inl member
  | refused message sent =>
      refine ⟨⟨by rw [refuse, answer, sent.journal], fun seqs request member => late (sent.sent seqs request member),
        ?_⟩, sent.journal, runtime_sound message⟩
      intro seq given member
      rcases List.mem_append.mp member with old | new
      · rw [sent.answers] at old
        exact .inl old
      · right
        cases List.mem_singleton.mp new
        intro entry there
        simp only [refuse, answer, sent.journal, missing] at there
        cases there
  | recorded value sent room plain =>
      exact absurd quiet (not_quiet (by rw [recordAnswer_heard, sent.heard]))

theorem alone_refl {tape : Tape}
    (sound : ∀ stop, caught result = .error stop → ¬ (reading ext).Broken stop) : Alone ext tape tape result :=
  ⟨Replay.advances_refl tape, rfl, sound⟩

theorem refuse_alone {tape after : Tape} (calm : Calm tape.journal.length tape after) (message : Text) :
    Alone ext tape (refuse after) (.error (.runtime message)) := by
  have alone := alone_calm calm (@alone_refl ext _ after (runtime_sound message)) (Calm.refl _ _)
  exact ⟨⟨alone.advances.journal, alone.advances.sent, alone.advances.answers⟩, alone.journal, alone.sound⟩

theorem valueCall_alone (call : HostCall) (tape : Tape) (missing : tape.journal[tape.seq]? = none)
    (quiet : Quiet tape (valueCall ext host call tape).2) :
    Alone ext tape (valueCall ext host call tape).2 (valueCall ext host call tape).1 := by
  rw [valueCall_eq] at quiet ⊢
  have alone := hostCall_alone call tape missing quiet
  exact ⟨alone.advances, alone.journal, delivered_sound alone.sound⟩

theorem spawnAgentCall_alone (opts : AgentOpts) (tape : Tape) (missing : tape.journal[tape.seq]? = none)
    (quiet : Quiet tape (spawnAgentCall ext host opts tape).2) :
    Alone ext tape (spawnAgentCall ext host opts tape).2 (spawnAgentCall ext host opts tape).1 := by
  have unread := @replay_missing ext _ (.spawnAgent opts) _ missing
  have late : ∀ seq ∈ [tape.seq], tape.journal.length ≤ seq := by
    simpa using List.getElem?_eq_none_iff.mp missing
  unfold spawnAgentCall at quiet ⊢
  simp only [unread, Option.isNone_none, if_true] at quiet ⊢
  rcases @reserve_cases ext host _ _ late tape with
    ⟨middle, granted, calm⟩ | ⟨_, ⟨message, after, refused, calm⟩ | ⟨token, after, ended, calm, sound⟩⟩
  · simp only [granted] at quiet ⊢
    have missing' : middle.journal[middle.seq]? = none := by
      rw [calm.journal, calm.seq]
      exact missing
    have alone := @hostCall_alone ext host (.spawnAgent opts) middle missing'
    have grows := @hostCall_grows ext host (.spawnAgent opts) middle
    generalize hostCall ext host (.spawnAgent opts) middle = made at alone grows quiet ⊢
    obtain ⟨result, after⟩ := made
    cases result with
    | ok value =>
        have quiet' := (quiet_after quiet calm.heard grows.heard).2
        have alone' := alone_calm calm (alone quiet') (Calm.refl _ _)
        exact ⟨alone'.advances, alone'.journal, delivered_sound alone'.sound⟩
    | error thrown =>
        dsimp only at quiet ⊢
        split at quiet
        next resumable =>
          rw [if_pos resumable]
          have released := @release_calm host _ _ late after
          have quiet' := (quiet_after quiet calm.heard (grows.heard.trans released.heard)).2
          exact alone_calm calm (alone (quiet_after quiet' grows.heard released.heard).1) released
        next resumable =>
          rw [if_neg resumable]
          exact alone_calm calm (alone (quiet_after quiet calm.heard grows.heard).2) (Calm.refl _ _)
  · simp only [refused]
    exact refuse_alone calm message
  · simp only [ended]
    exact alone_calm calm (alone_refl (token_sound sound)) (Calm.refl _ _)

theorem awaitUser_alone (kind message : Text) (tape : Tape)
    (missing : ∀ pause, PauseKind.parse kind = .ok pause → tape.journal[tape.seq]? = none)
    (quiet : Quiet tape (awaitUser ext host kind message tape).2) :
    Alone ext tape (awaitUser ext host kind message tape).2 (awaitUser ext host kind message tape).1 := by
  unfold awaitUser at quiet ⊢
  cases parsed : PauseKind.parse kind with
  | error error => exact alone_refl (runtime_sound error)
  | ok pause =>
      have unread : Journal.replay tape.journal tape.seq "await_user".toList (awaitHash ext kind message) =
          .ok none := by
        simp [Journal.replay, missing pause parsed]
      by_cases full : maxHostCalls < tape.seq + 1
      · rw [nextSeq, if_pos full]
        exact alone_refl (token_sound (by simp [reading]))
      · simp only [parsed, nextSeq, if_neg full, unread] at quiet
        have noted := @record_heard host tape.seq "await_user".toList (awaitHash ext kind message) .null
          { tape with seq := tape.seq + 1 }
        split at quiet
        next token after made =>
          rw [made] at noted
          exact absurd quiet (not_quiet (by rw [noted]))
        next after made =>
          rw [made] at noted
          exact absurd quiet (not_quiet (by rw [noted]))

theorem parallel_alone (items : List AgentOpts) (tape : Tape)
    (missing : ¬ maxParallel < items.length → ∀ index, index < items.length → tape.journal[tape.seq + index]? = none)
    (quiet : Quiet tape (parallel ext host items tape).2) :
    Alone ext tape (parallel ext host items tape).2 (parallel ext host items tape).1 := by
  by_cases few : ¬ maxParallel < items.length
  · have none' := missing few
    have matches' : MatchesItems ext tape.journal tape.seq items := by
      intro index opts entry item there
      rw [none' index (List.getElem?_eq_some_iff.mp item).1] at there
      cases there
    rcases @parallel_cases ext host items few tape matches' with
      ⟨_, ⟨message, after, refused, calm⟩ | ⟨token, after, ended, calm, sound⟩⟩ |
        ⟨token, after, ended, _, calm, sound⟩ |
        ⟨resolved, answered, live, resolves, batch, same, heard, late, made⟩
    · rw [refused]
      exact refuse_alone calm message
    · rw [ended]
      exact alone_calm calm (alone_refl (token_sound sound)) (Calm.refl _ _)
    · rw [ended]
      exact calm_alone (Nat.le_refl _) calm (token_sound sound)
    · have covers : Covers ext tape.journal tape.seq items resolved := by
        refine ⟨matches', ?_⟩
        intro index item entry found there
        have below := (List.getElem?_eq_some_iff.mp found).1
        rw [none' index (by rw [← batch.length]; exact below)] at there
        cases there
      rw [made] at quiet ⊢
      split
      next resumable =>
        have released := @release_calm host _ _ late answered
        refine ⟨batch_advances (batch_calm batch released) ?_ ?_ covers, released.journal.trans same,
          fun stop ended => conclude_sound _ ended⟩
        · rw [released.journal, same]
        · rw [released.journal, same]
      next resumable =>
        rw [if_neg resumable] at quiet
        cases resolves with
        | nil =>
            change Alone ext tape answered (conclude ext [] none)
            exact ⟨batch_advances batch (by rw [same]) (by rw [same]) covers, same,
              fun stop ended => conclude_sound _ ended⟩
        | had entry there later =>
            exact absurd (there.symm.trans (none' 0 (by simp))) (by simp)
        | @live _ opts rest resolved value _ later =>
            have noted := @recordAll_heard host tape.seq (answerOf value) (itemHash ext opts) value resolved answered
            exact absurd (quiet_after quiet heard ((List.prefix_append _ _).trans noted)).2 (not_quiet noted)
  · have many := Decidable.not_not.mp few
    unfold parallel
    rw [if_pos many]
    exact alone_refl (runtime_sound _)

theorem perform_alone (call : Call) (tape : Tape) (quiet : Quiet tape (perform ext host call tape).2) :
    Alone ext tape (dispatch ext host call (begin' ext call tape)).2
      (dispatch ext host call (begin' ext call tape)).1 := by
  have begun := @begin_calm ext tape.journal.length call tape
  have ⟨first, later⟩ := quiet_after quiet begun.heard (dispatch_grows call (begin' ext call tape)).heard
  have none' := begin_quiet first
  refine alone_calm begun ?_ (Calm.refl _ _)
  have missing : 0 < (callItems ext call).length →
      (begin' ext call tape).journal[(begin' ext call tape).seq]? = none := fun some' => none' 0 some'
  cases call with
  | host call =>
      have missing' := missing (by simp [callItems])
      cases call with
      | spawnAgent opts => exact spawnAgentCall_alone opts _ missing' later
      | budget => exact valueCall_alone .budget _ missing' later
      | renderTemplate name vars => exact valueCall_alone (.renderTemplate name vars) _ missing' later
      | writeScratchFile name content => exact valueCall_alone (.writeScratchFile name content) _ missing' later
      | readScratchFile name => exact valueCall_alone (.readScratchFile name) _ missing' later
      | gitDiffSince commit => exact valueCall_alone (.gitDiffSince commit) _ missing' later
  | parallel items =>
      refine parallel_alone items _ ?_ later
      intro few index below
      exact none' index (by rw [callItems_parallel few, List.length_map]; exact below)
  | awaitUser kind message =>
      refine awaitUser_alone kind message _ ?_ later
      intro pause parsed
      exact missing (by rw [callItems_await, parsed]; simp)

end Apart

theorem perform_faithful : Replay.Faithful (reading ext) (perform ext host) := by
  constructor
  · intro call before
    exact (dispatch_grows call (begin' ext call before)).performed
  · intro call before entry member
    exact (dispatch_grows call (begin' ext call before)).answers.subset member
  · intro call before
    exact (@begin_calm ext 0 call before).heard.trans (dispatch_grows call (begin' ext call before)).heard
  · exact perform_performs
  · intro call before more heard calm
    have alone := perform_alone call before ⟨more, heard, calm⟩
    exact ⟨alone.advances, alone.journal, alone.sound⟩

end GrokPi.Workflow
