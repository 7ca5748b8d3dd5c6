import GrokPi.Workflow.EngineCalls
import GrokPi.Workflow.JournalText

set_option autoImplicit false

namespace GrokPi.Workflow

variable (ext : Externals) (codec : EntryCodec)

def appended (journal : Journal) (file : Bytes) (run : Tape) : Bytes :=
  file ++ Journal.render codec (run.journal.drop journal.entries.length)

structure Kept (run : Tape) : Prop where
  orderly : Replay.Orderly run.heard
  readable : ∀ entry ∈ run.journal, Journal.Readable codec entry
  -- an append that finds no room fails
  room : (Journal.render codec run.journal).length ≤ maxJournalBytes

inductive Left (script : Script) : Bytes → Prop
  | fresh : Left script []
  | rest {file rest part : Bytes} {failure : Option Text} {journal : Journal} (left : Left script file)
      (resumed : Journal.resume codec file failure = .ok (journal, rest)) (host : Host)
      (kept : Kept codec (runWorkflow ext host script journal.entries).2)
      (cut : part <+: appended codec journal rest (runWorkflow ext host script journal.entries).2) :
      Left script part

theorem outcome_journal {result : Except ControlToken ScriptEnd} {error : JournalError}
    (failed : outcome result = .failed (.journal error)) : result = .error (.fatal (.journal error)) := by
  cases result with
  | ok ended => cases ended <;> cases failed
  | error token =>
      cases token with
      | fatal reason =>
          cases failed
          rfl
      | budget message => cases failed
      | cancelled => cases failed
      | pause kind message => cases failed

section Files

variable {ext codec}

/-- What a file holds, whole or cut: the journal of the last run. -/
structure Holds (ext : Externals) (codec : EntryCodec) (script : Script) (file : Bytes)
    (entries : List JournalEntry) : Prop where
  stored : Journal.Stored codec entries
  room : (Journal.render codec entries).length ≤ maxJournalBytes
  cut : file <+: Journal.render codec entries
  left : ∀ kept, kept <+: entries → Replay.Left (perform ext) script kept

variable {script : Script}

theorem legit_dense {journal : List JournalEntry}
    (legit : Replay.Legit (reading ext) script 0 journal) : Journal.Dense journal := by
  unfold Journal.Dense
  apply List.ext_getElem
  · simp
  · intro place inside _
    rw [List.length_map] at inside
    obtain ⟨call, index, fits⟩ := Replay.legit_fits script legit (Nat.zero_le place)
      (List.getElem?_eq_getElem inside)
    simpa using fits.1

theorem appended_eq {journal : Journal} {host : Host}
    (grown : journal.entries <+: (runWorkflow ext host script journal.entries).2.journal) :
    appended codec journal (Journal.render codec journal.entries)
        (runWorkflow ext host script journal.entries).2 =
      Journal.render codec (runWorkflow ext host script journal.entries).2.journal := by
  obtain ⟨more, same⟩ := grown
  rw [appended, ← same, List.drop_left, Journal.render_append]

theorem run_holds {journal : Journal} {part : Bytes} {host : Host}
    (left : Replay.Left (perform ext) script journal.entries)
    (kept : Kept codec (runWorkflow ext host script journal.entries).2)
    (cut : part <+: appended codec journal (Journal.render codec journal.entries)
      (runWorkflow ext host script journal.entries).2) :
    Holds ext codec script part (runWorkflow ext host script journal.entries).2.journal := by
  have ends := Replay.left_ends (fun host => perform_faithful ext host) left host kept.orderly
  rw [appended_eq ends.journal] at cut
  exact
    { stored :=
        { dense := legit_dense ends.legit
          room := ends.limit
          readable := kept.readable }
      room := kept.room
      cut := cut
      left := fun journal' part' => .rest host left kept.orderly part' }

theorem holds_resumes {file : Bytes} {entries : List JournalEntry}
    (holds : Holds ext codec script file entries) {failure : Option Text} {journal : Journal} {rest : Bytes}
    (resumed : Journal.resume codec file failure = .ok (journal, rest)) :
    rest = Journal.render codec journal.entries ∧ Replay.Left (perform ext) script journal.entries := by
  obtain ⟨journal', resumes, part, -⟩ := Journal.resume_part holds.stored holds.room holds.cut failure
  rw [resumes] at resumed
  cases resumed
  exact ⟨rfl, holds.left _ part⟩

theorem left_holds {file : Bytes} (left : Left ext codec script file) :
    ∃ entries, Holds ext codec script file entries := by
  induction left with
  | fresh =>
      refine ⟨[], ?_, by simp, by simp, ?_⟩
      · exact ⟨rfl, Nat.zero_le _, by simp⟩
      · intro kept part
        rw [List.prefix_nil.mp part]
        exact .fresh
  | rest left resumed host kept cut ih =>
      obtain ⟨entries, holds⟩ := ih
      obtain ⟨rfl, left'⟩ := holds_resumes holds resumed
      exact ⟨_, run_holds left' kept cut⟩

end Files

/-- A file that runs of the script left is resumed, the run from it never fails by its journal, and
what that run leaves is replayed as it was. -/
theorem workflow_replays (script : Script) {file : Bytes} (left : Left ext codec script file)
    (failure : Option Text) :
    ∃ journal rest, Journal.resume codec file failure = .ok (journal, rest) ∧
      ∀ host, Replay.Orderly (runWorkflow ext host script journal.entries).2.heard →
        let run := (runWorkflow ext host script journal.entries).2
        (∀ error, (runWorkflow ext host script journal.entries).1 ≠ .failed (.journal error)) ∧
          Journal.Dense run.journal ∧
          (Kept codec run → ∀ part failure', part <+: appended codec journal rest run →
            ∃ kept rest', Journal.resume codec part failure' = .ok (kept, rest') ∧
              kept.entries <+: run.journal ∧
              (∀ entries, entries <+: run.journal → Journal.render codec entries <+: part →
                entries.dropLast <+: kept.entries ∧ (failure' = none → entries <+: kept.entries)) ∧
              ∀ again, Replay.Orderly (runWorkflow ext again script kept.entries).2.heard →
                Replay.Repeats (reading ext) kept.entries run
                  (runWorkflow ext again script kept.entries).2) := by
  have faithful : ∀ host, Replay.Faithful (reading ext) (perform ext host) := perform_faithful ext
  obtain ⟨entries, holds⟩ := left_holds left
  obtain ⟨journal, resumed, part, -⟩ := Journal.resume_part holds.stored holds.room holds.cut failure
  have left' := holds.left _ part
  refine ⟨journal, _, resumed, ?_⟩
  intro host orderly run
  have ends := Replay.left_ends faithful left' host orderly
  refine ⟨?_, legit_dense ends.legit, ?_⟩
  · intro error failed
    exact ends.sound _ (outcome_journal failed) ⟨error, rfl⟩
  · intro kept cutFile failure' cut
    have holds' := run_holds left' kept cut
    obtain ⟨again', resumed', part', whole⟩ :=
      Journal.resume_part holds'.stored holds'.room holds'.cut failure'
    refine ⟨again', _, resumed', part', whole, ?_⟩
    intro again orderly'
    exact Replay.rerun_repeats faithful left' host again orderly part' orderly'

section Sample

def plainExternals : Externals :=
  { requestHash := fun kind payload => kind ++ payload.print
    valueToDynamic := .ok }

def foundIt : AgentResult :=
  { agentId := "a1".toList
    success := true
    output := .string "found it".toList
    cancelled := false
    tokensUsed := 7
    durationMs := 3 }

def agentHost (agent : List (List Nat × HostRequest) → Reply AgentResult) : Host :=
  { reply := fun sent request =>
      match request with
      | .reserveAgentCalls _ => .value ()
      | .releaseAgentCalls _ => .value ()
      | .host (.spawnAgent _) => agent sent
      | .host .budget => .dropped
      | .host (.renderTemplate _ _) => .dropped
      | .host (.writeScratchFile _ _) => .dropped
      | .host (.readScratchFile _) => .dropped
      | .host (.gitDiffSince _) => .dropped
    clock := fun seq => seq }

def prompt (text : String) : AgentOpts :=
  { prompt := text.toList
    label := none
    model := none
    effort := none
    maxOutputTokens := none
    agentType := none
    capabilityMode := none
    isolationWorktree := false
    forkContext := false
    resumeFrom := none
    outputSchema := none
    phase := none }

def lookThenFix : Script :=
  .perform (.host (.spawnAgent (prompt "look"))) fun _ =>
    .perform (.host (.spawnAgent (prompt "fix"))) fun _ => .finish (.complete .null)

theorem orderly_of_calm {heard : List Replay.Hearing} (calm : .refused ∉ heard) : Replay.Orderly heard := by
  intro before after split
  exact absurd (by rw [split]; simp) calm

def foundBoth : Tape := (runWorkflow plainExternals (agentHost fun _ => .value foundIt) lookThenFix []).2

theorem foundBoth_kept : Kept jsonCodec foundBoth :=
  { orderly := orderly_of_calm (by decide +kernel)
    readable := fun entry _ => jsonCodec_readable entry
    room := by decide +kernel }

theorem workflow_replays_first_agent :
    let spent := agentHost fun _ => .error .budgetExceeded
    let part := (Journal.render jsonCodec foundBoth.journal).take 500
    ∃ kept rest, Journal.resume jsonCodec part none = .ok (kept, rest) ∧
      kept.entries = foundBoth.journal.take 1 ∧
      Replay.Repeats (reading plainExternals) kept.entries foundBoth
        (runWorkflow plainExternals spent lookThenFix kept.entries).2 := by
  intro spent part
  obtain ⟨journal, rest, resumed, runs⟩ :=
    workflow_replays plainExternals jsonCodec lookThenFix .fresh none
  cases resumed
  obtain ⟨-, -, files⟩ := runs (agentHost fun _ => .value foundIt) foundBoth_kept.orderly
  obtain ⟨kept, rest, resumed', within, -, again⟩ := files foundBoth_kept part none (List.take_prefix 500 _)
  have one : (Journal.resume jsonCodec part none).toOption.map (·.1.entries.length) = some 1 := by
    decide +kernel
  have first : kept.entries = foundBoth.journal.take 1 := by
    rw [resumed'] at one
    have count : kept.entries.length = 1 := Option.some.inj one
    rw [List.prefix_iff_eq_take.mp within, count]
    rfl
  refine ⟨kept, rest, resumed', first, again spent (orderly_of_calm ?_)⟩
  rw [first]
  decide +kernel

theorem quota_error_breaks_journal :
    ¬ ∀ (ext : Externals) (host : Host) (script : Script) (error : JournalError),
      (runWorkflow ext host script []).1 ≠ .failed (.journal error) := by
  intro sound
  refine sound plainExternals
    (agentHost fun sent =>
      if sent.length = 1 then .error (.agentCallQuotaExceeded 1 0) else .value foundIt)
    lookThenFix (.sequence 0 0 1) ?_
  rfl

end Sample

end GrokPi.Workflow
