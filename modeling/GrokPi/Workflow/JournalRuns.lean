import GrokPi.Shared.Runs
import GrokPi.Workflow.JournalText

set_option autoImplicit false

namespace GrokPi.Workflow.Journal

inductive AppendFault where
  | none
  /-- The append returns an error, with this much of its line written. -/
  | fails (written : Nat)
  /-- The process ends, with this much of the line written. -/
  | crashes (written : Nat)
  deriving DecidableEq

inductive Operation where
  | record (entry : JournalEntry) (fault : AppendFault)
  | prune (failureDetail : Text)
  | load
  | stop

/-- The file, the journal of the process that runs, and the records a caller heard of. -/
structure Store where
  file : Bytes
  journal : Option Journal
  acked : List JournalEntry
  unacked : Option JournalEntry

def Store.new : Store :=
  { file := []
    journal := some .new
    acked := []
    unacked := none }

variable (codec : EntryCodec)

def Store.record (store : Store) (journal : Journal) (entry : JournalEntry) (fault : AppendFault) : Store :=
  match prepare codec journal entry with
  | .error _ => store
  | .ok line =>
      match fault with
      | .none =>
          { file := store.file ++ line
            journal := some (recorded journal entry line)
            acked := store.acked ++ [entry]
            unacked := none }
      | .fails written =>
          -- `append_line` returns before the journal is changed
          { store with
            file := store.file ++ line.take written
            unacked := some entry }
      | .crashes written =>
          { store with
            file := store.file ++ line.take written
            journal := none
            unacked := some entry }

def Store.prune (store : Store) (journal : Journal) (failureDetail : Text) : Store :=
  match prunable journal failureDetail with
  | .error _ => store
  | .ok none => store
  | .ok (some newLen) =>
      { file := store.file.take newLen
        journal := some (pruned journal newLen)
        acked := store.acked.dropLast
        unacked := none }

def Store.load (store : Store) : Store :=
  match Journal.load codec store.file with
  | .error _ => { store with journal := none }
  | .ok (journal, file) =>
      { file
        journal := some journal
        acked := journal.entries
        unacked := none }

def step (store : Store) : Operation → Store
  | .record entry fault =>
      match store.journal with
      | none => store
      | some journal => store.record codec journal entry fault
  | .prune failureDetail =>
      match store.journal with
      | none => store
      | some journal => store.prune journal failureDetail
  | .load => store.load codec
  | .stop => { store with journal := none }

def Store.Expects (store : Store) (entries : List JournalEntry) : Prop :=
  entries = store.acked ∨ ∃ entry, store.unacked = some entry ∧ entries = store.acked ++ [entry]

structure Positioned (file : Bytes) (journal : Journal) : Prop where
  bytes : journal.bytes = file.length
  lastLineStart : ∀ start, journal.lastLineStart = some start →
    ∃ before last, file = before ++ entryLine codec last ∧ before.length = start ∧
      journal.entries.getLast? = some last

structure Sound (store : Store) : Prop where
  positioned : ∀ journal, store.journal = some journal → Positioned codec store.file journal
  loads : ∃ journal file, Journal.load codec store.file = .ok (journal, file) ∧
    store.Expects journal.entries ∧ Dense journal.entries

/-- What an operation keeps: a failed append leaves no byte, and a whole entry finds room and is readable. -/
def Keeps (store : Store) : Operation → Prop
  | .record entry fault => ∀ journal line, store.journal = some journal →
      prepare codec journal entry = .ok line →
        match fault with
        | .none => journal.entries.length < maxJournalEntries ∧ Readable codec entry
        | .fails written => written = 0
        | .crashes written =>
            written < (codec.encode entry).length ∨
              written = (codec.encode entry).length ∧ (codec.decode (codec.encode entry)).toOption = none ∨
              journal.entries.length < maxJournalEntries ∧ Readable codec entry
  | _ => True

section Invariant

variable {codec}

structure Current (codec : EntryCodec) (store : Store) (journal : Journal) : Prop where
  entries : journal.entries = store.acked
  bytes : journal.bytes = store.file.length
  file : store.file = render codec store.acked
  lastLineStart : ∀ start, journal.lastLineStart = some start →
    ∃ init last, store.acked = init ++ [last] ∧ (render codec init).length = start

structure Consistent (codec : EntryCodec) (store : Store) : Prop where
  current : ∀ journal, store.journal = some journal → Current codec store journal
  loads : ∃ entries, Stored codec entries ∧ (render codec entries).length ≤ maxJournalBytes ∧
    Journal.load codec store.file = .ok (loaded codec entries) ∧ store.Expects entries

theorem stored_nil : Stored codec [] :=
  { dense := rfl
    room := Nat.zero_le _
    readable := by simp }

variable {entries : List JournalEntry}

theorem stored_concat {entry : JournalEntry} : Stored codec (entries ++ [entry]) ↔
      Stored codec entries ∧ entries.length < maxJournalEntries ∧ entry.seq = entries.length ∧
        Readable codec entry := by
  constructor
  · intro ⟨dense, room, readable⟩
    have ⟨init, next⟩ := dense_concat.mp dense
    have more : entries.length < maxJournalEntries := by simpa using room
    have rest : ∀ entry ∈ entries, Readable codec entry := fun entry member => readable entry (by simp [member])
    exact ⟨⟨init, Nat.le_of_lt more, rest⟩, more, next, readable entry (by simp)⟩
  · intro ⟨⟨dense, _, readable⟩, more, next, last⟩
    refine ⟨dense_concat.mpr ⟨dense, next⟩, by simpa using more, ?_⟩
    intro other member
    rcases List.mem_append.mp member with old | new
    · exact readable other old
    · rw [List.mem_singleton.mp new]
      exact last

theorem prepare_ok {journal : Journal} {entry : JournalEntry} {line : Bytes}
    (prepared : prepare codec journal entry = .ok line) :
    line = entryLine codec entry ∧ entry.seq = journal.entries.length ∧
      journal.bytes + (entryLine codec entry).length ≤ maxJournalBytes := by
  unfold prepare validateSequence at prepared
  by_cases next : entry.seq = journal.entries.length
  · by_cases fits : maxJournalBytes < journal.bytes + (entryLine codec entry).length
    · simp [next, fits, bind, Except.bind, throw, throwThe, MonadExceptOf.throw] at prepared
    · simp [next, fits, bind, Except.bind, pure, Except.pure] at prepared
      exact ⟨prepared.symm, next, Nat.le_of_not_lt fits⟩
  · simp [next, bind, Except.bind] at prepared

theorem push_eq_ok {entries entries' : List JournalEntry} {entry : JournalEntry}
    (pushed : push entries entry = .ok entries') :
    entries.length < maxJournalEntries ∧ entry.seq = entries.length ∧ entries' = entries ++ [entry] := by
  by_cases full : maxJournalEntries ≤ entries.length
  · rw [push_full entry full] at pushed
    cases pushed
  · by_cases next : entry.seq = entries.length
    · rw [push_ok (Nat.lt_of_not_le full) next] at pushed
      cases pushed
      exact ⟨Nat.lt_of_not_le full, next, rfl⟩
    · simp [push, validateSequence, full, next, bind, Except.bind] at pushed

theorem current_positioned {store : Store} {journal : Journal} (current : Current codec store journal) :
    Positioned codec store.file journal := by
  refine ⟨current.bytes, ?_⟩
  intro start located
  have ⟨init, last, split, length⟩ := current.lastLineStart start located
  refine ⟨render codec init, last, ?_, length, ?_⟩
  · rw [current.file, split, render_append, render_singleton]
  · rw [current.entries, split, List.getLast?_concat]

theorem consistent_sound {store : Store} (consistent : Consistent codec store) : Sound codec store := by
  refine ⟨fun journal live => current_positioned (consistent.current journal live), ?_⟩
  have ⟨entries, stored, _, read, expected⟩ := consistent.loads
  exact ⟨_, _, read, expected, stored.dense⟩

theorem acked_stored {store : Store} (consistent : Consistent codec store) :
    Stored codec store.acked ∧ (render codec store.acked).length ≤ maxJournalBytes := by
  have ⟨entries, stored, fits, _, expected⟩ := consistent.loads
  rcases expected with rfl | ⟨entry, _, rfl⟩
  · exact ⟨stored, fits⟩
  · rw [render_append, List.length_append] at fits
    exact ⟨(stored_concat.mp stored).1, by omega⟩

theorem new_consistent : Consistent codec Store.new := by
  constructor
  · intro journal live
    cases live
    exact ⟨rfl, rfl, rfl, by simp [Journal.new]⟩
  · exact ⟨[], stored_nil, Nat.zero_le _, load_complete stored_nil (Nat.zero_le _), .inl rfl⟩

theorem push_read {entry : JournalEntry} {journal : Journal} {file : Bytes}
    {read : List JournalEntry → Journal × Bytes} (kept : ∀ entries, (read entries).1.entries = entries)
    (pushed : (push entries entry).map read = .ok (journal, file)) :
    entries.length < maxJournalEntries ∧ journal.entries = entries ++ [entry] := by
  -- An entry that goes through found room, and is the last one read.
  cases result : push entries entry with
  | error error => simp [result, Except.map] at pushed
  | ok entries' =>
      have ⟨more, _, same⟩ := push_eq_ok result
      rw [result] at pushed
      have shown : read entries' = (journal, file) := Except.ok.inj pushed
      have listed := kept entries'
      rw [shown, same] at listed
      exact ⟨more, listed⟩

theorem load_line_ok {entry : JournalEntry} {journal : Journal} {file : Bytes}
    (stored : Stored codec entries)
    (small : (render codec entries ++ entryLine codec entry).length ≤ maxJournalBytes)
    (read : Journal.load codec (render codec entries ++ entryLine codec entry) = .ok (journal, file)) :
    ∃ entry', codec.decode (codec.encode entry) = .ok entry' ∧ entries.length < maxJournalEntries ∧
      journal.entries = entries ++ [entry'] := by
  -- A whole line is read as its entry, when it finds room and is readable.
  rw [load_line stored small] at read
  cases decoded : codec.decode (codec.encode entry) with
  | error error => simp [decoded] at read
  | ok entry' =>
      rw [decoded] at read
      exact ⟨entry', rfl, push_read (fun _ => rfl) read⟩

theorem load_unterminated_ok {entry : JournalEntry} {journal : Journal}
    {file : Bytes} (stored : Stored codec entries)
    (small : (render codec entries ++ codec.encode entry).length ≤ maxJournalBytes)
    (read : Journal.load codec (render codec entries ++ codec.encode entry) = .ok (journal, file)) :
    (codec.decode (codec.encode entry)).toOption = none ∨
      ∃ entry', codec.decode (codec.encode entry) = .ok entry' ∧ entries.length < maxJournalEntries ∧
        journal.entries = entries ++ [entry'] := by
  have some' : codec.encode entry ≠ [] := by
    intro none'
    exact codec.visible entry (by simp [none'])
  rw [load_tail stored some' (codec.oneLine entry) small, if_neg (codec.visible entry)] at read
  cases decoded : codec.decode (codec.encode entry) with
  | error error => exact .inl rfl
  | ok entry' =>
      rw [decoded] at read
      exact .inr ⟨entry', rfl, push_read (fun _ => rfl) read⟩

theorem load_unterminated {entry : JournalEntry} (stored : Stored codec (entries ++ [entry]))
    (small : (render codec entries ++ codec.encode entry).length ≤ maxJournalBytes) :
    Journal.load codec (render codec entries ++ codec.encode entry) =
      .ok (loaded codec (entries ++ [entry])) := by
  have ⟨before, more, next, readable⟩ := stored_concat.mp stored
  have some' : codec.encode entry ≠ [] := by
    intro none'
    exact codec.visible entry (by simp [none'])
  rw [load_tail before some' (codec.oneLine entry) small, if_neg (codec.visible entry)]
  simp only [show codec.decode (codec.encode entry) = .ok entry from readable, push_ok more next, loaded,
    lastStart_concat, Nat.zero_add, render_append, render_singleton, entryLine, List.append_assoc, Except.map]

section Record

variable {store : Store} {journal : Journal} {entry : JournalEntry} {line : Bytes}
  (consistent : Consistent codec store) (live : store.journal = some journal)
  (prepared : prepare codec journal entry = .ok line)

include consistent live prepared

theorem record_facts :
    store.file = render codec store.acked ∧ journal.entries = store.acked ∧
      entry.seq = store.acked.length ∧ line = entryLine codec entry ∧
      (render codec store.acked ++ entryLine codec entry).length ≤ maxJournalBytes := by
  have current := consistent.current journal live
  have ⟨text, next, fits⟩ := prepare_ok prepared
  rw [current.entries] at next
  rw [current.bytes, current.file, ← List.length_append] at fits
  exact ⟨current.file, current.entries, next, text, fits⟩

theorem recorded_consistent (more : store.acked.length < maxJournalEntries) (readable : Readable codec entry) :
    Consistent codec (store.record codec journal entry .none) := by
  have ⟨file, entries, next, text, fits⟩ := record_facts consistent live prepared
  have ⟨stored, _⟩ := acked_stored consistent
  have current := consistent.current journal live
  have longer : Stored codec (store.acked ++ [entry]) := stored_concat.mpr ⟨stored, more, next, readable⟩
  have fits' : (render codec (store.acked ++ [entry])).length ≤ maxJournalBytes := by
    rwa [render_append, render_singleton]
  have file' : store.file ++ line = render codec (store.acked ++ [entry]) := by
    rw [file, text, render_append, render_singleton]
  simp only [Store.record, prepared]
  constructor
  · intro journal' live'
    cases live'
    refine ⟨?_, ?_, file', ?_⟩
    · simp [recorded, entries]
    · simp [recorded, current.bytes]
    · intro start located
      simp only [recorded, Option.some.injEq] at located
      exact ⟨store.acked, entry, rfl, by rw [← located, current.bytes, file]⟩
  · exact ⟨_, longer, fits', by rw [file']; exact load_complete longer fits', .inl rfl⟩

theorem crashed_consistent (written : Nat)
    (survives : written < (codec.encode entry).length ∨
      written = (codec.encode entry).length ∧ (codec.decode (codec.encode entry)).toOption = none ∨
      journal.entries.length < maxJournalEntries ∧ Readable codec entry) :
    Consistent codec (store.record codec journal entry (.crashes written)) := by
  have ⟨file, entries, next, text, fits⟩ := record_facts consistent live prepared
  have ⟨stored, acked⟩ := acked_stored consistent
  simp only [Store.record, prepared, file, text]
  refine ⟨by simp, ?_⟩
  -- how much of the line there is
  rcases Nat.lt_trichotomy written (codec.encode entry).length with part | whole | line'
  · have cut : (entryLine codec entry).take written = (codec.encode entry).take written := by
      rw [entryLine, List.take_append_of_le_length (Nat.le_of_lt part)]
    have split := (List.take_append_drop written (codec.encode entry)).symm
    have torn := codec.torn entry _ _ split (by simpa using part)
    have oneLine : newline ∉ (codec.encode entry).take written :=
      fun member => codec.oneLine entry (List.mem_of_mem_take member)
    have small : (render codec store.acked ++ (codec.encode entry).take written).length ≤ maxJournalBytes := by
      simp only [List.length_append, entryLine, List.length_take] at fits ⊢
      omega
    refine ⟨_, stored, acked, ?_, .inl rfl⟩
    rw [cut]
    exact load_torn stored oneLine torn small
  · have cut : (entryLine codec entry).take written = codec.encode entry := by
      rw [entryLine, whole, List.take_left]
    have small : (render codec store.acked ++ codec.encode entry).length ≤ maxJournalBytes := by
      simp only [List.length_append, entryLine] at fits ⊢
      omega
    rw [cut]
    rcases survives with below | ⟨_, unreadable⟩ | ⟨more, readable⟩
    · omega
    · exact ⟨_, stored, acked, load_torn stored (codec.oneLine entry) unreadable small, .inl rfl⟩
    · rw [entries] at more
      have longer : Stored codec (store.acked ++ [entry]) := stored_concat.mpr ⟨stored, more, next, readable⟩
      refine ⟨_, longer, ?_, load_unterminated longer small, .inr ⟨entry, rfl, rfl⟩⟩
      rwa [render_append, render_singleton]
  · have cut : (entryLine codec entry).take written = entryLine codec entry := by
      rw [List.take_of_length_le]
      simp only [entryLine, List.length_append, List.length_cons, List.length_nil]
      omega
    rw [cut]
    rcases survives with below | ⟨same, _⟩ | ⟨more, readable⟩
    · omega
    · omega
    · rw [entries] at more
      have longer : Stored codec (store.acked ++ [entry]) := stored_concat.mpr ⟨stored, more, next, readable⟩
      have text' : render codec store.acked ++ entryLine codec entry = render codec (store.acked ++ [entry]) := by
        rw [render_append, render_singleton]
      rw [text'] at fits ⊢
      exact ⟨_, longer, fits, load_complete longer fits, .inr ⟨entry, rfl, rfl⟩⟩

theorem failed_consistent : Consistent codec (store.record codec journal entry (.fails 0)) := by
  have ⟨file, _, _, _, _⟩ := record_facts consistent live prepared
  have ⟨stored, acked⟩ := acked_stored consistent
  have current := consistent.current journal live
  simp only [Store.record, prepared, List.take_zero, List.append_nil]
  constructor
  · intro journal' live'
    simp only [live, Option.some.injEq] at live'
    subst live'
    exact ⟨current.entries, current.bytes, current.file, current.lastLineStart⟩
  · exact ⟨_, stored, acked, by rw [file]; exact load_complete stored acked, .inl rfl⟩

end Record

theorem expects_line {after : Store} {acked entries : List JournalEntry} {entry entry' : JournalEntry}
    (expected : after.Expects entries) (one : entries = acked ++ [entry'])
    (last : after.acked = acked ++ [entry] ∧ after.unacked = none ∨
      after.acked = acked ∧ after.unacked = some entry) : entry' = entry := by
  -- The one more entry that a load returns is the one that was recorded.
  rcases last with ⟨acked', unacked⟩ | ⟨acked', unacked⟩
  · rcases expected with same | ⟨other, tried, _⟩
    · rw [one, acked'] at same
      simpa using same
    · simp [unacked] at tried
  · rcases expected with same | ⟨other, tried, same⟩
    · rw [one, acked'] at same
      simp at same
    · rw [unacked, Option.some.injEq] at tried
      rw [one, acked', ← tried] at same
      simpa using same

section Exact

variable {store : Store} {journal : Journal} {entry : JournalEntry} {line : Bytes}
  (consistent : Consistent codec store) (live : store.journal = some journal)
  (prepared : prepare codec journal entry = .ok line)

include consistent live prepared

theorem recorded_exact (sound : Sound codec (store.record codec journal entry .none)) :
    journal.entries.length < maxJournalEntries ∧ Readable codec entry := by
  have ⟨file, entries, _, text, fits⟩ := record_facts consistent live prepared
  have ⟨stored, _⟩ := acked_stored consistent
  simp only [Store.record, prepared, file, text] at sound
  have ⟨journal', file', read, expected, _⟩ := sound.loads
  have ⟨entry', decoded, more, one⟩ := load_line_ok stored fits read
  have same := @expects_line _ store.acked _ entry _ expected one (.inl ⟨rfl, rfl⟩)
  rw [same] at decoded
  exact ⟨by rw [entries]; exact more, decoded⟩

theorem failed_exact {written : Nat} (sound : Sound codec (store.record codec journal entry (.fails written))) :
    written = 0 := by
  have ⟨_, _, _, text, _⟩ := record_facts consistent live prepared
  have current := consistent.current journal live
  simp only [Store.record, prepared] at sound
  have bytes := (sound.positioned journal live).bytes
  rw [current.bytes] at bytes
  simp only [text, entryLine, List.length_append, List.length_take, List.length_cons] at bytes
  omega

theorem crashed_exact {written : Nat}
    (sound : Sound codec (store.record codec journal entry (.crashes written))) :
    written < (codec.encode entry).length ∨
      written = (codec.encode entry).length ∧ (codec.decode (codec.encode entry)).toOption = none ∨
      journal.entries.length < maxJournalEntries ∧ Readable codec entry := by
  obtain ⟨file, entries, _, text, fits⟩ := record_facts consistent live prepared
  obtain ⟨stored, _⟩ := acked_stored consistent
  simp only [Store.record, prepared, file, text] at sound
  obtain ⟨journal', file', read, expected, _⟩ := sound.loads
  rcases Nat.lt_trichotomy written (codec.encode entry).length with part | whole | line'
  · exact .inl part
  · have cut : (entryLine codec entry).take written = codec.encode entry := by
      rw [entryLine, whole, List.take_left]
    have small : (render codec store.acked ++ codec.encode entry).length ≤ maxJournalBytes := by
      simp only [List.length_append, entryLine] at fits ⊢
      omega
    rw [cut] at read
    rcases load_unterminated_ok stored small read with unread | ⟨entry', decoded, more, one⟩
    · exact .inr (.inl ⟨whole, unread⟩)
    · have same := @expects_line _ store.acked _ entry _ expected one (.inr ⟨rfl, rfl⟩)
      rw [same] at decoded
      exact .inr (.inr ⟨by rw [entries]; exact more, decoded⟩)
  · have cut : (entryLine codec entry).take written = entryLine codec entry := by
      rw [List.take_of_length_le]
      simp only [entryLine, List.length_append, List.length_cons, List.length_nil]
      omega
    rw [cut] at read
    obtain ⟨entry', decoded, more, one⟩ := load_line_ok stored fits read
    have same := @expects_line _ store.acked _ entry _ expected one (.inr ⟨rfl, rfl⟩)
    rw [same] at decoded
    exact .inr (.inr ⟨by rw [entries]; exact more, decoded⟩)

end Exact

theorem prune_consistent {store : Store} {journal : Journal} (consistent : Consistent codec store)
    (live : store.journal = some journal) (failureDetail : Text) :
    Consistent codec (store.prune journal failureDetail) := by
  have ⟨stored, acked⟩ := acked_stored consistent
  have current := consistent.current journal live
  unfold Store.prune
  split
  · exact consistent
  · exact consistent
  next newLen cut =>
    have located : journal.lastLineStart = some newLen := by
      unfold prunable at cut
      split at cut
      · cases cut
      · split at cut
        · cases cut
        · split at cut
          · cases cut
          next newLen' start =>
            cases cut
            exact start
    have ⟨init, last, split, length⟩ := current.lastLineStart newLen located
    rw [split] at stored acked
    have before := (stored_concat.mp stored).1
    have fits : (render codec init).length ≤ maxJournalBytes := by
      rw [render_append, List.length_append] at acked
      omega
    have file : store.file.take newLen = render codec init := by
      rw [current.file, split, render_append, ← length, List.take_left]
    have dropped : store.acked.dropLast = init := by rw [split, List.dropLast_concat]
    constructor
    · intro journal' live'
      cases live'
      refine ⟨?_, ?_, ?_, by simp [pruned]⟩
      · simp only [pruned, current.entries]
      · simp only [pruned, file, length]
      · rw [dropped]
        exact file
    · exact ⟨init, before, fits, by rw [file]; exact load_complete before fits, .inl dropped.symm⟩

theorem load_consistent {store : Store} (consistent : Consistent codec store) :
    Consistent codec (store.load codec) := by
  have ⟨entries, stored, fits, read, _⟩ := consistent.loads
  simp only [Store.load, read]
  constructor
  · intro journal live
    cases live
    refine ⟨rfl, rfl, rfl, ?_⟩
    intro start located
    rcases List.eq_nil_or_concat entries with rfl | ⟨init, last, rfl⟩
    · simp [loaded, lastStart] at located
    · rw [List.concat_eq_append] at located ⊢
      simp only [loaded, lastStart_concat, Nat.zero_add, Option.some.injEq] at located
      exact ⟨init, last, rfl, located⟩
  · exact ⟨entries, stored, fits, load_complete stored fits, .inl rfl⟩

theorem stop_consistent {store : Store} (consistent : Consistent codec store) :
    Consistent codec { store with journal := none } :=
  ⟨by simp, consistent.loads⟩

theorem step_consistent (store : Store) (operation : Operation) (consistent : Consistent codec store)
    (keeps : Keeps codec store operation) : Consistent codec (step codec store operation) := by
  cases operation with
  | stop => exact stop_consistent consistent
  | load => exact load_consistent consistent
  | prune failureDetail =>
      cases live : store.journal with
      | none => simpa only [step, live] using consistent
      | some journal =>
          simp only [step, live]
          exact prune_consistent consistent live failureDetail
  | record entry fault =>
      cases live : store.journal with
      | none => simpa only [step, live] using consistent
      | some journal =>
          simp only [step, live]
          cases prepared : prepare codec journal entry with
          | error error => simpa only [Store.record, prepared] using consistent
          | ok line =>
              have kept := keeps journal line live prepared
              cases fault with
              | none =>
                  have entries := (consistent.current journal live).entries
                  exact recorded_consistent consistent live prepared (by rw [← entries]; exact kept.1) kept.2
              | fails written =>
                  subst kept
                  exact failed_consistent consistent live prepared
              | crashes written => exact crashed_consistent consistent live prepared written kept

theorem step_keeps (store : Store) (operation : Operation) (consistent : Consistent codec store)
    (sound : Sound codec (step codec store operation)) : Keeps codec store operation := by
  cases operation with
  | stop => trivial
  | load => trivial
  | prune failureDetail => trivial
  | record entry fault =>
      intro journal line live prepared
      simp only [step, live] at sound
      cases fault with
      | none => exact recorded_exact consistent live prepared sound
      | fails written => exact failed_exact consistent live prepared sound
      | crashes written => exact crashed_exact consistent live prepared sound

end Invariant

theorem journal_survives_iff (operations : List Operation) :
    (Sound codec Store.new ∧
        Runs.Along (step codec) (fun store operation => Sound codec (step codec store operation)) Store.new
          operations) ↔
      Runs.Along (step codec) (Keeps codec) Store.new operations := by
  have exact' : ∀ store operation, Consistent codec store → True →
      (Sound codec (step codec store operation) ↔ Keeps codec store operation) := by
    intro store operation consistent _
    exact ⟨step_keeps store operation consistent,
      fun keeps => consistent_sound (step_consistent store operation consistent keeps)⟩
  have possibly : Runs.Along (step codec) (fun _ _ => True) Store.new operations := by
    generalize Store.new = store
    induction operations generalizing store with
    | nil => trivial
    | cons operation rest ih => exact ⟨trivial, ih _⟩
  have iff := Runs.along_iff (step codec) exact'
    (fun store operation consistent _ keeps => step_consistent store operation consistent keeps)
    Store.new operations new_consistent possibly
  exact ⟨fun sound => iff.mp sound.2, fun keeps => ⟨consistent_sound new_consistent, iff.mpr keeps⟩⟩

def agentResult (seq : Nat) (text : String) : JournalEntry :=
  { seq
    kind := "spawn_agent".toList
    reqHash := "5e0c".toList
    result := .string text.toList
    atMs := 0 }

theorem journal_survives_crash :
    Sound jsonCodec Store.new ∧
      Runs.Along (step jsonCodec) (fun store operation => Sound jsonCodec (step jsonCodec store operation))
        Store.new
        [.record (agentResult 0 "found it") .none, .record (agentResult 1 "fixed") (.crashes 5), .load,
          .record (agentResult 1 "fixed") .none] := by
  refine (journal_survives_iff jsonCodec _).mpr ⟨?first, ?torn, trivial, ?again, trivial⟩
  case first =>
    intro journal line live _
    cases live
    exact ⟨by decide, jsonCodec_readable _⟩
  case torn =>
    intro journal line live _
    exact .inl (by decide +kernel)
  case again =>
    intro journal line live prepared
    have next : 1 = journal.entries.length := (prepare_ok prepared).2.1
    refine ⟨?_, jsonCodec_readable _⟩
    rw [← next]
    decide

theorem failed_append_not_sound :
    ¬ ∀ operations : List Operation, Sound jsonCodec (Runs.run (step jsonCodec) Store.new operations) := by
  intro sound
  have torn := sound [.record (agentResult 0 "found it") (.fails 1), .record (agentResult 0 "found it") .none]
  have unread : (Journal.load jsonCodec (Runs.run (step jsonCodec) Store.new
      [.record (agentResult 0 "found it") (.fails 1),
        .record (agentResult 0 "found it") .none]).file).toOption.isNone = true := by
    decide +kernel
  have ⟨journal, file, read, _⟩ := torn.loads
  rw [read] at unread
  cases unread

end GrokPi.Workflow.Journal
