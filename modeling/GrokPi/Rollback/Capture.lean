import GrokPi.Rollback.Plan
import GrokPi.Shared.Runs

set_option autoImplicit false

namespace GrokPi.Rollback

def maxBlobSize : Nat := 10 * 1024 * 1024

inductive Phase where
  | waiting
  | holding
  | looked
  | written
  | checking
  | storingBefore
  | storingAfter
  | appending
  | settling
  | ended
  deriving DecidableEq

/-- `found` is what the path had just before the write of the call. -/
structure Call where
  tool : Tool
  path : Text
  phase : Phase
  beforeData : Option Buffer
  content : Buffer
  before : StateRef
  record : Option MutationRecord
  found : Option Buffer

def Call.queued (tool : Tool) (path : Text) : Call :=
  { tool
    path
    phase := .waiting
    beforeData := none
    content := []
    before := .absent
    record := none
    found := none }

def Call.Holds (call : Call) : Prop := call.phase ≠ .waiting ∧ call.phase ≠ .ended

def Call.Done (call : Call) : Prop := call.phase = .settling ∨ call.phase = .ended

inductive Event where
  | start (id : Text) (tool : Tool) (path : Text)
  | acquire (id : Text)
  | look (id : Text)
  | fail (id : Text)
  | write (id : Text) (content : Buffer)
  | capture (id : Text)
  | check (id : Text) (symlink : Bool)
  | storeBefore (id : Text) (failed : Bool)
  | storeAfter (id : Text) (failed : Bool) (operationId preparedAt : Text)
  | append (id : Text) (failed : Bool)
  | settle (id : Text)
  | shutdown

structure Session where
  files : Disk
  blobs : Blobs
  active : Bool
  sessionId : Text
  sequence : Nat
  journal : List JournalRecord
  editBeforeData : Option Buffer
  editBeforePath : Option Text
  held : Finset Text
  calls : Text → Option Call

namespace Session

def start (files : Disk) (blobs : Blobs) (sessionId : Text) (sequence : Nat) : Session :=
  { files
    blobs
    active := true
    sessionId
    sequence
    journal := []
    editBeforeData := none
    editBeforePath := none
    held := ∅
    calls := fun _ => none }

def put (session : Session) (id : Text) (call : Call) : Session :=
  { session with calls := Function.update session.calls id (some call) }

/-- A step of a call that is not in the phase for it does not happen. -/
def inPhase (session : Session) (id : Text) (phase : Phase) (body : Call → Session) : Session :=
  match session.calls id with
  | some call => if call.phase = phase then body call else session
  | none => session

def leave (session : Session) (id : Text) (call : Call) : Session :=
  { session.put id { call with phase := .ended } with held := session.held.erase call.path }

variable (sha256 : Buffer → Digest)

def writeBlob (blobs : Blobs) (data : Buffer) (failed : Bool) : Option (Digest × Blobs) :=
  if maxBlobSize < data.length then none
  else if failed then none
  else
    let hash := sha256 data
    some (hash, if (blobs hash).isSome then blobs else Function.update blobs hash (some data))

def step (session : Session) : Event → Session
  | .start id tool path =>
      if (session.calls id).isSome then session else session.put id (.queued tool path)
  | .acquire id =>
      session.inPhase id .waiting fun call =>
        if call.path ∈ session.held then session
        else
          { session.put id { call with phase := .holding } with held := insert call.path session.held }
  | .look id =>
      session.inPhase id .holding fun call =>
        match call.tool, session.files call.path with
        | .write, beforeData => session.put id { call with phase := .looked, beforeData }
        | .edit, none => session.leave id call
        | .edit, some data =>
            { session.put id { call with phase := .looked } with
              editBeforeData := some data
              editBeforePath := some call.path }
  | .fail id => session.inPhase id .looked fun call => session.leave id call
  | .write id content =>
      session.inPhase id .looked fun call =>
        { session.put id { call with phase := .written, content, found := session.files call.path } with
          files := Function.update session.files call.path (some content) }
  | .capture id =>
      session.inPhase id .written fun call =>
        if session.active then
          let beforeData :=
            match call.tool with
            | .write => call.beforeData
            | .edit => if session.editBeforePath = some call.path then session.editBeforeData else none
          session.put id { call with phase := .checking, beforeData }
        else session.put id { call with phase := .settling }
  | .check id symlink =>
      session.inPhase id .checking fun call =>
        session.put id { call with phase := if symlink then .settling else .storingBefore }
  | .storeBefore id failed =>
      session.inPhase id .storingBefore fun call =>
        match call.beforeData with
        | none => session.put id { call with phase := .storingAfter, before := .absent }
        | some data =>
            match writeBlob sha256 session.blobs data failed with
            | none => session.put id { call with phase := .settling }
            | some (hash, blobs) =>
                { session.put id { call with phase := .storingAfter, before := blobRef hash } with blobs }
  | .storeAfter id failed operationId preparedAt =>
      session.inPhase id .storingAfter fun call =>
        match writeBlob sha256 session.blobs call.content failed with
        | none => session.put id { call with phase := .settling }
        | some (hash, blobs) =>
            if call.before = blobRef hash then
              { session.put id { call with phase := .settling } with blobs }
            else
              let record : MutationRecord :=
                { sequence := session.sequence + 1
                  operationId
                  piSessionId := session.sessionId
                  treeEntryId := none
                  toolCallId := id
                  tool := call.tool
                  canonicalPath := call.path
                  before := call.before
                  after := blobRef hash
                  state := .unbound
                  toolReportedError := false
                  preparedAt }
              { session.put id { call with phase := .appending, record := some record } with
                blobs
                sequence := session.sequence + 1 }
  | .append id failed =>
      session.inPhase id .appending fun call =>
        let next := session.put id { call with phase := .settling }
        match call.record with
        | some record =>
            if failed then next
            else { next with journal := session.journal ++ [.mutation record] }
        | none => next
  | .settle id =>
      session.inPhase id .settling fun call =>
        match call.tool with
        | .write => session.leave id call
        | .edit => { session.leave id call with editBeforeData := none, editBeforePath := none }
  | .shutdown => { session with active := false }

/-- When an edit goes on after its write, the shared variables are still about its path. -/
def Keeps (session : Session) : Event → Prop
  | .capture id =>
      ∀ call ∈ session.calls id, call.phase = .written → call.tool = .edit →
        session.editBeforePath = some call.path
  | _ => True

def refOf : Option Buffer → StateRef
  | none => .absent
  | some data => .blob (sha256 data)

def Held (blobs : Blobs) (ref : StateRef) : Prop := ∀ digest, ref = .blob digest → (blobs digest).isSome

structure Describes (session : Session) (m : MutationRecord) (id : Text) (call : Call) : Prop where
  caller : m.toolCallId = id
  path : m.canonicalPath = call.path
  before : m.before = refOf sha256 call.found
  after : m.after = refOf sha256 (some call.content)
  beforeHeld : Held session.blobs m.before
  afterHeld : Held session.blobs m.after

def Faithful (session : Session) : Prop :=
  ∀ m ∈ getMutations session.journal, ∃ id call,
    session.calls id = some call ∧ Describes sha256 session m id call

def Fits (session : Session) (id : Text) (call : Call) : Prop :=
  match call.phase, call.tool with
  | .looked, .write => call.beforeData = session.files call.path
  | .looked, .edit => session.editBeforePath = some call.path →
      session.editBeforeData = session.files call.path
  | .written, .write => call.beforeData = call.found
  | .written, .edit => session.editBeforePath = some call.path → session.editBeforeData = call.found
  | .checking, _ => call.beforeData = call.found
  | .storingBefore, _ => call.beforeData = call.found
  | .storingAfter, _ => call.before = refOf sha256 call.found ∧ Held session.blobs call.before
  | .appending, _ => ∀ record ∈ call.record, Describes sha256 session record id call
  | _, _ => True

structure Consistent (session : Session) : Prop where
  locked : ∀ id call, session.calls id = some call → call.Holds → call.path ∈ session.held
  alone : ∀ one other first second, session.calls one = some first → session.calls other = some second →
    first.Holds → second.Holds → first.path = second.path → one = other
  fits : ∀ id call, session.calls id = some call → Fits sha256 session id call
  recorded : ∀ m ∈ getMutations session.journal, ∃ id call, session.calls id = some call ∧ call.Done ∧
    Describes sha256 session m id call

section Invariant

variable {sha256 : Buffer → Digest} {session next : Session}

theorem inPhase_cases (session : Session) (id : Text) (phase : Phase) (body : Call → Session) :
    session.inPhase id phase body = session ∨
      ∃ call, session.calls id = some call ∧ call.phase = phase ∧
        session.inPhase id phase body = body call := by
  simp only [inPhase]
  cases known : session.calls id with
  | none => exact Or.inl rfl
  | some call =>
      by_cases here : call.phase = phase
      · exact Or.inr ⟨call, rfl, here, if_pos here⟩
      · exact Or.inl (if_neg here)

structure Moves (sha256 : Buffer → Digest) (session next : Session) (id : Text) (call call' : Call) :
    Prop where
  known : session.calls id = some call
  calls : next.calls = Function.update session.calls id (some call')
  path : call'.path = call.path
  turn : call.Holds ∨ call.path ∉ session.held
  others : ∀ path ∈ session.held, path ≠ call.path → path ∈ next.held
  own : call'.Holds → call.path ∈ next.held
  files : ∀ path, path ≠ call.path → next.files path = session.files path
  shared : next.editBeforePath = session.editBeforePath ∧ next.editBeforeData = session.editBeforeData ∨
    ∀ path ∈ next.editBeforePath, path = call.path
  blobs : ∀ digest, (session.blobs digest).isSome → (next.blobs digest).isSome
  done : call.Done → call'.Done ∧ call'.found = call.found ∧ call'.content = call.content
  journal : ∀ m ∈ getMutations next.journal, m ∈ getMutations session.journal ∨
    call'.Done ∧ Describes sha256 next m id call'
  fits : Fits sha256 next id call'

theorem Held.mono {ref : StateRef} (held : Held session.blobs ref)
    (blobs : ∀ digest, (session.blobs digest).isSome → (next.blobs digest).isSome) :
    Held next.blobs ref :=
  fun digest same => blobs digest (held digest same)

variable {call call' : Call} {id : Text}

theorem Describes.mono {m : MutationRecord}
    (describes : Describes sha256 session m id call) (path : call'.path = call.path)
    (found : call'.found = call.found) (content : call'.content = call.content)
    (blobs : ∀ digest, (session.blobs digest).isSome → (next.blobs digest).isSome) :
    Describes sha256 next m id call' := by
  constructor
  · exact describes.caller
  · rw [path]
    exact describes.path
  · rw [found]
    exact describes.before
  · rw [content]
    exact describes.after
  · exact describes.beforeHeld.mono blobs
  · exact describes.afterHeld.mono blobs

theorem Fits.frame {call : Call} (fits : Fits sha256 session id call)
    (files : call.Holds → next.files call.path = session.files call.path)
    (shared : call.Holds → next.editBeforePath = some call.path →
      session.editBeforePath = some call.path ∧ next.editBeforeData = session.editBeforeData)
    (blobs : ∀ digest, (session.blobs digest).isSome → (next.blobs digest).isSome) :
    Fits sha256 next id call := by
  -- A call that waits for nothing of the moving one keeps what it knows.
  cases phase : call.phase with
  | waiting | holding | settling | ended => simp [Fits, phase]
  | looked =>
      have holds : call.Holds := by simp [Call.Holds, phase]
      cases tool : call.tool with
      | write =>
          simp only [Fits, phase, tool] at fits ⊢
          rw [files holds]
          exact fits
      | edit =>
          simp only [Fits, phase, tool] at fits ⊢
          intro named
          have ⟨before, data⟩ := shared holds named
          rw [files holds, data]
          exact fits before
  | written =>
      have holds : call.Holds := by simp [Call.Holds, phase]
      cases tool : call.tool with
      | write =>
          simp only [Fits, phase, tool] at fits ⊢
          exact fits
      | edit =>
          simp only [Fits, phase, tool] at fits ⊢
          intro named
          have ⟨before, data⟩ := shared holds named
          rw [data]
          exact fits before
  | checking | storingBefore =>
      simp only [Fits, phase] at fits ⊢
      exact fits
  | storingAfter =>
      simp only [Fits, phase] at fits ⊢
      exact ⟨fits.1, fits.2.mono blobs⟩
  | appending =>
      simp only [Fits, phase] at fits ⊢
      exact fun record made => (fits record made).mono rfl rfl rfl blobs

theorem Consistent.moves (consistent : session.Consistent sha256)
    (moves : Moves sha256 session next id call call') : next.Consistent sha256 := by
  have apart : ∀ other second, other ≠ id → session.calls other = some second → second.Holds →
      second.path ≠ call.path := by
    intro other second different known holds same
    rcases moves.turn with turn | free
    · exact different (consistent.alone other id second call known moves.known holds turn same)
    · exact free (same ▸ consistent.locked other second known holds)
  have calls : ∀ other second, next.calls other = some second →
      other = id ∧ second = call' ∨ other ≠ id ∧ session.calls other = some second := by
    intro other second known
    rw [moves.calls] at known
    by_cases same : other = id
    · subst same
      simp only [Function.update_self, Option.some.injEq] at known
      exact Or.inl ⟨rfl, known.symm⟩
    · rw [Function.update_of_ne same] at known
      exact Or.inr ⟨same, known⟩
  constructor
  · intro other second known holds
    rcases calls other second known with ⟨_, rfl⟩ | ⟨different, earlier⟩
    · rw [moves.path]
      exact moves.own holds
    · exact moves.others _ (consistent.locked other second earlier holds)
        (apart other second different earlier holds)
  · intro one other first second knownOne knownOther holdsOne holdsOther same
    rcases calls one first knownOne with ⟨rfl, rfl⟩ | ⟨differentOne, earlierOne⟩ <;>
      rcases calls other second knownOther with ⟨rfl, rfl⟩ | ⟨differentOther, earlierOther⟩
    · rfl
    · rw [moves.path] at same
      exact absurd same.symm (apart other second differentOther earlierOther holdsOther)
    · rw [moves.path] at same
      exact absurd same (apart one first differentOne earlierOne holdsOne)
    · exact consistent.alone one other first second earlierOne earlierOther holdsOne holdsOther same
  · intro other second known
    rcases calls other second known with ⟨rfl, rfl⟩ | ⟨different, earlier⟩
    · exact moves.fits
    · apply (consistent.fits other second earlier).frame
      · exact fun holds => moves.files _ (apart other second different earlier holds)
      · intro holds named
        rcases moves.shared with ⟨path, data⟩ | own
        · exact ⟨path ▸ named, data⟩
        · exact absurd (own _ named) (apart other second different earlier holds)
      · exact moves.blobs
  · intro m member
    rcases moves.journal m member with earlier | ⟨done, describes⟩
    · obtain ⟨writer, held, known, done, describes⟩ := consistent.recorded m earlier
      by_cases same : writer = id
      · subst same
        rw [moves.known] at known
        cases known
        have ⟨done', found, content⟩ := moves.done done
        refine ⟨writer, call', ?_, done', describes.mono moves.path found content moves.blobs⟩
        rw [moves.calls, Function.update_self]
      · refine ⟨writer, held, ?_, done, describes.mono rfl rfl rfl moves.blobs⟩
        rw [moves.calls, Function.update_of_ne same]
        exact known
    · refine ⟨id, call', ?_, done, describes⟩
      rw [moves.calls, Function.update_self]

theorem Consistent.stores (consistent : session.Consistent sha256)
    {blobs : Blobs} {sequence : Nat} (known : session.calls id = some call) (holds : call.Holds)
    (busy : ¬ call.Done) (path : call'.path = call.path)
    (grown : ∀ digest, (session.blobs digest).isSome → (blobs digest).isSome)
    (fits : Fits sha256 { session.put id call' with blobs, sequence } id call') :
    Consistent sha256 { session.put id call' with blobs, sequence } := by
  apply consistent.moves
  constructor
  · exact known
  · rfl
  · exact path
  · exact Or.inl holds
  · exact fun other member _ => member
  · exact fun _ => consistent.locked id call known holds
  · exact fun other _ => rfl
  · exact Or.inl ⟨rfl, rfl⟩
  · exact grown
  · exact fun done => absurd done busy
  · exact fun m member => Or.inl member
  · exact fits

theorem Consistent.puts (consistent : session.Consistent sha256)
    (known : session.calls id = some call) (holds : call.Holds) (busy : ¬ call.Done)
    (path : call'.path = call.path) (fits : Fits sha256 (session.put id call') id call') :
    (session.put id call').Consistent sha256 :=
  consistent.stores known holds busy path (fun _ stored => stored) fits

theorem Consistent.leave (consistent : session.Consistent sha256) {call : Call}
    (known : session.calls id = some call) (holds : call.Holds) :
    (session.leave id call).Consistent sha256 := by
  apply consistent.moves
  constructor
  · exact known
  · rfl
  · rfl
  · exact Or.inl holds
  · exact fun path member different => Finset.mem_erase.mpr ⟨different, member⟩
  · exact fun own => absurd rfl own.2
  · exact fun path _ => rfl
  · exact Or.inl ⟨rfl, rfl⟩
  · exact fun digest stored => stored
  · exact fun _ => ⟨Or.inr rfl, rfl, rfl⟩
  · exact fun m member => Or.inl member
  · trivial

theorem writeBlob_some {blobs grown : Blobs} {data : Buffer} {failed : Bool} {hash : Digest}
    (stored : writeBlob sha256 blobs data failed = some (hash, grown)) :
    hash = sha256 data ∧ (grown hash).isSome ∧
      ∀ digest, (blobs digest).isSome → (grown digest).isSome := by
  simp only [writeBlob] at stored
  split at stored
  · simp at stored
  · split at stored
    · simp at stored
    · have ⟨same, rest⟩ := Prod.mk.inj (Option.some_injective _ stored)
      subst same
      refine ⟨rfl, ?_, ?_⟩
      · rw [← rest]
        split
        · assumption
        · simp
      · intro digest present
        rw [← rest]
        split
        · exact present
        · by_cases here : digest = sha256 data
          · simp [here]
          · simpa [here] using present

theorem Call.holds_of_phase {call : Call} {phase : Phase} (here : call.phase = phase)
    (busy : phase ≠ .waiting ∧ phase ≠ .ended) : call.Holds := by
  subst here
  exact busy

theorem Consistent.inPhase (consistent : session.Consistent sha256) (id : Text) (phase : Phase)
    (body : Call → Session)
    (preserved : ∀ call, session.calls id = some call → call.phase = phase →
      (body call).Consistent sha256) : (session.inPhase id phase body).Consistent sha256 := by
  rcases inPhase_cases session id phase body with same | ⟨call, known, here, same⟩
  · rw [same]
    exact consistent
  · rw [same]
    exact preserved call known here

/-- For a call between its turn and its end: it has the path, and no record of it is written yet. -/
theorem Consistent.during (consistent : session.Consistent sha256) (id : Text) {phase : Phase}
    (body : Call → Session) (begun : phase ≠ .waiting) (running : phase ≠ .settling ∧ phase ≠ .ended)
    (preserved : ∀ call, session.calls id = some call → call.phase = phase → call.Holds →
      ¬ call.Done → Fits sha256 session id call → (body call).Consistent sha256) :
    (session.inPhase id phase body).Consistent sha256 := by
  apply consistent.inPhase
  intro call known here
  have holds : call.Holds := Call.holds_of_phase here ⟨begun, running.2⟩
  have busy : ¬ call.Done := by
    rintro (settling | ended)
    · exact running.1 (here.symm.trans settling)
    · exact running.2 (here.symm.trans ended)
  exact preserved call known here holds busy (consistent.fits id call known)

theorem Consistent.started (consistent : session.Consistent sha256) (id : Text) (tool : Tool)
    (path : Text) (fresh : session.calls id = none) :
    (session.put id (.queued tool path)).Consistent sha256 := by
  have calls : ∀ other call, (session.put id (.queued tool path)).calls other = some call →
      call.Holds → session.calls other = some call := by
    intro other call known holds
    by_cases same : other = id
    · subst same
      simp only [put, Function.update_self, Option.some.injEq] at known
      subst known
      exact absurd rfl holds.1
    · simpa [put, same] using known
  constructor
  · exact fun other call known holds => consistent.locked other call (calls other call known holds) holds
  · intro one other first second knownOne knownOther holdsOne holdsOther
    exact consistent.alone one other first second (calls one first knownOne holdsOne)
      (calls other second knownOther holdsOther) holdsOne holdsOther
  · intro other call known
    by_cases same : other = id
    · subst same
      simp only [put, Function.update_self, Option.some.injEq] at known
      subst known
      trivial
    · have earlier : session.calls other = some call := by simpa [put, same] using known
      exact (consistent.fits other call earlier).frame (fun _ => rfl) (fun _ named => ⟨named, rfl⟩)
        fun _ stored => stored
  · intro m member
    obtain ⟨writer, call, known, done, describes⟩ := consistent.recorded m member
    have different : writer ≠ id := by
      intro same
      rw [same, fresh] at known
      simp at known
    exact ⟨writer, call, by simpa [put, different] using known, done,
      describes.mono rfl rfl rfl fun _ stored => stored⟩

theorem Consistent.acquire (consistent : session.Consistent sha256) (id : Text) :
    (session.step sha256 (.acquire id)).Consistent sha256 := by
  apply consistent.inPhase
  intro call known phase
  split
  · exact consistent
  · next free =>
    apply consistent.moves
    constructor
    · exact known
    · rfl
    · rfl
    · exact Or.inr free
    · exact fun path member _ => Finset.mem_insert_of_mem member
    · exact fun _ => Finset.mem_insert_self _ _
    · exact fun path _ => rfl
    · exact Or.inl ⟨rfl, rfl⟩
    · exact fun digest stored => stored
    · intro done
      rw [Call.Done, phase] at done
      simp at done
    · exact fun m member => Or.inl member
    · trivial

theorem Consistent.look (consistent : session.Consistent sha256) (id : Text) :
    (session.step sha256 (.look id)).Consistent sha256 := by
  apply consistent.during id _ (by decide) (by decide)
  intro call known phase holds busy _
  cases tool : call.tool with
  | write =>
      exact consistent.puts known holds busy rfl rfl
  | edit =>
      cases data : session.files call.path with
      | none => exact consistent.leave known holds
      | some data' =>
          apply consistent.moves
          constructor
          · exact known
          · rfl
          · rfl
          · exact Or.inl holds
          · exact fun path member _ => member
          · exact fun _ => consistent.locked id call known holds
          · exact fun path _ => rfl
          · exact Or.inr fun path named => (Option.some_injective _ named).symm
          · exact fun digest stored => stored
          · exact fun done => absurd done busy
          · exact fun m member => Or.inl member
          · exact fun _ => data.symm

theorem Consistent.write (consistent : session.Consistent sha256) (id : Text) (content : Buffer) :
    (session.step sha256 (.write id content)).Consistent sha256 := by
  apply consistent.during id _ (by decide) (by decide)
  intro call known phase holds busy fits
  apply consistent.moves
  constructor
  · exact known
  · rfl
  · rfl
  · exact Or.inl holds
  · exact fun path member _ => member
  · exact fun _ => consistent.locked id call known holds
  · exact fun path different => Function.update_of_ne different _ _
  · exact Or.inl ⟨rfl, rfl⟩
  · exact fun digest stored => stored
  · exact fun done => absurd done busy
  · exact fun m member => Or.inl member
  · cases tool : call.tool with
    | write =>
        simp only [Fits, phase, tool] at fits ⊢
        exact fits
    | edit =>
        simp only [Fits, phase, tool] at fits ⊢
        exact fits

theorem Consistent.capture (consistent : session.Consistent sha256) (id : Text)
    (keeps : session.Keeps (.capture id)) :
    (session.step sha256 (.capture id)).Consistent sha256 := by
  apply consistent.during id _ (by decide) (by decide)
  intro call known phase holds busy fits
  split
  · refine consistent.puts known holds busy rfl ?_
    cases tool : call.tool with
    | write =>
        simp only [Fits, phase, tool] at fits ⊢
        exact fits
    | edit =>
        have named := keeps call known phase tool
        simp only [Fits, phase, tool] at fits ⊢
        rw [if_pos named]
        exact fits named
  · exact consistent.puts known holds busy rfl trivial

theorem Consistent.check (consistent : session.Consistent sha256) (id : Text) (symlink : Bool) :
    (session.step sha256 (.check id symlink)).Consistent sha256 := by
  apply consistent.during id _ (by decide) (by decide)
  intro call known phase holds busy fits
  refine consistent.puts known holds busy rfl ?_
  cases symlink with
  | true => trivial
  | false =>
      simp only [Fits, phase] at fits ⊢
      exact fits

theorem Consistent.storeBefore (consistent : session.Consistent sha256) (id : Text) (failed : Bool) :
    (session.step sha256 (.storeBefore id failed)).Consistent sha256 := by
  apply consistent.during id _ (by decide) (by decide)
  intro call known phase holds busy fits
  simp only [Fits, phase] at fits
  split
  next absent =>
    refine consistent.puts known holds busy rfl ?_
    simp [Fits, ← fits, absent, refOf, Held]
  next data present =>
    split
    next =>
      exact consistent.puts known holds busy rfl trivial
    next hash blobs stored =>
      have ⟨same, held, grown⟩ := writeBlob_some stored
      refine consistent.stores known holds busy rfl grown ?_
      simp only [Fits, ← fits, present, refOf, blobRef, same, true_and]
      intro digest named
      cases named
      exact same ▸ held

theorem Consistent.storeAfter (consistent : session.Consistent sha256) (id : Text) (failed : Bool)
    (operationId preparedAt : Text) :
    (session.step sha256 (.storeAfter id failed operationId preparedAt)).Consistent sha256 := by
  apply consistent.during id _ (by decide) (by decide)
  intro call known phase holds busy fits
  simp only [Fits, phase] at fits
  split
  next =>
    exact consistent.puts known holds busy rfl trivial
  next hash blobs stored =>
    have ⟨same, held, grown⟩ := writeBlob_some stored
    split
    · exact consistent.stores known holds busy rfl grown trivial
    · refine consistent.stores known holds busy rfl grown ?_
      intro record made
      cases made
      constructor
      · rfl
      · rfl
      · exact fits.1
      · exact congrArg StateRef.blob same
      · exact fun digest named => grown digest (fits.2 digest named)
      · intro digest named
        cases named
        exact held

theorem Consistent.append (consistent : session.Consistent sha256) (id : Text) (failed : Bool) :
    (session.step sha256 (.append id failed)).Consistent sha256 := by
  apply consistent.during id _ (by decide) (by decide)
  intro call known phase holds busy fits
  simp only [Fits, phase] at fits
  have quiet : (session.put id { call with phase := .settling }).Consistent sha256 :=
    consistent.puts known holds busy rfl trivial
  split
  next record made =>
    split
    · exact quiet
    · apply consistent.moves
      constructor
      · exact known
      · rfl
      · rfl
      · exact Or.inl holds
      · exact fun path member _ => member
      · exact fun _ => consistent.locked id call known holds
      · exact fun path _ => rfl
      · exact Or.inl ⟨rfl, rfl⟩
      · exact fun digest stored => stored
      · exact fun done => absurd done busy
      · intro m member
        simp only [getMutations, List.filterMap_append, List.mem_append] at member
        rcases member with earlier | last
        · exact Or.inl earlier
        · have same : m = record := by simpa using last
          rw [same]
          exact Or.inr ⟨Or.inl rfl,
            (fits record made).mono rfl rfl rfl fun _ stored => stored⟩
      · trivial
  next => exact quiet

theorem Consistent.settle (consistent : session.Consistent sha256) (id : Text) :
    (session.step sha256 (.settle id)).Consistent sha256 := by
  apply consistent.inPhase
  intro call known phase
  have left := consistent.leave known (Call.holds_of_phase phase (by decide))
  split
  next => exact left
  next =>
    constructor
    · exact left.locked
    · exact left.alone
    · intro other second listed
      exact (left.fits other second listed).frame (fun _ => rfl) (fun _ named => by simp at named)
        fun _ stored => stored
    · intro m member
      obtain ⟨writer, second, listed, done, describes⟩ := left.recorded m member
      exact ⟨writer, second, listed, done, describes.mono rfl rfl rfl fun _ stored => stored⟩

theorem Consistent.shutdown (consistent : session.Consistent sha256) :
    (session.step sha256 .shutdown).Consistent sha256 := by
  constructor
  · exact consistent.locked
  · exact consistent.alone
  · intro other second listed
    exact (consistent.fits other second listed).frame (fun _ => rfl) (fun _ named => ⟨named, rfl⟩)
      fun _ stored => stored
  · intro m member
    obtain ⟨writer, second, listed, done, describes⟩ := consistent.recorded m member
    exact ⟨writer, second, listed, done, describes.mono rfl rfl rfl fun _ stored => stored⟩

theorem step_consistent (session : Session) (event : Event) (consistent : session.Consistent sha256)
    (keeps : session.Keeps event) : (session.step sha256 event).Consistent sha256 := by
  cases event with
  | start id tool path =>
      simp only [step]
      split
      · exact consistent
      · next fresh => exact consistent.started id tool path (by simpa using fresh)
  | acquire id => exact consistent.acquire id
  | look id => exact consistent.look id
  | fail id =>
      apply consistent.inPhase
      exact fun call known phase => consistent.leave known (Call.holds_of_phase phase (by decide))
  | write id content => exact consistent.write id content
  | capture id => exact consistent.capture id keeps
  | check id symlink => exact consistent.check id symlink
  | storeBefore id failed => exact consistent.storeBefore id failed
  | storeAfter id failed operationId preparedAt =>
      exact consistent.storeAfter id failed operationId preparedAt
  | append id failed => exact consistent.append id failed
  | settle id => exact consistent.settle id
  | shutdown => exact consistent.shutdown

theorem start_consistent (files : Disk) (blobs : Blobs) (sessionId : Text) (sequence : Nat) :
    (start files blobs sessionId sequence).Consistent sha256 := by
  constructor <;> simp [start, getMutations]

end Invariant

theorem run_consistent {sha256 : Buffer → Digest} (files : Disk) (blobs : Blobs) (sessionId : Text)
    (sequence : Nat) (events : List Event)
    (keeps : Runs.Along (step sha256) Keeps (start files blobs sessionId sequence) events) :
    (Runs.run (step sha256) (start files blobs sessionId sequence) events).Consistent sha256 :=
  Runs.along_invariant (step sha256) step_consistent _ events
    (start_consistent files blobs sessionId sequence) keeps

theorem capture_faithful (sha256 : Buffer → Digest) (files : Disk) (blobs : Blobs) (sessionId : Text)
    (sequence : Nat) (events : List Event)
    (keeps : Runs.Along (step sha256) Keeps (start files blobs sessionId sequence) events) :
    (Runs.run (step sha256) (start files blobs sessionId sequence) events).Faithful sha256 := by
  intro m member
  obtain ⟨id, call, known, _, describes⟩ :=
    (run_consistent files blobs sessionId sequence events keeps).recorded m member
  exact ⟨id, call, known, describes⟩

end Session

section Cases

def paint (data : Buffer) : Digest :=
  { hex := List.replicate 64 (if data = [1] then 'a' else 'b')
    size := by simp }

def twoFiles : Disk := fun path =>
  if path = ['f'] then some [1] else if path = ['g'] then some [2] else none

def storeAndAppend (id : Text) : List Event :=
  [.check id false, .storeBefore id false, .storeAfter id false [] [], .append id false, .settle id]

def oneAfterTheOther : List Event :=
  [.start ['1'] .edit ['f'], .acquire ['1'], .look ['1'], .write ['1'] [2], .capture ['1']] ++
    storeAndAppend ['1'] ++
      [.start ['2'] .edit ['g'], .acquire ['2'], .look ['2'], .write ['2'] [1], .capture ['2']] ++
        storeAndAppend ['2']

theorem capture_faithful_in_turn :
    Session.Faithful paint
      (Runs.run (Session.step paint) (Session.start twoFiles (fun _ => none) [] 0) oneAfterTheOther) := by
  apply Session.capture_faithful paint twoFiles (fun _ => none) [] 0 oneAfterTheOther
  refine ⟨trivial, trivial, trivial, trivial, ?_, trivial, trivial, trivial, trivial, trivial,
    trivial, trivial, trivial, trivial, ?_, trivial, trivial, trivial, trivial, trivial, trivial⟩
  · intro call known _ _
    cases known
    rfl
  · intro call known _ _
    cases known
    rfl

def interleaved : List Event :=
  [.start ['1'] .edit ['f'], .start ['2'] .edit ['g'], .acquire ['1'], .acquire ['2'], .look ['1'],
    .look ['2'], .write ['1'] [2], .capture ['1']] ++ storeAndAppend ['1']

theorem interleaved_record_unfaithful :
    ¬ ∀ (sha256 : Buffer → Digest) (files : Disk) (blobs : Blobs) (sessionId : Text) (sequence : Nat)
        (events : List Event),
        (Runs.run (Session.step sha256) (Session.start files blobs sessionId sequence)
          events).Faithful sha256 := by
  intro claim
  have faithful := claim paint twoFiles (fun _ => none) [] 0 interleaved
  obtain ⟨id, call, known, describes⟩ := faithful _ (List.mem_singleton.mpr rfl)
  have caller := describes.caller
  have before := describes.before
  subst caller
  cases known
  exact absurd before (by decide)

end Cases

end GrokPi.Rollback
