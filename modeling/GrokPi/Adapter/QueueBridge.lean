import GrokPi.Shared.Runs
import GrokPi.Shared.Text

set_option autoImplicit false

namespace GrokPi.QueueBridge

inductive QueueLane where
  | steering
  | followUp
  deriving DecidableEq, Repr

inductive QueueOrigin where
  | client
  | extension
  | pi
  deriving DecidableEq, Repr

structure QueueEntry (Value : Type) where
  id : Text
  executionText : Text
  displayText : Text
  images : List Value
  version : UInt64
  lane : QueueLane
  origin : QueueOrigin
  deriving DecidableEq

structure ReservedPrompt (Value : Type) where
  id : Text
  executionText : Text
  displayText : Text
  images : List Value
  lane : QueueLane
  origin : QueueOrigin
  deriving DecidableEq

structure QueueMirror (Value : Type) where
  localEntries : List (QueueEntry Value)
  piEntries : List (QueueEntry Value)
  reserved : List (ReservedPrompt Value)
  -- Follow-ups that vanished from Pi's arrays while the running slot was owned by another prompt.
  parked : List (QueueEntry Value)
  nextSeq : UInt64
  running : Option (QueueEntry Value)
  deriving DecidableEq

structure QueueRow where
  id : Text
  version : UInt64
  text : Text
  position : Nat
  deriving DecidableEq

structure QueueSnapshot where
  entries : List QueueRow
  runningPromptId : Option Text
  runningText : Option Text
  steeringCount : Nat
  followUpCount : Nat
  deriving DecidableEq

variable {Value : Type}

def QueueMirror.empty : QueueMirror Value :=
  { localEntries := [], piEntries := [], reserved := [], parked := [], nextSeq := 0, running := none }

def isBlank (id : Text) : Bool := id.trim.isEmpty

def QueueMirror.nextId (mirror : QueueMirror Value) (label : Text) : Text × QueueMirror Value :=
  let bumped := mirror.nextSeq + 1
  let seq := if bumped = 0 then 1 else bumped
  (label ++ '-' :: Nat.toDigits 10 seq.toNat, { mirror with nextSeq := seq })

def QueueOrigin.idPrefix : QueueOrigin → Text
  | .client => "pi-client-queue".toList
  | .extension => "pi-extension-queue".toList
  | .pi => "pi-queue".toList

def updateFirst (id : Text) (update : QueueEntry Value → QueueEntry Value) :
    List (QueueEntry Value) → Option (List (QueueEntry Value))
  | [] => none
  | entry :: rest =>
      if entry.id = id then some (update entry :: rest)
      else (updateFirst id update rest).map (entry :: ·)

def QueueMirror.enqueueLocal (mirror : QueueMirror Value) (id : Option Text)
    (executionText displayText : Text) (images : List Value) (lane : QueueLane)
    (origin : QueueOrigin) : Text × QueueMirror Value :=
  let (id, mirror) :=
    match id.filter (! isBlank ·) with
    | some id => (id, mirror)
    | none => mirror.nextId origin.idPrefix
  let replaced := updateFirst id (fun existing =>
    { existing with
      executionText := executionText
      displayText := displayText
      images := images
      lane := lane
      origin := origin }) mirror.localEntries
  match replaced with
  | some entries => (id, { mirror with localEntries := entries })
  | none =>
      let entry : QueueEntry Value :=
        { id := id
          executionText := executionText
          displayText := displayText
          images := images
          version := 0
          lane := lane
          origin := origin }
      (id, { mirror with localEntries := mirror.localEntries ++ [entry] })

def QueueMirror.takeLocal (mirror : QueueMirror Value) (id : Text) (expectedVersion : Option UInt64) :
    Option (QueueEntry Value) × QueueMirror Value :=
  let wanted := fun entry : QueueEntry Value =>
    entry.id == id && expectedVersion.all (· == entry.version)
  match mirror.localEntries.find? wanted with
  | none => (none, mirror)
  | some entry => (some entry, { mirror with localEntries := mirror.localEntries.eraseP wanted })

def QueueMirror.popNextLocal (mirror : QueueMirror Value) :
    Option (QueueEntry Value) × QueueMirror Value :=
  (mirror.localEntries.head?, { mirror with localEntries := mirror.localEntries.tail })

def QueueMirror.pushFrontLocal (mirror : QueueMirror Value) (entry : QueueEntry Value) :
    QueueMirror Value :=
  { mirror with localEntries := entry :: mirror.localEntries.filter (·.id != entry.id) }

def QueueMirror.editLocal (mirror : QueueMirror Value) (id newText : Text) :
    Bool × QueueMirror Value :=
  let edited := updateFirst id (fun entry =>
    { entry with executionText := newText, displayText := newText, version := entry.version + 1 })
    mirror.localEntries
  match edited with
  | none => (false, mirror)
  | some entries => (true, { mirror with localEntries := entries })

def pickById : List Text → List (QueueEntry Value) → List (QueueEntry Value)
  | [], remaining => remaining
  | id :: rest, remaining =>
      match remaining.find? (·.id == id) with
      | some entry => entry :: pickById rest (remaining.eraseP (·.id == id))
      | none => pickById rest remaining

def QueueMirror.reorderLocal (mirror : QueueMirror Value) (orderedIds : List Text) :
    Bool × QueueMirror Value :=
  if mirror.localEntries.length < 2 then (false, mirror)
  else
    let reordered := pickById orderedIds mirror.localEntries
    (mirror.localEntries.map (·.id) != reordered.map (·.id),
      { mirror with localEntries := reordered })

def QueueMirror.clearLocal (mirror : QueueMirror Value) :
    List (QueueEntry Value) × QueueMirror Value :=
  (mirror.localEntries, { mirror with localEntries := [] })

def QueueMirror.reserve (mirror : QueueMirror Value) (prompt : ReservedPrompt Value) :
    QueueMirror Value :=
  if isBlank prompt.id then mirror
  else { mirror with reserved := mirror.reserved.filter (·.id != prompt.id) ++ [prompt] }

def QueueMirror.releaseReservation (mirror : QueueMirror Value) (id : Text) : QueueMirror Value :=
  { mirror with reserved := mirror.reserved.filter (·.id != id) }

def QueueMirror.setRunning (mirror : QueueMirror Value) (entry : QueueEntry Value) :
    QueueMirror Value :=
  { mirror with running := some entry }

def QueueMirror.setRunningPrimary (mirror : QueueMirror Value) (id executionText displayText : Text)
    (images : List Value) (origin : QueueOrigin) : QueueMirror Value :=
  if isBlank id then mirror
  else
    { mirror with
      running := some
        { id := id
          executionText := executionText
          displayText := displayText
          images := images
          version := 0
          lane := .followUp
          origin := origin } }

def QueueMirror.clearRunning (mirror : QueueMirror Value) :
    Option (QueueEntry Value) × QueueMirror Value :=
  (mirror.running, { mirror with reserved := [], running := none })

def QueueMirror.snapshot (mirror : QueueMirror Value) : QueueSnapshot :=
  let listed := mirror.piEntries ++ mirror.localEntries
  let steeringCount := (listed.filter (·.lane == .steering)).length
  -- Parked entries are no rows, but Pi will still run them.
  let total := mirror.piEntries.length + mirror.localEntries.length + mirror.parked.length
  { entries := listed.mapIdx fun position entry =>
      { id := entry.id, version := entry.version, text := entry.displayText, position := position }
    runningPromptId := mirror.running.map (·.id)
    runningText := mirror.running.map (·.displayText)
    steeringCount := steeringCount
    followUpCount := total - steeringCount }

def claimPrevious (text : Text) (lane : QueueLane) :
    List (QueueEntry Value × Bool) → Option (QueueEntry Value × List (QueueEntry Value × Bool))
  | [] => none
  | (entry, used) :: rest =>
      if !used && entry.lane == lane && entry.executionText == text then
        some (entry, (entry, true) :: rest)
      else (claimPrevious text lane rest).map fun (found, marked) => (found, (entry, used) :: marked)

def findReserved (text : Text) (lane : QueueLane) (reserved : List (ReservedPrompt Value)) :
    Option (ReservedPrompt Value × List (ReservedPrompt Value)) :=
  let exact := fun item : ReservedPrompt Value => item.lane == lane && item.executionText == text
  let sameLane := fun item : ReservedPrompt Value => item.lane == lane
  match reserved.find? exact with
  | some item => some (item, reserved.eraseP exact)
  | none => (reserved.find? sameLane).map fun item => (item, reserved.eraseP sameLane)

def QueueMirror.mirrorEntries (mirror : QueueMirror Value) :
    List (QueueEntry Value × Bool) → List (Text × QueueLane) →
      List (QueueEntry Value) × List (QueueEntry Value × Bool) × QueueMirror Value
  | previous, [] => ([], previous, mirror)
  | previous, (text, lane) :: rest =>
      match claimPrevious text lane previous with
      | some (entry, marked) =>
          let (next, left, final) := mirror.mirrorEntries marked rest
          (entry :: next, left, final)
      | none =>
          match findReserved text lane mirror.reserved with
          | some (item, others) =>
              let entry : QueueEntry Value :=
                { id := item.id
                  executionText := text
                  displayText := item.displayText
                  images := item.images
                  version := 0
                  lane := lane
                  origin := item.origin }
              let (next, left, final) := { mirror with reserved := others }.mirrorEntries previous rest
              (entry :: next, left, final)
          | none =>
              let (id, bumped) := mirror.nextId "pi-queue".toList
              let entry : QueueEntry Value :=
                { id := id
                  executionText := text
                  displayText := text
                  images := []
                  version := 0
                  lane := lane
                  origin := .pi }
              let (next, left, final) := bumped.mirrorEntries previous rest
              (entry :: next, left, final)

def desiredEntries (steering followUp : List Text) : List (Text × QueueLane) :=
  steering.map (·, .steering) ++ followUp.map (·, .followUp)

def dequeuedFollowUps (previous : List (QueueEntry Value × Bool)) : List (QueueEntry Value) :=
  (previous.filter fun (entry, used) => !used && entry.lane == .followUp).map Prod.fst

def QueueMirror.applyQueueUpdate (mirror : QueueMirror Value) (steering followUp : List Text) :
    QueueSnapshot × QueueMirror Value :=
  let (next, previous, claimed) :=
    mirror.mirrorEntries (mirror.piEntries.map (·, false)) (desiredEntries steering followUp)
  let reserved := claimed.reserved.filter fun item => !next.any (·.id == item.id)
  let dequeued := dequeuedFollowUps previous
  -- Only a free slot is filled; a live entry keeps it and the others are parked.
  let (running, parked) :=
    match claimed.running, dequeued with
    | none, first :: rest => (some first, claimed.parked ++ rest)
    | running, dequeued => (running, claimed.parked ++ dequeued)
  let updated := { claimed with
    piEntries := next, reserved := reserved, running := running, parked := parked }
  (updated.snapshot, updated)

def QueueMirror.requeued (mirror : QueueMirror Value) (entry : QueueEntry Value) : Bool :=
  (mirror.piEntries ++ mirror.localEntries).any (·.id == entry.id)

def QueueMirror.popParked (mirror : QueueMirror Value) :
    List (QueueEntry Value) → Option (QueueEntry Value) × List (QueueEntry Value)
  | [] => (none, [])
  | entry :: older =>
      if mirror.requeued entry then mirror.popParked older else (some entry, older)

def QueueMirror.promoteParkedRunning (mirror : QueueMirror Value) : Bool × QueueMirror Value :=
  if mirror.running.isSome then (false, mirror)
  else
    match mirror.popParked mirror.parked.reverse with
    | (some entry, older) => (true, { mirror with running := some entry, parked := older.reverse })
    | (none, older) => (false, { mirror with parked := older.reverse })

def QueueMirror.clear (mirror : QueueMirror Value) : QueueSnapshot × QueueMirror Value :=
  let cleared := { mirror with
    localEntries := [], piEntries := [], reserved := [], parked := [], running := none }
  (cleared.snapshot, cleared)


section Matching

def leftoverTexts (previous : List (QueueEntry Value × Bool)) : List Text :=
  (dequeuedFollowUps previous).map (·.executionText)

def followUpTexts (entries : List (QueueEntry Value)) : List Text :=
  (entries.filter (·.lane == .followUp)).map (·.executionText)

def desiredFollowUps (desired : List (Text × QueueLane)) : List Text :=
  (desired.filter (·.2 == .followUp)).map Prod.fst

theorem leftoverTexts_cons (entry : QueueEntry Value) (used : Bool)
    (rest : List (QueueEntry Value × Bool)) :
    leftoverTexts ((entry, used) :: rest) =
      if used = false ∧ entry.lane = .followUp then entry.executionText :: leftoverTexts rest
      else leftoverTexts rest := by
  by_cases open' : used = false ∧ entry.lane = .followUp
  · simp [leftoverTexts, dequeuedFollowUps, open'.1, open'.2]
  · rw [if_neg open']
    simp only [leftoverTexts, dequeuedFollowUps, List.filter_cons]
    cases used <;> simp_all

theorem leftoverTexts_fresh (entries : List (QueueEntry Value)) :
    leftoverTexts (entries.map (·, false)) = followUpTexts entries := by
  induction entries with
  | nil => rfl
  | cons entry rest ih =>
      by_cases lane : entry.lane = .followUp <;>
        simp [leftoverTexts_cons, followUpTexts, lane, ih]

theorem claimPrevious_some {text : Text} {lane : QueueLane}
    {previous marked : List (QueueEntry Value × Bool)} {entry : QueueEntry Value}
    (found : claimPrevious text lane previous = some (entry, marked)) :
    (entry.executionText, entry.lane) = (text, lane) ∧
      leftoverTexts marked =
        if lane = .followUp then (leftoverTexts previous).erase text
        else leftoverTexts previous := by
  induction previous generalizing marked with
  | nil => simp [claimPrevious] at found
  | cons head rest ih =>
      obtain ⟨candidate, used⟩ := head
      by_cases fits : (!used && candidate.lane == lane && candidate.executionText == text) = true
      · simp only [claimPrevious, fits, if_true, Option.some.injEq, Prod.mk.injEq] at found
        obtain ⟨rfl, rfl⟩ := found
        simp only [Bool.and_eq_true, Bool.not_eq_true', beq_iff_eq] at fits
        obtain ⟨⟨rfl, rfl⟩, rfl⟩ := fits
        refine ⟨rfl, ?_⟩
        by_cases followUp : candidate.lane = .followUp <;> simp [leftoverTexts_cons, followUp]
      · simp only [claimPrevious, fits, Bool.false_eq_true, if_false, Option.map_eq_some_iff,
          Prod.exists, Prod.mk.injEq] at found
        obtain ⟨other, later, claimed, rfl, rfl⟩ := found
        obtain ⟨same, left⟩ := ih claimed
        refine ⟨same, ?_⟩
        rw [leftoverTexts_cons, leftoverTexts_cons, left]
        by_cases followUp : lane = .followUp
        · subst followUp
          by_cases waiting : used = false ∧ candidate.lane = .followUp
          · have differ : candidate.executionText ≠ text := by
              intro same
              simp [waiting.1, waiting.2, same] at fits
            simp [waiting, List.erase_cons_tail, differ]
          · simp [waiting]
        · simp [followUp]

theorem claimPrevious_none {text : Text} {previous : List (QueueEntry Value × Bool)}
    (missing : claimPrevious text .followUp previous = none) :
    text ∉ leftoverTexts previous := by
  induction previous with
  | nil => simp [leftoverTexts, dequeuedFollowUps]
  | cons head rest ih =>
      obtain ⟨candidate, used⟩ := head
      by_cases fits :
          (!used && candidate.lane == .followUp && candidate.executionText == text) = true
      · simp [claimPrevious, fits] at missing
      · simp only [claimPrevious, fits, Bool.false_eq_true, if_false, Option.map_eq_none_iff] at missing
        rw [leftoverTexts_cons]
        split
        next waiting =>
          simp only [waiting.1, waiting.2, Bool.not_false, BEq.rfl, Bool.and_self, Bool.true_and,
            beq_iff_eq] at fits
          simp [ih missing, Ne.symm fits]
        next => exact ih missing

structure Mirrors (mirror : QueueMirror Value) (previous : List (QueueEntry Value × Bool))
    (desired : List (Text × QueueLane))
    (result : List (QueueEntry Value) × List (QueueEntry Value × Bool) × QueueMirror Value) : Prop where
  entries : result.1.map (fun entry => (entry.executionText, entry.lane)) = desired
  leftover : leftoverTexts result.2.1 = (leftoverTexts previous).diff (desiredFollowUps desired)
  running : result.2.2.running = mirror.running
  parked : result.2.2.parked = mirror.parked
  localEntries : result.2.2.localEntries = mirror.localEntries

theorem diff_followUps (texts : List Text) (text : Text) (lane : QueueLane)
    (rest : List (Text × QueueLane)) :
    texts.diff (desiredFollowUps ((text, lane) :: rest)) =
      (if lane = .followUp then texts.erase text else texts).diff (desiredFollowUps rest) := by
  by_cases followUp : lane = .followUp <;> simp [desiredFollowUps, followUp]

theorem mirrorEntries_mirrors (mirror : QueueMirror Value)
    (previous : List (QueueEntry Value × Bool)) (desired : List (Text × QueueLane)) :
    Mirrors mirror previous desired (mirror.mirrorEntries previous desired) := by
  induction desired generalizing mirror previous with
  | nil => constructor <;> simp [QueueMirror.mirrorEntries, desiredFollowUps]
  | cons head rest ih =>
      obtain ⟨text, lane⟩ := head
      cases claim : claimPrevious text lane previous with
      | some claimed =>
          obtain ⟨entry, marked⟩ := claimed
          obtain ⟨same, left⟩ := claimPrevious_some claim
          have later := ih mirror marked
          constructor <;> simp only [QueueMirror.mirrorEntries, claim, List.map_cons]
          · rw [later.entries, same]
          · rw [later.leftover, left, diff_followUps]
          · exact later.running
          · exact later.parked
          · exact later.localEntries
      | none =>
          -- A new text claims nothing, so it strikes out nothing either.
          have unclaimed : (if lane = .followUp then (leftoverTexts previous).erase text
              else leftoverTexts previous) = leftoverTexts previous := by
            split
            next followUp => exact List.erase_of_not_mem (claimPrevious_none (followUp ▸ claim))
            next => rfl
          cases reservation : findReserved text lane mirror.reserved with
          | some found =>
              have later := ih { mirror with reserved := found.2 } previous
              constructor <;> simp only [QueueMirror.mirrorEntries, claim, reservation, List.map_cons]
              · rw [later.entries]
              · rw [later.leftover, diff_followUps, unclaimed]
              · exact later.running
              · exact later.parked
              · exact later.localEntries
          | none =>
              have later := ih (mirror.nextId "pi-queue".toList).2 previous
              constructor <;> simp only [QueueMirror.mirrorEntries, claim, reservation, List.map_cons]
              · rw [later.entries]
              · rw [later.leftover, diff_followUps, unclaimed]
              · exact later.running
              · exact later.parked
              · exact later.localEntries

end Matching

section Updates

def parkedTexts (mirror : QueueMirror Value) : List Text :=
  mirror.parked.map (·.executionText)

def QueueMirror.missing (mirror : QueueMirror Value) (followUp : List Text) : List Text :=
  (followUpTexts mirror.piEntries).diff followUp

theorem desiredFollowUps_entries (steering followUp : List Text) :
    desiredFollowUps (desiredEntries steering followUp) = followUp := by
  simp [desiredFollowUps, desiredEntries, List.filter_append, List.filter_map, Function.comp_def]

theorem followUpTexts_lanes (entries : List (QueueEntry Value)) :
    followUpTexts entries =
      desiredFollowUps (entries.map fun entry => (entry.executionText, entry.lane)) := by
  simp [followUpTexts, desiredFollowUps, List.filter_map, Function.comp_def]

theorem applyQueueUpdate_entries (mirror : QueueMirror Value) (steering followUp : List Text) :
    followUpTexts (mirror.applyQueueUpdate steering followUp).2.piEntries = followUp := by
  have mirrors := mirrorEntries_mirrors mirror (mirror.piEntries.map (·, false))
    (desiredEntries steering followUp)
  have entries : followUpTexts (mirror.applyQueueUpdate steering followUp).2.piEntries =
      followUpTexts (mirror.mirrorEntries (mirror.piEntries.map (·, false))
        (desiredEntries steering followUp)).1 := by
    simp only [QueueMirror.applyQueueUpdate]
  rw [entries, followUpTexts_lanes, mirrors.entries, desiredFollowUps_entries]

theorem applyQueueUpdate_occupied (mirror : QueueMirror Value) (steering followUp : List Text)
    (occupied : mirror.running ≠ none) :
    (mirror.applyQueueUpdate steering followUp).2.running = mirror.running ∧
      parkedTexts (mirror.applyQueueUpdate steering followUp).2 =
        parkedTexts mirror ++ mirror.missing followUp := by
  have mirrors := mirrorEntries_mirrors mirror (mirror.piEntries.map (·, false))
    (desiredEntries steering followUp)
  have leftover := mirrors.leftover
  rw [leftoverTexts_fresh, desiredFollowUps_entries] at leftover
  simp only [QueueMirror.applyQueueUpdate]
  split
  next free _ => exact absurd (mirrors.running ▸ free) occupied
  next =>
    refine ⟨mirrors.running, ?_⟩
    simp only [parkedTexts, List.map_append, mirrors.parked]
    exact congrArg _ leftover

theorem applyQueueUpdate_free (mirror : QueueMirror Value) (steering followUp : List Text)
    (free : mirror.running = none) :
    (mirror.applyQueueUpdate steering followUp).2.running.map (·.executionText) =
        (mirror.missing followUp).head? ∧
      parkedTexts (mirror.applyQueueUpdate steering followUp).2 =
        parkedTexts mirror ++ (mirror.missing followUp).tail := by
  have mirrors := mirrorEntries_mirrors mirror (mirror.piEntries.map (·, false))
    (desiredEntries steering followUp)
  have leftover := mirrors.leftover
  rw [leftoverTexts_fresh, desiredFollowUps_entries, leftoverTexts] at leftover
  have open' := mirrors.running.trans free
  rw [QueueMirror.missing, ← leftover]
  simp only [QueueMirror.applyQueueUpdate]
  split
  next _ _ first rest _ dequeued =>
    simp [parkedTexts, dequeued, mirrors.parked]
  next vacant =>
    cases dequeued : dequeuedFollowUps (mirror.mirrorEntries (mirror.piEntries.map (·, false))
        (desiredEntries steering followUp)).2.1 with
    | nil => simp [parkedTexts, open', mirrors.parked]
    | cons first rest => exact absurd dequeued (vacant first rest open')

theorem popParked_eq (mirror : QueueMirror Value) (entries : List (QueueEntry Value)) :
    mirror.popParked entries =
      ((entries.dropWhile mirror.requeued).head?, (entries.dropWhile mirror.requeued).tail) := by
  induction entries with
  | nil => rfl
  | cons entry older ih =>
      cases again : mirror.requeued entry <;> simp [QueueMirror.popParked, again, ih]

theorem promoteParkedRunning_free (mirror : QueueMirror Value) (free : mirror.running = none) :
    let claimable := mirror.parked.reverse.dropWhile mirror.requeued
    mirror.promoteParkedRunning =
      (claimable.head?.isSome,
        { mirror with running := claimable.head?, parked := claimable.tail.reverse }) := by
  simp only [QueueMirror.promoteParkedRunning, popParked_eq]
  cases mirror.parked.reverse.dropWhile mirror.requeued <;> simp [free]

end Updates

section Sessions

inductive LocalCommand (Value : Type) where
  | enqueueLocal (id : Option Text) (executionText displayText : Text) (images : List Value)
      (lane : QueueLane) (origin : QueueOrigin)
  | takeLocal (id : Text) (expectedVersion : Option UInt64)
  | popNextLocal
  | pushFrontLocal (entry : QueueEntry Value)
  | editLocal (id newText : Text)
  | reorderLocal (orderedIds : List Text)
  | clearLocal
  | reserve (prompt : ReservedPrompt Value)
  | releaseReservation (id : Text)
  | setRunning (entry : QueueEntry Value)
  | setRunningPrimary (id executionText displayText : Text) (images : List Value)
      (origin : QueueOrigin)
  | clearRunning

def QueueMirror.perform (mirror : QueueMirror Value) : LocalCommand Value → QueueMirror Value
  | .enqueueLocal id executionText displayText images lane origin =>
      (mirror.enqueueLocal id executionText displayText images lane origin).2
  | .takeLocal id expectedVersion => (mirror.takeLocal id expectedVersion).2
  | .popNextLocal => mirror.popNextLocal.2
  | .pushFrontLocal entry => mirror.pushFrontLocal entry
  | .editLocal id newText => (mirror.editLocal id newText).2
  | .reorderLocal orderedIds => (mirror.reorderLocal orderedIds).2
  | .clearLocal => mirror.clearLocal.2
  | .reserve prompt => mirror.reserve prompt
  | .releaseReservation id => mirror.releaseReservation id
  | .setRunning entry => mirror.setRunning entry
  | .setRunningPrimary id executionText displayText images origin =>
      mirror.setRunningPrimary id executionText displayText images origin
  | .clearRunning => mirror.clearRunning.2

theorem perform_frame (mirror : QueueMirror Value) (command : LocalCommand Value) :
    (mirror.perform command).piEntries = mirror.piEntries ∧
      (mirror.perform command).parked = mirror.parked := by
  cases command with
  | enqueueLocal id executionText displayText images lane origin =>
      simp only [QueueMirror.perform, QueueMirror.enqueueLocal]
      split <;> split <;> exact ⟨rfl, rfl⟩
  | takeLocal id expectedVersion =>
      simp only [QueueMirror.perform, QueueMirror.takeLocal]
      split <;> exact ⟨rfl, rfl⟩
  | editLocal id newText =>
      simp only [QueueMirror.perform, QueueMirror.editLocal]
      split <;> exact ⟨rfl, rfl⟩
  | reorderLocal orderedIds =>
      simp only [QueueMirror.perform, QueueMirror.reorderLocal]
      split <;> exact ⟨rfl, rfl⟩
  | reserve prompt =>
      simp only [QueueMirror.perform, QueueMirror.reserve]
      split <;> exact ⟨rfl, rfl⟩
  | setRunningPrimary id executionText displayText images origin =>
      simp only [QueueMirror.perform, QueueMirror.setRunningPrimary]
      split <;> exact ⟨rfl, rfl⟩
  | popNextLocal | pushFrontLocal | clearLocal | releaseReservation | setRunning | clearRunning =>
      exact ⟨rfl, rfl⟩

/-- How a follow-up that left Pi's array becomes running. -/
inductive Route where
  | direct
  | promoted
  deriving DecidableEq

/-- Only the first follow-up that leaves under a free slot runs without a promotion. -/
def routes (free : Bool) : List Text → List (Text × Route)
  | [] => []
  | first :: rest => (first, if free then .direct else .promoted) :: rest.map (·, .promoted)

inductive Command (Value : Type) where
  | perform (command : LocalCommand Value)
  | queueUpdate (steering : List Text) (removed : Nat) (appended : List Text)
  | promoteParkedRunning
  | clear

/-- The mirror, Pi's follow-up array, and what left it and became running since the last clear. -/
structure Session (Value : Type) where
  mirror : QueueMirror Value
  queued : List Text
  left : List (Text × Route)
  ran : List (Text × Route)

def Session.start : Session Value :=
  { mirror := .empty, queued := [], left := [], ran := [] }

def runningAs (route : Route) (mirror : QueueMirror Value) : List (Text × Route) :=
  mirror.running.toList.map fun entry => (entry.executionText, route)

def Session.step (session : Session Value) : Command Value → Session Value
  | .perform command => { session with mirror := session.mirror.perform command }
  | .queueUpdate steering removed appended =>
      let followUp := session.queued.drop removed ++ appended
      let free := session.mirror.running.isNone
      let mirror := (session.mirror.applyQueueUpdate steering followUp).2
      { mirror := mirror
        queued := followUp
        left := session.left ++ routes free (session.queued.take removed)
        ran := session.ran ++ if free then runningAs .direct mirror else [] }
  | .promoteParkedRunning =>
      let (claimed, mirror) := session.mirror.promoteParkedRunning
      { session with
        mirror := mirror
        ran := session.ran ++ if claimed then runningAs .promoted mirror else [] }
  | .clear => { mirror := session.mirror.clear.2, queued := [], left := [], ran := [] }

/-- Everything that left has run, in that order, or is parked and waits for its promotion. -/
def Session.Conserved (session : Session Value) : Prop :=
  session.left = session.ran ++ (parkedTexts session.mirror).map (·, .promoted)

instance (session : Session Value) : Decidable session.Conserved :=
  inferInstanceAs (Decidable (_ = _))

/-- No update hides a follow-up that left or overtakes a parked one, and a free slot is offered
to parked follow-ups only when the newest of them is not queued again and reads like the others. -/
def Session.Keeps (session : Session Value) : Command Value → Prop
  | .queueUpdate _ removed appended =>
      session.queued.diff (session.queued.drop removed ++ appended) = session.queued.take removed ∧
        (session.mirror.running = none → session.queued.take removed = [] ∨
          session.mirror.parked = [])
  | .promoteParkedRunning =>
      session.mirror.running = none → ∀ newest ∈ session.mirror.parked.getLast?,
        session.mirror.requeued newest = false ∧
          ∀ entry ∈ session.mirror.parked, entry.executionText = newest.executionText
  | .perform _ | .clear => True

instance (session : Session Value) : DecidablePred session.Keeps
  | .queueUpdate _ _ _ => inferInstanceAs (Decidable (_ ∧ (_ → _)))
  | .promoteParkedRunning => inferInstanceAs (Decidable (_ → _))
  | .perform _ | .clear => inferInstanceAs (Decidable True)

/-- A free slot offered to parked follow-ups is taken. -/
def Session.Promotes (session : Session Value) : Prop :=
  session.mirror.running = none → session.mirror.parked ≠ [] →
    (session.step .promoteParkedRunning).ran.length = session.ran.length + 1

structure Session.Consistent (session : Session Value) : Prop where
  mirrored : followUpTexts session.mirror.piEntries = session.queued
  conserved : session.Conserved

theorem start_consistent : (Session.start : Session Value).Consistent := by
  constructor <;> rfl

theorem step_mirrored (session : Session Value) (command : Command Value)
    (mirrored : followUpTexts session.mirror.piEntries = session.queued) :
    followUpTexts (session.step command).mirror.piEntries = (session.step command).queued := by
  cases command with
  | perform command => simpa [Session.step, (perform_frame session.mirror command).1] using mirrored
  | queueUpdate steering removed appended => exact applyQueueUpdate_entries _ _ _
  | promoteParkedRunning =>
      simp only [Session.step]
      cases slot : session.mirror.running with
      | none => simpa [promoteParkedRunning_free _ slot] using mirrored
      | some entry => simpa [QueueMirror.promoteParkedRunning, slot] using mirrored
  | clear => rfl

theorem routes_free (texts : List Text) :
    routes true texts = texts.head?.toList.map (·, .direct) ++ texts.tail.map (·, .promoted) := by
  cases texts <;> rfl

theorem routes_occupied (texts : List Text) : routes false texts = texts.map (·, .promoted) := by
  cases texts <;> rfl

theorem routes_texts (free : Bool) (texts : List Text) : (routes free texts).map Prod.fst = texts := by
  cases texts <;> simp [routes, Function.comp_def]

theorem promoted_injective : Function.Injective fun text : Text => (text, Route.promoted) :=
  fun _ _ same => (Prod.mk.inj same).1

theorem queueUpdate_conserved (session : Session Value) (consistent : session.Consistent)
    (steering : List Text) (removed : Nat) (appended : List Text) :
    (session.step (.queueUpdate steering removed appended)).Conserved ↔
      session.Keeps (.queueUpdate steering removed appended) := by
  -- The update shows all that left, in front of nothing that is parked.
  have missing : session.mirror.missing (session.queued.drop removed ++ appended) =
      session.queued.diff (session.queued.drop removed ++ appended) := by
    rw [QueueMirror.missing, consistent.mirrored]
  generalize gone : session.queued.diff (session.queued.drop removed ++ appended) = shown at missing
  generalize leaving : session.queued.take removed = leaves
  have before : session.left = session.ran ++ (parkedTexts session.mirror).map (·, .promoted) :=
    consistent.conserved
  cases slot : session.mirror.running with
  | some entry =>
      obtain ⟨-, parked⟩ := applyQueueUpdate_occupied session.mirror steering
        (session.queued.drop removed ++ appended) (by simp [slot])
      simp only [Session.Conserved, Session.step, slot, Option.isNone_some, parked, missing, leaving,
        before, Session.Keeps, gone, routes_occupied, List.map_append, Bool.false_eq_true, if_false,
        List.append_nil, List.append_assoc, List.append_cancel_left_eq, reduceCtorEq,
        false_implies, and_true]
      rw [List.map_inj_right promoted_injective, eq_comm]
  | none =>
      obtain ⟨running, parked⟩ := applyQueueUpdate_free session.mirror steering
        (session.queued.drop removed ++ appended) slot
      have started : runningAs .direct (session.mirror.applyQueueUpdate steering
          (session.queued.drop removed ++ appended)).2 = shown.head?.toList.map (·, .direct) := by
        rw [missing] at running
        rw [← running, runningAs]
        cases (session.mirror.applyQueueUpdate steering _).2.running <;> rfl
      simp only [Session.Conserved, Session.step, slot, Option.isNone_none, parked, missing, leaving,
        before, Session.Keeps, gone, if_true, started, List.map_append, List.append_assoc,
        List.append_cancel_left_eq, true_implies]
      cases waiting : session.mirror.parked with
      | nil =>
          have empty : parkedTexts session.mirror = [] := by simp [parkedTexts, waiting]
          rw [empty, List.map_nil, List.nil_append, List.nil_append, ← routes_free]
          constructor
          · intro same
            exact ⟨by simpa [routes_texts] using (congrArg (List.map Prod.fst) same).symm, Or.inr rfl⟩
          · rintro ⟨rfl, -⟩
            rfl
      | cons oldest others =>
          have front : parkedTexts session.mirror =
              oldest.executionText :: others.map (·.executionText) := by
            simp [parkedTexts, waiting]
          rw [front]
          -- A direct start would stand in front of the oldest parked follow-up.
          cases shown with
          | nil => cases leaves <;> simp [routes]
          | cons first rest =>
              simp only [List.head?_cons, Option.toList_some, List.map_cons, List.map_nil,
                List.cons_append, List.cons.injEq, Prod.mk.injEq, reduceCtorEq, and_false, false_and,
                false_iff, or_false]
              rintro ⟨same, none⟩
              simp [none] at same

theorem rotate_constant (text : Text) (texts : List Text) (same : text :: texts = texts ++ [text]) :
    ∀ other ∈ texts, other = text := by
  induction texts with
  | nil => simp
  | cons head rest ih =>
      obtain ⟨rfl, later⟩ := List.cons.inj same
      simpa using ih later

theorem constant_rotate (text : Text) (texts : List Text) (same : ∀ other ∈ texts, other = text) :
    text :: texts = texts ++ [text] := by
  rw [List.eq_replicate_of_mem same, ← List.replicate_succ, ← List.replicate_succ']

def Session.claimable (session : Session Value) : List (QueueEntry Value) :=
  session.mirror.parked.reverse.dropWhile session.mirror.requeued

theorem step_promote_free (session : Session Value) (free : session.mirror.running = none) :
    (session.step .promoteParkedRunning).ran =
        session.ran ++ session.claimable.head?.toList.map (fun entry => (entry.executionText, .promoted)) ∧
      (session.step .promoteParkedRunning).left = session.left ∧
      parkedTexts (session.step .promoteParkedRunning).mirror =
        (session.claimable.tail.map (·.executionText)).reverse := by
  simp only [Session.step, promoteParkedRunning_free _ free, Session.claimable]
  cases session.mirror.parked.reverse.dropWhile session.mirror.requeued <;>
    simp [parkedTexts, runningAs]

theorem promote_conserved (session : Session Value) (consistent : session.Consistent) :
    (session.step .promoteParkedRunning).Conserved ↔ session.Keeps .promoteParkedRunning := by
  -- The newest parked follow-up is the one taken, so it has to read like the oldest.
  have before : session.left = session.ran ++ (parkedTexts session.mirror).map (·, .promoted) :=
    consistent.conserved
  cases slot : session.mirror.running with
  | some entry =>
      simpa [Session.step, QueueMirror.promoteParkedRunning, Session.Conserved, Session.Keeps, slot]
        using before
  | none =>
      obtain ⟨ran, left, parked⟩ := step_promote_free session slot
      simp only [Session.Conserved, ran, left, parked, before, Session.Keeps, slot, true_implies,
        List.append_assoc, List.append_cancel_left_eq]
      rcases List.eq_nil_or_concat' session.mirror.parked with none | ⟨older, newest, waiting⟩
      · simp [Session.claimable, none, parkedTexts]
      · have order : parkedTexts session.mirror =
            older.map (·.executionText) ++ [newest.executionText] := by
          simp [parkedTexts, waiting]
        cases again : session.mirror.requeued newest with
        | false =>
            have claimable : session.claimable = newest :: older.reverse := by
              simp [Session.claimable, waiting, again]
            have texts : (parkedTexts session.mirror).map (·, Route.promoted) =
                  session.claimable.head?.toList.map (fun entry => (entry.executionText, .promoted)) ++
                    ((session.claimable.tail.map (·.executionText)).reverse).map (·, .promoted) ↔
                newest.executionText :: older.map (·.executionText) =
                  older.map (·.executionText) ++ [newest.executionText] := by
              have rotated : session.claimable.head?.toList.map
                    (fun entry => (entry.executionText, Route.promoted)) ++
                    ((session.claimable.tail.map (·.executionText)).reverse).map (·, .promoted) =
                  (newest.executionText :: older.map (·.executionText)).map (·, .promoted) := by
                simp [claimable]
              rw [rotated, order, List.map_inj_right promoted_injective, eq_comm]
            rw [texts]
            constructor
            · intro same
              have constant := rotate_constant _ _ same
              simp only [waiting, List.getLast?_append, List.getLast?_singleton, Option.some_or,
                Option.mem_def, Option.some.injEq, forall_eq', again, true_and, List.mem_append,
                List.mem_singleton]
              rintro entry (member | rfl)
              · exact constant _ (List.mem_map_of_mem member)
              · rfl
            · intro keeps
              have alike := (keeps newest (by simp [waiting])).2
              refine constant_rotate _ _ fun other member => ?_
              obtain ⟨entry, listed, rfl⟩ := List.mem_map.mp member
              exact alike entry (by simp [waiting, listed])
        | true =>
            -- A follow-up that is queued again is dropped, and nothing stands for it.
            have shorter : session.claimable.length ≤ older.length := by
              have suffix : older.reverse.dropWhile session.mirror.requeued <:+ older.reverse :=
                List.dropWhile_suffix _
              simpa [Session.claimable, waiting, again] using suffix.length_le
            constructor
            · intro same
              have lengths := congrArg List.length same
              rw [order] at lengths
              cases rest : session.claimable with
              | nil => simp [rest] at lengths
              | cons head tail =>
                  simp only [rest, List.length_cons] at shorter
                  simp [rest] at lengths
                  omega
            · intro keeps
              have kept := (keeps newest (by simp [waiting])).1
              simp [again] at kept

theorem step_consistent (session : Session Value) (command : Command Value)
    (consistent : session.Consistent) (keeps : session.Keeps command) :
    (session.step command).Consistent := by
  refine ⟨step_mirrored session command consistent.mirrored, ?_⟩
  cases command with
  | perform command =>
      simpa [Session.Conserved, Session.step, parkedTexts, (perform_frame session.mirror command).2]
        using consistent.conserved
  | queueUpdate steering removed appended =>
      exact (queueUpdate_conserved session consistent steering removed appended).mpr keeps
  | promoteParkedRunning => exact (promote_conserved session consistent).mpr keeps
  | clear => rfl

theorem step_conserved (session : Session Value) (command : Command Value)
    (consistent : session.Consistent) :
    (session.step command).Conserved ↔ session.Keeps command := by
  cases command with
  | queueUpdate steering removed appended =>
      exact queueUpdate_conserved session consistent steering removed appended
  | promoteParkedRunning => exact promote_conserved session consistent
  | perform command => simpa [Session.Keeps] using
      (step_consistent session (.perform command) consistent trivial).conserved
  | clear => simp [Session.Keeps, Session.Conserved, Session.step, parkedTexts, QueueMirror.clear]

theorem promotes_of_keeps (session : Session Value) (keeps : session.Keeps .promoteParkedRunning) :
    session.Promotes := by
  intro free waiting
  obtain ⟨older, newest, parked⟩ := List.eq_nil_or_concat' session.mirror.parked |>.resolve_left waiting
  have again := (keeps free newest (by simp [parked])).1
  rw [(step_promote_free session free).1]
  simp [Session.claimable, parked, again]

/-- Follow-ups are conserved exactly as long as every step keeps them apart. -/
theorem follow_ups_conserved (commands : List (Command Value))
    (kept : Runs.Along Session.step Session.Keeps Session.start commands) :
    let session := Runs.run Session.step Session.start commands
    session.Conserved ∧ (session.Keeps .promoteParkedRunning → session.Promotes) ∧
      ∀ command, (session.step command).Conserved ↔ session.Keeps command := by
  have consistent := Runs.along_invariant Session.step step_consistent _ commands start_consistent kept
  exact ⟨consistent.conserved, promotes_of_keeps _, fun command => step_conserved _ command consistent⟩

def goalCommand : QueueEntry Nat :=
  { id := "client-goal".toList
    executionText := "/goal".toList
    displayText := "/goal".toList
    images := []
    version := 0
    lane := .followUp
    origin := .client }

theorem follow_ups_conserved_goal :
    let commands : List (Command Nat) :=
      [.perform (.setRunning goalCommand), .queueUpdate [] 0 ["reminder".toList],
        .queueUpdate [] 1 [], .perform .clearRunning, .promoteParkedRunning]
    (Runs.run Session.step Session.start commands).Conserved :=
  (follow_ups_conserved
    [.perform (.setRunning goalCommand), .queueUpdate [] 0 ["reminder".toList],
      .queueUpdate [] 1 [], .perform .clearRunning, .promoteParkedRunning]
    (by decide)).1

/-- Two follow-ups parked behind a live command are promoted newest first. -/
theorem parked_pair_reversed :
    ¬ ∀ commands : List (Command Nat),
      (Runs.run Session.step Session.start commands).Conserved := by
  intro conserved
  exact absurd
    (conserved [.perform (.setRunning goalCommand), .queueUpdate [] 0 ["a".toList, "b".toList],
      .queueUpdate [] 2 [], .perform .clearRunning, .promoteParkedRunning])
    (by decide)

end Sessions

end GrokPi.QueueBridge
