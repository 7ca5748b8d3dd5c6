import Mathlib
import GrokPi.Eval.Kernel

set_option autoImplicit false

namespace GrokPi.Eval

open Kernel

namespace Kernel

def settledCalls (kernel : Kernel) : List Nat :=
  kernel.settled.map (·.call)

end Kernel

def CellOutcome.OnlyFrom (worker : Nat) : CellOutcome → Prop
  | .resolved output readImages reply _ _ =>
      AllFrom worker output ∧ AllFrom worker readImages ∧ AllFrom worker reply
  | .failed output reply => AllFrom worker output ∧ AllFrom worker reply
  | .rejected _ cause stderrTail => (∀ other ∈ cause, other = worker) ∧ AllFrom worker stderrTail
  | .refused _ => True

structure Isolated (kernel : Kernel) : Prop where
  buffer : ∀ worker, kernel.child = some worker → AllFrom worker kernel.protocolBuffer
  running : ∀ cell, kernel.pending = some cell →
    AllFrom cell.worker cell.output ∧ AllFrom cell.worker cell.readImages
  results : ∀ settlement ∈ kernel.settled, ∀ worker, (settlement.call, worker) ∈ kernel.started →
    settlement.outcome.OnlyFrom worker
  replies : ∀ reply ∈ kernel.replies, AllFrom reply.worker reply.line
  once : kernel.settledCalls.Nodup
  answered : ∀ call worker, (call, worker) ∈ kernel.started →
    call ∈ kernel.settledCalls ∨ kernel.child = some worker

def Timely (kernel : Kernel) : KernelEvent → Prop
  | .output worker _ => ∀ cell ∈ kernel.pending, cell.worker = worker
  | .protocol worker _ => ∀ current ∈ kernel.child, current = worker
  | .writeFailed worker => ∀ cell ∈ kernel.pending, cell.worker = worker
  | .execute _ | .timeout | .abort | .close | .workerError _ | .workerClosed _
  | .hostCallEnded _ _ _ _ => True

instance timely_decidable (kernel : Kernel) : ∀ event, Decidable (Timely kernel event)
  | .output worker _ => inferInstanceAs (Decidable (∀ cell ∈ kernel.pending, cell.worker = worker))
  | .protocol worker _ => inferInstanceAs (Decidable (∀ current ∈ kernel.child, current = worker))
  | .writeFailed worker =>
      inferInstanceAs (Decidable (∀ cell ∈ kernel.pending, cell.worker = worker))
  | .execute _ | .timeout | .abort | .close | .workerError _ | .workerClosed _
  | .hostCallEnded _ _ _ _ => inferInstanceAs (Decidable True)

structure Sound (kernel : Kernel) : Prop where
  buffer : ∀ worker, kernel.child = some worker → AllFrom worker kernel.protocolBuffer
  current : ∀ cell, kernel.pending = some cell → kernel.child = some cell.worker ∧
    (cell.call, cell.worker) ∈ kernel.started ∧ cell.call ∉ kernel.settledCalls
  fed : ∀ cell, kernel.pending = some cell →
    AllFrom cell.worker cell.output ∧ AllFrom cell.worker cell.readImages
  results : ∀ settlement ∈ kernel.settled, ∀ worker, (settlement.call, worker) ∈ kernel.started →
    settlement.outcome.OnlyFrom worker
  replies : ∀ reply ∈ kernel.replies, AllFrom reply.worker reply.line
  once : kernel.settledCalls.Nodup
  settled_known : ∀ call ∈ kernel.settledCalls, call < kernel.calls
  started_known : ∀ entry ∈ kernel.started, entry.1 < kernel.calls
  started_once : ∀ entry ∈ kernel.started, ∀ other ∈ kernel.started, entry.1 = other.1 →
    entry = other
  opened : ∀ entry ∈ kernel.started, entry.1 ∈ kernel.settledCalls ∨
    ∃ cell, kernel.pending = some cell ∧ cell.call = entry.1
  asked_known : ∀ call ∈ kernel.hostCalls, call.cell < kernel.calls
  asked : ∀ call ∈ kernel.hostCalls, ∀ cell, kernel.pending = some cell →
    cell.call = call.cell → AllFrom cell.worker call.line

variable {kernel : Kernel}

theorem Sound.isolated (sound : Sound kernel) : Isolated kernel where
  buffer := sound.buffer
  running := sound.fed
  results := sound.results
  replies := sound.replies
  once := sound.once
  answered call worker started := by
    rcases sound.opened _ started with settled | ⟨cell, pending, same⟩
    · exact Or.inl settled
    · obtain ⟨child, entry, -⟩ := sound.current cell pending
      have isEntry := sound.started_once _ entry _ started same
      rw [Prod.mk.injEq] at isEntry
      exact Or.inr (by rw [child, isEntry.2])

theorem fresh_sound : Sound Kernel.fresh := by
  constructor <;> simp [Kernel.fresh, settledCalls]

theorem Sound.idle (sound : Sound kernel) (idle : kernel.pending = none)
    (child : Option Nat) (cwd : Option Text) (spawned : Nat) : Sound { kernel with
            child := child, cwd := cwd, protocolBuffer := [], pending := none
            spawned := spawned } where
  buffer _ _ item member := by cases member
  current _ pending := by cases pending
  fed _ pending := by cases pending
  results := sound.results
  replies := sound.replies
  once := sound.once
  settled_known := sound.settled_known
  started_known := sound.started_known
  started_once := sound.started_once
  opened entry member := by
    -- Without a pending cell the worker may be dropped or replaced.
    rcases sound.opened entry member with settled | ⟨cell, pending, -⟩
    · exact Or.inl settled
    · rw [idle] at pending
      cases pending
  asked_known := sound.asked_known
  asked _ _ _ pending := by cases pending

theorem Sound.finish (sound : Sound kernel) {cell : PendingEval}
    (pending : kernel.pending = some cell) (outcome : CellOutcome)
    (only : outcome.OnlyFrom cell.worker) (child : Option Nat) (cwd : Option Text)
    (buffer : List (Sourced Char)) (from' : ∀ worker, child = some worker → AllFrom worker buffer) :
    Sound (({ kernel with
              child := child, cwd := cwd, protocolBuffer := buffer
              pending := none } : Kernel).settle cell.call outcome) := by
  obtain ⟨-, started, unsettled⟩ := sound.current cell pending
  have calls : (kernel.settled ++ [(⟨cell.call, outcome⟩ : Settlement)]).map (·.call) =
      kernel.settledCalls ++ [cell.call] := by
    simp [settledCalls]
  exact {
    buffer := from'
    current := fun _ absurd => by cases absurd
    fed := fun _ absurd => by cases absurd
    results := by
      intro settlement member worker entry
      rcases List.mem_append.mp member with old | new
      · exact sound.results settlement old worker entry
      · rw [List.mem_singleton] at new
        subst new
        have same := sound.started_once _ started _ entry rfl
        rw [Prod.mk.injEq] at same
        rw [← same.2]
        exact only
    replies := sound.replies
    once := by
      simp only [settle, settledCalls]
      rw [calls, List.nodup_append]
      refine ⟨sound.once, List.nodup_singleton _, ?_⟩
      intro call settled other single same
      rw [List.mem_singleton] at single
      rw [same, single] at settled
      exact unsettled settled
    settled_known := by
      intro call settled
      simp only [settle, settledCalls] at settled
      rw [calls, List.mem_append, List.mem_singleton] at settled
      rcases settled with old | rfl
      · exact sound.settled_known call old
      · exact sound.started_known _ started
    started_known := sound.started_known
    started_once := sound.started_once
    opened := by
      intro entry member
      simp only [settle, settledCalls]
      rw [calls, List.mem_append, List.mem_singleton]
      rcases sound.opened entry member with settled | ⟨other, isPending, same⟩
      · exact Or.inl (Or.inl settled)
      · rw [pending, Option.some.injEq] at isPending
        subst isPending
        exact Or.inl (Or.inr same.symm)
    asked_known := sound.asked_known
    asked := fun _ _ _ absurd => by cases absurd }

theorem Sound.resetKernel (sound : Sound kernel) (error : ResetError) (cause : List Nat)
    (own : ∀ cell, kernel.pending = some cell → ∀ worker ∈ cause, worker = cell.worker) :
    Sound (kernel.resetKernel error cause) := by
  unfold Kernel.resetKernel
  cases pending : kernel.pending with
  | none => exact sound.idle pending none none kernel.spawned
  | some cell =>
      have only : (CellOutcome.rejected error cause []).OnlyFrom cell.worker :=
        ⟨own cell pending, fun item member => by cases member⟩
      exact sound.finish pending _ only none none [] fun _ absurd => by cases absurd

theorem Sound.feed (sound : Sound kernel) {cell : PendingEval}
    (pending : kernel.pending = some cell) (changed : PendingEval) (call : changed.call = cell.call)
    (worker : changed.worker = cell.worker) (output : AllFrom cell.worker changed.output)
    (images : AllFrom cell.worker changed.readImages) :
    Sound { kernel with pending := some changed } where
  buffer := sound.buffer
  current other isPending := by
    cases isPending
    rw [call, worker]
    exact sound.current cell pending
  fed other isPending := by
    cases isPending
    rw [worker]
    exact ⟨output, images⟩
  results := sound.results
  replies := sound.replies
  once := sound.once
  settled_known := sound.settled_known
  started_known := sound.started_known
  started_once := sound.started_once
  opened entry member := by
    rcases sound.opened entry member with settled | ⟨other, isPending, same⟩
    · exact Or.inl settled
    · rw [pending, Option.some.injEq] at isPending
      subst isPending
      exact Or.inr ⟨changed, rfl, call.trans same⟩
  asked_known := sound.asked_known
  asked host member other isPending same := by
    cases isPending
    rw [worker]
    exact sound.asked host member cell pending (by rw [← call, same])

theorem Sound.rebuffer (sound : Sound kernel) (buffer : List (Sourced Char))
    (own : ∀ worker, kernel.child = some worker → AllFrom worker buffer) :
    Sound { kernel with protocolBuffer := buffer } :=
  { sound with buffer := own }

theorem Sound.hostCalls (sound : Sound kernel) (calls : List HostCall)
    (known : ∀ call ∈ calls, call.cell < kernel.calls)
    (own : ∀ call ∈ calls, ∀ cell, kernel.pending = some cell →
      cell.call = call.cell → AllFrom cell.worker call.line) :
    Sound { kernel with hostCalls := calls } :=
  { sound with asked_known := known, asked := own }

theorem Sound.writeReply (sound : Sound kernel) (line : List (Sourced Char))
    (ok : Bool) (own : ∀ worker, kernel.child = some worker → AllFrom worker line) :
    Sound (kernel.writeReply line ok) := by
  unfold Kernel.writeReply
  split
  · exact sound
  · rename_i worker child
    refine { sound with replies := ?_ }
    intro reply member
    rcases List.mem_append.mp member with old | new
    · exact sound.replies reply old
    · rw [List.mem_singleton] at new
      subst new
      exact own worker child


theorem AllFrom.append {α : Type} {worker : Nat} {first second : List (Sourced α)}
    (one : AllFrom worker first) (two : AllFrom worker second) :
    AllFrom worker (first ++ second) := by
  intro item member
  rcases List.mem_append.mp member with early | late
  · exact one item early
  · exact two item late

theorem AllFrom.subset {α : Type} {worker : Nat} {part whole : List (Sourced α)}
    (all : AllFrom worker whole) (inside : part ⊆ whole) : AllFrom worker part :=
  fun item member => all item (inside member)

theorem allFrom_tagged {α : Type} (worker : Nat) (values : List α) :
    AllFrom worker (tagged worker values) := by
  intro item member
  obtain ⟨value, -, rfl⟩ := List.mem_map.mp member
  rfl

variable {config : KernelConfig}

theorem Sound.appendOutput (sound : Sound kernel) {chunk : List (Sourced UInt8)}
    (own : ∀ cell, kernel.pending = some cell → AllFrom cell.worker chunk) :
    Sound (kernel.appendOutput config chunk) := by
  unfold Kernel.appendOutput
  split
  · exact sound
  · rename_i cell pending
    obtain ⟨output, images⟩ := sound.fed cell pending
    have joined := output.append (own cell pending)
    simp only
    split
    · exact sound.feed pending _ rfl rfl (joined.subset (List.drop_subset _ _)) images
    · exact sound.feed pending _ rfl rfl joined images

def LineOf (kernel : Kernel) (line : List (Sourced Char)) : Prop :=
  ∀ worker, kernel.child = some worker → AllFrom worker line

variable {line : List (Sourced Char)}

theorem Sound.handleHostCall (sound : Sound kernel) (own : LineOf kernel line) (call : Json) :
    Sound (kernel.handleHostCall config line call) := by
  unfold Kernel.handleHostCall
  split
  · exact sound.writeReply line false own
  · rename_i cell pending
    split
    · exact sound.writeReply line false own
    · split
      · exact sound.writeReply line false own
      · obtain ⟨child, started, -⟩ := sound.current cell pending
        obtain ⟨output, images⟩ := sound.fed cell pending
        have counted := sound.feed pending { cell with
          toolCalls := if textField call "method" = some "tool".toList then cell.toolCalls + 1
            else cell.toolCalls } rfl rfl output images
        refine counted.hostCalls _ ?_ ?_
        · intro host member
          rcases List.mem_append.mp member with old | new
          · exact sound.asked_known host old
          · rw [List.mem_singleton] at new
            subst new
            exact sound.started_known _ started
        · intro host member other isPending same
          rcases List.mem_append.mp member with old | new
          · exact counted.asked host old other isPending same
          · rw [List.mem_singleton] at new
            subst new
            cases isPending
            exact own cell.worker child

theorem Sound.handleEvalResult (sound : Sound kernel) (own : LineOf kernel line) (reply : Json) :
    Sound (kernel.handleEvalResult line reply) := by
  unfold Kernel.handleEvalResult
  split
  · exact sound
  · rename_i cell pending
    obtain ⟨output, images⟩ := sound.fed cell pending
    have from' := own cell.worker (sound.current cell pending).1
    split
    · exact sound
    · simp only
      split
      · exact sound.finish pending (.resolved cell.output cell.readImages line
          cell.toolCalls cell.truncated) ⟨output, images, from'⟩ _ _ _ sound.buffer
      · exact sound.finish pending (.failed cell.output line) ⟨output, from'⟩ _ _ _
          sound.buffer

theorem Sound.handleProtocolMessage (sound : Sound kernel) (own : LineOf kernel line) :
    Sound (kernel.handleProtocolMessage config line) := by
  unfold Kernel.handleProtocolMessage
  split
  · apply sound.resetKernel
    intro cell pending worker member
    obtain ⟨item, listed, rfl⟩ := List.mem_map.mp member
    exact own cell.worker (sound.current cell pending).1 item listed
  · split
    · exact sound.handleHostCall own _
    · exact sound.handleEvalResult own _

theorem sourced_cutLine {buffer line rest : List (Sourced Char)}
    (found : Kernel.cutLine buffer = some (line, rest)) : line ⊆ buffer ∧ rest ⊆ buffer := by
  induction buffer generalizing line with
  | nil => simp [Kernel.cutLine] at found
  | cons c buffer ih =>
      simp only [Kernel.cutLine] at found
      split at found
      · cases found
        exact ⟨List.nil_subset _, List.subset_cons_self _ _⟩
      · obtain ⟨⟨front, back⟩, later, same⟩ := Option.map_eq_some_iff.mp found
        cases same
        obtain ⟨inFront, inBack⟩ := ih later
        exact ⟨List.cons_subset_cons _ inFront, List.subset_cons_of_subset _ inBack⟩

theorem Sound.cutLines (fuel : Nat) (sound : Sound kernel) : Sound (kernel.cutLines config fuel) := by
  -- Lines of a buffer that comes from the current worker keep the kernel sound. A handler may drop the worker and
  -- with it the buffer.
  induction fuel generalizing kernel with
  | zero => exact sound
  | succ fuel ih =>
      simp only [Kernel.cutLines]
      split
      · exact sound
      · rename_i line rest found
        obtain ⟨inLine, inRest⟩ := sourced_cutLine found
        have left := sound.rebuffer rest fun worker child =>
          (sound.buffer worker child).subset inRest
        have own : LineOf { kernel with protocolBuffer := rest } line := fun worker child =>
          (sound.buffer worker child).subset inLine
        apply ih
        split
        · exact left
        · exact left.handleProtocolMessage own

theorem Sound.consumeProtocol (sound : Sound kernel) {worker : Nat}
    (own : ∀ current, kernel.child = some current → current = worker) (chunk : List UInt8) :
    Sound (kernel.consumeProtocol config worker chunk) := by
  apply Sound.cutLines
  apply sound.rebuffer
  intro current child
  have same := own current child
  subst same
  exact (sound.buffer current child).append (allFrom_tagged current _)

theorem Sound.endHostCall (sound : Sound kernel) (index : Nat)
    (ok encodes : Bool) (images : List EvalDisplayImage) :
    Sound (kernel.endHostCall index ok encodes images) := by
  unfold Kernel.endHostCall
  split
  · exact sound
  · rename_i call found
    have member := List.mem_of_getElem? found
    have fewer := sound.hostCalls (kernel.hostCalls.eraseIdx index)
      (fun host stays => sound.asked_known host (List.mem_of_mem_eraseIdx stays))
      (fun host stays => sound.asked host (List.mem_of_mem_eraseIdx stays))
    simp only
    split
    · exact fewer
    · rename_i cell pending
      split
      · exact fewer
      · rename_i same
        -- the call is one of the pending cell, so its line came from the cell's worker
        have line := sound.asked call member cell pending (by simpa using same)
        obtain ⟨child, -, -⟩ := sound.current cell pending
        have own : LineOf kernel call.line := by
          intro worker isChild
          rw [child, Option.some.injEq] at isChild
          rw [← isChild]
          exact line
        split
        · exact fewer.writeReply _ _ own
        · obtain ⟨output, shown⟩ := sound.fed cell pending
          have pushed : AllFrom cell.worker (pushImages cell call.line images).readImages := by
            have source : (call.line.head?.map (·.worker)).getD cell.worker = cell.worker := by
              cases lines : call.line with
              | nil => rfl
              | cons first rest =>
                  rw [lines] at line
                  exact line first (by simp)
            simp only [pushImages, source]
            exact shown.append (allFrom_tagged _ _)
          have changed : Sound { ({ kernel with hostCalls := kernel.hostCalls.eraseIdx index }
              : Kernel) with
              pending := some (if call.reads then pushImages cell call.line images else cell) } := by
            split
            · exact fewer.feed pending _ rfl rfl output pushed
            · exact fewer.feed pending _ rfl rfl output shown
          split
          · exact changed.writeReply _ _ own
          · exact changed.resetKernel _ [] fun _ _ _ absurd => by cases absurd

theorem Sound.workerClosed (sound : Sound kernel) (worker : Nat) :
    Sound (kernel.workerClosed worker) := by
  unfold Kernel.workerClosed
  split
  · exact sound
  · rename_i isChild
    have child : kernel.child = some worker := by simpa using isChild
    simp only
    split
    · rename_i pending
      exact sound.idle pending none none kernel.spawned
    · rename_i cell pending
      have own : cell.worker = worker := by
        have current := (sound.current cell pending).1
        rw [child, Option.some.injEq] at current
        exact current.symm
      exact sound.finish pending (.rejected .exited [worker] cell.output)
        ⟨by simp [own], (sound.fed cell pending).1⟩ none none [] fun _ absurd => by cases absurd


structure NewCall (kernel : Kernel) (call : Nat) : Prop where
  counted : call < kernel.calls
  unsettled : call ∉ kernel.settledCalls
  unstarted : ∀ entry ∈ kernel.started, entry.1 ≠ call
  unasked : ∀ host ∈ kernel.hostCalls, host.cell ≠ call

theorem Sound.countCall (sound : Sound kernel) : Sound { kernel with calls := kernel.calls + 1 } ∧
      NewCall { kernel with calls := kernel.calls + 1 } kernel.calls := by
  constructor
  · exact { sound with
            settled_known := fun call settled =>
              Nat.lt_succ_of_lt (sound.settled_known call settled)
            started_known := fun entry member =>
              Nat.lt_succ_of_lt (sound.started_known entry member)
            asked_known := fun host member =>
              Nat.lt_succ_of_lt (sound.asked_known host member) }
  · exact ⟨Nat.lt_succ_self _, fun settled => Nat.lt_irrefl _ (sound.settled_known _ settled),
      fun entry member => Nat.ne_of_lt (sound.started_known entry member),
      fun host member => Nat.ne_of_lt (sound.asked_known host member)⟩

theorem Sound.refuse (sound : Sound kernel) {call : Nat} (new : NewCall kernel call) (message : String) :
    Sound (kernel.settle call (.refused message)) := by
  have calls : (kernel.settled ++ [(⟨call, .refused message⟩ : Settlement)]).map (·.call) =
      kernel.settledCalls ++ [call] := by
    simp [settledCalls]
  exact {
    buffer := sound.buffer
    current := by
      intro cell pending
      obtain ⟨child, started, unsettled⟩ := sound.current cell pending
      refine ⟨child, started, ?_⟩
      simp only [settle, settledCalls]
      rw [calls, List.mem_append, List.mem_singleton, not_or]
      exact ⟨unsettled, new.unstarted _ started⟩
    fed := sound.fed
    results := by
      intro settlement member worker started
      rcases List.mem_append.mp member with old | isNew
      · exact sound.results settlement old worker started
      · rw [List.mem_singleton] at isNew
        subst isNew
        trivial
    replies := sound.replies
    once := by
      simp only [settle, settledCalls]
      rw [calls, List.nodup_append]
      refine ⟨sound.once, List.nodup_singleton _, ?_⟩
      intro other settled last single same
      rw [List.mem_singleton] at single
      rw [same, single] at settled
      exact new.unsettled settled
    settled_known := by
      intro other settled
      simp only [settle, settledCalls] at settled ⊢
      rw [calls, List.mem_append, List.mem_singleton] at settled
      rcases settled with old | rfl
      · exact sound.settled_known other old
      · exact new.counted
    started_known := sound.started_known
    started_once := sound.started_once
    opened := by
      intro entry member
      simp only [settle, settledCalls]
      rw [calls, List.mem_append, List.mem_singleton]
      rcases sound.opened entry member with settled | pending
      · exact Or.inl (Or.inl settled)
      · exact Or.inr pending
    asked_known := sound.asked_known
    asked := sound.asked }

theorem Sound.start (sound : Sound kernel) (idle : kernel.pending = none)
    (cell : PendingEval) (new : NewCall kernel cell.call) (child : kernel.child = some cell.worker)
    (output : cell.output = []) (images : cell.readImages = []) : Sound { kernel with
            pending := some cell
            started := kernel.started ++ [(cell.call, cell.worker)] } where
  buffer := sound.buffer
  current other pending := by
    cases pending
    exact ⟨child, by simp, new.unsettled⟩
  fed other pending := by
    cases pending
    rw [output, images]
    constructor <;>
      intro item member <;>
      cases member
  results settlement member worker started := by
    rcases List.mem_append.mp started with old | isNew
    · exact sound.results settlement member worker old
    · -- the call is new, so nothing is settled for it
      rw [List.mem_singleton, Prod.mk.injEq] at isNew
      have settled : settlement.call ∈ kernel.settledCalls := List.mem_map_of_mem member
      rw [isNew.1] at settled
      exact absurd settled new.unsettled
  replies := sound.replies
  once := sound.once
  settled_known := sound.settled_known
  started_known entry member := by
    rcases List.mem_append.mp member with old | isNew
    · exact sound.started_known entry old
    · rw [List.mem_singleton] at isNew
      subst isNew
      exact new.counted
  started_once entry member other otherMember same := by
    rcases List.mem_append.mp member with old | isNew <;>
      rcases List.mem_append.mp otherMember with otherOld | otherNew
    · exact sound.started_once entry old other otherOld same
    · rw [List.mem_singleton] at otherNew
      rw [otherNew] at same
      exact absurd same (new.unstarted entry old)
    · rw [List.mem_singleton] at isNew
      rw [isNew] at same
      exact absurd same.symm (new.unstarted other otherOld)
    · rw [List.mem_singleton] at isNew otherNew
      rw [isNew, otherNew]
  opened entry member := by
    rcases List.mem_append.mp member with old | isNew
    · rcases sound.opened entry old with settled | ⟨other, pending, -⟩
      · exact Or.inl settled
      · rw [idle] at pending
        cases pending
    · rw [List.mem_singleton] at isNew
      subst isNew
      exact Or.inr ⟨cell, rfl, rfl⟩
  asked_known := sound.asked_known
  asked host member other pending same := by
    cases pending
    exact absurd same.symm (new.unasked host member)

theorem Sound.resetSilently (sound : Sound kernel)
    (idle : kernel.pending = none) : Sound kernel.resetSilently :=
  sound.idle idle none none kernel.spawned

structure Ready (kernel : Kernel) (call : Nat) : Prop where
  sound : Sound kernel
  idle : kernel.pending = none
  new : NewCall kernel call

theorem Ready.reset {call : Nat} (ready : Ready kernel call) : Ready kernel.resetSilently call where
  sound := ready.sound.resetSilently ready.idle
  idle := rfl
  new := ⟨ready.new.counted, ready.new.unsettled, ready.new.unstarted, ready.new.unasked⟩

theorem Ready.ensureStarted {kernel started : Kernel} {call : Nat} (ready : Ready kernel call)
    {cwd : Text} {pipes : Bool} (run : kernel.ensureStarted cwd pipes = some started) :
    Ready started call := by
  unfold Kernel.ensureStarted at run
  split at run
  · cases run
    exact ready
  · split at run
    · cases run
      have fresh := ready.sound.idle ready.idle (some kernel.spawned) (some cwd)
        (kernel.spawned + 1)
      rw [← ready.idle] at fresh
      exact ⟨fresh, ready.idle, ready.new.counted, ready.new.unsettled, ready.new.unstarted,
        ready.new.unasked⟩
    · cases run

theorem Sound.execute (sound : Sound kernel) (request : ExecuteRequest) :
    Sound (kernel.execute request) := by
  obtain ⟨counted, new⟩ := sound.countCall
  unfold Kernel.execute
  simp only
  split
  · exact counted.refuse new _
  · split
    · exact counted.refuse new _
    · rename_i notBusy
      have ready : Ready { kernel with calls := kernel.calls + 1 } kernel.calls :=
        ⟨counted, by simpa using notBusy, new⟩
      -- a reset before the start drops an idle worker
      have prepared : Ready (if request.reset = true ∨ kernel.cwd.isSome = true ∧
          kernel.cwd ≠ some request.cwd
          then ({ kernel with calls := kernel.calls + 1 } : Kernel).resetSilently
          else { kernel with calls := kernel.calls + 1 }) kernel.calls := by
        split
        · exact ready.reset
        · exact ready
      split
      · exact prepared.sound.refuse prepared.new _
      · rename_i started run
        have running := prepared.ensureStarted run
        split
        · exact running.reset.sound.refuse running.reset.new _
        · split
          · exact running.sound
          · rename_i worker child
            have opened := running.sound.start running.idle {
              call := kernel.calls
              id := request.id
              worker := worker
              output := []
              readImages := []
              toolCalls := 0
              truncated := false
              timer := 0 < request.timeoutMillis
              outerSignal := request.signal.isSome } running.new child rfl rfl
            split
            · exact opened
            · exact opened.resetKernel _ [] fun _ _ _ member => by cases member

theorem kernelStep_sound (config : KernelConfig) (kernel : Kernel) (event : KernelEvent)
    (sound : Sound kernel) (timely : Timely kernel event) :
    Sound (kernelStep config kernel event) := by
  have ownless : ∀ cell, kernel.pending = some cell → ∀ worker ∈ ([] : List Nat),
      worker = cell.worker := fun _ _ _ member => by cases member
  cases event with
  | execute request => exact sound.execute request
  | timeout =>
      simp only [kernelStep]
      split
      · exact sound.resetKernel _ [] ownless
      · exact sound
  | abort =>
      simp only [kernelStep]
      split
      · exact sound.resetKernel _ [] ownless
      · exact sound
  | close => exact sound.resetKernel _ [] ownless
  | output worker bytes =>
      apply sound.appendOutput
      intro cell pending
      rw [timely cell pending]
      exact allFrom_tagged worker bytes
  | protocol worker chunk => exact sound.consumeProtocol timely chunk
  | writeFailed worker =>
      apply sound.resetKernel
      intro cell pending other member
      rw [List.mem_singleton] at member
      rw [member]
      exact (timely cell pending).symm
  | workerError worker =>
      simp only [kernelStep]
      split
      · rename_i child
        apply sound.resetKernel
        intro cell pending other member
        have current := (sound.current cell pending).1
        rw [child, Option.some.injEq] at current
        rw [List.mem_singleton] at member
        rw [member, current]
      · exact sound
  | workerClosed worker => exact sound.workerClosed worker
  | hostCallEnded index ok encodes images => exact sound.endHostCall index ok encodes images

theorem timely_runs_isolated (config : KernelConfig) (events : List KernelEvent)
    (timely : Runs.Along (kernelStep config) Timely Kernel.fresh events) :
    Isolated (Runs.run (kernelStep config) Kernel.fresh events) :=
  (Runs.along_invariant (kernelStep config)
    (fun kernel event => kernelStep_sound config kernel event) Kernel.fresh events fresh_sound
    timely).isolated

-- The first worker is gone, and was heard to the end, when the second one starts.
theorem two_cells_isolated :
    let events : List KernelEvent :=
      [.execute ⟨['a'], ['/'], 1000, none, false, true, true⟩, .output 0 [65], .timeout,
        .protocol 0 [91], .execute ⟨['b'], ['/'], 1000, none, false, true, true⟩, .output 1 [66],
        .protocol 1 [91]]
    Isolated (Runs.run (kernelStep ⟨.v2, true, 100⟩) Kernel.fresh events) :=
  timely_runs_isolated _ _ (by decide +kernel)

/-- A cell times out, the next one starts, and then the first worker's last bytes arrive
in the buffer of the second worker. -/
theorem late_output_leaks :
    ¬ ∀ (config : KernelConfig) (events : List KernelEvent),
      Isolated (Runs.run (kernelStep config) Kernel.fresh events) := by
  intro isolated
  have late := isolated ⟨.v2, true, 100⟩
    [.execute ⟨['a'], ['/'], 1000, none, false, true, true⟩, .timeout,
      .execute ⟨['b'], ['/'], 1000, none, false, true, true⟩, .output 0 [65], .protocol 0 [91]]
  have child : (Runs.run (kernelStep ⟨.v2, true, 100⟩) Kernel.fresh
      [.execute ⟨['a'], ['/'], 1000, none, false, true, true⟩, .timeout,
        .execute ⟨['b'], ['/'], 1000, none, false, true, true⟩, .output 0 [65],
        .protocol 0 [91]]).child = some 1 := by decide +kernel
  have leaked : (⟨0, '['⟩ : Sourced Char) ∈ (Runs.run (kernelStep ⟨.v2, true, 100⟩) Kernel.fresh
      [.execute ⟨['a'], ['/'], 1000, none, false, true, true⟩, .timeout,
        .execute ⟨['b'], ['/'], 1000, none, false, true, true⟩, .output 0 [65],
        .protocol 0 [91]]).protocolBuffer := by decide +kernel
  have own := late.buffer 1 child _ leaked
  exact absurd own (by decide)

end GrokPi.Eval
