import GrokPi.Chat.Actor
import GrokPi.Shared.Runs

set_option autoImplicit false

namespace GrokPi.Chat

open List (Forall₂)

section Rewriting

inductive Rewrite : ConversationItem → ConversationItem → Prop where
  | clear (result : ToolResultItem) :
      Rewrite (.toolResult result)
        (.toolResult { result with content := ChatStateActor.hardClearPlaceholder })
  | strip (urls : List Text) (item : ConversationItem) : Rewrite item (item.stripImages urls)
  | converge (generation : Nat) (item authoritative : ConversationItem)
      (held : ChatStateActor.holdsSwitch generation item = true) : Rewrite item authoritative

def Rewritten : ConversationItem → ConversationItem → Prop := Relation.ReflTransGen Rewrite

theorem Rewritten.refl (item : ConversationItem) : Rewritten item item := Relation.ReflTransGen.refl

theorem rewritten_all_refl (items : List ConversationItem) : Forall₂ Rewritten items items :=
  List.forall₂_same.mpr fun item _ => Rewritten.refl item

theorem rewritten_all_trans {first second third : List ConversationItem}
    (before : Forall₂ Rewritten first second) (after : Forall₂ Rewritten second third) :
    Forall₂ Rewritten first third := by
  induction before generalizing third with
  | nil => exact after
  | cons head _ ih =>
      cases after with
      | cons next rest => exact .cons (head.trans next) (ih rest)

theorem hardClear_rewritten (threshold : Nat) (conversation : List ConversationItem) :
    Forall₂ Rewritten conversation (ChatStateActor.hardClear threshold conversation).1 := by
  simp only [ChatStateActor.hardClear]
  induction conversation with
  | nil => exact .nil
  | cons item rest ih =>
      simp only [List.foldr_cons]
      cases item with
      | user user => exact .cons (Rewritten.refl _) ih
      | toolResult result =>
          simp only [ChatStateActor.PruneScan.visit]
          split
          · exact .cons (Rewritten.refl _) ih
          · exact .cons (.single (.clear result)) ih
      | system content => exact .cons (Rewritten.refl _) ih
      | assistant assistant => exact .cons (Rewritten.refl _) ih
      | backendToolCall wire => exact .cons (Rewritten.refl _) ih
      | reasoning wire => exact .cons (Rewritten.refl _) ih

theorem stripImages_rewritten (urls : List Text) (conversation : List ConversationItem) :
    Forall₂ Rewritten conversation (stripImagesByUrl conversation urls).1 := by
  simp only [stripImagesByUrl, List.forall₂_map_right_iff]
  exact List.forall₂_same.mpr fun item _ => .single (.strip urls item)

theorem replaceFirst_rewritten (generation : Nat) (authoritative : ConversationItem)
    (conversation : List ConversationItem) :
    Forall₂ Rewritten conversation
      (ChatStateActor.replaceFirst (ChatStateActor.holdsSwitch generation) authoritative
        conversation) := by
  induction conversation with
  | nil => exact .nil
  | cons item rest ih =>
      simp only [ChatStateActor.replaceFirst]
      split
      next held =>
        exact .cons (.single (.converge generation item authoritative held))
          (rewritten_all_refl rest)
      next => exact .cons (Rewritten.refl item) ih

end Rewriting

section Captures

namespace ChatStateActor

def captured (actor : ChatStateActor) : List ConversationItem :=
  match actor.turnCapture with
  | none => []
  | some capture =>
      capture.preReplacementMessages ++ turnTail actor.conversation capture.turnStartOffset

structure Holds (actor : ChatStateActor) (pushed : List ConversationItem) : Prop where
  capturing : actor.turnCapture.isSome
  inRange : ∀ capture ∈ actor.turnCapture, tailAssertion actor.conversation capture = true
  asserted : actor.tailAsserted = true
  captured : Forall₂ Rewritten pushed actor.captured

variable {actor changed : ChatStateActor} {pushed : List ConversationItem}

theorem begin_holds (asserted : actor.tailAsserted = true) : actor.beginTurnCapture.Holds [] := by
  constructor
  · rfl
  · simp [beginTurnCapture, tailAssertion]
  · exact asserted
  · simp [captured, beginTurnCapture, turnTail]

theorem Holds.rebased (holds : actor.Holds pushed)
    (aside : changed.turnCapture = actor.snapshotTurnSlice.turnCapture)
    (asserted : changed.tailAsserted = actor.snapshotTurnSlice.tailAsserted) :
    changed.rebaseTurnCaptureOffset.Holds pushed := by
  -- What is put aside before a change outlives the change, whatever the change is.
  obtain ⟨capture, capturing⟩ := Option.isSome_iff_exists.mp holds.capturing
  have within := holds.inRange capture capturing
  have items := holds.captured
  simp only [snapshotTurnSlice, capturing] at aside asserted
  simp only [ChatStateActor.captured, capturing] at items
  constructor
  · simp [rebaseTurnCaptureOffset, aside]
  · simp [rebaseTurnCaptureOffset, aside, tailAssertion]
  · simp [rebaseTurnCaptureOffset, asserted, holds.asserted, within]
  · simpa [rebaseTurnCaptureOffset, aside, ChatStateActor.captured, turnTail] using items

theorem Holds.congr (holds : actor.Holds pushed)
    (conversation : changed.conversation = actor.conversation)
    (capture : changed.turnCapture = actor.turnCapture)
    (asserted : changed.tailAsserted = actor.tailAsserted) : changed.Holds pushed := by
  constructor
  · exact capture ▸ holds.capturing
  · rw [capture, conversation]
    exact holds.inRange
  · exact asserted ▸ holds.asserted
  · rw [ChatStateActor.captured, capture, conversation]
    exact holds.captured

theorem Holds.rewrite (holds : actor.Holds pushed)
    (items : Forall₂ Rewritten actor.conversation changed.conversation)
    (aside : changed.turnCapture = actor.turnCapture)
    (asserted : changed.tailAsserted = actor.tailAsserted) : changed.Holds pushed := by
  obtain ⟨capture, capturing⟩ := Option.isSome_iff_exists.mp holds.capturing
  have within := holds.inRange capture capturing
  have before := holds.captured
  simp only [ChatStateActor.captured, capturing] at before
  constructor
  · exact aside ▸ holds.capturing
  · intro other same
    rw [aside, capturing, Option.mem_some_iff] at same
    subst same
    simpa [tailAssertion, items.length_eq] using within
  · exact asserted ▸ holds.asserted
  · simp only [ChatStateActor.captured, aside, capturing]
    apply rewritten_all_trans before
    exact List.rel_append (rewritten_all_refl _) (List.forall₂_drop _ items)

theorem Holds.push (holds : actor.Holds pushed) (item : ConversationItem)
    (conversation : changed.conversation = actor.conversation ++ [item])
    (aside : changed.turnCapture = actor.turnCapture)
    (asserted : changed.tailAsserted = actor.tailAsserted) : changed.Holds (pushed ++ [item]) := by
  obtain ⟨capture, capturing⟩ := Option.isSome_iff_exists.mp holds.capturing
  have within := holds.inRange capture capturing
  have before := holds.captured
  simp only [ChatStateActor.captured, capturing] at before
  simp only [tailAssertion, decide_eq_true_eq] at within
  constructor
  · exact aside ▸ holds.capturing
  · intro other same
    rw [aside, capturing, Option.mem_some_iff] at same
    subst same
    simp only [tailAssertion, conversation, List.length_append, decide_eq_true_eq]
    omega
  · exact asserted ▸ holds.asserted
  · simp only [ChatStateActor.captured, aside, capturing, conversation, turnTail,
      List.drop_append_of_le_length within, ← List.append_assoc]
    exact List.rel_append before (rewritten_all_refl [item])

theorem Holds.ensureIntegrity (holds : actor.Holds pushed) (reason : DanglingToolCallReason) :
    (actor.ensureConversationIntegrityWithReason reason).Holds pushed := by
  simp only [ensureConversationIntegrityWithReason, rewriteHistory, if_true]
  exact holds.rebased rfl rfl

theorem Holds.popStranded (holds : actor.Holds pushed) :
    actor.popStrandedContinueReminder.Holds pushed := by
  simp only [popStrandedContinueReminder]
  split
  · simp only [rewriteHistory, if_true]
    exact holds.rebased rfl rfl
  · exact holds

theorem Holds.pruneRetained (holds : actor.Holds pushed) :
    actor.pruneRetainedConversation.Holds pushed := by
  simp only [pruneRetainedConversation]
  split
  · exact holds
  · split
    · exact holds
    · exact holds.rewrite (hardClear_rewritten _ _) rfl rfl

theorem Holds.replace (holds : actor.Holds pushed) (items : List ConversationItem)
    (isCompaction : Bool) : (actor.replaceConversation items isCompaction).Holds pushed := by
  have kept : (actor.replaceConversation items false).Holds pushed := by
    apply holds.rebased
    · cases capture : actor.turnCapture <;>
        simp [snapshotTurnSlice, capture, TurnCaptureState.mark]
    · rfl
  obtain ⟨capture, capturing⟩ := Option.isSome_iff_exists.mp holds.capturing
  constructor
  · simp [replaceConversation, rebaseTurnCaptureOffset, snapshotTurnSlice, capturing]
  · simp [replaceConversation, rebaseTurnCaptureOffset, snapshotTurnSlice, capturing, tailAssertion]
  · exact kept.asserted
  · have items := kept.captured
    simp only [ChatStateActor.captured, replaceConversation, rebaseTurnCaptureOffset,
      snapshotTurnSlice, capturing, Option.map_some, TurnCaptureState.mark] at items ⊢
    exact items

theorem Holds.replaceSystemHead (holds : actor.Holds pushed) (prompt : Text) :
    (actor.replaceSystemHead prompt).Holds pushed := by
  simp only [ChatStateActor.replaceSystemHead]
  split
  · split
    · exact holds
    · exact holds.replace _ _
  · exact holds.replace _ _

theorem Holds.restoreSnapshot (holds : actor.Holds pushed) (snapshot : ChatStateSnapshot) :
    (actor.restoreSnapshot snapshot).Holds pushed := by
  have restored :
      ({ actor.snapshotTurnSlice with
          conversation := snapshot.conversation }).rebaseTurnCaptureOffset.Holds pushed :=
    holds.rebased rfl rfl
  exact restored.congr rfl rfl rfl

theorem Holds.buildConversationRequest (holds : actor.Holds pushed) (memoryReminder : Option Text)
    (persistMemoryReminder : Bool) :
    (actor.buildConversationRequest memoryReminder persistMemoryReminder).Holds pushed := by
  have sound := holds.ensureIntegrity .userCancelled
  simp only [ChatStateActor.buildConversationRequest]
  split
  · exact sound.rebased rfl rfl
  · exact sound

theorem Holds.pushUser (holds : actor.Holds pushed) (item : ConversationItem)
    (reason : DanglingToolCallReason) :
    (actor.pushUserMessageWithRepairReason item reason).Holds (pushed ++ [item]) := by
  have popped : (if endsContinuation item then actor.popStrandedContinueReminder
      else actor).Holds pushed := by
    split
    · exact holds.popStranded
    · exact holds
  apply Holds.pruneRetained
  exact (popped.ensureIntegrity reason).push item rfl rfl rfl

theorem Holds.pushUsers (holds : actor.Holds pushed) (items : List ConversationItem) :
    (actor.pushUserMessages items).Holds (pushed ++ items) := by
  induction items generalizing actor pushed with
  | nil => simpa [pushUserMessages] using holds
  | cons item rest ih =>
      have next := ih (holds.pushUser item .userCancelled)
      simpa [pushUserMessages, pushUserMessage] using next

theorem Holds.converge (holds : actor.Holds pushed) (generation : Nat) (item : ConversationItem) :
    (actor.convergeWorkingDirectorySwitch generation item).Holds
      (pushed ++ if actor.conversation.any (holdsSwitch generation) then [] else [item]) := by
  simp only [convergeWorkingDirectorySwitch]
  split
  · rw [List.append_nil]
    exact holds.rewrite (replaceFirst_rewritten _ _ _) rfl rfl
  · exact holds.push item rfl rfl rfl

theorem Holds.repairUnchanged (holds : actor.Holds pushed) (dryRun : Bool)
    (unchanged : (Chat.repairHistory actor.conversation).2.changed = false) :
    (actor.repairHistory dryRun).1.Holds pushed := by
  simp only [ChatStateActor.repairHistory]
  split
  · exact holds
  · rw [if_neg (by simp [unchanged])]
    exact holds.congr (repairHistory_same unchanged) rfl rfl

theorem repairChanged_captured (holds : actor.Holds pushed)
    (changes : (Chat.repairHistory actor.conversation).2.changed = true) :
    (actor.repairHistory false).1.tailAsserted = true →
      (actor.repairHistory false).1.captured.length < pushed.length := by
  -- A repair that changes something has already lost the tail when it puts the tail aside.
  obtain ⟨capture, capturing⟩ := Option.isSome_iff_exists.mp holds.capturing
  have count := holds.captured.length_eq
  have nonempty : actor.conversation ≠ [] := by
    intro empty
    simp [empty] at changes
  have some' := List.length_pos_of_ne_nil nonempty
  simp only [ChatStateActor.repairHistory, changes, Bool.false_eq_true, if_false, if_true,
    replaceConversation, rebaseTurnCaptureOffset, snapshotTurnSlice, capturing, Option.map_some,
    TurnCaptureState.mark, ChatStateActor.captured, turnTail, tailAssertion, List.drop_nil,
    List.append_nil, List.drop_length, List.length_nil, Bool.and_eq_true, decide_eq_true_eq,
    List.length_append, List.length_drop] at count ⊢
  intro inRange
  omega

end ChatStateActor

end Captures

section Turns

structure Turn where
  actor : ChatStateActor
  pushed : List ConversationItem

def Turn.begin (actor : ChatStateActor) : Turn := { actor := actor.beginTurnCapture, pushed := [] }

def ChatStateActor.pushedBy (actor : ChatStateActor) : ChatStateActor.Command → List ConversationItem
  | .pushUserMessage item | .pushUserMessageWithRepairReason item _ | .pushAssistantResponse item
  | .pushToolResult item | .pushModelOutput item | .pushUnreportedModelOutput item => [item]
  | .pushUserMessagesBatch items => items
  | .appendWorkingDirectorySwitch content generation result =>
      -- A switch that is there already is replaced in its place.
      match result.authoritative (.workingDirectorySwitch content generation) with
      | some item =>
          if actor.popStrandedContinueReminder.conversation.any
            (ChatStateActor.holdsSwitch generation) then [] else [item]
      | none => []
  | _ => []

def Turn.step (turn : Turn) (command : ChatStateActor.Command) : Turn :=
  { actor := turn.actor.handleCommand command
    pushed := turn.pushed ++ turn.actor.pushedBy command }

def Turn.Captured (turn : Turn) : Prop :=
  turn.actor.takeTurnMessages.2.tailAsserted = true ∧
    ∃ capture ∈ turn.actor.takeTurnMessages.1, Forall₂ Rewritten turn.pushed capture.messages

def Turn.Sound (turn : Turn) : ChatStateActor.Command → Prop
  | .repairHistory dryRun turnActive =>
      turnActive = false → dryRun = false →
        (repairHistory turn.actor.conversation).2.changed = false
  | _ => True

instance (turn : Turn) (command : ChatStateActor.Command) : Decidable (turn.Sound command) := by
  cases command with
  | repairHistory dryRun turnActive => exact inferInstanceAs (Decidable (_ → _ → _))
  | _ => exact inferInstanceAs (Decidable True)

theorem Turn.step_quiet {turn : Turn} {command : ChatStateActor.Command}
    (quiet : turn.actor.pushedBy command = [])
    (holds : (turn.actor.handleCommand command).Holds turn.pushed) :
    (turn.step command).actor.Holds (turn.step command).pushed := by
  simpa [Turn.step, quiet] using holds

theorem Turn.step_holds (turn : Turn) (command : ChatStateActor.Command)
    (holds : turn.actor.Holds turn.pushed) (sound : turn.Sound command) :
    (turn.step command).actor.Holds (turn.step command).pushed := by
  cases command with
  | pushUserMessage item => exact holds.pushUser item .userCancelled
  | pushUserMessagesBatch items => exact holds.pushUsers items
  | pushUserMessageWithRepairReason item reason => exact holds.pushUser item reason
  | appendWorkingDirectorySwitch content generation result =>
      have popped := holds.popStranded
      simp only [Turn.step, ChatStateActor.handleCommand,
        ChatStateActor.appendWorkingDirectorySwitch, ChatStateActor.pushedBy]
      cases result.authoritative (.workingDirectorySwitch content generation) with
      | some item => exact popped.converge generation item
      | none => simpa using popped
  | pushAssistantResponse item => exact holds.push item rfl rfl rfl
  | pushToolResult item => exact holds.push item rfl rfl rfl
  | pushModelOutput item => exact holds.push item rfl rfl rfl
  | pushUnreportedModelOutput item => exact holds.push item rfl rfl rfl
  | repairHistory dryRun turnActive =>
      apply Turn.step_quiet rfl
      simp only [ChatStateActor.handleCommand]
      cases turnActive with
      | true => exact holds
      | false =>
          cases dryRun with
          | true => exact holds
          | false => exact holds.repairUnchanged false (sound rfl rfl)
  | replaceConversation items isCompaction =>
      exact Turn.step_quiet rfl (holds.replace items isCompaction)
  | stripConversationImages urls =>
      exact Turn.step_quiet rfl (holds.rewrite (stripImages_rewritten urls _) rfl rfl)
  | replaceSystemHead prompt => exact Turn.step_quiet rfl (holds.replaceSystemHead prompt)
  | restoreSnapshot snapshot => exact Turn.step_quiet rfl (holds.restoreSnapshot snapshot)
  | repairDanglingAfterHarnessHalt class' =>
      exact Turn.step_quiet rfl (holds.popStranded.ensureIntegrity (.harnessHalted class'))
  | popStrandedContinueReminder => exact Turn.step_quiet rfl holds.popStranded
  | buildConversationRequest memoryReminder persistMemoryReminder =>
      exact Turn.step_quiet rfl
        (holds.buildConversationRequest memoryReminder persistMemoryReminder)
  | incrementPromptIndex => exact Turn.step_quiet rfl (holds.congr rfl rfl rfl)

theorem Turn.captured_iff (turn : Turn) :
    turn.Captured ↔ turn.actor.Holds turn.pushed := by
  cases capturing : turn.actor.turnCapture with
  | none =>
      constructor
      · intro captured
        simp [Turn.Captured, ChatStateActor.takeTurnMessages, capturing] at captured
      · intro holds
        have some' := holds.capturing
        simp [capturing] at some'
  | some capture =>
      simp only [Turn.Captured, ChatStateActor.takeTurnMessages, capturing, Option.mem_some_iff,
        exists_eq_left', Bool.and_eq_true]
      constructor
      · intro ⟨⟨asserted, inRange⟩, messages⟩
        constructor
        · simp [capturing]
        · simp [capturing, inRange]
        · exact asserted
        · simpa [ChatStateActor.captured, capturing] using messages
      · intro holds
        refine ⟨⟨holds.asserted, holds.inRange capture capturing⟩, ?_⟩
        simpa [ChatStateActor.captured, capturing] using holds.captured

/-- Exactly a history repair that changes something breaks the capture of a turn. -/
theorem turn_capture_exact (actor : ChatStateActor) (asserted : actor.tailAsserted = true)
    (commands : List ChatStateActor.Command)
    (sound : Runs.Along Turn.step Turn.Sound (Turn.begin actor) commands) :
    let turn := Runs.run Turn.step (Turn.begin actor) commands
    turn.Captured ∧ ∀ command, ¬ turn.Sound command → ¬ (turn.step command).Captured := by
  have holds := Runs.along_invariant Turn.step
    Turn.step_holds _ commands
    (ChatStateActor.begin_holds asserted) sound
  refine ⟨(Turn.captured_iff _).mpr holds, ?_⟩
  intro command unsound
  rw [Turn.captured_iff]
  intro after
  cases command with
  | repairHistory dryRun turnActive =>
      simp only [Turn.Sound, not_forall, Bool.not_eq_false] at unsound
      obtain ⟨rfl, rfl, changes⟩ := unsound
      have lost := ChatStateActor.repairChanged_captured holds changes after.asserted
      have count := after.captured.length_eq
      simp only [Turn.step, ChatStateActor.pushedBy, List.append_nil,
        ChatStateActor.handleCommand] at count
      exact absurd count (Nat.ne_of_gt lost)
  | _ => exact unsound trivial

def plainUser (content : Text) : ConversationItem :=
  .user { content := [.text content], syntheticReason := none, cwdGeneration := none }

def strayResult : ConversationItem :=
  .toolResult { toolCallId := "call-1".toList, content := "late".toList, images := [] }

def greeted : ChatStateActor :=
  { conversation := [plainUser "hi".toList]
    promptIndex := 0
    turnCapture := none
    pruningConfig := { enabled := true, hardClearAgeTurns := 10 }
    tailAsserted := true }

theorem turn_capture_exact_compacted :
    (Runs.run Turn.step (Turn.begin greeted)
      [.pushUserMessage (plainUser "go on".toList),
        .replaceConversation [plainUser "summary".toList] true,
        .pushModelOutput (.assistant { content := "done".toList, toolCalls := [] }),
        .repairHistory false false]).Captured :=
  (turn_capture_exact greeted rfl
    [.pushUserMessage (plainUser "go on".toList),
      .replaceConversation [plainUser "summary".toList] true,
      .pushModelOutput (.assistant { content := "done".toList, toolCalls := [] }),
      .repairHistory false false] (by decide)).1

/-- A stray result of the turn is stripped, and the turn is lost with it. -/
theorem repaired_turn_lost :
    ¬ ∀ (actor : ChatStateActor) (commands : List ChatStateActor.Command),
      actor.tailAsserted = true → (Runs.run Turn.step (Turn.begin actor) commands).Captured := by
  intro exact
  have captured := exact greeted [.pushToolResult strayResult, .repairHistory false false] rfl
  exact absurd captured.1 (by decide)

end Turns

end GrokPi.Chat
