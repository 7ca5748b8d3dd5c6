import GrokPi.Chat.Actor
import GrokPi.Shared.Runs

set_option autoImplicit false

namespace GrokPi.Chat

def ConversationItem.isRealUser : ConversationItem → Bool
  | .user item => item.syntheticReason.isNone
  | _ => false

namespace ChatStateActor

variable (actor : ChatStateActor)

section Steps

def userPosition : Nat → List ConversationItem → Nat
  | _, [] => 0
  | number, item :: rest =>
      if item.isUser then
        match number with
        | 0 => 0
        | number + 1 => userPosition number rest + 1
      else userPosition number rest + 1

def truncateToPromptIndex (targetPromptIndex : Nat) : ChatStateActor :=
  if actor.promptIndex ≤ targetPromptIndex then { actor with turnCapture := none }
  else
    { actor with
      conversation :=
        actor.conversation.take (userPosition targetPromptIndex actor.conversation)
      promptIndex := targetPromptIndex
      turnCapture := none }

inductive Step where
  | command (command : Command)
  | truncateToPromptIndex (targetPromptIndex : Nat)

def perform : Step → ChatStateActor
  | .command command => actor.handleCommand command
  | .truncateToPromptIndex targetPromptIndex => actor.truncateToPromptIndex targetPromptIndex

def pushedMessage (item : ConversationItem) (reason : DanglingToolCallReason) : ChatStateActor :=
  let popped := if endsContinuation item then actor.popStrandedContinueReminder else actor
  (popped.ensureConversationIntegrityWithReason reason).persistAndPushMessage item

def pushedMessages : ChatStateActor → List ConversationItem → List ChatStateActor
  | _, [] => []
  | actor, item :: rest =>
      actor.pushedMessage item .userCancelled :: pushedMessages (actor.pushUserMessage item) rest

def pruned : Step → List ChatStateActor
  | .command (.pushUserMessage item) => [actor.pushedMessage item .userCancelled]
  | .command (.pushUserMessageWithRepairReason item reason) => [actor.pushedMessage item reason]
  | .command (.pushUserMessagesBatch items) => pushedMessages actor items
  | _ => []

end Steps

section Scan

variable (threshold : Nat)

theorem foldr_visit_items (front : List ConversationItem) (scan : PruneScan) :
    ∃ visited, visited.length = front.length ∧
      (front.foldr (PruneScan.visit threshold) scan).items = visited ++ scan.items := by
  induction front with
  | nil => exact ⟨[], rfl, rfl⟩
  | cons item rest ih =>
      obtain ⟨visited, length, items⟩ := ih
      rw [List.foldr_cons]
      generalize rest.foldr (PruneScan.visit threshold) scan = later at items
      have one : ∃ item', (PruneScan.visit threshold item later).items = item' :: later.items := by
        cases item with
        | toolResult result =>
            simp only [PruneScan.visit]
            split <;> exact ⟨_, rfl⟩
        | _ => exact ⟨_, rfl⟩
      obtain ⟨item', shown⟩ := one
      exact ⟨item' :: visited, by simp [length], by rw [shown, items, List.cons_append]⟩

theorem foldr_visit_turns (items : List ConversationItem) (start : List ConversationItem) :
    let scan := items.foldr (PruneScan.visit threshold)
      { turnFromEnd := 0, seenFirstUser := false, cleared := 0, items := start }
    scan.turnFromEnd = items.countP ConversationItem.isUser - 1 ∧
      scan.seenFirstUser = decide (0 < items.countP ConversationItem.isUser) := by
  -- The scan counts the user items behind it, the last one not.
  induction items with
  | nil => exact ⟨rfl, rfl⟩
  | cons item rest ih =>
      simp only [List.foldr_cons] at ih ⊢
      generalize rest.foldr (PruneScan.visit threshold) _ = scan at ih
      obtain ⟨turns, seen⟩ := ih
      cases item with
      | user user =>
          simp only [PruneScan.visit, List.countP_cons, ConversationItem.isUser, if_true, seen,
            decide_eq_true_eq, turns]
          refine ⟨?_, by simp⟩
          split <;> omega
      | toolResult result =>
          simp only [PruneScan.visit, List.countP_cons, ConversationItem.isUser, Bool.false_eq_true,
            if_false, Nat.add_zero]
          split <;> exact ⟨turns, seen⟩
      | _ =>
          simp only [PruneScan.visit, List.countP_cons, ConversationItem.isUser, Bool.false_eq_true,
            if_false, Nat.add_zero]
          exact ⟨turns, seen⟩

theorem hardClear_result (before after : List ConversationItem) (result : ToolResultItem) :
    (hardClear threshold (before ++ .toolResult result :: after)).1[before.length]? =
      some (.toolResult
        (if after.countP ConversationItem.isUser - 1 < threshold ∨
            result.content = hardClearPlaceholder then result
        else { result with content := hardClearPlaceholder })) := by
  obtain ⟨turns, -⟩ := foldr_visit_turns threshold after []
  simp only [hardClear, List.foldr_append, List.foldr_cons]
  generalize after.foldr (PruneScan.visit threshold) _ = scan at turns
  obtain ⟨visited, length, items⟩ :=
    foldr_visit_items threshold before (PruneScan.visit threshold (.toolResult result) scan)
  rw [items, ← length, List.getElem?_append_right (Nat.le_refl _), Nat.sub_self]
  simp only [PruneScan.visit, turns]
  split
  next kept => simp
  next => simp

end Scan

section Age

/-- A prune takes the content of no result that fewer real turns follow than the setting asks for. -/
def SparesYoung : Prop :=
  ∀ before result after, actor.conversation = before ++ .toolResult result :: after →
    ∀ result', actor.pruneRetainedConversation.conversation[before.length]? =
        some (.toolResult result') → result'.content ≠ result.content →
      actor.pruningConfig.hardClearAgeTurns ≤ after.countP ConversationItem.isRealUser

/-- In front of a young result lie as many user items as the prompt index, or the number of all
user items, exceeds the age by. -/
def YoungBehindTurns : Prop :=
  actor.pruningConfig.enabled = true →
    ∀ before result after, actor.conversation = before ++ .toolResult result :: after →
      result.content ≠ hardClearPlaceholder →
      after.countP ConversationItem.isRealUser < actor.pruningConfig.hardClearAgeTurns →
      min actor.promptIndex (actor.conversation.countP ConversationItem.isUser) ≤
        actor.pruningConfig.hardClearAgeTurns + before.countP ConversationItem.isUser

theorem prune_result {before after : List ConversationItem} {result : ToolResultItem}
    (enabled : actor.pruningConfig.enabled = true)
    (split : actor.conversation = before ++ .toolResult result :: after)
    (positive : 0 < actor.pruningConfig.hardClearAgeTurns) :
    actor.pruneRetainedConversation.conversation[before.length]? =
      some (.toolResult
        (if actor.pruningConfig.hardClearAgeTurns + before.countP ConversationItem.isUser <
            min actor.promptIndex (actor.conversation.countP ConversationItem.isUser) ∧
            result.content ≠ hardClearPlaceholder then
          { result with content := hardClearPlaceholder }
        else result)) := by
  -- When the prune clears a result: its age is taken from the prompt index and the items in front.
  have users : actor.conversation.countP ConversationItem.isUser =
      before.countP ConversationItem.isUser + after.countP ConversationItem.isUser := by
    rw [split, List.countP_append, List.countP_cons]
    rfl
  simp only [pruneRetainedConversation, enabled, Bool.not_true, Bool.false_eq_true, if_false]
  split_ifs with early cleared cleared
  · omega
  · rw [split, List.getElem?_append_right (Nat.le_refl _), Nat.sub_self]
    rfl
  · simp only [rewriteHistory, reduceCtorEq, if_false]
    rw [split, hardClear_result, ← split, if_neg]
    rintro (young | same)
    · omega
    · exact cleared.2 same
  · simp only [rewriteHistory, reduceCtorEq, if_false]
    rw [split, hardClear_result, ← split, if_pos]
    by_cases same : result.content = hardClearPlaceholder
    · exact .inr same
    · refine .inl ?_
      have old : ¬actor.pruningConfig.hardClearAgeTurns + before.countP ConversationItem.isUser <
          min actor.promptIndex (actor.conversation.countP ConversationItem.isUser) :=
        fun old => cleared ⟨old, same⟩
      omega

theorem sparesYoung_iff : actor.SparesYoung ↔ actor.YoungBehindTurns := by
  constructor
  · intro spares enabled before result after split uncleared young
    by_contra old
    have cleared := actor.prune_result enabled split (Nat.zero_lt_of_lt young)
    rw [if_pos ⟨Nat.lt_of_not_le old, uncleared⟩] at cleared
    have kept := spares before result after split _ cleared (Ne.symm uncleared)
    omega
  · intro behind before result after split result' found changed
    by_contra young
    have young' := Nat.lt_of_not_le young
    cases enabled : actor.pruningConfig.enabled with
    | false =>
        simp only [pruneRetainedConversation, enabled, Bool.not_false, if_true] at found
        rw [split, List.getElem?_append_right (Nat.le_refl _), Nat.sub_self] at found
        cases found
        exact changed rfl
    | true =>
        rw [actor.prune_result enabled split (Nat.zero_lt_of_lt young')] at found
        split_ifs at found with cleared
        · have turns := behind enabled before result after split cleared.2 young'
          omega
        · cases found
          exact changed rfl

/-- A run spares young results exactly when each of its prunes finds them behind enough turns. -/
theorem runs_spare_young_iff (steps : List Step) :
    Runs.Along perform (fun state step => ∀ at' ∈ state.pruned step, at'.SparesYoung) actor steps ↔
      Runs.Along perform (fun state step => ∀ at' ∈ state.pruned step, at'.YoungBehindTurns) actor
        steps := by
  refine @Runs.along_iff_always _ _ perform _ _ (fun _ => True) (fun state step _ => ?_)
    (fun _ _ _ _ => trivial) actor steps trivial
  exact forall₂_congr fun at' _ => at'.sparesYoung_iff

end Age

section Cases

def realUser (text : String) : ConversationItem :=
  .user { content := [.text text.toList], syntheticReason := none, cwdGeneration := none }

def reminder (text : String) : ConversationItem :=
  .user
    { content := [.text text.toList]
      syntheticReason := some .systemReminder
      cwdGeneration := none }

def compactedTurn : List Step :=
  [.command .incrementPromptIndex, .command (.pushUserMessage (realUser "q0")),
    .command .incrementPromptIndex, .command (.pushUserMessage (realUser "q1")),
    .command .incrementPromptIndex, .command (.pushUserMessage (realUser "q2")),
    .command (.replaceConversation [reminder "summary"] true),
    .command (.pushAssistantResponse
      (.assistant { content := [], toolCalls := [{ id := ['a'], name := ['r'] }] })),
    .command (.pushToolResult
      (.toolResult { toolCallId := ['a'], content := ['x'], images := [] })),
    .command (.pushUserMessage (reminder "first")), .command (.pushUserMessage (reminder "second"))]

def freshActor (hardClearAgeTurns : Nat) : ChatStateActor :=
  { conversation := []
    promptIndex := 0
    turnCapture := none
    pruningConfig := { enabled := true, hardClearAgeTurns := hardClearAgeTurns }
    tailAsserted := true }

theorem young_result_is_cleared :
    ¬∀ (hardClearAgeTurns : Nat) (steps : List Step),
      Runs.Along perform (fun state step => ∀ at' ∈ state.pruned step, at'.SparesYoung)
        (freshActor hardClearAgeTurns) steps := by
  intro claim
  have along := (Runs.along_append perform _ (freshActor 1) (compactedTurn.take 10)
    (compactedTurn.drop 10)).mp (claim 1 compactedTurn)
  have spares := along.2.1 _ List.mem_cons_self
  have kept := spares
    [reminder "summary", .assistant { content := [], toolCalls := [{ id := ['a'], name := ['r'] }] }]
    { toolCallId := ['a'], content := ['x'], images := [] } [reminder "first", reminder "second"] rfl
    { toolCallId := ['a'], content := hardClearPlaceholder, images := [] } (by decide) (by decide)
  exact absurd kept (by decide)

end Cases

end ChatStateActor

end GrokPi.Chat
