import GrokPi.Chat.Conversation

set_option autoImplicit false

namespace GrokPi.Chat

structure PruningConfig where
  enabled : Bool
  hardClearAgeTurns : Nat

structure TurnCaptureState where
  turnStartOffset : Nat
  preReplacementMessages : List ConversationItem
  compactionOccurred : Bool

def TurnCaptureState.mark (isCompaction : Bool) (capture : TurnCaptureState) : TurnCaptureState :=
  { capture with compactionOccurred := capture.compactionOccurred || isCompaction }

structure TurnCapture where
  messages : List ConversationItem
  compactionOccurred : Bool

structure ChatStateActor where
  conversation : List ConversationItem
  promptIndex : Nat
  turnCapture : Option TurnCaptureState
  pruningConfig : PruningConfig
  /-- The assertion of `turn_tail` has held at every call. -/
  tailAsserted : Bool

structure ChatStateSnapshot where
  conversation : List ConversationItem
  promptIndex : Nat

namespace ChatStateActor

variable (actor : ChatStateActor)

section Capture

def turnTail (conversation : List ConversationItem) (offset : Nat) : List ConversationItem :=
  conversation.drop offset

def tailAssertion (conversation : List ConversationItem) (capture : TurnCaptureState) : Bool :=
  capture.turnStartOffset ≤ conversation.length

def snapshotTurnSlice : ChatStateActor :=
  match actor.turnCapture with
  | none => actor
  | some capture =>
      { actor with
        turnCapture := some
          { capture with
            preReplacementMessages :=
              capture.preReplacementMessages ++
                turnTail actor.conversation capture.turnStartOffset }
        tailAsserted := actor.tailAsserted && tailAssertion actor.conversation capture }

def rebaseTurnCaptureOffset : ChatStateActor :=
  { actor with
    turnCapture := actor.turnCapture.map fun capture =>
      { capture with turnStartOffset := actor.conversation.length } }

def beginTurnCapture : ChatStateActor :=
  { actor with
    turnCapture := some
      { turnStartOffset := actor.conversation.length
        preReplacementMessages := []
        compactionOccurred := false } }

def takeTurnMessages : Option TurnCapture × ChatStateActor :=
  match actor.turnCapture with
  | none => (none, actor)
  | some capture =>
      (some
        { messages :=
            capture.preReplacementMessages ++
              turnTail actor.conversation capture.turnStartOffset
          compactionOccurred := capture.compactionOccurred },
        { actor with
          turnCapture := none
          tailAsserted := actor.tailAsserted && tailAssertion actor.conversation capture })

end Capture

section Rewrites

inductive HistoryRewrite where
  | integrityRepair
  | retainedPrune
  | imageStrip
  deriving DecidableEq

def rewriteHistory (kind : HistoryRewrite)
    (mutate : List ConversationItem → List ConversationItem × Nat) : ChatStateActor :=
  if kind = .integrityRepair then
    { actor.snapshotTurnSlice with
      conversation := (mutate actor.conversation).1 }.rebaseTurnCaptureOffset
  else { actor with conversation := (mutate actor.conversation).1 }

def ensureConversationIntegrityWithReason (reason : DanglingToolCallReason) : ChatStateActor :=
  actor.rewriteHistory .integrityRepair fun conversation =>
    let (deduped, removed) := dedupDuplicateToolResults conversation
    let (repaired, inserted) := repairDanglingToolCalls deduped reason
    (repaired, inserted + removed)

def ensureConversationIntegrity : ChatStateActor :=
  actor.ensureConversationIntegrityWithReason .userCancelled

def popStrandedContinueReminder : ChatStateActor :=
  if (actor.conversation.getLast?.map ConversationItem.isContinueReminder).getD false then
    actor.rewriteHistory .integrityRepair fun conversation =>
      let kept := conversation.rdropWhile ConversationItem.isContinueReminder
      (kept, conversation.length - kept.length)
  else actor

def repairDanglingAfterHarnessHalt (class' : Text) : ChatStateActor :=
  actor.popStrandedContinueReminder.ensureConversationIntegrityWithReason (.harnessHalted class')

def hardClearPlaceholder : Text := "[Tool result omitted — too old]".toList

structure PruneScan where
  turnFromEnd : Nat
  seenFirstUser : Bool
  cleared : Nat
  items : List ConversationItem

def PruneScan.visit (threshold : Nat) (item : ConversationItem) (scan : PruneScan) : PruneScan :=
  match item with
  | .user _ =>
      { scan with
        turnFromEnd := if scan.seenFirstUser then scan.turnFromEnd + 1 else scan.turnFromEnd
        seenFirstUser := true
        items := item :: scan.items }
  | .toolResult result =>
      if scan.turnFromEnd < threshold ∨ result.content = hardClearPlaceholder then
        { scan with items := item :: scan.items }
      else
        { scan with
          cleared := scan.cleared + 1
          items := .toolResult { result with content := hardClearPlaceholder } :: scan.items }
  | _ => { scan with items := item :: scan.items }

def hardClear (threshold : Nat) (conversation : List ConversationItem) :
    List ConversationItem × Nat :=
  let scan := conversation.foldr (PruneScan.visit threshold)
    { turnFromEnd := 0, seenFirstUser := false, cleared := 0, items := [] }
  (scan.items, scan.cleared)

def pruneRetainedConversation : ChatStateActor :=
  if !actor.pruningConfig.enabled then actor
  else if actor.promptIndex < actor.pruningConfig.hardClearAgeTurns then actor
  else
    -- Synthetic user items are no turns of their own and raise the age by their number.
    let synthetic := actor.conversation.countP ConversationItem.isUser - actor.promptIndex
    actor.rewriteHistory .retainedPrune
      (hardClear (actor.pruningConfig.hardClearAgeTurns + synthetic))

def stripConversationImages (urls : List Text) : ChatStateActor :=
  actor.rewriteHistory .imageStrip (stripImagesByUrl · urls)

def replaceConversation (items : List ConversationItem) (isCompaction : Bool) : ChatStateActor :=
  let captured := actor.snapshotTurnSlice
  let marked := captured.turnCapture.map (TurnCaptureState.mark isCompaction)
  { captured with conversation := items, turnCapture := marked }.rebaseTurnCaptureOffset

def repairHistory (dryRun : Bool) : ChatStateActor × HistoryRepairReport :=
  let (items, report) := Chat.repairHistory actor.conversation
  if dryRun then (actor, report)
  else
    let taken := { actor with conversation := [] }
    if report.changed then (taken.replaceConversation items false, report)
    else ({ taken with conversation := items }, report)

def canonicalSystemPromptEq (a b : Text) : Bool :=
  a.rdropWhile (· ∈ ['\n', '\r']) == b.rdropWhile (· ∈ ['\n', '\r'])

def replaceOrInsertSystemHead (conversation : List ConversationItem) (prompt : Text) :
    List ConversationItem :=
  match conversation with
  | .system content :: rest =>
      if canonicalSystemPromptEq content prompt then conversation else .system prompt :: rest
  | _ => .system prompt :: conversation

def replaceSystemHead (prompt : Text) : ChatStateActor :=
  let replaced := actor.replaceConversation (replaceOrInsertSystemHead actor.conversation prompt) false
  match actor.conversation with
  | .system content :: _ => if canonicalSystemPromptEq content prompt then actor else replaced
  | _ => replaced

def restoreSnapshot (snapshot : ChatStateSnapshot) : ChatStateActor :=
  let restored := { actor.snapshotTurnSlice with conversation := snapshot.conversation }
  { restored.rebaseTurnCaptureOffset with promptIndex := snapshot.promptIndex }

def memoryContextOpenTag : Text := "<memory-context>".toList

def upsertMemoryReminderText (systemPrompt reminder : Text) : Text :=
  let trimmed (text : Text) : Text := text.rdropWhile (· = '\n')
  match Text.find memoryContextOpenTag systemPrompt with
  | some start =>
      let before := trimmed (systemPrompt.take start)
      if before.isEmpty then reminder else before ++ "\n\n".toList ++ reminder
  | none =>
      if Text.trimEnd systemPrompt = reminder then systemPrompt
      else if systemPrompt.isEmpty then reminder
      else trimmed systemPrompt ++ "\n\n".toList ++ reminder

def injectMemoryReminder (items : List ConversationItem) (reminder : Text) :
    List ConversationItem × Bool :=
  let reminder := Text.trim reminder
  if reminder.isEmpty then (items, false)
  else
    match items with
    | .system content :: rest =>
        let updated := upsertMemoryReminderText content reminder
        if content = updated then (items, false) else (.system updated :: rest, true)
    | _ => (.system reminder :: items, true)

def buildConversationRequest (memoryReminder : Option Text) (persistMemoryReminder : Bool) :
    ChatStateActor :=
  let sound := actor.ensureConversationIntegrity
  match memoryReminder, persistMemoryReminder with
  | some reminder, true =>
      { sound.snapshotTurnSlice with
        conversation := (injectMemoryReminder sound.conversation reminder).1 }.rebaseTurnCaptureOffset
  | _, _ => sound

end Rewrites

section Pushes

def persistAndPushMessage (item : ConversationItem) : ChatStateActor :=
  { actor with conversation := actor.conversation ++ [item] }

def pushMessage (item : ConversationItem) : ChatStateActor := actor.persistAndPushMessage item

def pushModelOutput (item : ConversationItem) : ChatStateActor := actor.persistAndPushMessage item

def pushUnreportedModelOutput (item : ConversationItem) : ChatStateActor :=
  actor.persistAndPushMessage item

def endsContinuation : ConversationItem → Bool
  | .user item =>
      match item.syntheticReason with
      | none => true
      | some reason =>
          reason.startsPromptTurn ||
            [.autoRecovery, .stopHookFeedback, .goalSummary, .workingDirectorySwitch,
              .interjection].contains reason
  | _ => false

def pushUserMessageWithRepairReason (item : ConversationItem) (reason : DanglingToolCallReason) :
    ChatStateActor :=
  let popped := if endsContinuation item then actor.popStrandedContinueReminder else actor
  ((popped.ensureConversationIntegrityWithReason reason).persistAndPushMessage
    item).pruneRetainedConversation

def pushUserMessage (item : ConversationItem) : ChatStateActor :=
  actor.pushUserMessageWithRepairReason item .userCancelled

def pushUserMessages (items : List ConversationItem) : ChatStateActor :=
  items.foldl pushUserMessage actor

inductive StrictAppendAck where
  | appended
  | alreadyPresent (authoritative : ConversationItem)

/-- How the disk answered; a committed append counts although an error came after it. -/
inductive StrictAppendResult where
  | ok (ack : StrictAppendAck)
  | committed (ack : StrictAppendAck)
  | failed

def StrictAppendResult.authoritative (candidate : ConversationItem) :
    StrictAppendResult → Option ConversationItem
  | .ok .appended | .committed .appended => some candidate
  | .ok (.alreadyPresent item) | .committed (.alreadyPresent item) => some item
  | .failed => none

def holdsSwitch (generation : Nat) (item : ConversationItem) : Bool :=
  item.workingDirectorySwitchGeneration = some generation

def replaceFirst (test : ConversationItem → Bool) (replacement : ConversationItem) :
    List ConversationItem → List ConversationItem
  | [] => []
  | item :: rest =>
      if test item then replacement :: rest else item :: replaceFirst test replacement rest

def convergeWorkingDirectorySwitch (generation : Nat) (authoritative : ConversationItem) :
    ChatStateActor :=
  if actor.conversation.any (holdsSwitch generation) then
    { actor with
      conversation := replaceFirst (holdsSwitch generation) authoritative actor.conversation }
  else { actor with conversation := actor.conversation ++ [authoritative] }

def appendWorkingDirectorySwitch (content : Text) (generation : Nat) (result : StrictAppendResult) :
    ChatStateActor :=
  let popped := actor.popStrandedContinueReminder
  match result.authoritative (.workingDirectorySwitch content generation) with
  | some item => popped.convergeWorkingDirectorySwitch generation item
  | none => popped

def incrementPromptIndex : ChatStateActor := { actor with promptIndex := actor.promptIndex + 1 }

end Pushes

section Commands

inductive Command where
  | pushUserMessage (item : ConversationItem)
  | pushUserMessagesBatch (items : List ConversationItem)
  | pushUserMessageWithRepairReason (item : ConversationItem) (reason : DanglingToolCallReason)
  | appendWorkingDirectorySwitch (content : Text) (generation : Nat) (result : StrictAppendResult)
  | pushAssistantResponse (item : ConversationItem)
  | pushToolResult (item : ConversationItem)
  | pushModelOutput (item : ConversationItem)
  | pushUnreportedModelOutput (item : ConversationItem)
  | incrementPromptIndex
  | replaceConversation (items : List ConversationItem) (isCompaction : Bool)
  | repairHistory (dryRun turnActive : Bool)
  | stripConversationImages (urls : List Text)
  | replaceSystemHead (prompt : Text)
  | restoreSnapshot (snapshot : ChatStateSnapshot)
  | repairDanglingAfterHarnessHalt (class' : Text)
  | popStrandedContinueReminder
  | buildConversationRequest (memoryReminder : Option Text) (persistMemoryReminder : Bool)

def handleCommand : Command → ChatStateActor
  | .pushUserMessage item => actor.pushUserMessage item
  | .pushUserMessagesBatch items => actor.pushUserMessages items
  | .pushUserMessageWithRepairReason item reason => actor.pushUserMessageWithRepairReason item reason
  | .appendWorkingDirectorySwitch content generation result =>
      actor.appendWorkingDirectorySwitch content generation result
  | .pushAssistantResponse item | .pushToolResult item => actor.pushMessage item
  | .pushModelOutput item => actor.pushModelOutput item
  | .pushUnreportedModelOutput item => actor.pushUnreportedModelOutput item
  | .incrementPromptIndex => actor.incrementPromptIndex
  | .replaceConversation items isCompaction => actor.replaceConversation items isCompaction
  | .repairHistory dryRun turnActive =>
      -- A repair is refused while a turn is active.
      if turnActive then actor else (actor.repairHistory dryRun).1
  | .stripConversationImages urls => actor.stripConversationImages urls
  | .replaceSystemHead prompt => actor.replaceSystemHead prompt
  | .restoreSnapshot snapshot => actor.restoreSnapshot snapshot
  | .repairDanglingAfterHarnessHalt class' => actor.repairDanglingAfterHarnessHalt class'
  | .popStrandedContinueReminder => actor.popStrandedContinueReminder
  | .buildConversationRequest memoryReminder persistMemoryReminder =>
      actor.buildConversationRequest memoryReminder persistMemoryReminder

end Commands

end ChatStateActor

end GrokPi.Chat
