import GrokPi.Shared.Text

set_option autoImplicit false

namespace GrokPi.Chat

inductive SyntheticReason where
  | compactionMeta
  | systemReminder
  | lengthContinue
  | projectInstructions
  | autoContinue
  | autoRecovery
  | interjection
  | agentMessage
  | taskCompleted
  | subagentCompleted
  | notificationDrain
  | goalSummary
  | goalClassifierNudge
  | schedulerFired
  | stopHookFeedback
  | workingDirectorySwitch
  | unknown
  deriving DecidableEq

def SyntheticReason.startsPromptTurn : SyntheticReason → Bool
  | .agentMessage | .unknown | .taskCompleted | .subagentCompleted | .notificationDrain
  | .goalClassifierNudge | .schedulerFired => true
  | _ => false

inductive ContentPart where
  | text (text : Text)
  | image (url : Text)
  deriving DecidableEq

structure UserItem where
  content : List ContentPart
  syntheticReason : Option SyntheticReason
  cwdGeneration : Option Nat
  promptIndex : Option Nat := none
  deriving DecidableEq

structure ToolCall where
  id : Text
  name : Text
  arguments : Text := []
  deriving DecidableEq

structure AssistantItem where
  content : Text
  toolCalls : List ToolCall
  deriving DecidableEq

structure ToolResultItem where
  toolCallId : Text
  content : Text
  images : List ContentPart
  deriving DecidableEq

inductive ConversationItem where
  | system (content : Text)
  | user (item : UserItem)
  | assistant (item : AssistantItem)
  | toolResult (item : ToolResultItem)
  | backendToolCall (wire : Text)
  | reasoning (wire : Text)
  deriving DecidableEq

namespace ConversationItem

def isUser : ConversationItem → Bool
  | .user _ => true
  | _ => false

def toolResultId : ConversationItem → Option Text
  | .toolResult item => some item.toolCallId
  | _ => none

def toolCalls : ConversationItem → List ToolCall
  | .assistant item => item.toolCalls
  | _ => []

def workingDirectorySwitch (content : Text) (generation : Nat) : ConversationItem :=
  .user
    { content := [.text content]
      syntheticReason := some .workingDirectorySwitch
      cwdGeneration := some generation }

def workingDirectorySwitchGeneration : ConversationItem → Option Nat
  | .user item =>
      if item.syntheticReason = some .workingDirectorySwitch then item.cwdGeneration else none
  | _ => none

def isContinueReminder : ConversationItem → Bool
  | .user item => item.syntheticReason = some .lengthContinue
  | _ => false

end ConversationItem

section Repair

inductive DanglingToolCallReason where
  | userCancelled
  | harnessHalted (class' : Text)
  deriving DecidableEq

def syntheticDanglingResultText (name : Text) : DanglingToolCallReason → Text
  | .userCancelled =>
      "Tool execution was cancelled by the user (tool `".toList ++ name ++
        "` was not executed).".toList
  | .harnessHalted class' =>
      "Tool execution was halted by the harness (".toList ++ class' ++ "); the tool `".toList ++
        name ++ "` was not executed.".toList

def runIds (items : List ConversationItem) : List Text :=
  (items.map ConversationItem.toolResultId).takeWhile Option.isSome |>.filterMap id

def dedupFrom : Bool → List ConversationItem → List ConversationItem × Nat
  | _, [] => ([], 0)
  | inRun, item :: rest =>
      match item with
      | .toolResult result =>
          let (kept, removed) := dedupFrom inRun rest
          if inRun && (runIds rest).contains result.toolCallId then (kept, removed + 1)
          else (item :: kept, removed)
      | _ =>
          -- A run starts behind an assistant that called tools, and at no other item.
          let (kept, removed) := dedupFrom (!item.toolCalls.isEmpty) rest
          (item :: kept, removed)

def dedupDuplicateToolResults (items : List ConversationItem) : List ConversationItem × Nat :=
  dedupFrom false items

def syntheticResults (reason : DanglingToolCallReason) (calls : List ToolCall)
    (answered : List Text) : List ConversationItem :=
  (calls.filter fun call => !answered.contains call.id).map fun call =>
    .toolResult
      { toolCallId := call.id
        content := syntheticDanglingResultText call.name reason
        images := [] }

def danglingRepairs (reason : DanglingToolCallReason) :
    Nat → List ConversationItem → List (Nat × List ConversationItem)
  | _, [] => []
  | position, item :: rest =>
      let later := danglingRepairs reason (position + 1) rest
      let answered := runIds rest
      let synthetic := syntheticResults reason item.toolCalls answered
      if synthetic.isEmpty then later else (position + 1 + answered.length, synthetic) :: later

def spliceAt (position : Nat) (inserted items : List ConversationItem) : List ConversationItem :=
  items.take position ++ inserted ++ items.drop position

def repairDanglingToolCalls (items : List ConversationItem) (reason : DanglingToolCallReason) :
    List ConversationItem × Nat :=
  let repairs := danglingRepairs reason 0 items
  (repairs.foldr (fun repair result => spliceAt repair.1 repair.2 result) items,
    (repairs.map fun repair => repair.2.length).sum)

def stripDisplacedFrom : List Text → List ConversationItem → List ConversationItem × List Text
  | _, [] => ([], [])
  | runIds, item :: rest =>
      match item with
      | .assistant assistant =>
          let (kept, stripped) := stripDisplacedFrom (assistant.toolCalls.map ToolCall.id) rest
          (item :: kept, stripped)
      | .toolResult result =>
          let (kept, stripped) := stripDisplacedFrom runIds rest
          if runIds.contains result.toolCallId then (item :: kept, stripped)
          else (kept, result.toolCallId :: stripped)
      | _ =>
          let (kept, stripped) := stripDisplacedFrom [] rest
          (item :: kept, stripped)

def stripDisplacedToolResults (items : List ConversationItem) : List ConversationItem × List Text :=
  stripDisplacedFrom [] items

structure HistoryRepairReport where
  duplicatesRemoved : Nat
  strippedToolResultIds : List Text
  syntheticResultsInserted : Nat
  deriving DecidableEq

def HistoryRepairReport.changed (report : HistoryRepairReport) : Bool :=
  report.duplicatesRemoved > 0 || !report.strippedToolResultIds.isEmpty ||
    report.syntheticResultsInserted > 0

def repairHistory (items : List ConversationItem) : List ConversationItem × HistoryRepairReport :=
  let (deduped, duplicates) := dedupDuplicateToolResults items
  let (adjacent, stripped) := stripDisplacedToolResults deduped
  let (repaired, inserted) := repairDanglingToolCalls adjacent (.harnessHalted "history_repair".toList)
  (repaired,
    { duplicatesRemoved := duplicates
      strippedToolResultIds := stripped
      syntheticResultsInserted := inserted })

@[simp] theorem repairHistory_nil : (repairHistory []).2.changed = false := rfl

theorem dedupFrom_same (inRun : Bool) (items : List ConversationItem)
    (none' : (dedupFrom inRun items).2 = 0) : (dedupFrom inRun items).1 = items := by
  induction items generalizing inRun with
  | nil => rfl
  | cons item rest ih =>
      cases item with
      | toolResult result =>
          simp only [dedupFrom] at none' ⊢
          split at none'
          · simp at none'
          · rename_i kept
            rw [if_neg kept, ih inRun none']
      | _ => simpa [dedupFrom] using ih _ none'

theorem stripDisplacedFrom_same (runIds : List Text) (items : List ConversationItem)
    (none' : (stripDisplacedFrom runIds items).2 = []) :
    (stripDisplacedFrom runIds items).1 = items := by
  induction items generalizing runIds with
  | nil => rfl
  | cons item rest ih =>
      cases item with
      | toolResult result =>
          simp only [stripDisplacedFrom] at none' ⊢
          split at none'
          · rename_i kept
            rw [if_pos kept, ih runIds none']
          · simp at none'
      | _ => simpa [stripDisplacedFrom] using ih _ none'

theorem danglingRepairs_nonempty (reason : DanglingToolCallReason) (items : List ConversationItem)
    (position : Nat) : ∀ repair ∈ danglingRepairs reason position items, repair.2 ≠ [] := by
  induction items generalizing position with
  | nil => simp [danglingRepairs]
  | cons item rest ih =>
      simp only [danglingRepairs]
      split
      · exact ih _
      next some' =>
        intro repair member
        rcases List.mem_cons.mp member with rfl | later
        · simpa using some'
        · exact ih _ repair later

theorem repairDanglingToolCalls_same (reason : DanglingToolCallReason)
    (items : List ConversationItem) (none' : (repairDanglingToolCalls items reason).2 = 0) :
    (repairDanglingToolCalls items reason).1 = items := by
  simp only [repairDanglingToolCalls] at none' ⊢
  cases repairs : danglingRepairs reason 0 items with
  | nil => rfl
  | cons repair rest =>
      have inserted := danglingRepairs_nonempty reason items 0 repair (by simp [repairs])
      simp [repairs, inserted] at none'

theorem repairHistory_same {items : List ConversationItem}
    (unchanged : (repairHistory items).2.changed = false) : (repairHistory items).1 = items := by
  simp only [repairHistory, HistoryRepairReport.changed, Bool.or_eq_false_iff, Bool.not_eq_false',
    List.isEmpty_iff, stripDisplacedToolResults, dedupDuplicateToolResults] at unchanged ⊢
  obtain ⟨⟨duplicates, displaced⟩, dangling⟩ := unchanged
  rw [repairDanglingToolCalls_same _ _ (by simpa using dangling),
    stripDisplacedFrom_same _ _ displaced, dedupFrom_same _ _ (by simpa using duplicates)]

end Repair

section Images

def imageStripPlaceholder : Text :=
  ("[image removed — the server could not process it; its contents are unavailable. " ++
    "Ask the user to re-attach the image if it is still needed.]").toList

def ContentPart.strippedUrl (urls : List Text) : ContentPart → Bool
  | .image url => urls.contains url
  | .text _ => false

def ConversationItem.stripImages (urls : List Text) : ConversationItem → ConversationItem
  | .user item =>
      .user
        { item with
          content := item.content.map fun part =>
            if part.strippedUrl urls then .text imageStripPlaceholder else part }
  | .toolResult item =>
      .toolResult { item with images := item.images.filter fun part => !part.strippedUrl urls }
  | item => item

def ConversationItem.strippedImages (urls : List Text) : ConversationItem → Nat
  | .user item => item.content.countP (·.strippedUrl urls)
  | .toolResult item => item.images.countP (·.strippedUrl urls)
  | _ => 0

def stripImagesByUrl (items : List ConversationItem) (urls : List Text) : List ConversationItem × Nat :=
  (items.map (·.stripImages urls), (items.map (·.strippedImages urls)).sum)

end Images

end GrokPi.Chat
