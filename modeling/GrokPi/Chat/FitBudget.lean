import Mathlib
import GrokPi.Chat.Pairing
import GrokPi.Compaction.Truncation

set_option autoImplicit false

namespace GrokPi.Chat

open Compaction Text

section Estimates

structure WireTexts where
  textSummary : Text → Text
  reasoningText : Text → Text
  encryptedContent : Text → Option Text

def bytesPerToken : Nat := 4

def imageTokenEstimate : Nat := 765

def estimateTokens (text : Text) : Nat := text.byteLen / bytesPerToken

def partTexts (content : List ContentPart) : List Text :=
  content.filterMap fun
    | .text words => some words
    | .image _ => none

def imageParts (content : List ContentPart) : Nat := content.length - (partTexts content).length

variable (wire : WireTexts)

def estimateItemTokens : ConversationItem → Nat
  | .system content => estimateTokens content
  | .user item =>
      ((partTexts item.content).map byteLen).sum / bytesPerToken +
        imageParts item.content * imageTokenEstimate
  | .assistant item =>
      (item.content.byteLen + (item.toolCalls.map fun call => call.arguments.byteLen).sum) / bytesPerToken
  | .toolResult item => estimateTokens item.content
  | .backendToolCall item => estimateTokens (wire.textSummary item)
  | .reasoning item =>
      -- Text and ciphertext are the same reasoning twice, so the larger one counts.
      max (wire.reasoningText item).byteLen (((wire.encryptedContent item).map byteLen).getD 0 * 3 / 4) /
        bytesPerToken

def estimateConversationTokens (items : List ConversationItem) : Nat :=
  (items.map (estimateItemTokens wire)).sum

end Estimates

section Fitting

def isToolResult (item : ConversationItem) : Bool := item.toolResultId.isSome

def cutText (text : Text) (maxBytes : Nat) : Text := (truncateTextToBytes text maxBytes).getD text

def truncateItemToTokens (item : ConversationItem) (maxTokens : Nat) : ConversationItem :=
  let maxBytes := maxTokens * 4
  match item with
  | .toolResult result => .toolResult { result with content := cutText result.content maxBytes }
  | .assistant answer => .assistant { answer with content := cutText answer.content maxBytes }
  | .user prompt =>
      .user
        { prompt with
          content := prompt.content.map fun
            | .text words => .text (cutText words maxBytes)
            | .image url => .image url }
  | other => other

variable (wire : WireTexts)

def recoverTruncatedTailUnit (body : List ConversationItem) (budget : Nat) : List ConversationItem :=
  let results := body.rtakeWhile isToolResult
  let front := body.rdropWhile isToolResult
  if results.isEmpty then
    match front.getLast? with
    | some item => [truncateItemToTokens item budget]
    | none => []
  else
    let owner := front.getLast?.filter fun item => !item.toolCalls.isEmpty
    let ownerCost := (owner.map (estimateItemTokens wire)).getD 0
    let resultBudget := budget - ownerCost
    let per := max (resultBudget / results.length) 1
    owner.toList ++ results.map fun result => truncateItemToTokens result per

def fitStart (costs : List Nat) : Nat → Nat → Nat
  | 0, _ => 0
  | index + 1, remaining =>
      let cost := costs.getD index 0
      if remaining < cost then index + 1 else fitStart costs index (remaining - cost)

def systemHead : List ConversationItem → List ConversationItem × List ConversationItem
  | .system content :: rest => ([.system content], rest)
  | items => ([], items)

def fitConversationToBudget (conversation : List ConversationItem) (maxTokens : Nat) :
    List ConversationItem :=
  if estimateConversationTokens wire conversation ≤ maxTokens then conversation
  else
    let head := (systemHead conversation).1
    let body := (systemHead conversation).2
    let budget := maxTokens - estimateConversationTokens wire head
    let fitting := fitStart (body.map (estimateItemTokens wire)) body.length budget
    -- No result may lead what is kept.
    let start := fitting + ((body.drop fitting).takeWhile isToolResult).length
    if start < body.length then head ++ body.drop start
    else head ++ recoverTruncatedTailUnit wire body budget

end Fitting

section Pairs

/-- Every result answers a call of the item in front of its run, and every call is answered. -/
structure Segment.Paired (segment : Segment) : Prop where
  declared : ∀ result ∈ segment.run, ∃ call ∈ segment.calls, call.id = result.toolCallId
  answered : ∀ call ∈ segment.calls, ∃ result ∈ segment.run, result.toolCallId = call.id

def ValidPairing (items : List ConversationItem) : Prop :=
  ∃ segments, items = render segments ∧ ∀ segment ∈ segments, segment.Paired

def cutLimit : Nat := 100000000000

def cuttable : ConversationItem → Bool
  | .assistant answer => answer.content.byteLen < cutLimit
  | .user prompt =>
      imageParts prompt.content = 0 &&
        ((partTexts prompt.content).filter fun words => !words.isEmpty).length ≤ 1 &&
        (partTexts prompt.content).all fun words => words.byteLen < cutLimit
  | _ => false

def Segment.share (wire : WireTexts) (segment : Segment) (budget : Nat) : Nat :=
  (budget - estimateItemTokens wire segment.head) / segment.run.length

/-- A unit that the cut makes fit: the owner leaves a token for each result, and a result that
is longer than its share has room for the marker. -/
def Segment.Cuttable (wire : WireTexts) (segment : Segment) (budget : Nat) : Prop :=
  if segment.run = [] then cuttable segment.head = true
  else
    estimateItemTokens wire segment.head + segment.run.length ≤ budget ∧
      ∀ result ∈ segment.run, result.content.byteLen ≤ 4 * segment.share wire budget ∨
        16 ≤ segment.share wire budget ∧ result.content.byteLen < cutLimit

end Pairs

section Cutting

theorem startWithin_bytes (limit : Nat) (text : Text) : (startWithin limit text).byteLen ≤ limit := by
  induction text generalizing limit with
  | nil => exact Nat.zero_le _
  | cons c rest ih =>
      rw [startWithin]
      split
      next fits =>
        have later := ih (limit - c.utf8Size)
        rw [byteLen_cons]
        omega
      next => exact Nat.zero_le _

theorem ascii_bytes {text : Text} (ascii : ∀ c ∈ text, c.utf8Size = 1) : text.byteLen = text.length := by
  induction text with
  | nil => rfl
  | cons c rest ih =>
      rw [byteLen_cons, List.length_cons, ascii c List.mem_cons_self,
        ih fun d member => ascii d (List.mem_cons_of_mem _ member), Nat.add_comm]

theorem digit_bytes {c : Char} (digit : c.isDigit = true) : c.utf8Size = 1 := by
  rw [Char.isDigit, Bool.and_eq_true, decide_eq_true_eq, decide_eq_true_eq] at digit
  have top : c.val ≤ 0x7f := UInt32.le_trans digit.2 (by decide : (57 : UInt32) ≤ 0x7f)
  exact if_pos top

theorem marker_bytes {dropped : Nat} (small : dropped < cutLimit) :
    (truncationMarker dropped).byteLen ≤ markerReserve + 3 := by
  have digits : (Nat.toDigits 10 dropped).length ≤ 11 := by
    rw [Nat.length_toDigits_le_iff (by decide) (by decide)]
    rw [cutLimit] at small
    omega
  have bytes : byteLen (Nat.toDigits 10 dropped) = (Nat.toDigits 10 dropped).length :=
    ascii_bytes fun c member =>
      digit_bytes (@Nat.isDigit_of_mem_toDigits 10 dropped c (by decide) (by decide) member)
  have front : byteLen "\n[... truncated ".toList = 16 := by decide
  have back : byteLen " bytes to fit the compaction window ...]".toList = 40 := by decide
  have start := (byteLen_append "\n[... truncated ".toList _).trans (congrArg₂ (· + ·) front bytes)
  have total : byteLen (truncationMarker dropped) = 16 + (Nat.toDigits 10 dropped).length + 40 :=
    (byteLen_append _ _).trans (congrArg₂ (· + ·) start back)
  rw [total, markerReserve]
  omega

theorem cutText_short {text : Text} {maxBytes : Nat} (fits : text.byteLen ≤ maxBytes) :
    cutText text maxBytes = text := by
  rw [cutText, truncateTextToBytes, if_pos fits, Option.getD_none]

theorem cutText_bytes {text : Text} {maxBytes : Nat} (room : markerReserve ≤ maxBytes)
    (small : text.byteLen < cutLimit) : (cutText text maxBytes).byteLen ≤ maxBytes + 3 := by
  -- The marker may reach three bytes over the limit, which is less than a token.
  by_cases fits : text.byteLen ≤ maxBytes
  · rw [cutText_short fits]
    omega
  · have kept := startWithin_bytes (maxBytes - markerReserve) text
    have marker := @marker_bytes
      (text.byteLen - (startWithin (maxBytes - markerReserve) text).byteLen) (by omega)
    rw [cutText, truncateTextToBytes, if_neg fits]
    simp only [Option.getD_some, byteLen_append]
    omega

theorem cutText_nil (maxBytes : Nat) : cutText [] maxBytes = [] := cutText_short (Nat.zero_le _)

theorem cutTexts_bytes {texts : List Text} {maxBytes : Nat} (room : markerReserve ≤ maxBytes)
    (single : (texts.filter fun words => !words.isEmpty).length ≤ 1)
    (small : ∀ words ∈ texts, words.byteLen < cutLimit) :
    (texts.map fun words => (cutText words maxBytes).byteLen).sum ≤ maxBytes + 3 := by
  -- Of several texts only one is cut, and the others are empty.
  induction texts with
  | nil => exact Nat.zero_le _
  | cons words rest ih =>
      have here := cutText_bytes room (small words List.mem_cons_self)
      have later : ∀ other ∈ rest, other.byteLen < cutLimit := fun other member =>
        small other (List.mem_cons_of_mem _ member)
      rw [List.map_cons, List.sum_cons]
      cases words with
      | nil =>
          rw [cutText_nil, byteLen_nil, Nat.zero_add]
          exact ih single later
      | cons c words =>
          have alone : rest.filter (fun words => !words.isEmpty) = [] := by
            rw [List.filter_cons_of_pos (by rfl), List.length_cons] at single
            exact List.length_eq_zero_iff.mp (by omega)
          have zeros : (rest.map fun words => (cutText words maxBytes).byteLen).sum = 0 := by
            apply List.sum_eq_zero
            intro bytes member
            obtain ⟨other, within, rfl⟩ := List.mem_map.mp member
            have empty : other = [] := by simpa using List.filter_eq_nil_iff.mp alone other within
            rw [empty, cutText_nil, byteLen_nil]
          omega

variable (wire : WireTexts)

theorem cut_partTexts (content : List ContentPart) (maxBytes : Nat) :
    partTexts (content.map fun
      | .text words => .text (cutText words maxBytes)
      | .image url => .image url) = (partTexts content).map fun words => cutText words maxBytes := by
  induction content with
  | nil => rfl
  | cons part rest ih =>
      cases part with
      | text words => exact congrArg (cutText words maxBytes :: ·) ih
      | image url => exact ih

theorem cut_result {result : ToolResultItem} {share : Nat}
    (room : result.content.byteLen ≤ 4 * share ∨ 16 ≤ share ∧ result.content.byteLen < cutLimit) :
    estimateItemTokens wire (truncateItemToTokens (.toolResult result) share) ≤ share := by
  simp only [truncateItemToTokens, estimateItemTokens, estimateTokens, bytesPerToken]
  rcases room with short | ⟨wide, small⟩
  · rw [cutText_short (by omega)]
    omega
  · have bytes := @cutText_bytes result.content (share * 4) (by rw [markerReserve]; omega) small
    omega

theorem cut_alone {item : ConversationItem} (cuttable' : cuttable item = true)
    (noCalls : item.toolCalls = []) {budget : Nat} (room : 16 ≤ budget) :
    estimateItemTokens wire (truncateItemToTokens item budget) ≤ budget := by
  have reserve : markerReserve ≤ budget * 4 := by
    rw [markerReserve]
    omega
  cases item with
  | assistant answer =>
      have small : answer.content.byteLen < cutLimit := by simpa [cuttable] using cuttable'
      have calls : answer.toolCalls = [] := noCalls
      have bytes := cutText_bytes reserve small
      simp only [truncateItemToTokens, estimateItemTokens, calls, List.map_nil, List.sum_nil,
        Nat.add_zero, bytesPerToken]
      omega
  | user prompt =>
      simp only [cuttable, Bool.and_eq_true, decide_eq_true_eq, List.all_eq_true] at cuttable'
      obtain ⟨⟨imageless, single⟩, small⟩ := cuttable'
      have bytes := cutTexts_bytes reserve single small
      have images : imageParts (prompt.content.map fun
          | .text words => .text (cutText words (budget * 4))
          | .image url => .image url) = 0 := by
        rw [imageParts, cut_partTexts, List.length_map, List.length_map]
        exact imageless
      simp only [truncateItemToTokens, estimateItemTokens, images, cut_partTexts, List.map_map,
        Nat.zero_mul, Nat.add_zero, bytesPerToken]
      simp only [Function.comp_def]
      omega
  | _ => cases cuttable'

end Cutting

section Loop

theorem fitStart_spec (costs : List Nat) {index : Nat} (within : index ≤ costs.length) (remaining : Nat) :
    fitStart costs index remaining ≤ index ∧
      ((costs.take index).drop (fitStart costs index remaining)).sum ≤ remaining ∧
      ∀ earlier < fitStart costs index remaining,
        remaining < ((costs.take index).drop earlier).sum := by
  induction index generalizing remaining with
  | zero => exact ⟨Nat.le_refl 0, by simp [fitStart], by simp [fitStart]⟩
  | succ index ih =>
      have last : costs.take (index + 1) = costs.take index ++ [costs.getD index 0] := by
        rw [List.take_add_one, List.getElem?_eq_getElem (by omega), List.getD_eq_getElem _ _ (by omega)]
        rfl
      have length : (costs.take index).length = index := List.length_take_of_le (by omega)
      have cut : ∀ start ≤ index, ((costs.take (index + 1)).drop start).sum =
          ((costs.take index).drop start).sum + costs.getD index 0 := by
        intro start before
        rw [last, List.drop_append_of_le_length (by omega), List.sum_append, List.sum_singleton]
      rw [fitStart]
      split
      next over' =>
        refine ⟨Nat.le_refl _, ?_, ?_⟩
        · rw [List.drop_eq_nil_of_le (by rw [List.length_take]; omega)]
          exact Nat.zero_le _
        · intro earlier before
          rw [cut earlier (by omega)]
          omega
      next fits =>
        obtain ⟨inside, room, longest⟩ := ih (by omega) (remaining - costs.getD index 0)
        refine ⟨by omega, ?_, ?_⟩
        · rw [cut _ inside]
          omega
        · intro earlier before
          have more := longest earlier before
          rw [cut earlier (by omega)]
          omega

variable (wire : WireTexts)

theorem estimate_append (first second : List ConversationItem) :
    estimateConversationTokens wire (first ++ second) =
      estimateConversationTokens wire first + estimateConversationTokens wire second := by
  rw [estimateConversationTokens, List.map_append, List.sum_append]
  rfl

theorem estimate_suffix {part whole : List ConversationItem} (suffix : part <:+ whole) :
    estimateConversationTokens wire part ≤ estimateConversationTokens wire whole := by
  obtain ⟨front, rfl⟩ := suffix
  rw [estimate_append]
  omega

end Loop

section Keeping

theorem systemHead_append (conversation : List ConversationItem) :
    (systemHead conversation).1 ++ (systemHead conversation).2 = conversation := by
  unfold systemHead
  split <;> rfl

theorem results_run_nil {segment : Segment} (paired : segment.Paired) (noCalls : segment.calls = []) :
    segment.run = [] := by
  apply List.eq_nil_iff_forall_not_mem.mpr
  intro result member
  obtain ⟨call, declared, -⟩ := paired.declared result member
  rw [noCalls] at declared
  exact List.not_mem_nil declared

theorem systemHead_paired {conversation : List ConversationItem} (paired : ValidPairing conversation) :
    ValidPairing (systemHead conversation).2 := by
  unfold systemHead
  split
  next content rest =>
    obtain ⟨segments, shape, all⟩ := paired
    cases segments with
    | nil => cases shape
    | cons segment segments =>
        rw [render_cons] at shape
        obtain ⟨head, later⟩ := List.cons.inj shape
        have noCalls : segment.calls = [] := by rw [Segment.calls, ← head]; rfl
        rw [results_run_nil (all segment List.mem_cons_self) noCalls] at later
        exact ⟨segments, later, fun other member => all other (List.mem_cons_of_mem _ member)⟩
  next => exact paired

theorem paired_under_head {conversation kept : List ConversationItem} (paired : ValidPairing kept) :
    ValidPairing ((systemHead conversation).1 ++ kept) := by
  unfold systemHead
  split
  next content rest =>
    obtain ⟨segments, rfl, all⟩ := paired
    refine ⟨⟨.system content, rfl, []⟩ :: segments, rfl, ?_⟩
    intro segment member
    rcases List.mem_cons.mp member with rfl | within
    · exact ⟨by simp, by simp [Segment.calls, ConversationItem.toolCalls]⟩
    · exact all segment within
  next => exact paired

theorem paired_suffix {items front kept : List ConversationItem} (paired : ValidPairing items)
    (split : items = front ++ kept) (led : ∀ item ∈ kept.head?, isToolResult item = false) :
    ValidPairing kept := by
  cases kept with
  | nil => exact ⟨[], rfl, by simp⟩
  | cons head rest =>
      obtain ⟨segments, shape, all⟩ := paired
      have notResult : head.toolResultId = none := by
        simpa [isToolResult, Option.isSome_eq_false_iff] using led head rfl
      obtain ⟨earlier, run, later, whole, -, tail⟩ :=
        @render_split [] segments front rest head (shape.symm.trans split) notResult
      subst whole
      refine ⟨⟨head, notResult, run⟩ :: later, by rw [tail]; rfl, ?_⟩
      intro segment member
      exact all segment (List.mem_append_right _ member)

theorem drop_results (items : List ConversationItem) (fitting : Nat) :
    items.drop (fitting + ((items.drop fitting).takeWhile isToolResult).length) =
      (items.drop fitting).dropWhile isToolResult := by
  have cut := @List.drop_left _ ((items.drop fitting).takeWhile isToolResult)
    ((items.drop fitting).dropWhile isToolResult)
  rw [List.takeWhile_append_dropWhile] at cut
  rw [← List.drop_drop]
  exact cut

end Keeping

section Newest

variable (wire : WireTexts)

def cutResult (share : Nat) (result : ToolResultItem) : ToolResultItem :=
  { result with content := cutText result.content (share * 4) }

def Segment.cut (segment : Segment) (budget : Nat) : List ConversationItem :=
  if segment.run = [] then [truncateItemToTokens segment.head budget]
  else segment.head :: results (segment.run.map (cutResult (max (segment.share wire budget) 1)))

theorem results_are {run : List ToolResultItem} {item : ConversationItem} (member : item ∈ results run) :
    isToolResult item = true := by
  obtain ⟨result, -, rfl⟩ := List.mem_map.mp member
  rfl

theorem head_is_not (segment : Segment) : isToolResult segment.head = false := by
  rw [isToolResult, segment.notResult]
  rfl

theorem recover_eq (front : List ConversationItem) {newest : Segment} (paired : newest.Paired)
    (budget : Nat) :
    recoverTruncatedTailUnit wire (front ++ newest.items) budget = newest.cut wire budget := by
  have reversed : (front ++ newest.items).reverse =
      (results newest.run).reverse ++ newest.head :: front.reverse := by
    simp [Segment.items]
  have all : ∀ item ∈ (results newest.run).reverse, isToolResult item = true :=
    fun item member => results_are (List.mem_reverse.mp member)
  have run : (front ++ newest.items).rtakeWhile isToolResult = results newest.run := by
    rw [List.rtakeWhile, reversed, List.takeWhile_append_of_pos all,
      List.takeWhile_cons_of_neg (by simp [head_is_not]), List.append_nil, List.reverse_reverse]
  have rest : (front ++ newest.items).rdropWhile isToolResult = front ++ [newest.head] := by
    rw [List.rdropWhile, reversed, List.dropWhile_append_of_pos all,
      List.dropWhile_cons_of_neg (by simp [head_is_not]), List.reverse_cons, List.reverse_reverse]
  rw [recoverTruncatedTailUnit, run, rest, Segment.cut]
  by_cases empty : newest.run = []
  · simp [empty, results]
  · -- a run of results has an owner that called tools
    have calls : newest.head.toolCalls ≠ [] := by
      intro noCalls
      exact empty (results_run_nil paired noCalls)
    have owner : (some newest.head).filter (fun item => !item.toolCalls.isEmpty) = some newest.head := by
      rw [Option.filter_some, if_pos]
      simpa using calls
    have shown : (results newest.run).isEmpty = false := by simpa [results] using empty
    rw [if_neg empty]
    simp only [List.getLast?_append, List.getLast?_singleton, Option.some_or, owner, shown,
      Bool.false_eq_true, if_false, Option.map_some, Option.getD_some, Option.toList_some,
      List.singleton_append, List.cons.injEq, true_and]
    rw [results, results, List.map_map, List.map_map, List.length_map]
    rfl

theorem truncate_toolCalls (item : ConversationItem) (budget : Nat) :
    (truncateItemToTokens item budget).toolCalls = item.toolCalls := by
  cases item <;> rfl

theorem truncate_notResult {item : ConversationItem} (notResult : item.toolResultId = none) (budget : Nat) :
    (truncateItemToTokens item budget).toolResultId = none := by
  cases item with
  | toolResult result => cases notResult
  | _ => rfl

theorem cut_paired {newest : Segment} (paired : newest.Paired) (budget : Nat) :
    ValidPairing (newest.cut wire budget) := by
  rw [Segment.cut]
  split
  next empty =>
    refine ⟨[⟨truncateItemToTokens newest.head budget, truncate_notResult newest.notResult budget, []⟩],
      rfl, ?_⟩
    rintro segment member
    rw [List.mem_singleton.mp member]
    refine ⟨by simp, ?_⟩
    intro call declared
    rw [Segment.calls, truncate_toolCalls] at declared
    obtain ⟨result, answered, -⟩ := paired.answered call declared
    rw [empty] at answered
    exact absurd answered List.not_mem_nil
  next =>
    let share := max (newest.share wire budget) 1
    refine ⟨[⟨newest.head, newest.notResult, newest.run.map (cutResult share)⟩], ?_, ?_⟩
    · simp [share]
    · rintro segment member
      rw [List.mem_singleton.mp member]
      constructor
      · intro result within
        obtain ⟨original, there, rfl⟩ := List.mem_map.mp within
        exact paired.declared original there
      · intro call declared
        obtain ⟨result, there, same⟩ := paired.answered call declared
        exact ⟨cutResult share result, List.mem_map.mpr ⟨result, there, rfl⟩, same⟩

theorem cut_fits {newest : Segment} (paired : newest.Paired) {budget : Nat} (room : 32 ≤ budget)
    (cuttable' : newest.Cuttable wire budget) :
    estimateConversationTokens wire (newest.cut wire budget) ≤ budget := by
  rw [Segment.Cuttable] at cuttable'
  rw [Segment.cut]
  split
  next empty =>
    rw [if_pos empty] at cuttable'
    have noCalls : newest.head.toolCalls = [] := by
      apply List.eq_nil_iff_forall_not_mem.mpr
      intro call declared
      obtain ⟨result, answered, -⟩ := paired.answered call declared
      rw [empty] at answered
      exact List.not_mem_nil answered
    rw [estimateConversationTokens, List.map_singleton, List.sum_singleton]
    exact cut_alone wire cuttable' noCalls (by omega)
  next nonempty =>
    rw [if_neg nonempty] at cuttable'
    obtain ⟨tokens, each⟩ := cuttable'
    have positive : 0 < newest.run.length := List.length_pos_iff.mpr nonempty
    have one : 1 ≤ newest.share wire budget := by
      rw [Segment.share, Nat.one_le_div_iff positive]
      omega
    have shares : newest.share wire budget * newest.run.length ≤
        budget - estimateItemTokens wire newest.head := Nat.div_mul_le_self _ _
    have cut : estimateConversationTokens wire
        (results (newest.run.map (cutResult (max (newest.share wire budget) 1)))) ≤
        newest.run.length * newest.share wire budget := by
      rw [Nat.max_eq_left one, estimateConversationTokens, results, List.map_map, List.map_map]
      apply le_trans (List.sum_le_card_nsmul _ (newest.share wire budget) _)
      · simp
      · intro cost member
        obtain ⟨result, there, rfl⟩ := List.mem_map.mp member
        exact cut_result wire (each result there)
    rw [estimateConversationTokens, List.map_cons, List.sum_cons]
    rw [estimateConversationTokens] at cut
    rw [Nat.mul_comm] at shares
    omega

end Newest

section Contract

variable (wire : WireTexts)

def NewestFits (body : List ConversationItem) (budget : Nat) : Prop :=
  ∀ (front : List ConversationItem) (newest : Segment), body = front ++ newest.items →
    estimateConversationTokens wire newest.items ≤ budget ∨ newest.Cuttable wire budget

theorem items_right_inj {front front' : List ConversationItem} {first second : Segment}
    (same : front ++ first.items = front' ++ second.items) : first = second := by
  have apart : ∀ {one other : Segment} {rest : List ConversationItem}, results one.run ≠ rest ++ other.items := by
    intro one other rest same
    have inside : other.head ∈ results one.run := by simp [same, Segment.items]
    obtain ⟨result, -, answer⟩ := List.mem_map.mp inside
    have none' := other.notResult
    rw [← answer] at none'
    cases none'
  induction front generalizing front' with
  | nil =>
      cases front' with
      | nil =>
          obtain ⟨head, run⟩ := List.cons.inj same
          obtain ⟨head', notResult, run'⟩ := first
          cases head
          have inj : Function.Injective ConversationItem.toolResult := fun _ _ => ConversationItem.toolResult.inj
          cases inj.list_map run
          rfl
      | cons item rest => exact absurd (List.cons.inj same).2 apart
  | cons item front ih =>
      cases front' with
      | nil => exact absurd (List.cons.inj same).2.symm apart
      | cons item' rest => exact ih (List.cons.inj same).2

theorem exists_newest {body : List ConversationItem} (paired : ValidPairing body) (nonempty : body ≠ []) :
    ∃ (front : List ConversationItem) (newest : Segment), body = front ++ newest.items ∧ newest.Paired := by
  obtain ⟨segments, rfl, all⟩ := paired
  rcases List.eq_nil_or_concat segments with rfl | ⟨earlier, newest, rfl⟩
  · exact absurd rfl nonempty
  · refine ⟨render earlier, newest, ?_, all newest (by simp)⟩
    rw [List.concat_eq_append, render_append, render_cons, render_nil, List.append_nil]
    rfl

theorem fitStart_body (body : List ConversationItem) (budget : Nat) :
    let fitting := fitStart (body.map (estimateItemTokens wire)) body.length budget
    estimateConversationTokens wire (body.drop fitting) ≤ budget ∧
      ∀ earlier < fitting, budget < estimateConversationTokens wire (body.drop earlier) := by
  intro fitting
  obtain ⟨-, room, longest⟩ := @fitStart_spec (body.map (estimateItemTokens wire)) body.length
    (by rw [List.length_map]) budget
  have whole : (body.map (estimateItemTokens wire)).take body.length = body.map (estimateItemTokens wire) :=
    List.take_of_length_le (by rw [List.length_map])
  rw [whole] at room longest
  constructor
  · rw [estimateConversationTokens, List.map_drop]
    exact room
  · intro earlier before
    rw [estimateConversationTokens, List.map_drop]
    exact longest earlier before

theorem newest_exceeds {front : List ConversationItem} {newest : Segment} {budget fitting : Nat}
    (longest : ∀ earlier < fitting,
      budget < estimateConversationTokens wire ((front ++ newest.items).drop earlier))
    (none' : ((front ++ newest.items).drop fitting).dropWhile isToolResult = []) :
    budget < estimateConversationTokens wire newest.items := by
  -- Where no suffix is kept, the newest unit does not fit.
  have past : front.length < fitting := by
    by_contra before
    -- the head of the unit is in the rest, and it is no result
    have inside : newest.head ∈ (front ++ newest.items).drop fitting := by
      rw [List.drop_append_of_le_length (by omega)]
      exact List.mem_append_right _ List.mem_cons_self
    have result := List.dropWhile_eq_nil_iff.mp none' newest.head inside
    rw [head_is_not] at result
    cases result
  have exceeds := longest front.length past
  rwa [List.drop_left] at exceeds

def fitBody (body : List ConversationItem) (budget : Nat) : List ConversationItem :=
  let fitting := fitStart (body.map (estimateItemTokens wire)) body.length budget
  let start := fitting + ((body.drop fitting).takeWhile isToolResult).length
  if start < body.length then body.drop start else recoverTruncatedTailUnit wire body budget

theorem fit_eq (conversation : List ConversationItem) (maxTokens : Nat) :
    fitConversationToBudget wire conversation maxTokens =
      if estimateConversationTokens wire conversation ≤ maxTokens then conversation
      else
        (systemHead conversation).1 ++ fitBody wire (systemHead conversation).2
          (maxTokens - estimateConversationTokens wire (systemHead conversation).1) := by
  rw [fitConversationToBudget, fitBody]
  split
  · rfl
  · simp only
    split <;> rfl

theorem fitBody_cases {body : List ConversationItem} (paired : ValidPairing body) (nonempty : body ≠ [])
    (budget : Nat) :
    (ValidPairing (fitBody wire body budget) ∧ fitBody wire body budget <:+ body ∧
        estimateConversationTokens wire (fitBody wire body budget) ≤ budget) ∨
      ∃ (front : List ConversationItem) (newest : Segment), body = front ++ newest.items ∧ newest.Paired ∧
        fitBody wire body budget = newest.cut wire budget ∧
        budget < estimateConversationTokens wire newest.items := by
  obtain ⟨fits, longest⟩ := fitStart_body wire body budget
  have kept := drop_results body (fitStart (body.map (estimateItemTokens wire)) body.length budget)
  rw [fitBody]
  split
  next =>
    have part := @List.dropWhile_suffix _
      (body.drop (fitStart (body.map (estimateItemTokens wire)) body.length budget)) isToolResult
    refine .inl ⟨?_, List.drop_suffix _ _, ?_⟩
    · apply paired_suffix paired (List.take_append_drop _ body).symm
      intro item first
      rw [kept] at first
      have stops := List.head?_dropWhile_not isToolResult
        (body.drop (fitStart (body.map (estimateItemTokens wire)) body.length budget))
      rw [Option.mem_def.mp first] at stops
      exact stops
    · rw [kept]
      exact le_trans (estimate_suffix wire part) fits
  next past =>
    obtain ⟨front, newest, rfl, pairedNewest⟩ := exists_newest paired nonempty
    refine .inr ⟨front, newest, rfl, pairedNewest, recover_eq wire front pairedNewest budget, ?_⟩
    apply newest_exceeds wire longest
    rw [← kept]
    exact List.drop_eq_nil_of_le (by omega)

theorem fit_conversation_contract (conversation : List ConversationItem) (maxTokens : Nat)
    (paired : ValidPairing conversation)
    (room : estimateConversationTokens wire (systemHead conversation).1 + 32 ≤ maxTokens) :
    ValidPairing (fitConversationToBudget wire conversation maxTokens) ∧
      ((∃ kept, kept <:+ (systemHead conversation).2 ∧
          fitConversationToBudget wire conversation maxTokens = (systemHead conversation).1 ++ kept) ∨
        ∃ (front : List ConversationItem) (newest : Segment),
          (systemHead conversation).2 = front ++ newest.items ∧
          fitConversationToBudget wire conversation maxTokens =
            (systemHead conversation).1 ++ newest.cut wire
              (maxTokens - estimateConversationTokens wire (systemHead conversation).1)) ∧
      (NewestFits wire (systemHead conversation).2
          (maxTokens - estimateConversationTokens wire (systemHead conversation).1) →
        estimateConversationTokens wire (fitConversationToBudget wire conversation maxTokens) ≤ maxTokens) := by
  have whole := systemHead_append conversation
  rw [fit_eq]
  split
  next small => exact ⟨paired, .inl ⟨_, List.suffix_refl _, whole.symm⟩, fun _ => small⟩
  next large =>
    have total := estimate_append wire (systemHead conversation).1 (systemHead conversation).2
    rw [whole] at total
    have nonempty : (systemHead conversation).2 ≠ [] := by
      intro none'
      have zero : estimateConversationTokens wire [] = 0 := rfl
      rw [none', zero] at total
      omega
    rcases fitBody_cases wire (systemHead_paired paired) nonempty
        (maxTokens - estimateConversationTokens wire (systemHead conversation).1) with
      ⟨pairedKept, suffix, fits⟩ | ⟨front, newest, split, pairedNewest, cut, exceeds⟩
    · refine ⟨paired_under_head pairedKept, .inl ⟨_, suffix, rfl⟩, fun _ => ?_⟩
      rw [estimate_append]
      omega
    · rw [cut]
      refine ⟨paired_under_head (cut_paired wire pairedNewest _), .inr ⟨front, newest, split, rfl⟩,
        fun newestFits => ?_⟩
      rcases newestFits front newest split with unit | cuttable'
      · omega
      · have less := cut_fits wire pairedNewest (by omega) cuttable'
        rw [estimate_append]
        omega

def plainWire : WireTexts := ⟨id, id, fun _ => none⟩

def longRun : Segment :=
  { head := .assistant ⟨['t'], [⟨['c'], ['r'], []⟩, ⟨['d'], ['r'], []⟩]⟩
    notResult := rfl
    run := [⟨['c'], List.replicate 400 'q', []⟩, ⟨['d'], ['k'], []⟩] }

def longAnswer : List Segment :=
  [⟨.system ['s'], rfl, []⟩, ⟨.assistant ⟨List.replicate 100 'p', []⟩, rfl, []⟩, longRun]

theorem fit_long_answer :
    ValidPairing (fitConversationToBudget plainWire (render longAnswer) 64) ∧
      estimateConversationTokens plainWire (fitConversationToBudget plainWire (render longAnswer) 64) ≤ 64 := by
  have alone : ∀ head notResult, head.toolCalls = [] → Segment.Paired ⟨head, notResult, []⟩ := by
    intro head notResult none'
    exact ⟨by simp, by simp [Segment.calls, none']⟩
  have run : longRun.Paired := by
    constructor
    · intro result answered
      rcases List.mem_pair.mp answered with rfl | rfl
      · exact ⟨_, List.mem_cons_self, rfl⟩
      · exact ⟨_, List.mem_cons_of_mem _ List.mem_cons_self, rfl⟩
    · intro call declared
      rcases List.mem_pair.mp declared with rfl | rfl
      · exact ⟨_, List.mem_cons_self, rfl⟩
      · exact ⟨_, List.mem_cons_of_mem _ List.mem_cons_self, rfl⟩
  have paired : ValidPairing (render longAnswer) := by
    refine ⟨longAnswer, rfl, fun segment member => ?_⟩
    simp only [longAnswer, List.mem_cons, List.not_mem_nil, or_false] at member
    rcases member with rfl | rfl | rfl
    · exact alone _ _ rfl
    · exact alone _ _ rfl
    · exact run
  have fits : NewestFits plainWire (systemHead (render longAnswer)).2
      (64 - estimateConversationTokens plainWire (systemHead (render longAnswer)).1) := by
    intro front newest split
    have body : (systemHead (render longAnswer)).2 = [.assistant ⟨List.replicate 100 'p', []⟩] ++ longRun.items := rfl
    have same : longRun = newest := items_right_inj (body.symm.trans split)
    subst same
    have answered : longRun.run ≠ [] := List.cons_ne_nil _ _
    rw [Segment.Cuttable, if_neg answered]
    exact .inr ⟨by decide +kernel, by decide +kernel⟩
  obtain ⟨pairing, -, bound⟩ := fit_conversation_contract plainWire (render longAnswer) 64 paired (by decide +kernel)
  exact ⟨pairing, bound fits⟩

def largeCall : List ConversationItem :=
  [.assistant ⟨[], [⟨['a'], ['r'], List.replicate 400 'x'⟩]⟩, .toolResult ⟨['a'], [], []⟩]

theorem large_call_exceeds_budget :
    ¬ ∀ (wire : WireTexts) (conversation : List ConversationItem) (maxTokens : Nat),
      ValidPairing conversation →
      estimateConversationTokens wire (systemHead conversation).1 + 32 ≤ maxTokens →
      estimateConversationTokens wire (fitConversationToBudget wire conversation maxTokens) ≤ maxTokens ∧
        ValidPairing (fitConversationToBudget wire conversation maxTokens) := by
  intro claim
  have paired : ValidPairing largeCall := by
    refine ⟨[⟨.assistant ⟨[], [⟨['a'], ['r'], List.replicate 400 'x'⟩]⟩, rfl, [⟨['a'], [], []⟩]⟩], rfl, ?_⟩
    intro segment member
    rw [List.mem_singleton.mp member]
    constructor
    · intro result within
      rw [List.mem_singleton.mp within]
      exact ⟨_, List.mem_singleton_self _, rfl⟩
    · intro call within
      rw [List.mem_singleton.mp within]
      exact ⟨_, List.mem_singleton_self _, rfl⟩
  have bound := (claim plainWire largeCall 32 paired (by decide)).1
  exact absurd bound (by decide +kernel)

end Contract

end GrokPi.Chat
