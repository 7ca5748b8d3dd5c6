import GrokPi.Chat.Conversation

set_option autoImplicit false

namespace GrokPi.Chat

def resultRun : List ConversationItem → List ToolResultItem
  | .toolResult result :: rest => result :: resultRun rest
  | _ => []

structure Segment where
  head : ConversationItem
  notResult : head.toolResultId = none
  run : List ToolResultItem

def results (run : List ToolResultItem) : List ConversationItem := run.map .toolResult

def Segment.items (segment : Segment) : List ConversationItem := segment.head :: results segment.run

def render (segments : List Segment) : List ConversationItem := segments.flatMap Segment.items

section Segments

@[simp] theorem render_nil : render [] = [] := rfl

@[simp] theorem render_cons (segment : Segment) (segments : List Segment) :
    render (segment :: segments) = segment.head :: (results segment.run ++ render segments) := rfl

@[simp] theorem render_append (first second : List Segment) :
    render (first ++ second) = render first ++ render second := List.flatMap_append

theorem exists_render (items : List ConversationItem) :
    ∃ lead segments, items = results lead ++ render segments := by
  induction items with
  | nil => exact ⟨[], [], rfl⟩
  | cons item rest ih =>
      obtain ⟨lead, segments, rfl⟩ := ih
      cases item with
      | toolResult result => exact ⟨result :: lead, segments, rfl⟩
      | _ => exact ⟨[], ⟨_, rfl, lead⟩ :: segments, rfl⟩

theorem resultRun_render (run : List ToolResultItem) (segments : List Segment) :
    resultRun (results run ++ render segments) = run := by
  induction run with
  | nil =>
      cases segments with
      | nil => rfl
      | cons segment rest =>
          obtain ⟨head, notResult, run⟩ := segment
          cases head <;> first | rfl | cases notResult
  | cons result run ih => exact congrArg (result :: ·) ih

theorem render_split {lead : List ToolResultItem} {segments : List Segment}
    {before rest : List ConversationItem} {head : ConversationItem}
    (split : results lead ++ render segments = before ++ head :: rest)
    (notResult : head.toolResultId = none) :
    ∃ earlier run later, segments = earlier ++ ⟨head, notResult, run⟩ :: later ∧
      before = results lead ++ render earlier ∧ rest = results run ++ render later := by
  -- An item that is no result heads a segment.
  induction before generalizing lead segments with
  | nil =>
      cases lead with
      | cons result lead =>
          obtain ⟨rfl, _⟩ := List.cons.inj split
          cases notResult
      | nil =>
          cases segments with
          | nil => cases split
          | cons segment segments =>
              obtain ⟨rfl, rest_eq⟩ := List.cons.inj split
              exact ⟨[], segment.run, segments, rfl, rfl, rest_eq.symm⟩
  | cons item before ih =>
      cases lead with
      | cons result lead =>
          obtain ⟨rfl, later⟩ := List.cons.inj split
          obtain ⟨earlier, run, tail, rfl, rfl, rest_eq⟩ := ih later
          exact ⟨earlier, run, tail, rfl, rfl, rest_eq⟩
      | nil =>
          cases segments with
          | nil => cases split
          | cons segment segments =>
              obtain ⟨rfl, later⟩ := List.cons.inj split
              obtain ⟨earlier, run, tail, rfl, rfl, rest_eq⟩ := ih later
              exact ⟨segment :: earlier, run, tail, rfl, rfl, rest_eq⟩

end Segments

section Passes

def keepLast (run : List ToolResultItem) : List ToolResultItem :=
  run.pwFilter fun first second => first.toolCallId ≠ second.toolCallId

theorem keepLast_cons (result : ToolResultItem) (run : List ToolResultItem) :
    keepLast (result :: run) =
      if result.toolCallId ∈ run.map ToolResultItem.toolCallId then keepLast run
      else result :: keepLast run := by
  have later : (∀ other ∈ keepLast run, result.toolCallId ≠ other.toolCallId) ↔
      result.toolCallId ∉ run.map ToolResultItem.toolCallId := by
    unfold keepLast
    rw [List.forall_mem_pwFilter]
    · simp only [List.mem_map, not_exists, not_and]
      exact ⟨fun apart other member same => apart other member same.symm,
        fun apart other member same => apart other member same.symm⟩
    · intro first second third apart
      by_cases same : first.toolCallId = second.toolCallId
      · exact Or.inr (same ▸ apart)
      · exact Or.inl same
  by_cases again : result.toolCallId ∈ run.map ToolResultItem.toolCallId
  · rw [if_pos again]
    exact List.pwFilter_cons_of_neg fun apart => later.mp apart again
  · rw [if_neg again]
    exact List.pwFilter_cons_of_pos (later.mpr again)

theorem runIds_render (run : List ToolResultItem) (segments : List Segment) :
    runIds (results run ++ render segments) = run.map ToolResultItem.toolCallId := by
  induction run with
  | nil =>
      cases segments with
      | nil => rfl
      | cons segment rest => simp [results, runIds, segment.notResult]
  | cons result run ih =>
      simp only [runIds, results, List.map_cons, List.cons_append, ConversationItem.toolResultId] at ih ⊢
      simpa using ih

def Segment.calls (segment : Segment) : List ToolCall := segment.head.toolCalls

def Segment.dedup (segment : Segment) : Segment :=
  { segment with
    run := if segment.calls.isEmpty then segment.run else keepLast segment.run }

def Segment.strip (segment : Segment) : Segment :=
  { segment with
    run := segment.run.filter fun result => (segment.calls.map ToolCall.id).contains result.toolCallId }

def syntheticResult (reason : DanglingToolCallReason) (call : ToolCall) : ToolResultItem :=
  { toolCallId := call.id
    content := syntheticDanglingResultText call.name reason
    images := [] }

def missing (calls : List ToolCall) (run : List ToolResultItem) : List ToolCall :=
  calls.filter fun call => !(run.map ToolResultItem.toolCallId).contains call.id

def Segment.answer (reason : DanglingToolCallReason) (segment : Segment) : Segment :=
  { segment with
    run := segment.run ++ (missing segment.calls segment.run).map (syntheticResult reason) }

theorem dedupFrom_head (inRun : Bool) {head : ConversationItem} (notResult : head.toolResultId = none)
    (rest : List ConversationItem) :
    (dedupFrom inRun (head :: rest)).1 = head :: (dedupFrom (!head.toolCalls.isEmpty) rest).1 := by
  cases head <;> first | rfl | cases notResult

theorem dedupFrom_results (inRun : Bool) (run : List ToolResultItem) (segments : List Segment) :
    (dedupFrom inRun (results run ++ render segments)).1 =
      results (if inRun then keepLast run else run) ++ (dedupFrom inRun (render segments)).1 := by
  induction run with
  | nil => cases inRun <;> rfl
  | cons result run ih =>
      simp only [results, List.map_cons, List.cons_append, dedupFrom] at ih ⊢
      have ids := runIds_render run segments
      simp only [results] at ids
      rw [ids]
      cases inRun with
      | false => simp [ih]
      | true =>
          rw [if_pos rfl] at ih ⊢
          rw [keepLast_cons]
          by_cases again : result.toolCallId ∈ run.map ToolResultItem.toolCallId
          · simp [again, ih]
          · simp [again, ih]

theorem dedupFrom_render (inRun : Bool) (segments : List Segment) :
    (dedupFrom inRun (render segments)).1 = render (segments.map Segment.dedup) := by
  induction segments generalizing inRun with
  | nil => rfl
  | cons segment rest ih =>
      rw [render_cons, dedupFrom_head inRun segment.notResult, dedupFrom_results, ih, List.map_cons,
        render_cons]
      unfold Segment.dedup Segment.calls
      cases segment.head.toolCalls.isEmpty <;> rfl

theorem dedup_eq (lead : List ToolResultItem) (segments : List Segment) :
    (dedupDuplicateToolResults (results lead ++ render segments)).1 =
      results lead ++ render (segments.map Segment.dedup) := by
  unfold dedupDuplicateToolResults
  rw [dedupFrom_results, dedupFrom_render]
  rfl

theorem stripDisplacedFrom_head (ids : List Text) {head : ConversationItem}
    (notResult : head.toolResultId = none) (rest : List ConversationItem) :
    (stripDisplacedFrom ids (head :: rest)).1 =
      head :: (stripDisplacedFrom (head.toolCalls.map ToolCall.id) rest).1 := by
  cases head <;> first | rfl | cases notResult

theorem stripDisplacedFrom_results (ids : List Text) (run : List ToolResultItem)
    (items : List ConversationItem) :
    (stripDisplacedFrom ids (results run ++ items)).1 =
      results (run.filter fun result => ids.contains result.toolCallId) ++
        (stripDisplacedFrom ids items).1 := by
  induction run with
  | nil => rfl
  | cons result run ih =>
      simp only [results, List.map_cons, List.cons_append, stripDisplacedFrom] at ih ⊢
      by_cases declared : ids.contains result.toolCallId = true
      · rw [if_pos declared, List.filter_cons, if_pos declared, ih]
        rfl
      · rw [if_neg declared, List.filter_cons, if_neg declared, ih]

theorem stripDisplacedFrom_render (ids : List Text) (segments : List Segment) :
    (stripDisplacedFrom ids (render segments)).1 = render (segments.map Segment.strip) := by
  induction segments generalizing ids with
  | nil => rfl
  | cons segment rest ih =>
      rw [render_cons, stripDisplacedFrom_head ids segment.notResult, stripDisplacedFrom_results, ih]
      rfl

theorem strip_eq (lead : List ToolResultItem) (segments : List Segment) :
    (stripDisplacedToolResults (results lead ++ render segments)).1 =
      render (segments.map Segment.strip) := by
  unfold stripDisplacedToolResults
  rw [stripDisplacedFrom_results, stripDisplacedFrom_render]
  simp [results]

section Dangling

variable (reason : DanglingToolCallReason)

theorem danglingRepairs_shift (position : Nat) (items : List ConversationItem) :
    danglingRepairs reason position items =
      (danglingRepairs reason 0 items).map fun repair => (position + repair.1, repair.2) := by
  induction items generalizing position with
  | nil => rfl
  | cons item rest ih =>
      have later : danglingRepairs reason (position + 1) rest =
          (danglingRepairs reason (0 + 1) rest).map fun repair => (position + repair.1, repair.2) := by
        rw [ih (position + 1), ih (0 + 1), List.map_map]
        apply List.map_congr_left
        intro repair _
        simp [Nat.add_assoc]
      simp only [danglingRepairs, later]
      split
      · rfl
      · simp [Nat.add_assoc]

theorem danglingRepairs_results (position : Nat) (run : List ToolResultItem)
    (items : List ConversationItem) :
    danglingRepairs reason position (results run ++ items) =
      danglingRepairs reason (position + run.length) items := by
  induction run generalizing position with
  | nil => rfl
  | cons result run ih =>
      have here := ih (position + 1)
      simp only [results, List.map_cons, List.cons_append, danglingRepairs] at here ⊢
      rw [here, List.length_cons, Nat.add_comm run.length 1, ← Nat.add_assoc]
      simp [syntheticResults, ConversationItem.toolCalls]

theorem foldr_spliceAt (front items : List ConversationItem)
    (repairs : List (Nat × List ConversationItem)) :
    (repairs.map fun repair => (front.length + repair.1, repair.2)).foldr
        (fun repair result => spliceAt repair.1 repair.2 result) (front ++ items) =
      front ++ repairs.foldr (fun repair result => spliceAt repair.1 repair.2 result) items := by
  induction repairs with
  | nil => rfl
  | cons repair rest ih =>
      rw [List.map_cons, List.foldr_cons, List.foldr_cons, ih]
      unfold spliceAt
      rw [List.take_length_add_append, List.drop_length_add_append]
      simp only [List.append_assoc]

theorem syntheticResults_eq (calls : List ToolCall) (run : List ToolResultItem) :
    syntheticResults reason calls (run.map ToolResultItem.toolCallId) =
      results ((missing calls run).map (syntheticResult reason)) := by
  simp only [syntheticResults, missing, results, List.map_map]
  rfl

theorem repairDangling_render (segments : List Segment) :
    (repairDanglingToolCalls (render segments) reason).1 =
      render (segments.map (Segment.answer reason)) := by
  simp only [repairDanglingToolCalls]
  induction segments with
  | nil => rfl
  | cons segment rest ih =>
      have later : danglingRepairs reason (0 + 1) (results segment.run ++ render rest) =
          (danglingRepairs reason 0 (render rest)).map fun repair =>
            ((segment.head :: results segment.run).length + repair.1, repair.2) := by
        rw [danglingRepairs_results, danglingRepairs_shift]
        simp [results, Nat.add_comm]
      have repaired := foldr_spliceAt (segment.head :: results segment.run) (render rest)
        (danglingRepairs reason 0 (render rest))
      rw [ih] at repaired
      have answered : render ((segment :: rest).map (Segment.answer reason)) =
          (segment.head :: results segment.run) ++
            (results ((missing segment.calls segment.run).map (syntheticResult reason)) ++
              render (rest.map (Segment.answer reason))) := by
        simp [Segment.answer, results]
      have shown : render (segment :: rest) =
          (segment.head :: results segment.run) ++ render rest := rfl
      rw [answered, shown, List.cons_append]
      simp only [danglingRepairs, later, runIds_render, syntheticResults_eq]
      by_cases none : (results ((missing segment.head.toolCalls segment.run).map
          (syntheticResult reason))).isEmpty = true
      · have empty := List.isEmpty_iff.mp none
        rw [if_pos none, ← List.cons_append, repaired]
        simp [Segment.calls, empty]
      · have position : 0 + 1 + (segment.run.map ToolResultItem.toolCallId).length =
            (segment.head :: results segment.run).length := by
          simp [results, Nat.add_comm]
        rw [if_neg none, ← List.cons_append, List.foldr_cons, repaired, position]
        simp [spliceAt, Segment.calls]

end Dangling

def historyRepair : DanglingToolCallReason := .harnessHalted "history_repair".toList

def Segment.repair (segment : Segment) : Segment := (segment.dedup.strip).answer historyRepair

theorem repairHistory_eq (lead : List ToolResultItem) (segments : List Segment) :
    (repairHistory (results lead ++ render segments)).1 = render (segments.map Segment.repair) := by
  simp only [repairHistory, dedup_eq, strip_eq]
  rw [← historyRepair, repairDangling_render, List.map_map, List.map_map]
  rfl

end Passes

section Answers

def lastResult (id : Text) (run : List ToolResultItem) : Option ToolResultItem :=
  (run.filter (·.toolCallId = id)).getLast?

def answerOf (run : List ToolResultItem) (call : ToolCall) : ToolResultItem :=
  (lastResult call.id run).getD (syntheticResult historyRepair call)

theorem keepLast_filter (id : Text) (run : List ToolResultItem) :
    (keepLast run).filter (·.toolCallId = id) = (lastResult id run).toList := by
  unfold lastResult
  induction run with
  | nil => rfl
  | cons result run ih =>
      rw [keepLast_cons]
      by_cases here : result.toolCallId = id
      · by_cases again : result.toolCallId ∈ run.map ToolResultItem.toolCallId
        · -- The result is not the last of its call.
          obtain ⟨later, member, same⟩ := List.mem_map.mp again
          have some_later : run.filter (·.toolCallId = id) ≠ [] :=
            List.ne_nil_of_mem (List.mem_filter.mpr ⟨member, by simp [same, here]⟩)
          rw [if_pos again, ih, List.filter_cons_of_pos (by simp [here]),
            List.getLast?_cons_of_ne_nil some_later]
        · have none_later : run.filter (·.toolCallId = id) = [] := by
            rw [List.filter_eq_nil_iff]
            intro later member same
            exact again (List.mem_map.mpr ⟨later, member, (by simpa using same : _ = id).trans here.symm⟩)
          rw [none_later] at ih
          rw [if_neg again, List.filter_cons_of_pos (by simp [here]), ih,
            List.filter_cons_of_pos (by simp [here]), none_later]
          rfl
      · rw [List.filter_cons_of_neg (by simpa using here), ← ih]
        split
        · rfl
        · rw [List.filter_cons_of_neg (by simpa using here)]

theorem filter_call {calls : List ToolCall} (distinct : (calls.map ToolCall.id).Nodup)
    {call : ToolCall} (member : call ∈ calls) : calls.filter (·.id = call.id) = [call] := by
  induction calls with
  | nil => cases member
  | cons first rest ih =>
      rw [List.map_cons, List.nodup_cons] at distinct
      rcases List.mem_cons.mp member with rfl | later
      · have none : rest.filter (·.id = call.id) = [] := by
          rw [List.filter_eq_nil_iff]
          intro other within same
          exact distinct.1 (List.mem_map.mpr ⟨other, within, by simpa using same⟩)
        simp [none]
      · have apart : first.id ≠ call.id := fun same =>
          distinct.1 (same ▸ List.mem_map_of_mem later)
        rw [List.filter_cons_of_neg (by simpa using apart), ih distinct.2 later]

variable {segment : Segment}

theorem repair_filter (distinct : (segment.calls.map ToolCall.id).Nodup) {call : ToolCall}
    (member : call ∈ segment.calls) :
    segment.repair.run.filter (·.toolCallId = call.id) = [answerOf segment.run call] := by
  have calls : segment.calls.isEmpty = false := by
    simpa using List.ne_nil_of_mem member
  have declared : (segment.calls.map ToolCall.id).contains call.id = true := by
    simpa using ⟨call, member, rfl⟩
  have stripped : segment.dedup.strip.run.filter (·.toolCallId = call.id) =
      (lastResult call.id segment.run).toList := by
    rw [← keepLast_filter]
    simp only [Segment.strip, Segment.dedup, calls, List.filter_filter]
    apply List.filter_congr
    intro result _
    by_cases same : result.toolCallId = call.id
    · simpa [Segment.calls, same] using ⟨call, member, rfl⟩
    · simp [same]
  have present : call.id ∈ segment.dedup.strip.run.map ToolResultItem.toolCallId ↔
      lastResult call.id segment.run ≠ none := by
    have nonempty : call.id ∈ segment.dedup.strip.run.map ToolResultItem.toolCallId ↔
        segment.dedup.strip.run.filter (·.toolCallId = call.id) ≠ [] := by
      simp
    rw [nonempty, stripped]
    cases lastResult call.id segment.run <;> simp
  have synthetic : ((missing segment.calls segment.dedup.strip.run).map
        (syntheticResult historyRepair)).filter (·.toolCallId = call.id) =
      if lastResult call.id segment.run = none then [syntheticResult historyRepair call] else [] := by
    have one : (missing segment.calls segment.dedup.strip.run).filter (·.id = call.id) =
        [call].filter fun call =>
          !(segment.dedup.strip.run.map ToolResultItem.toolCallId).contains call.id := by
      rw [missing, List.filter_comm, filter_call distinct member]
    rw [List.filter_map]
    have same : ((fun result : ToolResultItem => decide (result.toolCallId = call.id)) ∘
        syntheticResult historyRepair) = fun other => decide (other.id = call.id) := rfl
    rw [same, one]
    by_cases none : lastResult call.id segment.run = none
    · have absent : call.id ∉ segment.dedup.strip.run.map ToolResultItem.toolCallId :=
        fun within => present.mp within none
      have free : (segment.dedup.strip.run.map ToolResultItem.toolCallId).contains call.id = false := by
        simpa using absent
      rw [if_pos none, List.filter_cons_of_pos (by rw [free]; rfl)]
      rfl
    · have within := present.mpr none
      rw [if_neg none]
      simpa using within
  have run : segment.repair.run = segment.dedup.strip.run ++
      (missing segment.calls segment.dedup.strip.run).map (syntheticResult historyRepair) := rfl
  rw [run, List.filter_append, stripped, synthetic, answerOf]
  cases lastResult call.id segment.run <;> simp

theorem repair_declared {result : ToolResultItem} (member : result ∈ segment.repair.run) :
    result.toolCallId ∈ segment.calls.map ToolCall.id := by
  rcases List.mem_append.mp member with own | synthetic
  · have declared := (List.mem_filter.mp own).2
    exact List.contains_iff_mem.mp declared
  · obtain ⟨call, among, rfl⟩ := List.mem_map.mp synthetic
    exact List.mem_map_of_mem (List.mem_of_mem_filter among)

theorem render_results {segments : List Segment} {before after : List ConversationItem}
    {result : ToolResultItem} (split : render segments = before ++ .toolResult result :: after) :
    ∃ earlier segment later run, segments = earlier ++ segment :: later ∧
      before = render earlier ++ segment.head :: results run ∧ result ∈ segment.run := by
  induction segments generalizing before with
  | nil => simp at split
  | cons segment rest ih =>
      have deeper : ∀ inner : List ConversationItem, render rest = inner ++ .toolResult result :: after →
          ∃ earlier other later run, segment :: rest = earlier ++ other :: later ∧
            segment.head :: (results segment.run ++ inner) =
              render earlier ++ other.head :: results run ∧ result ∈ other.run := by
        intro inner inside
        obtain ⟨earlier, other, later, run, rfl, rfl, member⟩ := ih inside
        exact ⟨segment :: earlier, other, later, run, rfl, by simp, member⟩
      cases before with
      | nil =>
          have head := (List.cons.inj split).1
          have notResult := segment.notResult
          rw [head] at notResult
          cases notResult
      | cons item before =>
          obtain ⟨rfl, tail⟩ := List.cons.inj split
          rcases List.append_eq_append_iff.mp tail with ⟨inner, rfl, inside⟩ | ⟨inner, run_eq, after_eq⟩
          · exact deeper inner inside
          · cases inner with
            | nil =>
                obtain rfl : before = results segment.run := by simpa using run_eq.symm
                simpa using deeper [] after_eq.symm
            | cons first inner =>
                obtain ⟨rfl, _⟩ := List.cons.inj after_eq
                obtain ⟨run, others, parts, rfl, inner_eq⟩ := List.map_eq_append_iff.mp run_eq
                obtain ⟨own, _, rfl, same, _⟩ := List.map_eq_cons_iff.mp inner_eq
                cases same
                exact ⟨[], segment, rest, run, rfl, rfl, by simp [parts]⟩

theorem filter_results (run : List ToolResultItem) :
    (results run).filter (·.toolResultId = none) = [] := by
  simp [results, ConversationItem.toolResultId]

theorem filter_render (segments : List Segment) :
    (render segments).filter (·.toolResultId = none) = segments.map Segment.head := by
  induction segments with
  | nil => rfl
  | cons segment rest ih =>
      simp [List.filter_append, filter_results, ih, segment.notResult]

theorem repair_head (segment : Segment) : segment.repair.head = segment.head := rfl

end Answers

theorem repair_pairs_calls (items : List ConversationItem)
    (distinct : ∀ assistant, .assistant assistant ∈ items →
      (assistant.toolCalls.map ToolCall.id).Nodup) :
    let repaired := (repairHistory items).1
    (∀ before result after, repaired = before ++ .toolResult result :: after →
        ∃ earlier assistant run, before = earlier ++ .assistant assistant :: results run ∧
          result.toolCallId ∈ assistant.toolCalls.map ToolCall.id) ∧
      (∀ before assistant after, repaired = before ++ .assistant assistant :: after →
        ∀ call ∈ assistant.toolCalls,
          (resultRun after).countP (·.toolCallId = call.id) = 1) ∧
      repaired.filter (·.toolResultId = none) = items.filter (·.toolResultId = none) ∧
      ∀ before assistant after, items = before ++ .assistant assistant :: after →
        ∃ before' after', repaired = before' ++ .assistant assistant :: after' ∧
          before'.filter (·.toolResultId = none) = before.filter (·.toolResultId = none) ∧
          ∀ call ∈ assistant.toolCalls,
            (resultRun after').filter (·.toolCallId = call.id) = [answerOf (resultRun after) call] := by
  intro repaired
  obtain ⟨lead, segments, rfl⟩ := exists_render items
  have shown : repaired = render (segments.map Segment.repair) := repairHistory_eq lead segments
  have calls_distinct : ∀ segment ∈ segments, (segment.calls.map ToolCall.id).Nodup := by
    intro segment member
    have within : segment.head ∈ results lead ++ render segments :=
      List.mem_append_right _ (List.mem_flatMap.mpr ⟨segment, member, List.mem_cons_self⟩)
    unfold Segment.calls
    cases head : segment.head with
    | assistant assistant => exact distinct assistant (head ▸ within)
    | _ => exact List.nodup_nil
  refine ⟨?_, ?_, ?_, ?_⟩
  · intro before result after split
    rw [shown] at split
    obtain ⟨earlier, segment, later, run, parts, rfl, member⟩ := render_results split
    obtain ⟨own, _, rfl⟩ : ∃ own ∈ segments, Segment.repair own = segment :=
      List.mem_map.mp (parts ▸ List.mem_append_right _ List.mem_cons_self)
    have declared := repair_declared member
    unfold Segment.calls at declared
    cases head : own.head with
    | assistant assistant =>
        exact ⟨render earlier, assistant, run, by rw [repair_head, head],
          by simpa [head, ConversationItem.toolCalls] using declared⟩
    | _ => simp [head, ConversationItem.toolCalls] at declared
  · intro before assistant after split call member
    rw [shown] at split
    obtain ⟨earlier, run, later, parts, rfl, rfl⟩ := @render_split [] _ _ _ _ split rfl
    obtain ⟨own, among, same⟩ : ∃ own ∈ segments, Segment.repair own = ⟨.assistant assistant, rfl, run⟩ :=
      List.mem_map.mp (parts ▸ List.mem_append_right _ List.mem_cons_self)
    have head : own.head = .assistant assistant := congrArg Segment.head same
    have answers : run = own.repair.run := (congrArg Segment.run same).symm
    rw [resultRun_render, List.countP_eq_length_filter, answers,
      repair_filter (calls_distinct own among) (by simpa [Segment.calls, head, ConversationItem.toolCalls] using member)]
    rfl
  · rw [shown, filter_render, List.filter_append, filter_results, filter_render, List.map_map]
    rfl
  · intro before assistant after split
    obtain ⟨earlier, run, later, rfl, rfl, rfl⟩ := render_split split rfl
    rw [shown]
    refine ⟨render (earlier.map Segment.repair),
      results (Segment.repair ⟨.assistant assistant, rfl, run⟩).run ++
        render (later.map Segment.repair), by simp [repair_head], ?_, ?_⟩
    · rw [filter_render, List.filter_append, filter_results, filter_render, List.map_map]
      rfl
    · intro call member
      rw [resultRun_render, resultRun_render]
      exact repair_filter (calls_distinct _ (by simp)) member

def brokenHistory : List ConversationItem :=
  [.toolResult ⟨['a'], ['0'], []⟩,
    .assistant ⟨[], [⟨['a'], ['r'], []⟩, ⟨['b'], ['s'], []⟩]⟩,
    .toolResult ⟨['a'], ['1'], []⟩,
    .toolResult ⟨['a'], ['2'], []⟩,
    .reasoning ['t'],
    .toolResult ⟨['b'], ['3'], []⟩]

theorem repair_pairs_calls_broken :
    ∃ before' after', (repairHistory brokenHistory).1 =
        before' ++ .assistant ⟨[], [⟨['a'], ['r'], []⟩, ⟨['b'], ['s'], []⟩]⟩ :: after' ∧
      (resultRun after').filter (·.toolCallId = ['a']) = [⟨['a'], ['2'], []⟩] := by
  have distinct : ∀ assistant, .assistant assistant ∈ brokenHistory →
      (assistant.toolCalls.map ToolCall.id).Nodup := by
    intro assistant member
    simp only [brokenHistory, List.mem_cons, reduceCtorEq, ConversationItem.assistant.injEq, false_or,
      List.not_mem_nil, or_false] at member
    subst member
    decide
  obtain ⟨before', after', split, _, answers⟩ := (repair_pairs_calls brokenHistory distinct).2.2.2
    [.toolResult ⟨['a'], ['0'], []⟩] ⟨[], [⟨['a'], ['r'], []⟩, ⟨['b'], ['s'], []⟩]⟩
    [.toolResult ⟨['a'], ['1'], []⟩, .toolResult ⟨['a'], ['2'], []⟩, .reasoning ['t'],
      .toolResult ⟨['b'], ['3'], []⟩] rfl
  exact ⟨before', after', split, answers ⟨['a'], ['r'], []⟩ (by simp)⟩

end GrokPi.Chat
