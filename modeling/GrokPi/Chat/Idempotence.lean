import GrokPi.Chat.Actor
import GrokPi.Chat.Pairing

set_option autoImplicit false

namespace GrokPi.Chat

section Counts

theorem dedupFrom_count (inRun : Bool) (items : List ConversationItem) :
    (dedupFrom inRun items).1.length + (dedupFrom inRun items).2 = items.length := by
  induction items generalizing inRun with
  | nil => rfl
  | cons item rest ih =>
      cases item with
      | toolResult result =>
          have step := ih inRun
          simp only [dedupFrom]
          split
          · simp only [List.length_cons]
            omega
          · simp only [List.length_cons]
            omega
      | assistant assistant =>
          have step := ih (!assistant.toolCalls.isEmpty)
          simp only [dedupFrom, ConversationItem.toolCalls, List.length_cons]
          omega
      | _ =>
          have step := ih false
          simp only [dedupFrom, ConversationItem.toolCalls, List.isEmpty_nil, Bool.not_true,
            List.length_cons]
          omega

theorem stripDisplacedFrom_count (ids : List Text) (items : List ConversationItem) :
    (stripDisplacedFrom ids items).1.length + (stripDisplacedFrom ids items).2.length =
      items.length := by
  induction items generalizing ids with
  | nil => rfl
  | cons item rest ih =>
      cases item with
      | toolResult result =>
          have step := ih ids
          simp only [stripDisplacedFrom]
          split
          · simp only [List.length_cons]
            omega
          · simp only [List.length_cons]
            omega
      | assistant assistant =>
          have step := ih (assistant.toolCalls.map ToolCall.id)
          simp only [stripDisplacedFrom, List.length_cons]
          omega
      | _ =>
          have step := ih []
          simp only [stripDisplacedFrom, List.length_cons]
          omega

theorem spliceAt_length (position : Nat) (inserted items : List ConversationItem) :
    (spliceAt position inserted items).length = items.length + inserted.length := by
  simp only [spliceAt, List.length_append, List.length_take, List.length_drop]
  omega

theorem repairDangling_count (items : List ConversationItem) (reason : DanglingToolCallReason) :
    (repairDanglingToolCalls items reason).1.length =
      items.length + (repairDanglingToolCalls items reason).2 := by
  simp only [repairDanglingToolCalls]
  induction danglingRepairs reason 0 items with
  | nil => rfl
  | cons repair rest ih =>
      simp only [List.foldr_cons, spliceAt_length, List.map_cons, List.sum_cons, ih]
      omega

end Counts

section Runs

theorem keepLast_eq_self {run : List ToolResultItem} :
    keepLast run = run ↔ (run.map ToolResultItem.toolCallId).Nodup := by
  rw [keepLast, List.pwFilter_eq_self, List.Nodup, List.pairwise_map]

theorem keepLast_nodup (run : List ToolResultItem) :
    ((keepLast run).map ToolResultItem.toolCallId).Nodup := by
  rw [List.Nodup, List.pairwise_map]
  exact List.pairwise_pwFilter run

theorem keepLast_ids (run : List ToolResultItem) (id : Text) :
    id ∈ (keepLast run).map ToolResultItem.toolCallId ↔ id ∈ run.map ToolResultItem.toolCallId := by
  induction run with
  | nil => rfl
  | cons result run ih =>
      rw [keepLast_cons]
      split
      next again =>
        rw [ih, List.map_cons, List.mem_cons]
        exact ⟨.inr, fun either => either.elim (fun same => same ▸ again) fun later => later⟩
      next => rw [List.map_cons, List.map_cons, List.mem_cons, List.mem_cons, ih]

theorem missing_congr {calls : List ToolCall} {first second : List ToolResultItem}
    (same : ∀ call ∈ calls, call.id ∈ first.map ToolResultItem.toolCallId ↔
      call.id ∈ second.map ToolResultItem.toolCallId) : missing calls first = missing calls second := by
  refine List.filter_congr fun call member => ?_
  congr 1
  rw [Bool.eq_iff_iff, List.contains_iff_mem, List.contains_iff_mem]
  exact same call member

theorem missing_answered (calls : List ToolCall) (run : List ToolResultItem)
    (reason : DanglingToolCallReason) :
    missing calls (run ++ (missing calls run).map (syntheticResult reason)) = [] := by
  -- Behind its answers a segment misses nothing.
  refine List.filter_eq_nil_iff.mpr fun call member => ?_
  simp only [Bool.not_eq_true', List.contains_iff_mem, Bool.not_eq_false]
  by_cases answered : call.id ∈ run.map ToolResultItem.toolCallId
  · rw [List.map_append]
    exact List.mem_append_left _ answered
  · have among : call ∈ missing calls run := by
      refine List.mem_filter.mpr ⟨member, ?_⟩
      simpa [List.contains_iff_mem] using answered
    rw [List.map_append]
    exact List.mem_append_right _ (List.mem_map.mpr
      ⟨syntheticResult reason call, List.mem_map_of_mem among, rfl⟩)

theorem answers_ids (reason : DanglingToolCallReason) (calls : List ToolCall) :
    (calls.map (syntheticResult reason)).map ToolResultItem.toolCallId = calls.map ToolCall.id := by
  rw [List.map_map]
  rfl

theorem answered_nodup_iff {calls : List ToolCall} {run : List ToolResultItem}
    (reason : DanglingToolCallReason) (distinct : (run.map ToolResultItem.toolCallId).Nodup) :
    ((run ++ (missing calls run).map (syntheticResult reason)).map
        ToolResultItem.toolCallId).Nodup ↔ ((missing calls run).map ToolCall.id).Nodup := by
  rw [List.map_append, answers_ids, List.nodup_append]
  refine ⟨fun all => all.2.1, fun apart => ⟨distinct, apart, ?_⟩⟩
  rintro id answered other among rfl
  obtain ⟨call, member, rfl⟩ := List.mem_map.mp among
  have absent := (List.mem_filter.mp member).2
  simp only [Bool.not_eq_true', ← Bool.not_eq_true, List.contains_iff_mem] at absent
  exact absent answered

end Runs

section Segments

variable (segment : Segment) (reason : DanglingToolCallReason)

def Segment.Apart : Prop := ((missing segment.calls segment.run).map ToolCall.id).Nodup

@[ext] theorem Segment.ext {first second : Segment} (head : first.head = second.head)
    (run : first.run = second.run) : first = second := by
  cases first
  cases second
  cases head
  cases run
  rfl

theorem dedup_missing : missing segment.calls segment.dedup.run = missing segment.calls segment.run := by
  refine missing_congr fun call member => ?_
  have some' : segment.calls.isEmpty = false := by simpa using List.ne_nil_of_mem member
  simp only [Segment.dedup, some', Bool.false_eq_true, if_false, keepLast_ids]

theorem strip_missing : missing segment.calls segment.strip.run = missing segment.calls segment.run := by
  refine missing_congr fun call member => ?_
  simp only [Segment.strip, List.mem_map, List.mem_filter, List.contains_iff_mem]
  constructor
  · rintro ⟨result, ⟨within, _⟩, same⟩
    exact ⟨result, within, same⟩
  · rintro ⟨result, within, same⟩
    exact ⟨result, ⟨within, ⟨call, member, same.symm⟩⟩, same⟩

theorem dedup_answer_iff (distinct : segment.calls ≠ [] →
      (segment.run.map ToolResultItem.toolCallId).Nodup) :
    (segment.answer reason).dedup = segment.answer reason ↔ segment.Apart := by
  by_cases silent : segment.calls = []
  · have none' : (segment.answer reason).calls.isEmpty = true := List.isEmpty_iff.mpr silent
    refine iff_of_true (Segment.ext rfl ?_) ?_
    · simp only [Segment.dedup, none', if_true]
    · simp [Segment.Apart, missing, silent]
  · have some' : (segment.answer reason).calls.isEmpty = false := by
      simpa [Segment.calls, Segment.answer] using silent
    have answers : (segment.answer reason).run =
        segment.run ++ (missing segment.calls segment.run).map (syntheticResult reason) := rfl
    rw [Segment.Apart, ← answered_nodup_iff reason (distinct silent), ← answers, ← keepLast_eq_self]
    constructor
    · intro same
      have runs := congrArg Segment.run same
      simpa only [Segment.dedup, some', Bool.false_eq_true, if_false] using runs
    · intro same
      exact Segment.ext rfl (by simpa only [Segment.dedup, some', Bool.false_eq_true, if_false] using same)

theorem answer_answer : (segment.answer reason).answer reason = segment.answer reason := by
  refine Segment.ext rfl ?_
  have calls : (segment.answer reason).calls = segment.calls := rfl
  simp only [Segment.answer]
  simp only [Segment.calls, Segment.answer] at calls ⊢
  rw [missing_answered, List.map_nil, List.append_nil]

theorem dedup_run_nodup (some' : segment.calls ≠ []) :
    (segment.dedup.run.map ToolResultItem.toolCallId).Nodup := by
  have calls : segment.calls.isEmpty = false := by simpa using some'
  simp only [Segment.dedup, calls, Bool.false_eq_true, if_false]
  exact keepLast_nodup segment.run

theorem strip_run_nodup (some' : segment.calls ≠ []) :
    (segment.dedup.strip.run.map ToolResultItem.toolCallId).Nodup :=
  List.Nodup.sublist (List.filter_sublist.map _) (dedup_run_nodup segment some')

theorem repair_dedup_iff : segment.repair.dedup = segment.repair ↔ segment.Apart := by
  have same : segment.dedup.strip.Apart ↔ segment.Apart := by
    have stripped := strip_missing segment.dedup
    have deduped := dedup_missing segment
    simp only [Segment.Apart, Segment.calls, Segment.strip, Segment.dedup] at stripped deduped ⊢
    rw [stripped, deduped]
  rw [← same]
  exact dedup_answer_iff segment.dedup.strip historyRepair (strip_run_nodup segment)

theorem repair_strip : segment.repair.strip = segment.repair := by
  refine Segment.ext rfl ?_
  refine List.filter_eq_self.mpr fun result member => ?_
  exact List.contains_iff_mem.mpr (@repair_declared segment result member)

theorem repair_answer : segment.repair.answer historyRepair = segment.repair :=
  answer_answer segment.dedup.strip historyRepair

def Segment.integrity : Segment := segment.dedup.answer reason

theorem integrity_dedup_iff :
    (segment.integrity reason).dedup = segment.integrity reason ↔ segment.Apart := by
  have same : segment.dedup.Apart ↔ segment.Apart := by
    have deduped := dedup_missing segment
    simp only [Segment.Apart, Segment.calls, Segment.dedup] at deduped ⊢
    rw [deduped]
  rw [← same]
  exact dedup_answer_iff segment.dedup reason (dedup_run_nodup segment)

theorem integrity_integrity_iff :
    (segment.integrity reason).integrity reason = segment.integrity reason ↔ segment.Apart := by
  rw [← integrity_dedup_iff segment reason]
  have complete : (segment.integrity reason).dedup.answer reason = (segment.integrity reason).dedup := by
    refine Segment.ext rfl ?_
    have none' : missing (segment.integrity reason).calls (segment.integrity reason).dedup.run = [] := by
      rw [dedup_missing]
      exact missing_answered segment.dedup.calls segment.dedup.run reason
    have run : ((segment.integrity reason).dedup.answer reason).run =
        (segment.integrity reason).dedup.run ++
          (missing (segment.integrity reason).calls (segment.integrity reason).dedup.run).map
            (syntheticResult reason) := rfl
    rw [run, none', List.map_nil, List.append_nil]
  have twice : (segment.integrity reason).integrity reason =
      (segment.integrity reason).dedup.answer reason := rfl
  rw [twice, complete]

end Segments

section Histories

theorem render_injective {first second : List Segment} (same : render first = render second) :
    first = second := by
  induction first generalizing second with
  | nil =>
      cases second with
      | nil => rfl
      | cons segment rest => cases same
  | cons segment rest ih =>
      cases second with
      | nil => cases same
      | cons other tail =>
          obtain ⟨heads, tails⟩ := List.cons.inj same
          have behind : results segment.run ++ render rest = results other.run ++ render tail := tails
          have runs : segment.run = other.run := by
            rw [← resultRun_render segment.run rest, behind, resultRun_render]
          rw [runs, List.append_cancel_left_eq] at behind
          rw [Segment.ext heads runs, ih behind]

theorem render_map_eq {change : Segment → Segment} {segments : List Segment} :
    render (segments.map change) = render segments ↔ ∀ segment ∈ segments, change segment = segment := by
  constructor
  · intro same
    have maps := render_injective same
    rw [List.map_eq_iff] at maps
    intro segment member
    obtain ⟨index, inside, rfl⟩ := List.mem_iff_getElem.mp member
    have here := maps index
    simp only [List.getElem?_eq_getElem inside, Option.map_some, Option.some.injEq] at here
    exact here.symm
  · intro fixed
    rw [List.map_congr_left fixed, List.map_id']

def HistoryRepairReport.none : HistoryRepairReport :=
  { duplicatesRemoved := 0
    strippedToolResultIds := []
    syntheticResultsInserted := 0 }

def UnansweredApart (items : List ConversationItem) : Prop :=
  ∀ before assistant after, items = before ++ .assistant assistant :: after →
    ((missing assistant.toolCalls (resultRun after)).map ToolCall.id).Nodup

theorem unansweredApart_render (lead : List ToolResultItem) (segments : List Segment) :
    UnansweredApart (results lead ++ render segments) ↔ ∀ segment ∈ segments, segment.Apart := by
  constructor
  · intro apart segment member
    obtain ⟨earlier, later, rfl⟩ := List.append_of_mem member
    unfold Segment.Apart Segment.calls
    cases head : segment.head with
    | assistant assistant =>
        have here := apart (results lead ++ render earlier) assistant
          (results segment.run ++ render later) (by simp [head])
        rwa [resultRun_render] at here
    | _ => exact List.nodup_nil
  · intro apart before assistant after split
    obtain ⟨earlier, run, later, rfl, rfl, rfl⟩ := render_split split rfl
    rw [resultRun_render]
    exact apart ⟨.assistant assistant, rfl, run⟩ (by simp)

theorem repairHistory_fixed_iff (segments : List Segment)
    (stripped : ∀ segment ∈ segments, segment.strip = segment)
    (answered : ∀ segment ∈ segments, segment.answer historyRepair = segment) :
    repairHistory (render segments) = (render segments, .none) ↔
      ∀ segment ∈ segments, segment.dedup = segment := by
  have deduped := dedup_eq [] segments
  simp only [results, List.map_nil, List.nil_append] at deduped
  rw [← render_map_eq, ← deduped]
  constructor
  · intro fixed
    have duplicates := congrArg (fun repair => repair.2.duplicatesRemoved) fixed
    exact dedupFrom_same false (render segments) duplicates
  · intro same
    have strips : (stripDisplacedToolResults (render segments)).1 = render segments := by
      have strips := strip_eq [] segments
      simp only [results, List.map_nil, List.nil_append] at strips
      rw [strips, render_map_eq.mpr stripped]
    have answers : (repairDanglingToolCalls (render segments) historyRepair).1 = render segments := by
      rw [repairDangling_render, render_map_eq.mpr answered]
    -- A pass that changes nothing has nothing to count.
    have duplicates := dedupFrom_count false (render segments)
    have displaced := stripDisplacedFrom_count [] (render segments)
    have inserted := repairDangling_count (render segments) historyRepair
    simp only [dedupDuplicateToolResults, stripDisplacedToolResults] at same strips
    rw [same] at duplicates
    rw [strips] at displaced
    rw [answers] at inserted
    rw [historyRepair] at answers inserted
    simp only [repairHistory, dedupDuplicateToolResults, stripDisplacedToolResults, same, strips,
      answers, HistoryRepairReport.none, Prod.mk.injEq, HistoryRepairReport.mk.injEq, true_and]
    exact ⟨by omega, List.length_eq_zero_iff.mp (by omega), by omega⟩

def integrityRepair (reason : DanglingToolCallReason) (items : List ConversationItem) :
    List ConversationItem :=
  (repairDanglingToolCalls (dedupDuplicateToolResults items).1 reason).1

theorem repairDangling_lead (reason : DanglingToolCallReason) (lead : List ToolResultItem)
    (segments : List Segment) :
    (repairDanglingToolCalls (results lead ++ render segments) reason).1 =
      results lead ++ render (segments.map (Segment.answer reason)) := by
  have behind := repairDangling_render reason segments
  simp only [repairDanglingToolCalls] at behind ⊢
  have length : 0 + lead.length = (results lead).length := by simp [results]
  rw [danglingRepairs_results, length, danglingRepairs_shift, foldr_spliceAt, behind]

theorem integrityRepair_render (reason : DanglingToolCallReason) (lead : List ToolResultItem)
    (segments : List Segment) :
    integrityRepair reason (results lead ++ render segments) =
      results lead ++ render (segments.map fun segment => segment.integrity reason) := by
  rw [integrityRepair, dedup_eq, repairDangling_lead, List.map_map]
  rfl

/-- Both repairs are idempotent exactly on histories whose unanswered calls have distinct ids. -/
theorem repairs_idempotent_iff (items : List ConversationItem) (reason : DanglingToolCallReason) :
    (repairHistory (repairHistory items).1 = ((repairHistory items).1, .none) ↔
        UnansweredApart items) ∧
      (integrityRepair reason (integrityRepair reason items) = integrityRepair reason items ↔
        UnansweredApart items) := by
  obtain ⟨lead, segments, rfl⟩ := exists_render items
  rw [unansweredApart_render]
  constructor
  · rw [repairHistory_eq, repairHistory_fixed_iff]
    · simp only [List.mem_map, forall_exists_index, and_imp, forall_apply_eq_imp_iff₂,
        repair_dedup_iff]
    · simp only [List.mem_map, forall_exists_index, and_imp, forall_apply_eq_imp_iff₂]
      exact fun segment _ => repair_strip segment
    · simp only [List.mem_map, forall_exists_index, and_imp, forall_apply_eq_imp_iff₂]
      exact fun segment _ => repair_answer segment
  · rw [integrityRepair_render, integrityRepair_render, List.append_cancel_left_eq, render_map_eq]
    simp only [List.mem_map, forall_exists_index, and_imp, forall_apply_eq_imp_iff₂,
      integrity_integrity_iff]

end Histories

section Cases

def askedTwice : List ConversationItem :=
  [.assistant { content := [], toolCalls := [{ id := ['a'], name := ['r'] }, { id := ['a'], name := ['r'] }] }]

theorem asked_twice_is_repaired_twice :
    (¬∀ items : List ConversationItem,
      repairHistory (repairHistory items).1 = ((repairHistory items).1, .none)) ∧
    ¬∀ (items : List ConversationItem) (reason : DanglingToolCallReason),
      integrityRepair reason (integrityRepair reason items) = integrityRepair reason items := by
  constructor
  · intro claim
    exact absurd (claim askedTwice) (by decide)
  · intro claim
    exact absurd (claim askedTwice .userCancelled) (by decide)

end Cases

end GrokPi.Chat
