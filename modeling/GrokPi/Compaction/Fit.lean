import GrokPi.Compaction.Select
import GrokPi.Compaction.Truncation

set_option autoImplicit false

namespace GrokPi.Compaction

open GrokPi.Shared

class CompactionItemBuilder (T : Type) extends CompactionItem T where
  truncatePayloadForCompaction : T → UInt32 → T

export CompactionItemBuilder (truncatePayloadForCompaction)

inductive FitRung where
  | verbatim
  | historyTurnSelected
  | toolTruncated
  | stepTurnsSelected
  | emergency
  deriving DecidableEq

def FitRung.rank : FitRung → Nat
  | .verbatim => 0
  | .historyTurnSelected => 1
  | .toolTruncated => 2
  | .stepTurnsSelected => 3
  | .emergency => 4

structure FitPlan (T : Type) where
  llmTurns : List T
  tokensRaw : UInt32
  tokensFit : UInt32
  rung : FitRung
  itemsTruncated : UInt32
  historyTurnsOmitted : UInt32
  stepTurnsOmitted : UInt32

section Fit

variable {T : Type} [CompactionItemBuilder T] (countItemTokens : T → UInt32)

def tokenCounts (turns : List T) : List UInt32 := turns.map countItemTokens

def sumTokens (turns : List T) : UInt32 := saturatingSum (tokenCounts countItemTokens turns)

def oversized (maxTokens : UInt32) (turn : T) : Bool :=
  isToolResult turn && maxTokens < countItemTokens turn

def shrinkOversizedToolResults (turns : List T) (maxTokens : UInt32) : List T × UInt32 :=
  (turns.map fun turn =>
      if oversized countItemTokens maxTokens turn then truncatePayloadForCompaction turn maxTokens
      else turn,
    UInt32.ofNat (turns.countP (oversized countItemTokens maxTokens)))

def keepRecentUnderBudget (turns : List T) (counts : List UInt32) (budget : UInt32) :
    Option (List T × UInt32) :=
  if turns.isEmpty then some ([], 0)
  else if budget = 0 then some ([], UInt32.ofNat turns.length)
  else if saturatingSum counts ≤ budget then some (turns, 0)
  else
    (selectTurnsToCompact counts turns budget 0).map fun plan =>
      (turns.drop plan.splitIdx, UInt32.ofNat plan.splitIdx)

structure Side (T : Type) where
  turns : List T
  counts : List UInt32
  omitted : UInt32

/-- Drop the oldest turns of a side until it fits beside the other one.
History gives way to the steps first, and later the steps to what is left of the history. -/
def dropOldest (turns : List T) (counts : List UInt32) (otherTokens budget : UInt32) : Side T :=
  if otherTokens < budget then
    if budget - otherTokens < saturatingSum counts then
      match keepRecentUnderBudget turns counts (budget - otherTokens) with
      | some (keep, omitted) =>
          { turns := keep, counts := counts.drop omitted.toNat, omitted := omitted }
      | none => { turns := [], counts := [], omitted := UInt32.ofNat turns.length }
    else { turns := turns, counts := counts, omitted := 0 }
  else { turns := [], counts := [], omitted := UInt32.ofNat turns.length }

def planOk (history steps : List T) (tokensRaw : UInt32) (rung : FitRung)
    (itemsTruncated historyTurnsOmitted stepTurnsOmitted : UInt32) : FitPlan T :=
  { llmTurns := history ++ steps
    tokensRaw := tokensRaw
    tokensFit := sumTokens countItemTokens (history ++ steps)
    rung := rung
    itemsTruncated := itemsTruncated
    historyTurnsOmitted := historyTurnsOmitted
    stepTurnsOmitted := stepTurnsOmitted }

def emergencySource (history steps : List T) (hist step : Side T) : List T × UInt32 × UInt32 :=
  let combined := hist.turns ++ step.turns
  if combined.isEmpty then
    -- The ladder emptied both sides: the newest turn of the input itself.
    (history ++ steps,
      if steps.isEmpty then (UInt32.ofNat (history.length - 1), 0)
      else (UInt32.ofNat history.length, UInt32.ofNat (steps.length - 1)))
  else if step.turns.isEmpty then
    (combined, saturatingAdd hist.omitted (UInt32.ofNat (hist.turns.length - 1)), step.omitted)
  else
    (combined, saturatingAdd hist.omitted (UInt32.ofNat hist.turns.length),
      saturatingAdd step.omitted (UInt32.ofNat (step.turns.length - 1)))

def planEmergency (history steps : List T) (hist step : Side T) (budget tokensRaw itemsTruncated : UInt32) :
    FitPlan T :=
  let (source, historyTurnsOmitted, stepTurnsOmitted) := emergencySource history steps hist step
  match source.getLast? with
  | none =>
      { llmTurns := []
        tokensRaw := tokensRaw
        tokensFit := 0
        rung := .emergency
        itemsTruncated := itemsTruncated
        historyTurnsOmitted := historyTurnsOmitted
        stepTurnsOmitted := stepTurnsOmitted }
  | some newest =>
      let last := [truncatePayloadForCompaction newest budget]
      { llmTurns := last
        tokensRaw := tokensRaw
        tokensFit := sumTokens countItemTokens last
        rung := .emergency
        itemsTruncated := saturatingAdd itemsTruncated 1
        historyTurnsOmitted := historyTurnsOmitted
        stepTurnsOmitted := stepTurnsOmitted }

def fitTurnsForSummarizer (history steps : List T) (budget : UInt32) : FitPlan T :=
  let histCounts := tokenCounts countItemTokens history
  let stepCounts := tokenCounts countItemTokens steps
  let tokensRaw := saturatingAdd (saturatingSum histCounts) (saturatingSum stepCounts)
  if budget = 0 then
    { llmTurns := []
      tokensRaw := tokensRaw
      tokensFit := 0
      rung := .emergency
      itemsTruncated := 0
      historyTurnsOmitted := UInt32.ofNat history.length
      stepTurnsOmitted := UInt32.ofNat steps.length }
  else if tokensRaw ≤ budget then
    planOk countItemTokens history steps tokensRaw .verbatim 0 0 0
  else
    let hist := dropOldest history histCounts (saturatingSum stepCounts) budget
    if saturatingAdd (saturatingSum hist.counts) (saturatingSum stepCounts) ≤ budget then
      planOk countItemTokens hist.turns steps tokensRaw .historyTurnSelected 0 hist.omitted 0
    else
      let (hist2, n1) := shrinkOversizedToolResults countItemTokens hist.turns budget
      let (step2, n2) := shrinkOversizedToolResults countItemTokens steps budget
      let itemsTruncated := saturatingAdd n1 n2
      -- The payloads have changed, and are counted again.
      let histTokens := saturatingSum (tokenCounts countItemTokens hist2)
      let stepCounts2 := tokenCounts countItemTokens step2
      if saturatingAdd histTokens (saturatingSum stepCounts2) ≤ budget then
        planOk countItemTokens hist2 step2 tokensRaw .toolTruncated itemsTruncated hist.omitted 0
      else
        let step := dropOldest step2 stepCounts2 histTokens budget
        if saturatingAdd histTokens (saturatingSum step.counts) ≤ budget &&
            (!hist2.isEmpty || !step.turns.isEmpty) then
          planOk countItemTokens hist2 step.turns tokensRaw .stepTurnsSelected itemsTruncated
            hist.omitted step.omitted
        else
          planEmergency countItemTokens history steps
            { hist with turns := hist2, counts := tokenCounts countItemTokens hist2 } step budget
            tokensRaw itemsTruncated

section Dropping

/-- A side that has lost its oldest turns, but no call without its results. -/
structure Side.SuffixOf (side : Side T) (turns : List T) (dropped : Nat) : Prop where
  suffix : side.turns = turns.drop dropped
  within : dropped ≤ turns.length
  omitted : side.omitted = UInt32.ofNat dropped
  counted : tokenCounts countItemTokens side.turns <:+ side.counts
  exact : turns.length < UInt32.size → side.counts = tokenCounts countItemTokens side.turns
  head : dropped ≠ 0 → ∀ turn, side.turns.head? = some turn → isToolResult turn = false

omit [CompactionItemBuilder T] in
theorem tokenCounts_length (turns : List T) :
    (tokenCounts countItemTokens turns).length = turns.length := List.length_map ..

omit [CompactionItemBuilder T] in
theorem tokenCounts_drop (turns : List T) (index : Nat) :
    tokenCounts countItemTokens (turns.drop index) = (tokenCounts countItemTokens turns).drop index :=
  List.map_drop ..

theorem cleared_suffixOf (turns : List T) :
    ({ turns := [], counts := [], omitted := UInt32.ofNat turns.length } : Side T).SuffixOf
      countItemTokens turns turns.length where
  suffix := (List.drop_length ..).symm
  within := Nat.le_refl _
  omitted := rfl
  counted := List.suffix_refl _
  exact := fun _ => rfl
  head := fun _ turn none' => by simp at none'

theorem kept_suffixOf (turns : List T) :
    ({ turns := turns, counts := tokenCounts countItemTokens turns, omitted := 0 } : Side T).SuffixOf
      countItemTokens turns 0 where
  suffix := rfl
  within := Nat.zero_le _
  omitted := rfl
  counted := List.suffix_refl _
  exact := fun _ => rfl
  head := fun none' => absurd rfl none'

theorem split_suffixOf (turns : List T) {target : UInt32} {index : Nat}
    (least : LeastSafe (tokenCounts countItemTokens turns) turns target index) :
    ({ turns := turns.drop index
       counts := (tokenCounts countItemTokens turns).drop (UInt32.ofNat index).toNat
       omitted := UInt32.ofNat index } : Side T).SuffixOf countItemTokens turns index := by
  obtain ⟨item, found, plain⟩ := least.safe
  have inside := (List.getElem?_eq_some_iff.mp found).1
  have cast : (UInt32.ofNat index).toNat = index % UInt32.size := UInt32.toNat_ofNat ..
  refine
    { suffix := rfl
      within := Nat.le_of_lt inside
      omitted := rfl
      counted := ?_
      exact := fun short => ?_
      head := fun _ turn first => ?_ }
  · -- The cast may keep counts of dropped turns, in front of the others.
    have smaller : (UInt32.ofNat index).toNat ≤ index := cast ▸ Nat.mod_le ..
    refine ⟨((tokenCounts countItemTokens turns).drop (UInt32.ofNat index).toNat).take
      (index - (UInt32.ofNat index).toNat), ?_⟩
    have back : tokenCounts countItemTokens (turns.drop index) =
        ((tokenCounts countItemTokens turns).drop (UInt32.ofNat index).toNat).drop
          (index - (UInt32.ofNat index).toNat) := by
      rw [tokenCounts_drop, List.drop_drop, Nat.add_sub_cancel' smaller]
    rw [back, List.take_append_drop]
  · simp only [cast, Nat.mod_eq_of_lt (Nat.lt_trans inside short), tokenCounts_drop]
  · rw [List.head?_drop, found] at first
    exact (Option.some.inj first) ▸ plain

theorem dropOldest_cut (turns : List T) {other budget : UInt32} (room : other < budget)
    (full : budget - other < saturatingSum (tokenCounts countItemTokens turns)) :
    let side := dropOldest turns (tokenCounts countItemTokens turns) other budget
    (∃ index, LeastSafe (tokenCounts countItemTokens turns) turns (budget - other) index ∧
        side =
          { turns := turns.drop index
            counts := (tokenCounts countItemTokens turns).drop (UInt32.ofNat index).toNat
            omitted := UInt32.ofNat index }) ∨
      (∀ index, SafeSplit turns index →
          budget - other < saturatingSum ((tokenCounts countItemTokens turns).drop index)) ∧
        side = { turns := [], counts := [], omitted := UInt32.ofNat turns.length } := by
  -- Where a side is cut at all, it is cut at the first safe place that fits, or given up.
  have some' : turns.isEmpty = false := by
    cases turns with
    | nil => simp [tokenCounts, UInt32.lt_iff_toNat_lt] at full
    | cons turn rest => rfl
  have left : budget - other ≠ 0 := by
    intro zero
    have smaller := UInt32.toNat_sub_of_le _ _ (UInt32.le_of_lt room)
    have less := UInt32.lt_iff_toNat_lt.mp room
    rw [zero] at smaller
    simp only [UInt32.toNat_zero] at smaller
    omega
  simp only [dropOldest, if_pos room, if_pos full, keepRecentUnderBudget, some',
    Bool.false_eq_true, if_false, if_neg left, if_neg (UInt32.not_le.mpr full)]
  have selected := selectTurnsToCompact_selected (tokenCounts countItemTokens turns) turns
    (budget - other) 0 (tokenCounts_length ..)
  generalize selectTurnsToCompact (tokenCounts countItemTokens turns) turns (budget - other) 0 =
    result at selected
  cases selected with
  | everythingFits fits => exact absurd fits (UInt32.not_le.mpr full)
  | nothingFits _ none' => exact .inr ⟨none', rfl⟩
  | split index _ least =>
      left
      exact ⟨index, least, by simp⟩

theorem dropOldest_suffixOf (turns : List T) (other budget : UInt32) :
    ∃ dropped,
      (dropOldest turns (tokenCounts countItemTokens turns) other budget).SuffixOf countItemTokens
        turns dropped := by
  by_cases room : other < budget
  · by_cases full : budget - other < saturatingSum (tokenCounts countItemTokens turns)
    · rcases dropOldest_cut countItemTokens turns room full with ⟨index, least, cut⟩ | ⟨-, cleared⟩
      · exact ⟨index, cut ▸ split_suffixOf countItemTokens turns least⟩
      · exact ⟨turns.length, cleared ▸ cleared_suffixOf countItemTokens turns⟩
    · simp only [dropOldest, if_pos room, if_neg full]
      exact ⟨0, kept_suffixOf countItemTokens turns⟩
  · simp only [dropOldest, if_neg room]
    exact ⟨turns.length, cleared_suffixOf countItemTokens turns⟩

end Dropping

section Ladder

variable (history steps : List T) (budget : UInt32)

omit [CompactionItemBuilder T] in
theorem sumTokens_append (front back : List T) :
    sumTokens countItemTokens (front ++ back) =
      saturatingAdd (sumTokens countItemTokens front) (sumTokens countItemTokens back) := by
  rw [sumTokens, tokenCounts, List.map_append, saturatingSum_append]
  rfl

def clip (turns : List T) : List T := (shrinkOversizedToolResults countItemTokens turns budget).1

def historySide : Side T :=
  dropOldest history (tokenCounts countItemTokens history) (sumTokens countItemTokens steps) budget

def clippedHistory : List T :=
  clip countItemTokens budget (historySide countItemTokens history steps budget).turns

def stepSide : Side T :=
  dropOldest (clip countItemTokens budget steps)
    (tokenCounts countItemTokens (clip countItemTokens budget steps))
    (sumTokens countItemTokens (clippedHistory countItemTokens history steps budget)) budget

inductive Fitted : FitPlan T → Prop
  | verbatim (tokensRaw : UInt32)
      (fits : sumTokens countItemTokens (history ++ steps) ≤ budget) :
      Fitted (planOk countItemTokens history steps tokensRaw .verbatim 0 0 0)
  | historyTurnSelected (tokensRaw : UInt32)
      (raw : budget < sumTokens countItemTokens (history ++ steps))
      (fits : saturatingAdd (saturatingSum (historySide countItemTokens history steps budget).counts)
        (sumTokens countItemTokens steps) ≤ budget) :
      Fitted
        (planOk countItemTokens (historySide countItemTokens history steps budget).turns steps tokensRaw
          .historyTurnSelected 0 (historySide countItemTokens history steps budget).omitted 0)
  | toolTruncated (tokensRaw itemsTruncated : UInt32)
      (raw : budget < sumTokens countItemTokens (history ++ steps))
      (selected : budget <
        saturatingAdd (saturatingSum (historySide countItemTokens history steps budget).counts)
          (sumTokens countItemTokens steps))
      (fits : sumTokens countItemTokens
        (clippedHistory countItemTokens history steps budget ++ clip countItemTokens budget steps) ≤
          budget) :
      Fitted
        (planOk countItemTokens (clippedHistory countItemTokens history steps budget)
          (clip countItemTokens budget steps) tokensRaw .toolTruncated itemsTruncated
          (historySide countItemTokens history steps budget).omitted 0)
  | stepTurnsSelected (tokensRaw itemsTruncated : UInt32)
      (raw : budget < sumTokens countItemTokens (history ++ steps))
      (selected : budget <
        saturatingAdd (saturatingSum (historySide countItemTokens history steps budget).counts)
          (sumTokens countItemTokens steps))
      (clipped : budget < sumTokens countItemTokens
        (clippedHistory countItemTokens history steps budget ++ clip countItemTokens budget steps))
      (fits : saturatingAdd
        (sumTokens countItemTokens (clippedHistory countItemTokens history steps budget))
        (saturatingSum (stepSide countItemTokens history steps budget).counts) ≤ budget)
      (some' : clippedHistory countItemTokens history steps budget ++
        (stepSide countItemTokens history steps budget).turns ≠ []) :
      Fitted
        (planOk countItemTokens (clippedHistory countItemTokens history steps budget)
          (stepSide countItemTokens history steps budget).turns tokensRaw .stepTurnsSelected
          itemsTruncated (historySide countItemTokens history steps budget).omitted
          (stepSide countItemTokens history steps budget).omitted)
  | emergency (tokensRaw itemsTruncated : UInt32)
      (raw : budget < sumTokens countItemTokens (history ++ steps))
      (selected : budget <
        saturatingAdd (saturatingSum (historySide countItemTokens history steps budget).counts)
          (sumTokens countItemTokens steps))
      (clipped : budget < sumTokens countItemTokens
        (clippedHistory countItemTokens history steps budget ++ clip countItemTokens budget steps))
      (dropped : saturatingAdd
          (sumTokens countItemTokens (clippedHistory countItemTokens history steps budget))
          (saturatingSum (stepSide countItemTokens history steps budget).counts) ≤ budget →
        clippedHistory countItemTokens history steps budget ++
          (stepSide countItemTokens history steps budget).turns = []) :
      Fitted
        (planEmergency countItemTokens history steps
          { turns := clippedHistory countItemTokens history steps budget
            counts := tokenCounts countItemTokens (clippedHistory countItemTokens history steps budget)
            omitted := (historySide countItemTokens history steps budget).omitted }
          (stepSide countItemTokens history steps budget) budget tokensRaw itemsTruncated)

theorem fitTurnsForSummarizer_eq (positive : budget ≠ 0) :
    let tokensRaw :=
      saturatingAdd (sumTokens countItemTokens history) (sumTokens countItemTokens steps)
    let hist := historySide countItemTokens history steps budget
    let hist2 := clippedHistory countItemTokens history steps budget
    let step2 := clip countItemTokens budget steps
    let step := stepSide countItemTokens history steps budget
    let itemsTruncated :=
      saturatingAdd (shrinkOversizedToolResults countItemTokens hist.turns budget).2
        (shrinkOversizedToolResults countItemTokens steps budget).2
    fitTurnsForSummarizer countItemTokens history steps budget =
      if tokensRaw ≤ budget then planOk countItemTokens history steps tokensRaw .verbatim 0 0 0
      else if saturatingAdd (saturatingSum hist.counts) (sumTokens countItemTokens steps) ≤ budget then
        planOk countItemTokens hist.turns steps tokensRaw .historyTurnSelected 0 hist.omitted 0
      else if saturatingAdd (sumTokens countItemTokens hist2) (sumTokens countItemTokens step2) ≤
          budget then
        planOk countItemTokens hist2 step2 tokensRaw .toolTruncated itemsTruncated hist.omitted 0
      else if saturatingAdd (sumTokens countItemTokens hist2) (saturatingSum step.counts) ≤ budget &&
          (!hist2.isEmpty || !step.turns.isEmpty) then
        planOk countItemTokens hist2 step.turns tokensRaw .stepTurnsSelected itemsTruncated
          hist.omitted step.omitted
      else
        planEmergency countItemTokens history steps
          { turns := hist2
            counts := tokenCounts countItemTokens hist2
            omitted := hist.omitted }
          step budget tokensRaw itemsTruncated := by
  unfold fitTurnsForSummarizer
  rw [if_neg positive]
  rfl

theorem fitTurnsForSummarizer_fitted (positive : budget ≠ 0) :
    Fitted countItemTokens history steps budget
      (fitTurnsForSummarizer countItemTokens history steps budget) := by
  rw [fitTurnsForSummarizer_eq countItemTokens history steps budget positive]
  simp only [← sumTokens_append]
  split
  next fits => exact .verbatim _ fits
  next raw =>
    have raw' := UInt32.not_le.mp raw
    split
    next fits => exact .historyTurnSelected _ raw' fits
    next selected =>
      have selected' := UInt32.not_le.mp selected
      split
      next fits => exact .toolTruncated _ _ raw' selected' fits
      next clipped =>
        have clipped' := UInt32.not_le.mp clipped
        split
        next fits =>
          simp only [Bool.and_eq_true, decide_eq_true_eq, Bool.or_eq_true, Bool.not_eq_true',
            List.isEmpty_eq_false_iff] at fits
          refine .stepTurnsSelected _ _ raw' selected' clipped' fits.1 ?_
          simpa [imp_iff_not_or] using fits.2
        next dropped =>
          refine .emergency _ _ raw' selected' clipped' fun fits => ?_
          simp only [Bool.and_eq_true, decide_eq_true_eq, Bool.or_eq_true, Bool.not_eq_true',
            List.isEmpty_eq_false_iff, not_and, not_or, not_not] at dropped
          simpa using dropped fits

variable {history steps : List T} {budget : UInt32}

@[simp] theorem clip_length (turns : List T) :
    (clip countItemTokens budget turns).length = turns.length := by
  simp [clip, shrinkOversizedToolResults]

theorem clip_eq_nil {turns : List T} : clip countItemTokens budget turns = [] ↔ turns = [] := by
  rw [← List.length_eq_zero_iff, clip_length, List.length_eq_zero_iff]

theorem planEmergency_nonempty (hist step : Side T) (tokensRaw itemsTruncated : UInt32)
    (some' : history ++ steps ≠ []) :
    (planEmergency countItemTokens history steps hist step budget tokensRaw
      itemsTruncated).llmTurns ≠ [] := by
  -- The last resort has a newest turn to keep.
  have source : (emergencySource history steps hist step).1 ≠ [] := by
    simp only [emergencySource]
    split
    next => exact some'
    next kept =>
      have kept' : hist.turns ++ step.turns ≠ [] := by simpa using kept
      split <;> exact kept'
  simp only [planEmergency]
  split
  next newest none' =>
    exact absurd (List.getLast?_eq_none_iff.mp none') source
  next => exact List.cons_ne_nil _ _

theorem Fitted.nonempty {plan : FitPlan T} (fitted : Fitted countItemTokens history steps budget plan)
    (some' : history ++ steps ≠ [])
    (kept : (historySide countItemTokens history steps budget).turns ++ steps ≠ []) :
    plan.llmTurns ≠ [] := by
  cases fitted with
  | verbatim => exact some'
  | historyTurnSelected => exact kept
  | toolTruncated =>
      simpa [planOk, clippedHistory, clip_eq_nil] using kept
  | stepTurnsSelected _ _ _ _ _ _ some'' => exact some''
  | emergency tokensRaw itemsTruncated =>
      exact planEmergency_nonempty countItemTokens _ _ tokensRaw itemsTruncated some'

def RecentFits (history : List T) (budget : UInt32) : Prop :=
  ∃ index, SafeSplit history index ∧ sumTokens countItemTokens (history.drop index) ≤ budget

/-- An empty plan is made of a history without steps, none of whose newest turns fit. -/
theorem summarizer_gets_turns_iff (some' : history ≠ [] ∨ steps ≠ []) (positive : budget ≠ 0) :
    (fitTurnsForSummarizer countItemTokens history steps budget).llmTurns ≠ [] ↔
      steps ≠ [] ∨ sumTokens countItemTokens history ≤ budget ∨
        RecentFits countItemTokens history budget := by
  have fitted := fitTurnsForSummarizer_fitted countItemTokens history steps budget positive
  have input : history ++ steps ≠ [] := by simpa [imp_iff_not_or] using some'
  by_cases alone : steps = []
  next =>
    subst alone
    by_cases whole : sumTokens countItemTokens history ≤ budget
    next =>
      refine iff_of_true ?_ (.inr (.inl whole))
      generalize fitTurnsForSummarizer countItemTokens history [] budget = plan at fitted
      cases fitted with
      | verbatim => exact input
      | historyTurnSelected _ raw => simp at raw; exact absurd whole (UInt32.not_le.mpr raw)
      | toolTruncated _ _ raw => simp at raw; exact absurd whole (UInt32.not_le.mpr raw)
      | stepTurnsSelected _ _ raw => simp at raw; exact absurd whole (UInt32.not_le.mpr raw)
      | emergency _ _ raw => simp at raw; exact absurd whole (UInt32.not_le.mpr raw)
    next =>
      have full := UInt32.not_le.mp whole
      have room : sumTokens countItemTokens ([] : List T) < budget := by
        simpa [sumTokens, tokenCounts] using UInt32.pos_iff_ne_zero.mpr positive
      have rest : budget - sumTokens countItemTokens ([] : List T) = budget := by
        simp [sumTokens, tokenCounts]
      have cut := dropOldest_cut countItemTokens history room
        (rest.symm ▸ full)
      rw [rest] at cut
      rcases cut with ⟨index, least, side⟩ | ⟨none', side⟩
      next =>
        have fits := least.fits
        rw [← tokenCounts_drop] at fits
        refine iff_of_true (fitted.nonempty countItemTokens input ?_)
          (.inr (.inr ⟨index, least.safe, fits⟩))
        obtain ⟨item, found, -⟩ := least.safe
        have inside := (List.getElem?_eq_some_iff.mp found).1
        simpa [historySide, side] using inside
      next =>
        have cleared : historySide countItemTokens history [] budget =
            { turns := [], counts := [], omitted := UInt32.ofNat history.length } := side
        refine iff_of_false (not_not.mpr ?_) ?_
        · generalize fitTurnsForSummarizer countItemTokens history [] budget = plan at fitted
          cases fitted with
          | verbatim _ fits => simp at fits; exact absurd fits whole
          | historyTurnSelected => simp [planOk, cleared]
          | toolTruncated _ _ _ selected => simp [cleared, sumTokens, tokenCounts] at selected
          | stepTurnsSelected _ _ _ selected => simp [cleared, sumTokens, tokenCounts] at selected
          | emergency _ _ _ selected => simp [cleared, sumTokens, tokenCounts] at selected
        · rintro (given | fits | ⟨index, safe, fits⟩)
          · exact given rfl
          · exact whole fits
          · rw [sumTokens, tokenCounts_drop] at fits
            exact absurd fits (UInt32.not_le.mpr (none' index safe))
  next =>
    exact iff_of_true (fitted.nonempty countItemTokens input (by simp [alone])) (.inl alone)

end Ladder

end Fit

section Mock

structure MockItem where
  role : CompactionRole
  text : Text
  deriving DecidableEq

instance : CompactionItemBuilder MockItem where
  isToolResult item := item.role = .tool
  truncatePayloadForCompaction item maxTokens :=
    { item with text := truncateTextToTokenBudget item.text maxTokens }

def charCounter (item : MockItem) : UInt32 := max (UInt32.ofNat item.text.length / 4) 1

def mockUser (text : String) : MockItem := { role := .user, text := text.toList }

def spoken : List MockItem :=
  [mockUser "12345678", { role := .tool, text := "1234".toList }, mockUser "87654321"]

theorem oversized_step_is_kept :
    (fitTurnsForSummarizer charCounter spoken [mockUser "1234567812345678"] 3).llmTurns ≠ [] ∧
      (fitTurnsForSummarizer charCounter spoken [] 3).llmTurns ≠ [] := by
  constructor
  · exact (summarizer_gets_turns_iff charCounter (.inl (List.cons_ne_nil _ _)) (by decide)).mpr
      (.inl (List.cons_ne_nil _ _))
  · have newest : RecentFits charCounter spoken 3 := ⟨2, ⟨mockUser "87654321", rfl, rfl⟩, by decide +kernel⟩
    exact (summarizer_gets_turns_iff charCounter (.inl (List.cons_ne_nil _ _)) (by decide)).mpr
      (.inr (.inr newest))

theorem oversized_history_is_dropped :
    ¬∀ (history steps : List MockItem) (budget : UInt32), history ≠ [] ∨ steps ≠ [] →
      budget ≠ 0 → (fitTurnsForSummarizer charCounter history steps budget).llmTurns ≠ [] := by
  intro claim
  exact claim [mockUser "12345678"] [] 1 (.inl (List.cons_ne_nil _ _)) (by decide) (by decide)

end Mock

end GrokPi.Compaction
