import GrokPi.Compaction.Fit

set_option autoImplicit false

namespace GrokPi.Compaction

open GrokPi.Shared

variable {T : Type} [CompactionItemBuilder T] (countItemTokens : T → UInt32)
  (history steps : List T) (budget : UInt32)

def accumulated : FitRung → List T × List T
  | .verbatim => (history, steps)
  | .historyTurnSelected => ((historySide countItemTokens history steps budget).turns, steps)
  | .toolTruncated =>
      (clippedHistory countItemTokens history steps budget, clip countItemTokens budget steps)
  | .stepTurnsSelected | .emergency =>
      (clippedHistory countItemTokens history steps budget,
        (stepSide countItemTokens history steps budget).turns)

/-- A stage is enough when what it leaves fits. The last one must leave something, too. -/
def StageFits (stage : FitRung) : Prop :=
  let turns := (accumulated countItemTokens history steps budget stage).1 ++
    (accumulated countItemTokens history steps budget stage).2
  sumTokens countItemTokens turns ≤ budget ∧ (stage = .stepTurnsSelected → turns ≠ [])

def payloads (rung : FitRung) (turns : List T) : List T :=
  if rung.rank < FitRung.toolTruncated.rank then turns else clip countItemTokens budget turns

def StartsWithToolResult (turns : List T) : Prop :=
  ∃ turn, turns.head? = some turn ∧ isToolResult turn = true

/-- A plan made of the newest turns of both sides. -/
structure FitPlan.Suffixes (plan : FitPlan T) (oldHistory oldSteps : Nat) : Prop where
  turns : plan.llmTurns = payloads countItemTokens budget plan.rung (history.drop oldHistory) ++
    payloads countItemTokens budget plan.rung (steps.drop oldSteps)
  verbatim : plan.rung = .verbatim → oldHistory = 0
  allSteps : plan.rung ≠ .stepTurnsSelected → oldSteps = 0
  historyHead : StartsWithToolResult (payloads countItemTokens budget plan.rung
      (history.drop oldHistory)) → oldHistory = 0 ∧ StartsWithToolResult history
  stepsHead : StartsWithToolResult (payloads countItemTokens budget plan.rung
      (steps.drop oldSteps)) → oldSteps = 0 ∧ StartsWithToolResult steps

def FitPlan.Accounts (plan : FitPlan T) : Prop :=
  plan.historyTurnsOmitted.toNat + plan.stepTurnsOmitted.toNat + plan.llmTurns.length =
    history.length + steps.length

/-- The stage of a plan is the first that is enough, and the last resort comes after all of them. -/
def FitPlan.LeastStage (plan : FitPlan T) : Prop :=
  (plan.rung ≠ .emergency → StageFits countItemTokens history steps budget plan.rung) ∧
    ∀ stage : FitRung, stage.rank < plan.rung.rank →
      ¬StageFits countItemTokens history steps budget stage

section Pieces

variable {countItemTokens history steps budget}

theorem clip_drop (turns : List T) (index : Nat) :
    (clip countItemTokens budget turns).drop index =
      clip countItemTokens budget (turns.drop index) := by
  simp only [clip, shrinkOversizedToolResults, List.map_drop]

theorem StartsWithToolResult.of_clip {turns : List T}
    (starts : StartsWithToolResult (clip countItemTokens budget turns)) :
    StartsWithToolResult turns := by
  obtain ⟨clipped, first, tool⟩ := starts
  cases turns with
  | nil => simp [clip, shrinkOversizedToolResults] at first
  | cons turn rest =>
      refine ⟨turn, rfl, ?_⟩
      simp only [clip, shrinkOversizedToolResults, List.map_cons, List.head?_cons,
        Option.some.injEq] at first
      split at first
      next large => exact (Bool.and_eq_true_iff.mp large).1
      next => exact first ▸ tool

theorem StartsWithToolResult.of_payloads {rung : FitRung} {turns : List T}
    (starts : StartsWithToolResult (payloads countItemTokens budget rung turns)) :
    StartsWithToolResult turns := by
  simp only [payloads] at starts
  split at starts
  · exact starts
  · exact starts.of_clip

theorem Side.SuffixOf.whole {side : Side T} {turns : List T} {dropped : Nat}
    (suffix : side.SuffixOf countItemTokens turns dropped) (starts : StartsWithToolResult side.turns) :
    dropped = 0 ∧ StartsWithToolResult turns := by
  obtain ⟨turn, first, tool⟩ := starts
  have none' : dropped = 0 := by
    by_contra some'
    rw [suffix.head some' turn first] at tool
    exact Bool.noConfusion tool
  refine ⟨none', turn, ?_, tool⟩
  rw [← first, suffix.suffix, none', List.drop_zero]

theorem Side.SuffixOf.sum_le {side : Side T} {turns : List T} {dropped : Nat}
    (suffix : side.SuffixOf countItemTokens turns dropped) :
    sumTokens countItemTokens side.turns ≤ saturatingSum side.counts := by
  obtain ⟨lost, counts⟩ := suffix.counted
  rw [UInt32.le_iff_toNat_le, ← counts, saturatingSum_append, saturatingAdd_toNat, sumTokens]
  have bound := UInt32.toNat_lt (saturatingSum (tokenCounts countItemTokens side.turns))
  simp only [UInt32.size]
  omega

theorem saturatingAdd_mono {a b c d : UInt32} (first : a ≤ b) (second : c ≤ d) :
    saturatingAdd a c ≤ saturatingAdd b d := by
  simp only [UInt32.le_iff_toNat_le, saturatingAdd_toNat] at first second ⊢
  omega

end Pieces

section Contract

variable {history steps budget} {plan : FitPlan T}

theorem planEmergency_rung (history steps : List T) (hist step : Side T)
    (budget tokensRaw itemsTruncated : UInt32) :
    (planEmergency countItemTokens history steps hist step budget tokensRaw
      itemsTruncated).rung = .emergency := by
  simp only [planEmergency]
  split <;> rfl

theorem Fitted.suffixes (fitted : Fitted countItemTokens history steps budget plan)
    (calm : plan.rung ≠ .emergency) :
    ∃ oldHistory oldSteps,
      plan.Suffixes countItemTokens history steps budget oldHistory oldSteps := by
  obtain ⟨oldHistory, left⟩ := dropOldest_suffixOf countItemTokens history
    (sumTokens countItemTokens steps) budget
  obtain ⟨oldSteps, kept⟩ := dropOldest_suffixOf countItemTokens (clip countItemTokens budget steps)
    (sumTokens countItemTokens (clippedHistory countItemTokens history steps budget)) budget
  have historyTurns : (historySide countItemTokens history steps budget).turns =
      history.drop oldHistory := left.suffix
  have stepTurns : (stepSide countItemTokens history steps budget).turns =
      clip countItemTokens budget (steps.drop oldSteps) := by
    rw [← clip_drop]
    exact kept.suffix
  have historyWhole : StartsWithToolResult (history.drop oldHistory) →
      oldHistory = 0 ∧ StartsWithToolResult history := by
    rw [← historyTurns]
    exact left.whole
  have stepsWhole : StartsWithToolResult (clip countItemTokens budget (steps.drop oldSteps)) →
      oldSteps = 0 ∧ StartsWithToolResult steps := by
    rw [← stepTurns]
    intro starts
    exact ⟨(kept.whole starts).1, (kept.whole starts).2.of_clip⟩
  cases fitted with
  | verbatim =>
      refine ⟨0, 0, rfl, fun _ => rfl, fun _ => rfl, fun starts => ⟨rfl, ?_⟩, fun starts => ⟨rfl, ?_⟩⟩
      · exact starts.of_payloads
      · exact starts.of_payloads
  | historyTurnSelected =>
      refine ⟨oldHistory, 0, ?_, fun same => by simp [planOk] at same, fun _ => rfl,
        fun starts => historyWhole starts.of_payloads, fun starts => ⟨rfl, starts.of_payloads⟩⟩
      simp [planOk, payloads, FitRung.rank, historyTurns]
  | toolTruncated =>
      refine ⟨oldHistory, 0, ?_, fun same => by simp [planOk] at same, fun _ => rfl,
        fun starts => historyWhole starts.of_payloads, fun starts => ⟨rfl, starts.of_payloads⟩⟩
      simp [planOk, payloads, FitRung.rank, clippedHistory, historyTurns]
  | stepTurnsSelected =>
      refine ⟨oldHistory, oldSteps, ?_, fun same => by simp [planOk] at same,
        fun other => absurd rfl other, fun starts => historyWhole starts.of_payloads,
        fun starts => stepsWhole ?_⟩
      · simp [planOk, payloads, FitRung.rank, clippedHistory, historyTurns, stepTurns]
      · simpa [planOk, payloads, FitRung.rank] using starts
  | emergency => exact absurd (planEmergency_rung ..) calm

theorem Fitted.fits (fitted : Fitted countItemTokens history steps budget plan)
    (calm : plan.rung ≠ .emergency) :
    plan.tokensFit = sumTokens countItemTokens plan.llmTurns ∧ plan.tokensFit ≤ budget := by
  obtain ⟨oldHistory, left⟩ := dropOldest_suffixOf countItemTokens history
    (sumTokens countItemTokens steps) budget
  obtain ⟨oldSteps, kept⟩ := dropOldest_suffixOf countItemTokens (clip countItemTokens budget steps)
    (sumTokens countItemTokens (clippedHistory countItemTokens history steps budget)) budget
  cases fitted with
  | verbatim _ fits => exact ⟨rfl, fits⟩
  | historyTurnSelected _ _ fits =>
      refine ⟨rfl, UInt32.le_trans ?_ fits⟩
      simp only [planOk, sumTokens_append]
      exact saturatingAdd_mono left.sum_le (UInt32.le_refl _)
  | toolTruncated _ _ _ _ fits => exact ⟨rfl, fits⟩
  | stepTurnsSelected _ _ _ _ _ fits =>
      refine ⟨rfl, UInt32.le_trans ?_ fits⟩
      simp only [planOk, sumTokens_append]
      exact saturatingAdd_mono (UInt32.le_refl _) kept.sum_le
  | emergency => exact absurd (planEmergency_rung ..) calm

theorem planEmergency_accounts {hist step : Side T} {oldHistory oldSteps : Nat}
    (tokensRaw itemsTruncated : UInt32) (shortHistory : history.length < UInt32.size)
    (shortSteps : steps.length < UInt32.size) (histOmitted : hist.omitted = UInt32.ofNat oldHistory)
    (stepOmitted : step.omitted = UInt32.ofNat oldSteps)
    (histLength : oldHistory + hist.turns.length = history.length)
    (stepLength : oldSteps + step.turns.length = steps.length) :
    (planEmergency countItemTokens history steps hist step budget tokensRaw
      itemsTruncated).Accounts history steps := by
  have cast (count : Nat) (short : count < UInt32.size) : (UInt32.ofNat count).toNat = count :=
    UInt32.toNat_ofNat_of_lt' short
  have histCast : hist.omitted.toNat = oldHistory := by rw [histOmitted, cast _ (by omega)]
  have stepCast : step.omitted.toNat = oldSteps := by rw [stepOmitted, cast _ (by omega)]
  simp only [FitPlan.Accounts, planEmergency]
  split
  next newest none' =>
    -- Nothing was there at all.
    have nothing : history = [] ∧ steps = [] := by
      have source := List.getLast?_eq_none_iff.mp none'
      simp only [emergencySource] at source
      split at source
      next => simpa using source
      next kept =>
        have kept' : hist.turns ++ step.turns ≠ [] := by simpa using kept
        split at source <;> exact absurd source kept'
    obtain ⟨rfl, rfl⟩ := nothing
    simp only [List.length_nil, Nat.add_eq_zero_iff, List.length_eq_zero_iff] at histLength stepLength
    simp [emergencySource, histLength.2, stepLength.2]
  next newest found =>
    simp only [emergencySource] at found ⊢
    split
    next none' =>
      rw [if_pos none'] at found
      have some' : history ++ steps ≠ [] := fun empty => by simp [empty] at found
      cases steps with
      | nil =>
          have one : 0 < history.length := List.length_pos_iff.mpr (by simpa using some')
          simp only [List.isEmpty_nil, if_true, UInt32.toNat_zero, List.length_nil,
            List.length_singleton]
          rw [cast _ (by omega)]
          omega
      | cons turn rest =>
          simp only [List.isEmpty_cons, Bool.false_eq_true, if_false, List.length_cons,
            List.length_nil] at shortSteps ⊢
          rw [cast _ shortHistory, cast _ (by omega)]
          omega
    next kept =>
      have kept' : hist.turns ++ step.turns ≠ [] := by simpa using kept
      have one : 0 < hist.turns.length + step.turns.length := by
        rw [← List.length_append]
        exact List.length_pos_iff.mpr kept'
      split
      next none' =>
        have empty : step.turns.length = 0 := by simpa using none'
        simp only [saturatingAdd_toNat, histCast, stepCast, List.length_singleton, UInt32.size]
          at shortHistory shortSteps ⊢
        rw [cast _ (by simp only [UInt32.size]; omega)]
        omega
      next some' =>
        have more : 0 < step.turns.length := List.length_pos_iff.mpr (by simpa using some')
        simp only [saturatingAdd_toNat, histCast, stepCast, List.length_singleton, UInt32.size]
          at shortHistory shortSteps ⊢
        rw [cast _ (by simp only [UInt32.size]; omega), cast _ (by simp only [UInt32.size]; omega)]
        omega

theorem Fitted.accounts (fitted : Fitted countItemTokens history steps budget plan)
    (shortHistory : history.length < UInt32.size) (shortSteps : steps.length < UInt32.size) :
    plan.Accounts history steps := by
  obtain ⟨oldHistory, left⟩ := dropOldest_suffixOf countItemTokens history
    (sumTokens countItemTokens steps) budget
  obtain ⟨oldSteps, kept⟩ := dropOldest_suffixOf countItemTokens (clip countItemTokens budget steps)
    (sumTokens countItemTokens (clippedHistory countItemTokens history steps budget)) budget
  have historyTurns : (historySide countItemTokens history steps budget).turns =
      history.drop oldHistory := left.suffix
  have historyOmitted : (historySide countItemTokens history steps budget).omitted =
      UInt32.ofNat oldHistory := left.omitted
  have stepTurns : (stepSide countItemTokens history steps budget).turns =
      clip countItemTokens budget (steps.drop oldSteps) := by
    rw [← clip_drop]
    exact kept.suffix
  have stepOmitted : (stepSide countItemTokens history steps budget).omitted =
      UInt32.ofNat oldSteps := kept.omitted
  have historyWithin := left.within
  have stepsWithin := kept.within
  rw [clip_length] at stepsWithin
  have historyCast : (UInt32.ofNat oldHistory).toNat = oldHistory :=
    UInt32.toNat_ofNat_of_lt' (Nat.lt_of_le_of_lt historyWithin shortHistory)
  have stepsCast : (UInt32.ofNat oldSteps).toNat = oldSteps :=
    UInt32.toNat_ofNat_of_lt' (Nat.lt_of_le_of_lt stepsWithin shortSteps)
  cases fitted with
  | verbatim => simp [FitPlan.Accounts, planOk]
  | historyTurnSelected =>
      simp only [FitPlan.Accounts, planOk, historyTurns, historyOmitted, historyCast,
        UInt32.toNat_zero, List.length_append, List.length_drop]
      omega
  | toolTruncated =>
      simp only [FitPlan.Accounts, planOk, clippedHistory, historyTurns, historyOmitted, historyCast,
        UInt32.toNat_zero, List.length_append, clip_length, List.length_drop]
      omega
  | stepTurnsSelected =>
      simp only [FitPlan.Accounts, planOk, clippedHistory, historyTurns, historyOmitted, historyCast,
        stepTurns, stepOmitted, stepsCast, List.length_append, clip_length, List.length_drop]
      omega
  | emergency tokensRaw itemsTruncated =>
      refine planEmergency_accounts countItemTokens tokensRaw itemsTruncated shortHistory shortSteps
        historyOmitted stepOmitted ?_ ?_
      · simp only [clippedHistory, clip_length, historyTurns, List.length_drop]
        omega
      · simp only [stepTurns, clip_length, List.length_drop]
        omega

theorem Fitted.leastStage (fitted : Fitted countItemTokens history steps budget plan)
    (shortHistory : history.length < UInt32.size) (shortSteps : steps.length < UInt32.size) :
    plan.LeastStage countItemTokens history steps budget := by
  obtain ⟨oldHistory, left⟩ := dropOldest_suffixOf countItemTokens history
    (sumTokens countItemTokens steps) budget
  obtain ⟨oldSteps, kept⟩ := dropOldest_suffixOf countItemTokens (clip countItemTokens budget steps)
    (sumTokens countItemTokens (clippedHistory countItemTokens history steps budget)) budget
  have historyCounts : saturatingSum (historySide countItemTokens history steps budget).counts =
      sumTokens countItemTokens (historySide countItemTokens history steps budget).turns :=
    congrArg saturatingSum (left.exact shortHistory)
  have stepCounts : saturatingSum (stepSide countItemTokens history steps budget).counts =
      sumTokens countItemTokens (stepSide countItemTokens history steps budget).turns :=
    congrArg saturatingSum (kept.exact (by rwa [clip_length]))
  have first (raw : budget < sumTokens countItemTokens (history ++ steps)) :
      ¬StageFits countItemTokens history steps budget .verbatim :=
    fun enough => absurd enough.1 (UInt32.not_le.mpr raw)
  have second (selected : budget < saturatingAdd
        (saturatingSum (historySide countItemTokens history steps budget).counts)
        (sumTokens countItemTokens steps)) :
      ¬StageFits countItemTokens history steps budget .historyTurnSelected := by
    rw [historyCounts, ← sumTokens_append] at selected
    exact fun enough => absurd enough.1 (UInt32.not_le.mpr selected)
  have third (clipped : budget < sumTokens countItemTokens
        (clippedHistory countItemTokens history steps budget ++ clip countItemTokens budget steps)) :
      ¬StageFits countItemTokens history steps budget .toolTruncated :=
    fun enough => absurd enough.1 (UInt32.not_le.mpr clipped)
  cases fitted with
  | verbatim _ fits =>
      exact ⟨fun _ => ⟨fits, fun same => by cases same⟩, fun stage below => by simp [planOk, FitRung.rank] at below⟩
  | historyTurnSelected _ raw fits =>
      rw [historyCounts, ← sumTokens_append] at fits
      refine ⟨fun _ => ⟨fits, fun same => by cases same⟩, fun stage below => ?_⟩
      cases stage with
      | verbatim => exact first raw
      | _ => simp [planOk, FitRung.rank] at below
  | toolTruncated _ _ raw selected fits =>
      refine ⟨fun _ => ⟨fits, fun same => by cases same⟩, fun stage below => ?_⟩
      cases stage with
      | verbatim => exact first raw
      | historyTurnSelected => exact second selected
      | _ => simp [planOk, FitRung.rank] at below
  | stepTurnsSelected _ _ raw selected clipped fits some' =>
      rw [stepCounts, ← sumTokens_append] at fits
      refine ⟨fun _ => ⟨fits, fun _ => some'⟩, fun stage below => ?_⟩
      cases stage with
      | verbatim => exact first raw
      | historyTurnSelected => exact second selected
      | toolTruncated => exact third clipped
      | _ => simp [planOk, FitRung.rank] at below
  | emergency _ _ raw selected clipped dropped =>
      rw [stepCounts, ← sumTokens_append] at dropped
      refine ⟨fun calm => absurd (planEmergency_rung ..) calm, fun stage below => ?_⟩
      cases stage with
      | verbatim => exact first raw
      | historyTurnSelected => exact second selected
      | toolTruncated => exact third clipped
      | stepTurnsSelected => exact fun enough => enough.2 rfl (dropped enough.1)
      | emergency =>
          rw [planEmergency_rung] at below
          exact absurd below (Nat.lt_irrefl _)

structure FitPlan.Contract (history steps : List T) (budget : UInt32) (plan : FitPlan T) : Prop where
  fits : plan.rung ≠ .emergency →
    plan.tokensFit = sumTokens countItemTokens plan.llmTurns ∧ plan.tokensFit ≤ budget
  suffixes : plan.rung ≠ .emergency → ∃ oldHistory oldSteps,
    plan.Suffixes countItemTokens history steps budget oldHistory oldSteps
  accounts : plan.Accounts history steps
  leastStage : budget ≠ 0 → plan.LeastStage countItemTokens history steps budget
  noBudget : budget = 0 → plan.rung = .emergency

/-- Counts of 32 bits hold the lengths. A budget of nothing goes straight to the last resort. -/
theorem fit_ladder_contract (history steps : List T) (budget : UInt32)
    (shortHistory : history.length < UInt32.size) (shortSteps : steps.length < UInt32.size) :
    (fitTurnsForSummarizer countItemTokens history steps budget).Contract countItemTokens history
      steps budget := by
  by_cases none' : budget = 0
  next =>
    subst none'
    refine
      { fits := fun calm => absurd rfl calm
        suffixes := fun calm => absurd rfl calm
        accounts := ?_
        leastStage := fun some' => absurd rfl some'
        noBudget := fun _ => rfl }
    have historyCast := UInt32.toNat_ofNat_of_lt' shortHistory
    have stepsCast := UInt32.toNat_ofNat_of_lt' shortSteps
    simp only [FitPlan.Accounts, fitTurnsForSummarizer, if_true, historyCast, stepsCast,
      List.length_nil, Nat.add_zero]
  next =>
    have fitted := fitTurnsForSummarizer_fitted countItemTokens history steps budget none'
    exact
      { fits := fitted.fits countItemTokens
        suffixes := fitted.suffixes countItemTokens
        accounts := fitted.accounts countItemTokens shortHistory shortSteps
        leastStage := fun _ => fitted.leastStage countItemTokens shortHistory shortSteps
        noBudget := fun empty => absurd empty none' }

end Contract

section Cases

theorem clipped_step_contract :
    (fitTurnsForSummarizer charCounter [mockUser "12345678"]
        [{ role := .tool, text := List.replicate 400 'x' }] 70).Contract charCounter
      [mockUser "12345678"] [{ role := .tool, text := List.replicate 400 'x' }] 70 :=
  fit_ladder_contract charCounter _ _ 70 (by decide) (by decide)

/-- Without a budget not even the empty input is passed on verbatim, and a length that a count of
32 bits does not hold is counted as none. -/
theorem ladder_without_budget :
    (¬∀ (history steps : List MockItem) (budget : UInt32),
      (fitTurnsForSummarizer charCounter history steps budget).LeastStage charCounter history steps
        budget) ∧
    ¬∀ (history steps : List MockItem) (budget : UInt32),
      (fitTurnsForSummarizer charCounter history steps budget).Accounts history steps := by
  constructor
  · intro claim
    have skipped := (claim [] [] 0).2 .verbatim (by decide)
    exact skipped ⟨by decide, fun same => by cases same⟩
  · intro claim
    have accounts := claim (List.replicate UInt32.size (mockUser "")) [] 0
    simp only [FitPlan.Accounts, fitTurnsForSummarizer, if_true, List.length_replicate,
      List.length_nil, Nat.add_zero] at accounts
    exact absurd accounts (by decide)

end Cases

end GrokPi.Compaction
