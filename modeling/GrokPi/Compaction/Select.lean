import Mathlib
import GrokPi.Shared.Saturating

set_option autoImplicit false

namespace GrokPi.Compaction

open GrokPi.Shared

class CompactionItem (T : Type) where
  isToolResult : T → Bool

export CompactionItem (isToolResult)

inductive CompactionRole where
  | system
  | developer
  | user
  | assistant
  | tool
  deriving DecidableEq

-- By default an item is a tool result by its role.
instance : CompactionItem CompactionRole where
  isToolResult role := role = .tool

variable {T : Type} [CompactionItem T]

structure SplitPlan where
  splitIdx : Nat
  tokensToCompact : UInt32
  deriving DecidableEq

def keepBackward (itemTokenCounts : List UInt32) (targetTokens : UInt32) : Nat → UInt32 → Nat
  | 0, _ => 0
  | index + 1, kept =>
      let count := itemTokenCounts.getD index 0
      if targetTokens < saturatingAdd kept count then index + 1
      else keepBackward itemTokenCounts targetTokens index (saturatingAdd kept count)

def snapToSafeBoundary (items : List T) (candidate : Nat) : Nat :=
  if items.length ≤ candidate then items.length
  else candidate + ((items.drop candidate).takeWhile isToolResult).length

def selectTurnsToCompact (itemTokenCounts : List UInt32) (items : List T)
    (targetTokens minCompactable : UInt32) : Option SplitPlan :=
  if items.length = 0 then none
  else
    let splitIdx := keepBackward itemTokenCounts targetTokens items.length 0
    if splitIdx = 0 then none
    else
      let safeSplitIdx := snapToSafeBoundary items splitIdx
      -- The snap may have passed every item.
      if items.length ≤ safeSplitIdx then none
      else
        let tokensToCompact := saturatingSum (itemTokenCounts.take safeSplitIdx)
        if tokensToCompact < minCompactable then none
        else some { splitIdx := safeSplitIdx, tokensToCompact := tokensToCompact }

def SafeSplit (items : List T) (index : Nat) : Prop :=
  ∃ item, items[index]? = some item ∧ isToolResult item = false

structure LeastSafe (itemTokenCounts : List UInt32) (items : List T) (targetTokens : UInt32)
    (index : Nat) : Prop where
  safe : SafeSplit items index
  fits : saturatingSum (itemTokenCounts.drop index) ≤ targetTokens
  least : ∀ earlier < index, SafeSplit items earlier →
    targetTokens < saturatingSum (itemTokenCounts.drop earlier)

section Walk

variable (counts : List UInt32) (target : UInt32)

theorem total_drop_step {index : Nat} (inside : index < counts.length) :
    total (counts.drop index) = (counts.getD index 0).toNat + total (counts.drop (index + 1)) := by
  rw [List.drop_eq_getElem_cons inside, total_cons, List.getD_eq_getElem _ _ inside]

theorem keepBackward_spec (index : Nat) (kept : UInt32) (inside : index ≤ counts.length)
    (keeps : kept = saturatingSum (counts.drop index)) (within : kept ≤ target) :
    saturatingSum (counts.drop (keepBackward counts target index kept)) ≤ target ∧
      keepBackward counts target index kept ≤ index ∧
      ∀ earlier < keepBackward counts target index kept,
        target < saturatingSum (counts.drop earlier) := by
  -- The loop stops at the first index from which the counts keep within the target.
  induction index generalizing kept with
  | zero => exact ⟨by simpa [keepBackward, keeps] using within, Nat.le_refl _, by simp [keepBackward]⟩
  | succ index ih =>
      have added : saturatingAdd kept (counts.getD index 0) = saturatingSum (counts.drop index) := by
        apply UInt32.toNat_inj.mp
        have step := total_drop_step counts inside
        simp only [keeps, saturatingAdd_toNat, saturatingSum_toNat, step]
        omega
      simp only [keepBackward, added]
      split
      next over' =>
        refine ⟨keeps ▸ within, Nat.le_refl _, fun earlier before => ?_⟩
        exact UInt32.lt_of_lt_of_le over'
          (saturatingSum_drop_mono counts (Nat.lt_succ_iff.mp before))
      next under =>
        obtain ⟨fits, below, least⟩ :=
          ih (saturatingSum (counts.drop index)) (Nat.le_of_succ_le inside) rfl
            (UInt32.not_lt.mp under)
        exact ⟨fits, Nat.le_succ_of_le below, least⟩

end Walk

section Snap

variable (items : List T)

theorem snapToSafeBoundary_spec (candidate : Nat) (inside : candidate ≤ items.length) :
    candidate ≤ snapToSafeBoundary items candidate ∧
      (∀ index, candidate ≤ index → index < snapToSafeBoundary items candidate →
        ¬SafeSplit items index) ∧
      (snapToSafeBoundary items candidate < items.length →
        SafeSplit items (snapToSafeBoundary items candidate)) := by
  -- The snap ends at a safe index or behind the items, and passes tool results only.
  unfold snapToSafeBoundary
  split
  next beyond => exact ⟨inside, fun index low high => by omega, fun below => by omega⟩
  next before =>
    obtain ⟨run, runs⟩ : ∃ run, run = (items.drop candidate).takeWhile isToolResult := ⟨_, rfl⟩
    obtain ⟨rest, rests⟩ : ∃ rest, rest = (items.drop candidate).dropWhile isToolResult := ⟨_, rfl⟩
    have split : items.drop candidate = run ++ rest := by
      rw [runs, rests, List.takeWhile_append_dropWhile]
    rw [← runs]
    refine ⟨Nat.le_add_right _ _, fun index low high safe => ?_, fun below => ?_⟩
    · -- Everything before the end of the run is a tool result.
      obtain ⟨item, found, plain⟩ := safe
      have located : (run ++ rest)[index - candidate]? = some item := by
        rw [← split, List.getElem?_drop, Nat.add_sub_cancel' low, found]
      rw [List.getElem?_append_left (by omega)] at located
      have tool := List.mem_takeWhile_imp (runs ▸ List.mem_of_getElem? located)
      simp [plain] at tool
    · have length := congrArg List.length split
      rw [List.length_drop, List.length_append] at length
      cases found : rest with
      | nil =>
          rw [found, List.length_nil] at length
          omega
      | cons item tail =>
          refine ⟨item, ?_, ?_⟩
          · rw [← List.getElem?_drop, split, List.getElem?_append_right (Nat.le_refl _), found]
            simp
          · have head := List.head?_dropWhile_not isToolResult (items.drop candidate)
            simpa [← rests, found] using head

end Snap

section Selection

variable (counts : List UInt32) (items : List T) (target minimum : UInt32)

def ToolRun (owner last : Nat) : Prop :=
  ∀ index, owner < index → index ≤ last → ∃ item, items[index]? = some item ∧ isToolResult item = true

inductive Selected : Option SplitPlan → Prop
  | everythingFits (fits : saturatingSum counts ≤ target) : Selected none
  | nothingFits (full : target < saturatingSum counts)
      (none' : ∀ index, SafeSplit items index → target < saturatingSum (counts.drop index)) :
      Selected none
  | split (index : Nat) (full : target < saturatingSum counts)
      (least : LeastSafe counts items target index) :
      Selected
        (if saturatingSum (counts.take index) < minimum then none
          else some { splitIdx := index, tokensToCompact := saturatingSum (counts.take index) })

theorem selectTurnsToCompact_selected (aligned : counts.length = items.length) :
    Selected counts items target minimum (selectTurnsToCompact counts items target minimum) := by
  unfold selectTurnsToCompact
  split
  next empty =>
    have nil : counts = [] := List.length_eq_zero_iff.mp (aligned.trans empty)
    exact .everythingFits (by simp [nil, UInt32.le_iff_toNat_le])
  next some' =>
    have start : (0 : UInt32) = saturatingSum (counts.drop items.length) := by
      rw [← aligned, List.drop_length, saturatingSum_nil]
    obtain ⟨fits, below, least⟩ := keepBackward_spec counts target items.length 0
      (Nat.le_of_eq aligned.symm) start (by simp [UInt32.le_iff_toNat_le])
    generalize keepBackward counts target items.length 0 = cut at fits below least
    simp only
    split
    next whole => exact .everythingFits (by simpa [whole] using fits)
    next partial' =>
      have full : target < saturatingSum counts := by
        simpa using least 0 (Nat.pos_of_ne_zero partial')
      obtain ⟨after, passed, lands⟩ := snapToSafeBoundary_spec items cut below
      generalize snapToSafeBoundary items cut = safe at after passed lands
      -- A safe index in front of the snap lies in front of the walk's end.
      have larger : ∀ earlier < safe, SafeSplit items earlier →
          target < saturatingSum (counts.drop earlier) := by
        intro earlier before isSafe
        by_cases walked : earlier < cut
        · exact least earlier walked
        · exact absurd isSafe (passed earlier (Nat.le_of_not_lt walked) before)
      split
      next beyond =>
        refine .nothingFits full fun index isSafe => larger index ?_ isSafe
        obtain ⟨item, found, -⟩ := isSafe
        exact Nat.lt_of_lt_of_le (List.getElem?_eq_some_iff.mp found).1 beyond
      next inside =>
        refine .split safe full
          { safe := lands (Nat.lt_of_not_le inside)
            fits := UInt32.le_trans (saturatingSum_drop_mono counts after) fits
            least := larger }

structure SplitPlan.Sound (plan : SplitPlan) : Prop where
  positive : 0 < plan.splitIdx
  inside : plan.splitIdx < items.length
  fits : saturatingSum (counts.drop plan.splitIdx) ≤ target
  head : ∀ item, items[plan.splitIdx]? = some item → isToolResult item = false
  runs : ∀ owner last, owner < plan.splitIdx → plan.splitIdx ≤ last → ¬ToolRun items owner last
  maximal : ∀ earlier < plan.splitIdx, SafeSplit items earlier →
    target < saturatingSum (counts.drop earlier)
  tokens : plan.tokensToCompact = saturatingSum (counts.take plan.splitIdx)
  enough : minimum ≤ plan.tokensToCompact

theorem LeastSafe.sound {index : Nat} (least : LeastSafe counts items target index)
    (full : target < saturatingSum counts)
    (enough : minimum ≤ saturatingSum (counts.take index)) :
    SplitPlan.Sound counts items target minimum
      { splitIdx := index, tokensToCompact := saturatingSum (counts.take index) } := by
  obtain ⟨item, found, plain⟩ := least.safe
  refine
    { positive := Nat.pos_of_ne_zero fun zero => ?_
      inside := (List.getElem?_eq_some_iff.mp found).1
      fits := least.fits
      head := fun other same => ?_
      runs := fun owner last before behind run => ?_
      maximal := least.least
      tokens := rfl
      enough := enough }
  · have fits := least.fits
    simp only at zero
    rw [zero, List.drop_zero] at fits
    exact absurd fits (UInt32.not_le.mpr full)
  · rw [found] at same
    exact (Option.some.inj same) ▸ plain
  · obtain ⟨other, same, tool⟩ := run index before behind
    rw [found] at same
    rw [← Option.some.inj same, plain] at tool
    exact Bool.noConfusion tool

def NoPlan : Prop :=
  saturatingSum counts ≤ target ∨
    (∀ index, SafeSplit items index → target < saturatingSum (counts.drop index)) ∨
    ∃ index, LeastSafe counts items target index ∧ saturatingSum (counts.take index) < minimum

/-- A split is safe, within the target and the largest such; without one there was a reason. -/
theorem split_is_safe_and_maximal (aligned : counts.length = items.length) :
    match selectTurnsToCompact counts items target minimum with
    | some plan => plan.Sound counts items target minimum
    | none => NoPlan counts items target minimum := by
  have selected := selectTurnsToCompact_selected counts items target minimum aligned
  generalize selectTurnsToCompact counts items target minimum = result at selected
  cases selected with
  | everythingFits fits => exact .inl fits
  | nothingFits _ none' => exact .inr (.inl none')
  | split index full least =>
      by_cases few : saturatingSum (counts.take index) < minimum
      · rw [if_pos few]
        exact .inr (.inr ⟨index, least, few⟩)
      · rw [if_neg few]
        exact least.sound counts items target minimum full (UInt32.not_lt.mp few)

theorem split_behind_tool_results :
    (SplitPlan.mk 5 130).Sound [10, 10, 10, 50, 50, 10]
      [CompactionRole.user, .assistant, .assistant, .tool, .tool, .assistant] 60 5 :=
  split_is_safe_and_maximal [10, 10, 10, 50, 50, 10]
    [CompactionRole.user, .assistant, .assistant, .tool, .tool, .assistant] 60 5 rfl

end Selection

end GrokPi.Compaction
