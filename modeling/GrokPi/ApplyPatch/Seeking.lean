import GrokPi.ApplyPatch.Apply

set_option autoImplicit false

namespace GrokPi.ApplyPatch

variable {lines pattern : List Text} {start i : Nat} {eof : Bool}

inductive Comparison where
  | exact
  | rstrip
  | trim
  | normalise
  deriving DecidableEq

namespace Comparison

def key : Comparison → Text → Text
  | .exact => id
  | .rstrip => Text.trimEnd
  | .trim => Text.trim
  | .normalise => ApplyPatch.normalise

def rank : Comparison → Nat
  | .exact => 0
  | .rstrip => 1
  | .trim => 2
  | .normalise => 3

end Comparison

def Window (lines pattern : List Text) (comparison : Comparison) (i : Nat) : Prop :=
  i + pattern.length ≤ lines.length ∧
    ((lines.drop i).take pattern.length).map comparison.key = pattern.map comparison.key

section Passes

theorem windowMatches_iff (inside : i + pattern.length ≤ lines.length) (comparison : Comparison) :
    windowMatches comparison.key lines pattern i = true ↔ Window lines pattern comparison i := by
  rw [windowMatches, beq_iff_eq, Window]
  exact ⟨fun same => ⟨inside, same⟩, And.right⟩

theorem seekPass_some {comparison : Comparison} (fits : pattern.length ≤ lines.length) :
    seekPass comparison.key lines pattern start = some i ↔
      start ≤ i ∧ Window lines pattern comparison i ∧
        ∀ j, start ≤ j → Window lines pattern comparison j → i ≤ j := by
  rw [seekPass, List.find?_range'_eq_some]
  constructor
  · rintro ⟨found, listed, earlier⟩
    rw [List.mem_range'_1] at listed
    refine ⟨listed.1, (windowMatches_iff (by omega) comparison).mp found, ?_⟩
    intro j from' window
    by_contra before
    have none' := earlier j from' (by omega)
    rw [(windowMatches_iff window.1 comparison).mpr window] at none'
    cases none'
  · rintro ⟨from', window, least⟩
    have inside := window.1
    refine ⟨(windowMatches_iff inside comparison).mpr window, ?_, ?_⟩
    · rw [List.mem_range'_1]
      omega
    · intro j from'' before
      rw [Bool.not_eq_true', ← Bool.not_eq_true]
      intro found
      have later := least j from'' ((windowMatches_iff (by omega) comparison).mp found)
      omega

theorem seekPass_none {comparison : Comparison} (fits : pattern.length ≤ lines.length) :
    seekPass comparison.key lines pattern start = none ↔
      ∀ j, start ≤ j → ¬ Window lines pattern comparison j := by
  constructor
  · intro none' j from' window
    rw [seekPass, List.find?_eq_none] at none'
    have inside := window.1
    exact none' j (by rw [List.mem_range'_1]; omega) ((windowMatches_iff inside comparison).mpr window)
  · intro absent
    rw [Option.eq_none_iff_forall_ne_some]
    intro i found
    have ⟨from', window, _⟩ := (seekPass_some fits).mp found
    exact absent i from' window

structure Best (lines pattern : List Text) (first : Nat) (comparison : Comparison) (i : Nat) : Prop where
  window : Window lines pattern comparison i
  inside : first ≤ i
  least : ∀ j, first ≤ j → Window lines pattern comparison j → i ≤ j
  strictest : ∀ stricter : Comparison, stricter.rank < comparison.rank → ∀ j, first ≤ j →
    ¬ Window lines pattern stricter j

def searchStart (lines pattern : List Text) (start : Nat) (eof : Bool) : Nat :=
  if eof then lines.length - pattern.length else start

theorem seekSequence_passes (nonempty : pattern ≠ []) (fits : pattern.length ≤ lines.length) :
    seekSequence lines pattern start eof =
      ((seekPass Comparison.exact.key lines pattern (searchStart lines pattern start eof)).or
        ((seekPass Comparison.rstrip.key lines pattern (searchStart lines pattern start eof)).or
          ((seekPass Comparison.trim.key lines pattern (searchStart lines pattern start eof)).or
            (seekPass Comparison.normalise.key lines pattern (searchStart lines pattern start eof))))) := by
  rw [seekSequence, if_neg nonempty, if_neg (by omega)]
  rfl

theorem seekSequence_best (nonempty : pattern ≠ []) (found : seekSequence lines pattern start eof = some i) :
    ∃ comparison, Best lines pattern (searchStart lines pattern start eof) comparison i := by
  have fits : pattern.length ≤ lines.length := by
    by_contra longer
    rw [seekSequence, if_neg nonempty, if_pos (by omega)] at found
    cases found
  rw [seekSequence_passes nonempty fits] at found
  simp only [Option.or_eq_some_iff, seekPass_some fits, seekPass_none fits] at found
  -- The first pass that finds a window ends the search, and the stricter ones found none.
  obtain ⟨inside, window, least⟩ | ⟨notExact, ⟨inside, window, least⟩ | ⟨notRstrip,
    ⟨inside, window, least⟩ | ⟨notTrim, inside, window, least⟩⟩⟩ := found
  · refine ⟨.exact, window, inside, least, ?_⟩
    intro stricter below
    exact absurd below (Nat.not_lt_zero _)
  · refine ⟨.rstrip, window, inside, least, ?_⟩
    intro stricter below
    cases stricter with
    | exact => exact notExact
    | rstrip | trim | normalise => simp [Comparison.rank] at below
  · refine ⟨.trim, window, inside, least, ?_⟩
    intro stricter below
    cases stricter with
    | exact => exact notExact
    | rstrip => exact notRstrip
    | trim | normalise => simp [Comparison.rank] at below
  · refine ⟨.normalise, window, inside, least, ?_⟩
    intro stricter below
    cases stricter with
    | exact => exact notExact
    | rstrip => exact notRstrip
    | trim => exact notTrim
    | normalise => simp [Comparison.rank] at below

theorem seekSequence_none (nonempty : pattern ≠ []) (missing : seekSequence lines pattern start eof = none)
    (comparison : Comparison) {j : Nat} (from' : searchStart lines pattern start eof ≤ j) :
    ¬ Window lines pattern comparison j := by
  intro window
  have fits : pattern.length ≤ lines.length := by
    have inside := window.1
    omega
  rw [seekSequence_passes nonempty fits] at missing
  simp only [Option.or_eq_none_iff, seekPass_none fits] at missing
  obtain ⟨notExact, notRstrip, notTrim, notNormalise⟩ := missing
  cases comparison with
  | exact => exact notExact j from' window
  | rstrip => exact notRstrip j from' window
  | trim => exact notTrim j from' window
  | normalise => exact notNormalise j from' window

end Passes

section Contract

structure Sought (lines pattern : List Text) (start : Nat) (eof : Bool) (result : Option Nat) : Prop where
  complete : result.isSome = true ↔ ∃ comparison j, start ≤ j ∧ Window lines pattern comparison j
  inside : ∀ i, result = some i → start ≤ i
  best : ∀ i, result = some i → ∃ comparison, Window lines pattern comparison i ∧
    (∀ stricter : Comparison, stricter.rank < comparison.rank → ∀ j, start ≤ j →
      ¬ Window lines pattern stricter j) ∧
    (eof = true ∧ Window lines pattern comparison (lines.length - pattern.length) →
      i = lines.length - pattern.length) ∧
    (¬ (eof = true ∧ Window lines pattern comparison (lines.length - pattern.length)) →
      ∀ j, start ≤ j → Window lines pattern comparison j → i ≤ j)

/-- The last window stands behind `start`, and no window from there on matches under a comparison
stricter than the last one's. -/
def LastWindowBest (lines pattern : List Text) (start : Nat) : Prop :=
  (∀ comparison, Window lines pattern comparison (lines.length - pattern.length) →
    start ≤ lines.length - pattern.length) ∧
  ∀ comparison j, start ≤ j → Window lines pattern comparison j →
    ∃ strict : Comparison, strict.rank ≤ comparison.rank ∧
      Window lines pattern strict (lines.length - pattern.length)

theorem window_le_last {comparison : Comparison} (window : Window lines pattern comparison i) :
    i ≤ lines.length - pattern.length := by
  have inside := window.1
  omega

theorem sought_from_start (nonempty : pattern ≠ []) :
    Sought lines pattern start false (seekSequence lines pattern start false) := by
  cases found : seekSequence lines pattern start false with
  | none =>
      refine ⟨?_, by rintro _ ⟨⟩, by rintro _ ⟨⟩⟩
      constructor
      · intro none'
        cases none'
      · rintro ⟨comparison, j, from', window⟩
        exact absurd window (seekSequence_none nonempty found comparison from')
  | some i =>
      obtain ⟨comparison, best⟩ := seekSequence_best nonempty found
      refine ⟨?_, ?_, ?_⟩
      · exact ⟨fun _ => ⟨comparison, i, best.inside, best.window⟩, fun _ => rfl⟩
      · rintro _ ⟨⟩
        exact best.inside
      · rintro _ ⟨⟩
        refine ⟨comparison, best.window, best.strictest, ?_, fun _ => best.least⟩
        rintro ⟨none', -⟩
        cases none'

theorem sought_from_end (nonempty : pattern ≠ []) (last : LastWindowBest lines pattern start) :
    Sought lines pattern start true (seekSequence lines pattern start true) := by
  obtain ⟨behind, strict⟩ := last
  cases found : seekSequence lines pattern start true with
  | none =>
      refine ⟨?_, by rintro _ ⟨⟩, by rintro _ ⟨⟩⟩
      constructor
      · intro none'
        cases none'
      · rintro ⟨comparison, j, from', window⟩
        obtain ⟨stricter, -, there⟩ := strict comparison j from' window
        exact absurd there (seekSequence_none nonempty found stricter (Nat.le_refl _))
  | some i =>
      obtain ⟨comparison, best⟩ := seekSequence_best nonempty found
      have here : i = lines.length - pattern.length :=
        Nat.le_antisymm (window_le_last best.window) best.inside
      have window := best.window
      rw [here] at window
      have from' : start ≤ i := by
        rw [here]
        exact behind comparison window
      refine ⟨?_, ?_, ?_⟩
      · exact ⟨fun _ => ⟨comparison, i, from', best.window⟩, fun _ => rfl⟩
      · rintro _ ⟨⟩
        exact from'
      · rintro _ ⟨⟩
        refine ⟨comparison, best.window, ?_, fun _ => here, fun other => absurd ⟨rfl, window⟩ other⟩
        intro stricter below j later there
        -- The last window would match under a comparison that the last pass to fail has tried there.
        obtain ⟨least, le, last⟩ := strict stricter j later there
        exact best.strictest least (Nat.lt_of_le_of_lt le below) _ (Nat.le_refl _) last

theorem last_of_sought (nonempty : pattern ≠ [])
    (sought : Sought lines pattern start true (seekSequence lines pattern start true)) :
    LastWindowBest lines pattern start := by
  cases found : seekSequence lines pattern start true with
  | none =>
      rw [found] at sought
      refine ⟨?_, ?_⟩
      · intro comparison window
        exact absurd window (seekSequence_none nonempty found comparison (Nat.le_refl _))
      · intro comparison j from' window
        exact absurd (sought.complete.mpr ⟨comparison, j, from', window⟩) (by simp)
  | some i =>
      rw [found] at sought
      obtain ⟨_, best⟩ := seekSequence_best nonempty found
      have here : i = lines.length - pattern.length :=
        Nat.le_antisymm (window_le_last best.window) best.inside
      refine ⟨?_, ?_⟩
      · intro _ _
        rw [← here]
        exact sought.inside i rfl
      · intro comparison j from' window
        obtain ⟨chosen, there, strictest, -⟩ := sought.best i rfl
        refine ⟨chosen, ?_, here ▸ there⟩
        by_contra below
        exact strictest comparison (by omega) j from' window

theorem seek_contract_iff (lines pattern : List Text) (start : Nat) (eof : Bool) (nonempty : pattern ≠ []) :
    Sought lines pattern start eof (seekSequence lines pattern start eof) ↔
      (eof = true → LastWindowBest lines pattern start) := by
  cases eof with
  | false => exact ⟨fun _ none' => (nomatch none'), fun _ => sought_from_start nonempty⟩
  | true => exact ⟨fun sought _ => last_of_sought nonempty sought, fun last => sought_from_end nonempty (last rfl)⟩

theorem repeated_line_sought_at_end :
    Sought ["b".toList, "c".toList, "b".toList] ["b".toList] 0 true
      (seekSequence ["b".toList, "c".toList, "b".toList] ["b".toList] 0 true) := by
  refine (seek_contract_iff _ _ 0 true (List.cons_ne_nil _ _)).mpr fun _ => ⟨?_, ?_⟩
  · intro comparison _
    exact Nat.zero_le _
  · intro comparison j _ _
    exact ⟨.exact, Nat.zero_le _, by decide, rfl⟩

theorem line_above_end_missed :
    ¬ Sought ["b".toList, "c".toList] ["b".toList] 0 true
      (seekSequence ["b".toList, "c".toList] ["b".toList] 0 true) := by
  intro sought
  have found := sought.complete.mpr ⟨.exact, 0, Nat.le_refl _, by decide, rfl⟩
  exact absurd found (by decide)

end Contract

end GrokPi.ApplyPatch
