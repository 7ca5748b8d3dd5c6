import GrokPi.Editor.Plans

set_option autoImplicit false

namespace GrokPi.Editor

open Text

variable (seg : Segmentation) {text : Text}

section Atomic

structure Normalized (text : Text) (atomic : List Range) : Prop where
  nonempty : ∀ range ∈ atomic, range.1 < range.2
  start : ∀ range ∈ atomic, Boundary seg text range.1
  stop : ∀ range ∈ atomic, Boundary seg text range.2
  apart : atomic.Pairwise fun first second => first.2 ≤ second.1

def Outside (atomic : List Range) (position : Nat) : Prop :=
  ∀ range ∈ atomic, ¬ (range.1 < position ∧ position < range.2)

structure Edge (text : Text) (atomic : List Range) (position : Nat) : Prop where
  boundary : Boundary seg text position
  outside : Outside atomic position

theorem normalizeAtomicRange_spec {range result : Range}
    (normalized : normalizeAtomicRange seg text range = some result) :
    result.1 < result.2 ∧ Boundary seg text result.1 ∧ Boundary seg text result.2 := by
  unfold normalizeAtomicRange at normalized
  dsimp only at normalized
  split at normalized
  · simp at normalized
  split at normalized
  next forward =>
    obtain rfl := Option.some.inj normalized
    exact ⟨forward, (floor_spec seg text _).1, (ceil_spec seg text _).1⟩
  · simp at normalized

theorem normalizeAtomicRange_covers {range : Range} (forward : range.1 < range.2)
    (inside : range.2 ≤ byteLen text) :
    ∃ result, normalizeAtomicRange seg text range = some result ∧ result.1 ≤ range.1 ∧ range.2 ≤ result.2 := by
  -- A range that has a byte of the text is inside its normalized form.
  have rawStart : min (min range.1 range.2) (byteLen text) = range.1 := by omega
  have rawEnd : min (max range.1 range.2) (byteLen text) = range.2 := by omega
  have floor := (floor_spec seg text range.1).2
  have ceil := (ceil_spec seg text range.2).2
  have wide : floorGraphemeBoundary seg text range.1 < ceilGraphemeBoundary seg text range.2 := by omega
  refine ⟨(floorGraphemeBoundary seg text range.1, ceilGraphemeBoundary seg text range.2), ?_, ?_, ?_⟩
  · unfold normalizeAtomicRange
    dsimp only
    rw [rawStart, rawEnd, if_neg (by omega), if_pos wide]
  · change floorGraphemeBoundary seg text range.1 ≤ range.1
    omega
  · change range.2 ≤ ceilGraphemeBoundary seg text range.2
    omega

theorem mergeInto_spec {previous : Range} {rest : List Range} (good : Range → Prop)
    (wider : ∀ a b : Range, good a → good b → a.1 ≤ b.1 → good (a.1, max a.2 b.2))
    (first : good previous) (others : ∀ range ∈ rest, good range ∧ previous.1 ≤ range.1)
    (sorted : rest.Pairwise fun a b => a.1 ≤ b.1) :
    (∀ range ∈ mergeInto previous rest, good range ∧ previous.1 ≤ range.1) ∧
      (mergeInto previous rest).Pairwise (fun a b => a.2 ≤ b.1) ∧
      ∀ range ∈ previous :: rest, ∃ whole ∈ mergeInto previous rest, whole.1 ≤ range.1 ∧ range.2 ≤ whole.2 := by
  induction rest generalizing previous with
  | nil =>
      refine ⟨?_, List.pairwise_singleton _ _, ?_⟩
      · intro range member
        obtain rfl := List.mem_singleton.mp member
        exact ⟨first, le_refl _⟩
      · intro range member
        obtain rfl := List.mem_singleton.mp member
        exact ⟨range, List.mem_cons_self, le_refl _, le_refl _⟩
  | cons next rest ih =>
      obtain ⟨order, later⟩ := List.pairwise_cons.mp sorted
      obtain ⟨goodNext, above⟩ := others next List.mem_cons_self
      have rest' : ∀ range ∈ rest, good range := fun range member =>
        (others range (List.mem_cons_of_mem _ member)).1
      unfold mergeInto
      split
      · have merged := ih (wider previous next first goodNext above)
          (fun range member => ⟨rest' range member, (others range (List.mem_cons_of_mem _ member)).2⟩) later
        refine ⟨merged.1, merged.2.1, ?_⟩
        intro range member
        rcases List.mem_cons.mp member with rfl | member
        · obtain ⟨whole, there, low, high⟩ := merged.2.2 _ List.mem_cons_self
          exact ⟨whole, there, low, le_trans (le_max_left _ _) high⟩
        rcases List.mem_cons.mp member with rfl | member
        · obtain ⟨whole, there, low, high⟩ := merged.2.2 _ List.mem_cons_self
          exact ⟨whole, there, le_trans low above, le_trans (le_max_right _ _) high⟩
        · exact merged.2.2 range (List.mem_cons_of_mem _ member)
      next apart =>
        have merged := ih goodNext (fun range member => ⟨rest' range member, order range member⟩) later
        refine ⟨?_, ?_, ?_⟩
        · intro range member
          rcases List.mem_cons.mp member with rfl | member
          · exact ⟨first, le_refl _⟩
          · have there := merged.1 range member
            exact ⟨there.1, above.trans there.2⟩
        · refine List.pairwise_cons.mpr ⟨?_, merged.2.1⟩
          intro range member
          exact (Nat.le_of_not_lt apart).trans (merged.1 range member).2
        · intro range member
          rcases List.mem_cons.mp member with rfl | member
          · exact ⟨range, List.mem_cons_self, le_refl _, le_refl _⟩
          · obtain ⟨whole, there, bounds⟩ := merged.2.2 range member
            exact ⟨whole, List.mem_cons_of_mem _ there, bounds⟩

instance : Std.Total startsEarlier := ⟨fun a b => by
  unfold startsEarlier
  omega⟩

instance : IsTrans Range startsEarlier := ⟨fun a b c first second => by
  unfold startsEarlier at *
  omega⟩

theorem normalizeAtomicRanges_spec (text : Text) (ranges : List Range) :
    Normalized seg text (normalizeAtomicRanges seg text ranges) ∧
      ∀ range ∈ ranges, range.1 < range.2 → range.2 ≤ byteLen text →
        ∃ whole ∈ normalizeAtomicRanges seg text ranges, whole.1 ≤ range.1 ∧ range.2 ≤ whole.2 := by
  unfold normalizeAtomicRanges
  have sorted := List.pairwise_insertionSort startsEarlier (ranges.filterMap (normalizeAtomicRange seg text))
  have members : ∀ range, range ∈ (ranges.filterMap (normalizeAtomicRange seg text)).insertionSort startsEarlier ↔
      range ∈ ranges.filterMap (normalizeAtomicRange seg text) := fun range => List.mem_insertionSort _
  generalize (ranges.filterMap (normalizeAtomicRange seg text)).insertionSort startsEarlier = listed at sorted members
  let good := fun range : Range => range.1 < range.2 ∧ Boundary seg text range.1 ∧ Boundary seg text range.2
  have each : ∀ range ∈ listed, good range := by
    intro range member
    obtain ⟨raw, -, normalized⟩ := List.mem_filterMap.mp ((members range).mp member)
    exact normalizeAtomicRange_spec seg normalized
  have wider : ∀ a b : Range, good a → good b → a.1 ≤ b.1 → good (a.1, max a.2 b.2) := by
    rintro a b ⟨forward, start, stop⟩ ⟨-, -, stop'⟩ -
    refine ⟨lt_of_lt_of_le forward (le_max_left _ _), start, ?_⟩
    rcases max_choice a.2 b.2 with same | same
    · exact same.symm ▸ stop
    · exact same.symm ▸ stop'
  have covered : ∀ range ∈ ranges, range.1 < range.2 → range.2 ≤ byteLen text →
      ∃ result ∈ listed, result.1 ≤ range.1 ∧ range.2 ≤ result.2 := by
    intro range member forward inside
    obtain ⟨result, normalized, low, high⟩ := normalizeAtomicRange_covers seg forward inside
    exact ⟨result, (members result).mpr (List.mem_filterMap.mpr ⟨range, member, normalized⟩), low, high⟩
  cases listed with
  | nil =>
      refine ⟨⟨by simp [mergeRanges], by simp [mergeRanges], by simp [mergeRanges], List.Pairwise.nil⟩, ?_⟩
      intro range member forward inside
      obtain ⟨result, there, -⟩ := covered range member forward inside
      simp at there
  | cons first rest =>
      obtain ⟨order, later⟩ := List.pairwise_cons.mp sorted
      have starts : ∀ a b : Range, startsEarlier a b → a.1 ≤ b.1 := by
        intro a b earlier
        unfold startsEarlier at earlier
        omega
      have merged := mergeInto_spec good wider (each first List.mem_cons_self)
        (fun range member => ⟨each range (List.mem_cons_of_mem _ member), starts _ _ (order range member)⟩)
        (later.imp fun {a b} earlier => starts a b earlier)
      refine ⟨⟨fun range member => (merged.1 range member).1.1, fun range member => (merged.1 range member).1.2.1,
        fun range member => (merged.1 range member).1.2.2, merged.2.1⟩, ?_⟩
      intro range member forward inside
      obtain ⟨result, there, low, high⟩ := covered range member forward inside
      obtain ⟨whole, within, low', high'⟩ := merged.2.2 result there
      exact ⟨whole, within, low'.trans low, high.trans high'⟩

end Atomic

section Edges

variable {atomic : List Range} (normal : Normalized seg text atomic)

include normal

theorem ends_outside {range : Range} (member : range ∈ atomic) :
    Outside atomic range.1 ∧ Outside atomic range.2 := by
  have order : ∀ other ∈ atomic, other = range ∨ other.2 ≤ range.1 ∨ range.2 ≤ other.1 := by
    intro other within
    by_cases same : other = range
    · exact .inl same
    · have symmetric : atomic.Pairwise fun first second => first.2 ≤ second.1 ∨ second.2 ≤ first.1 :=
        normal.apart.imp Or.inl
      have either : Std.Symm fun first second : Range => first.2 ≤ second.1 ∨ second.2 ≤ first.1 :=
        ⟨fun _ _ => Or.symm⟩
      exact .inr (symmetric.forall within member same)
  have long := normal.nonempty range member
  constructor
  · rintro other within ⟨low, high⟩
    have long' := normal.nonempty other within
    rcases order other within with rfl | before | after
    · omega
    · omega
    · omega
  · rintro other within ⟨low, high⟩
    have long' := normal.nonempty other within
    rcases order other within with rfl | before | after
    · omega
    · omega
    · omega

theorem startEdge {range : Range} (member : range ∈ atomic) : Edge seg text atomic range.1 :=
  ⟨normal.start range member, (ends_outside seg normal member).1⟩

theorem stopEdge {range : Range} (member : range ∈ atomic) : Edge seg text atomic range.2 :=
  ⟨normal.stop range member, (ends_outside seg normal member).2⟩

theorem normalizeCursor_edge {cursor : Nat} (boundary : Boundary seg text cursor) :
    Edge seg text atomic (normalizeCursorForAtomicRanges cursor atomic) := by
  unfold normalizeCursorForAtomicRanges
  cases found : atomic.find? fun range => range.1 < cursor && cursor < range.2 with
  | none =>
      have outside : Outside atomic cursor := by
        intro range member inside
        have miss := List.find?_eq_none.mp found range member
        simp at miss
        omega
      exact ⟨boundary, outside⟩
  | some range =>
      have member := List.mem_of_find?_eq_some found
      dsimp only
      split
      · exact startEdge seg normal member
      · exact stopEdge seg normal member

theorem previousAtomic_spec (position : Nat) :
    Edge seg text atomic (previousAtomicBoundary seg text position atomic) ∧
      previousAtomicBoundary seg text position atomic ≤ position := by
  unfold previousAtomicBoundary
  cases found : atomic.find? fun range => range.1 < position && position ≤ range.2 with
  | some range =>
      have holds := List.find?_some found
      simp only [Bool.and_eq_true, decide_eq_true_eq] at holds
      exact ⟨startEdge seg normal (List.mem_of_find?_eq_some found), holds.1.le⟩
  | none =>
      obtain ⟨boundary, below, -⟩ := previous_spec seg text position
      dsimp only
      cases inside : atomic.find? fun range =>
          range.1 < previousGraphemeBoundary seg text position && previousGraphemeBoundary seg text position < range.2 with
      | none =>
          have outside : Outside atomic (previousGraphemeBoundary seg text position) := by
            intro range member within
            have miss := List.find?_eq_none.mp inside range member
            simp at miss
            omega
          exact ⟨⟨boundary, outside⟩, below⟩
      | some range =>
          have holds := List.find?_some inside
          simp only [Bool.and_eq_true, decide_eq_true_eq] at holds
          exact ⟨startEdge seg normal (List.mem_of_find?_eq_some inside), holds.1.le.trans below⟩

theorem nextAtomic_spec {position : Nat} (within : position ≤ byteLen text) :
    Edge seg text atomic (nextAtomicBoundary seg text position atomic) ∧
      position ≤ nextAtomicBoundary seg text position atomic := by
  unfold nextAtomicBoundary
  cases found : atomic.find? fun range => range.1 ≤ position && position < range.2 with
  | some range =>
      have holds := List.find?_some found
      simp only [Bool.and_eq_true, decide_eq_true_eq] at holds
      exact ⟨stopEdge seg normal (List.mem_of_find?_eq_some found), holds.2.le⟩
  | none =>
      obtain ⟨boundary, above, -⟩ := next_spec seg text position
      have above : position ≤ nextGraphemeBoundary seg text position := by omega
      dsimp only
      cases inside : atomic.find? fun range =>
          range.1 < nextGraphemeBoundary seg text position && nextGraphemeBoundary seg text position < range.2 with
      | none =>
          have outside : Outside atomic (nextGraphemeBoundary seg text position) := by
            intro range member within'
            have miss := List.find?_eq_none.mp inside range member
            simp at miss
            omega
          exact ⟨⟨boundary, outside⟩, above⟩
      | some range =>
          have holds := List.find?_some inside
          simp only [Bool.and_eq_true, decide_eq_true_eq] at holds
          exact ⟨stopEdge seg normal (List.mem_of_find?_eq_some inside), above.trans holds.2.le⟩

end Edges

section Replacement

def Clear (range atomic : Range) : Prop :=
  atomic.2 ≤ range.1 ∨ range.2 ≤ atomic.1 ∨ (range.1 ≤ atomic.1 ∧ atomic.2 ≤ range.2)

theorem absorb_clear {range atomic : Range} : Clear (absorb range atomic) atomic := by
  unfold absorb Clear
  split
  · dsimp only
    omega
  · omega

theorem absorb_wider (range atomic : Range) :
    (absorb range atomic).1 ≤ range.1 ∧ range.2 ≤ (absorb range atomic).2 := by
  unfold absorb
  split
  · dsimp only
    omega
  · exact ⟨le_refl _, le_refl _⟩

theorem absorb_keeps_clear {range earlier later : Range} (behind : earlier.2 ≤ later.1)
    (long : later.1 < later.2) (clear : Clear range earlier) :
    Clear (absorb range later) earlier := by
  unfold absorb Clear at *
  split
  · dsimp only
    omega
  · exact clear

theorem fold_keeps_clear {later : List Range} {earlier range : Range}
    (behind : ∀ other ∈ later, earlier.2 ≤ other.1 ∧ other.1 < other.2) (clear : Clear range earlier) :
    Clear (later.foldl absorb range) earlier := by
  induction later generalizing range with
  | nil => exact clear
  | cons next later ih =>
      have first := behind next List.mem_cons_self
      exact ih (fun other member => behind other (List.mem_cons_of_mem _ member))
        (absorb_keeps_clear first.1 first.2 clear)

variable {atomic : List Range}

theorem fold_clear (range : Range) (long : ∀ other ∈ atomic, other.1 < other.2)
    (apart : atomic.Pairwise fun first second => first.2 ≤ second.1) :
    ∀ other ∈ atomic, Clear (atomic.foldl absorb range) other := by
  induction atomic generalizing range with
  | nil => simp
  | cons first later ih =>
      obtain ⟨behind, apart'⟩ := List.pairwise_cons.mp apart
      have long' : ∀ one ∈ later, one.1 < one.2 := fun one there => long one (List.mem_cons_of_mem _ there)
      intro other member
      rcases List.mem_cons.mp member with same | within
      · rw [same, List.foldl_cons]
        exact fold_keeps_clear (fun one there => ⟨behind one there, long' one there⟩) absorb_clear
      · exact ih (absorb range first) long' apart' other within

theorem fold_wider (atomic : List Range) (range : Range) :
    (atomic.foldl absorb range).1 ≤ range.1 ∧ range.2 ≤ (atomic.foldl absorb range).2 := by
  induction atomic generalizing range with
  | nil => exact ⟨le_refl _, le_refl _⟩
  | cons first later ih =>
      have one := absorb_wider range first
      have rest := ih (absorb range first)
      exact ⟨rest.1.trans one.1, one.2.trans rest.2⟩

theorem absorb_of_clear {range atomic : Range} (clear : Clear range atomic) : absorb range atomic = range := by
  unfold absorb Clear at *
  split
  · have low : min range.1 atomic.1 = range.1 := by omega
    have high : max range.2 atomic.2 = range.2 := by omega
    rw [low, high]
  · rfl

theorem fold_of_clear {range : Range} (clear : ∀ other ∈ atomic, Clear range other) :
    atomic.foldl absorb range = range := by
  induction atomic with
  | nil => rfl
  | cons first later ih =>
      rw [List.foldl_cons, absorb_of_clear (clear first List.mem_cons_self)]
      exact ih fun other member => clear other (List.mem_cons_of_mem _ member)

theorem absorbAll_settled {range : Range} (rounds : Nat)
    (settled : atomic.foldl absorb (atomic.foldl absorb range) = atomic.foldl absorb range) :
    absorbAll atomic (rounds + 2) range = atomic.foldl absorb range := by
  unfold absorbAll
  dsimp only
  split
  next same => exact same.symm
  · unfold absorbAll
    dsimp only
    rw [if_pos settled]

theorem absorbAll_eq (normal : Normalized seg text atomic) (range : Range) (rounds : Nat) :
    absorbAll atomic (rounds + 2) range = atomic.foldl absorb range :=
  absorbAll_settled rounds (fold_of_clear (fold_clear range normal.nonempty normal.apart))

theorem fold_boundary {range : Range} (starts : ∀ other ∈ atomic, Boundary seg text other.1)
    (stops : ∀ other ∈ atomic, Boundary seg text other.2) (first : Boundary seg text range.1)
    (last : Boundary seg text range.2) :
    Boundary seg text (atomic.foldl absorb range).1 ∧ Boundary seg text (atomic.foldl absorb range).2 := by
  induction atomic generalizing range with
  | nil => exact ⟨first, last⟩
  | cons other later ih =>
      apply ih (fun one member => starts one (List.mem_cons_of_mem _ member))
        (fun one member => stops one (List.mem_cons_of_mem _ member))
      · unfold absorb
        split
        · rcases min_choice range.1 other.1 with same | same
          · exact same.symm ▸ first
          · exact same.symm ▸ starts other List.mem_cons_self
        · exact first
      · unfold absorb
        split
        · rcases max_choice range.2 other.2 with same | same
          · exact same.symm ▸ last
          · exact same.symm ▸ stops other List.mem_cons_self
        · exact last

theorem replacementRange_spec (normal : Normalized seg text atomic) (range : Range) :
    Edge seg text atomic (normalizeReplacementRange seg text range atomic).1 ∧
      Edge seg text atomic (normalizeReplacementRange seg text range atomic).2 ∧
        (normalizeReplacementRange seg text range atomic).1 ≤ (normalizeReplacementRange seg text range atomic).2 := by
  unfold normalizeReplacementRange
  dsimp only
  split
  · have edge := normalizeCursor_edge seg normal
      (externalCursor_boundary seg text (min (min range.1 range.2) (byteLen text)))
    exact ⟨edge, edge, le_refl _⟩
  · rw [absorbAll_eq seg normal]
    obtain ⟨first, low⟩ := floor_spec seg text (min (min range.1 range.2) (byteLen text))
    obtain ⟨last, high⟩ := ceil_spec seg text (min (max range.1 range.2) (byteLen text))
    have wide := fold_wider atomic (floorGraphemeBoundary seg text (min (min range.1 range.2) (byteLen text)),
      ceilGraphemeBoundary seg text (min (max range.1 range.2) (byteLen text)))
    have clear := fold_clear (floorGraphemeBoundary seg text (min (min range.1 range.2) (byteLen text)),
      ceilGraphemeBoundary seg text (min (max range.1 range.2) (byteLen text))) normal.nonempty normal.apart
    have whole : Boundary seg text (floorGraphemeBoundary seg text (min (min range.1 range.2) (byteLen text)),
        ceilGraphemeBoundary seg text (min (max range.1 range.2) (byteLen text))).1 := first
    obtain ⟨start, stop⟩ := fold_boundary seg normal.start normal.stop whole last
    generalize atomic.foldl absorb (floorGraphemeBoundary seg text (min (min range.1 range.2) (byteLen text)),
      ceilGraphemeBoundary seg text (min (max range.1 range.2) (byteLen text))) = settled at *
    dsimp only at wide
    have forward : settled.1 ≤ settled.2 := by omega
    refine ⟨⟨start, ?_⟩, ⟨stop, ?_⟩, forward⟩
    · intro other member inside
      have apart := clear other member
      unfold Clear at apart
      omega
    · intro other member inside
      have apart := clear other member
      unfold Clear at apart
      omega

end Replacement

section Walking

variable {atomic : List Range} (normal : Normalized seg text atomic)

include normal

omit normal in
theorem slice_boundaries {start stop : Nat} (forward : start ≤ stop) (first : Boundary seg text start)
    (last : Boundary seg text stop) : ∃ part, slice text start stop = some part := by
  obtain ⟨a, b, c, rfl, rfl, rfl⟩ := cut_thrice forward (boundary_isSome seg first) (boundary_isSome seg last)
  exact ⟨b, slice_middle a b c⟩

omit normal in
theorem atomicWordClass_some (style : WordStyle) {start stop : Nat} (forward : start ≤ stop)
    (first : Boundary seg text start) (last : Boundary seg text stop) :
    ∃ found, atomicWordClass seg text style atomic start stop = some found := by
  unfold atomicWordClass
  split
  · exact ⟨_, rfl⟩
  · obtain ⟨part, cut⟩ := slice_boundaries seg forward first last
    exact ⟨wordClass seg style part, by rw [cut]; rfl⟩

theorem walkBack_spec (style : WordStyle) (keep : Option WordClass → Bool) (rounds : Nat) {position : Nat}
    (edge : Edge seg text atomic position) :
    ∃ target, walkBack seg text style atomic keep rounds position = some target ∧
      Edge seg text atomic target ∧ target ≤ position := by
  induction rounds generalizing position with
  | zero => exact ⟨position, rfl, edge, le_refl _⟩
  | succ rounds ih =>
      unfold walkBack
      split
      · exact ⟨position, rfl, edge, le_refl _⟩
      · obtain ⟨edge', below⟩ := previousAtomic_spec seg normal position
        obtain ⟨found, classed⟩ := atomicWordClass_some seg style below edge'.boundary edge.boundary
        dsimp only
        rw [classed]
        dsimp only
        split
        · obtain ⟨target, walked, there, order⟩ := ih edge'
          exact ⟨target, walked, there, order.trans below⟩
        · exact ⟨position, rfl, edge, le_refl _⟩

theorem walkForward_spec (style : WordStyle) (keep : Option WordClass → Bool) (rounds : Nat) {position : Nat}
    (edge : Edge seg text atomic position) :
    ∃ target, walkForward seg text style atomic keep rounds position = some target ∧
      Edge seg text atomic target ∧ position ≤ target := by
  induction rounds generalizing position with
  | zero => exact ⟨position, rfl, edge, le_refl _⟩
  | succ rounds ih =>
      unfold walkForward
      split
      · exact ⟨position, rfl, edge, le_refl _⟩
      · obtain ⟨edge', above⟩ := nextAtomic_spec seg normal (boundary_le seg edge.boundary)
        obtain ⟨found, classed⟩ := atomicWordClass_some seg style above edge.boundary edge'.boundary
        dsimp only
        rw [classed]
        dsimp only
        split
        · obtain ⟨target, walked, there, order⟩ := ih edge'
          exact ⟨target, walked, there, above.trans order⟩
        · exact ⟨position, rfl, edge, le_refl _⟩

theorem previousWord_spec (style : WordStyle) {cursor : Nat} (edge : Edge seg text atomic cursor) :
    ∃ target, previousWordBoundary seg text style cursor atomic = some target ∧
      Edge seg text atomic target ∧ target ≤ cursor := by
  unfold previousWordBoundary
  obtain ⟨position, walked, there, order⟩ :=
    walkBack_spec seg normal style (· == some .whitespace) cursor edge
  rw [walked]
  cases position with
  | zero => exact ⟨0, rfl, there, Nat.zero_le _⟩
  | succ position =>
      obtain ⟨edge', below⟩ := previousAtomic_spec seg normal (position + 1)
      obtain ⟨target, classed⟩ := atomicWordClass_some seg style below edge'.boundary there.boundary
      simp only []
      rw [classed]
      obtain ⟨last, walked', there', order'⟩ :=
        walkBack_spec seg normal style (· == target) (position + 1) there
      exact ⟨last, walked', there', order'.trans order⟩

theorem nextWord_spec (style : WordStyle) {cursor : Nat} (edge : Edge seg text atomic cursor) :
    ∃ target, nextWordBoundary seg text style cursor atomic = some target ∧
      Edge seg text atomic target ∧ cursor ≤ target := by
  unfold nextWordBoundary
  obtain ⟨position, walked, there, order⟩ :=
    walkForward_spec seg normal style (· == some .whitespace) (byteLen text - cursor) edge
  rw [walked]
  dsimp only
  split
  · exact ⟨position, rfl, there, order⟩
  · obtain ⟨edge', above⟩ := nextAtomic_spec seg normal (boundary_le seg there.boundary)
    obtain ⟨target, classed⟩ := atomicWordClass_some seg style above there.boundary edge'.boundary
    rw [classed]
    obtain ⟨last, walked', there', order'⟩ :=
      walkForward_spec seg normal style (· == target) (byteLen text - position) there
    exact ⟨last, walked', there', order.trans order'⟩

end Walking

section LineSpecs

variable {atomic : List Range} {position : Nat}

theorem isLineFeed_spec (feed : isLineFeed text atomic position = true) :
    (∃ a b, text = a ++ '\n' :: b ∧ byteLen a = position) ∧
      ∀ range ∈ atomic, ¬ (range.1 ≤ position ∧ position < range.2) := by
  unfold isLineFeed at feed
  obtain ⟨char, clear⟩ := Bool.and_eq_true_iff.mp feed
  refine ⟨charAt_eq_some.mp (by simpa using char), ?_⟩
  intro range member inside
  have within : byteIsInsideAtomicRange position atomic = true :=
    List.any_eq_true.mpr ⟨range, member, by simpa using inside⟩
  simp [within] at clear

theorem behind_lineFeed (feed : isLineFeed text atomic position = true) :
    Edge seg text atomic (position + 1) := by
  obtain ⟨⟨a, b, rfl, rfl⟩, clear⟩ := isLineFeed_spec feed
  refine ⟨(boundary_iff seg).mpr (seg.after_lf a b), ?_⟩
  intro range member inside
  exact clear range member ⟨by omega, by omega⟩

theorem lineStart_spec (cursor : Nat) :
    Edge seg text atomic (lineStartAt text cursor atomic) ∧ lineStartAt text cursor atomic ≤ cursor := by
  unfold lineStartAt
  cases found : (List.range (min cursor (byteLen text))).reverse.find? (isLineFeed text atomic) with
  | none => exact ⟨⟨boundary_zero seg text, fun range _ inside => Nat.not_lt_zero _ inside.1⟩, Nat.zero_le _⟩
  | some position =>
      have before := List.mem_range.mp (List.mem_reverse.mp (List.mem_of_find?_eq_some found))
      refine ⟨behind_lineFeed seg (List.find?_some found), ?_⟩
      change position + 1 ≤ cursor
      omega

variable (normal : Normalized seg text atomic)

include normal

theorem end_edge : Edge seg text atomic (byteLen text) := by
  refine ⟨boundary_end seg text, ?_⟩
  intro range member inside
  have short := boundary_le seg (normal.stop range member)
  omega

omit normal in
theorem lineEnding_cut (feed : isLineFeed text atomic (position + 1) = true)
    (return' : charAt text position = some '\r') :
    ∃ a b, text = a ++ '\r' :: '\n' :: b ∧ byteLen a = position := by
  obtain ⟨⟨front, back, whole, length⟩, -⟩ := isLineFeed_spec feed
  obtain ⟨a, b, rfl, rfl⟩ := charAt_eq_some.mp return'
  have longer : byteLen (a ++ ['\r']) = byteLen front := by
    rw [byteLen_append, length]
    rfl
  have cut : splitAtByte (a ++ '\r' :: b) (byteLen (a ++ ['\r'])) = some (a ++ ['\r'], b) :=
    splitAtByte_eq_some.mpr ⟨by simp, rfl⟩
  rw [longer, whole, splitAtByte_append] at cut
  obtain rfl := (Prod.mk.inj (Option.some.inj cut)).2
  exact ⟨a, back, rfl, rfl⟩

theorem before_lineEnding (feed : isLineFeed text atomic (position + 1) = true)
    (return' : charAt text position = some '\r') : Edge seg text atomic position := by
  -- Between a carriage return and its line feed there is neither a boundary nor the end of an element.
  obtain ⟨-, clear⟩ := isLineFeed_spec feed
  obtain ⟨a, b, rfl, rfl⟩ := lineEnding_cut feed return'
  refine ⟨(boundary_iff seg).mpr (seg.before_cr a _), ?_⟩
  intro range member inside
  have stop : range.2 ≠ byteLen a + 1 := by
    intro same
    have boundary := (boundary_iff seg).mp (normal.stop range member)
    rw [same] at boundary
    exact seg.within_crlf a b boundary
  exact clear range member ⟨by omega, by omega⟩

theorem before_lineFeed (feed : isLineFeed text atomic position = true)
    (alone : ¬ (0 < position ∧ charAt text (position - 1) = some '\r')) : Edge seg text atomic position := by
  obtain ⟨⟨a, b, rfl, rfl⟩, clear⟩ := isLineFeed_spec feed
  have last : a.getLast? ≠ some '\r' := by
    intro last
    obtain ⟨front, rfl⟩ := List.getLast?_eq_some_iff.mp last
    have length : byteLen (front ++ ['\r']) = byteLen front + 1 := byteLen_append _ _
    apply alone
    rw [length]
    exact ⟨Nat.succ_pos _, charAt_eq_some.mpr ⟨front, '\n' :: b, by simp, rfl⟩⟩
  refine ⟨(boundary_iff seg).mpr (seg.before_lf a b last), ?_⟩
  intro range member inside
  exact clear range member ⟨by omega, inside.2⟩

theorem lineEnd_spec (cursor : Nat) :
    Edge seg text atomic (lineEndFrom text cursor atomic) ∧
      ∀ range, lineEndingAt text (lineEndFrom text cursor atomic) = some range →
        Edge seg text atomic range.2 ∧ lineEndFrom text cursor atomic ≤ range.2 := by
  unfold lineEndFrom
  dsimp only
  cases found : (List.range' (min cursor (byteLen text)) (byteLen text - min cursor (byteLen text))).find?
      (isLineFeed text atomic) with
  | none =>
      refine ⟨end_edge seg normal, ?_⟩
      intro range ending
      have cut : splitAtByte text (byteLen text) = some (text, []) := splitAtByte_eq_some.mpr ⟨by simp, rfl⟩
      simp [lineEndingAt, cut] at ending
  | some feed =>
      have isFeed := List.find?_some found
      dsimp only
      split
      next ended =>
        obtain ⟨position, rfl⟩ := Nat.exists_eq_succ_of_ne_zero (Nat.pos_iff_ne_zero.mp ended.1)
        refine ⟨before_lineEnding seg normal isFeed ended.2, ?_⟩
        intro range ending
        -- Both characters of the line ending are passed.
        have stop : range.2 = position + 1 + 1 := by
          obtain ⟨a, b, whole, length⟩ := lineEnding_cut isFeed ended.2
          have cut : splitAtByte text position = some (a, '\r' :: '\n' :: b) :=
            splitAtByte_eq_some.mpr ⟨whole, length⟩
          simp only [lineEndingAt, Nat.succ_sub_one, cut, Option.some.injEq] at ending
          exact ending ▸ rfl
        rw [stop]
        exact ⟨behind_lineFeed seg isFeed, by omega⟩
      next alone =>
        refine ⟨before_lineFeed seg normal isFeed alone, ?_⟩
        intro range ending
        have stop : range.2 = feed + 1 := by
          obtain ⟨⟨a, b, whole, length⟩, -⟩ := isLineFeed_spec isFeed
          have cut : splitAtByte text feed = some (a, '\n' :: b) := splitAtByte_eq_some.mpr ⟨whole, length⟩
          simp only [lineEndingAt, cut, Option.some.injEq] at ending
          exact ending ▸ rfl
        rw [stop]
        exact ⟨behind_lineFeed seg isFeed, by omega⟩

omit normal in
theorem lineStartTarget_spec (cursor : Nat) :
    Edge seg text atomic (logicalLineStartTarget seg text cursor atomic) := by
  unfold logicalLineStartTarget
  dsimp only
  split
  · exact (lineStart_spec seg _).1
  · exact (lineStart_spec seg _).1

theorem lineEndTarget_spec (cursor : Nat) : Edge seg text atomic (logicalLineEndTarget text cursor atomic) := by
  unfold logicalLineEndTarget
  dsimp only
  split
  · cases lineEndingAt text (lineEndFrom text cursor atomic) with
    | none => exact (lineEnd_spec seg normal _).1
    | some range => exact (lineEnd_spec seg normal _).1
  · exact (lineEnd_spec seg normal _).1

end LineSpecs

section Plans

structure Sound (buffer : EditBuffer) (ranges : List Range) (plan : EditPlan) : Prop where
  start : Edge seg buffer.text (normalizeAtomicRanges seg buffer.text ranges) plan.replacedByteRange.1
  stop : Edge seg buffer.text (normalizeAtomicRanges seg buffer.text ranges) plan.replacedByteRange.2
  forward : plan.replacedByteRange.1 ≤ plan.replacedByteRange.2
  removed : slice buffer.text plan.replacedByteRange.1 plan.replacedByteRange.2 = some plan.removedText
  valid : buffer.validatePlan seg plan = .ok ()

variable {buffer : EditBuffer} {ranges : List Range}

theorem makePlan_sound {start stop cursor : Nat} {replacement : Text} {affinity : PostEditCursorAffinity}
    (first : Edge seg buffer.text (normalizeAtomicRanges seg buffer.text ranges) start)
    (last : Edge seg buffer.text (normalizeAtomicRanges seg buffer.text ranges) stop) (forward : start ≤ stop)
    (short : cursor ≤ byteLen buffer.text - (stop - start) + byteLen replacement)
    (still : affinity = .exact' → start = stop ∧ replacement = [] ∧ Boundary seg buffer.text cursor) :
    ∃ plan, buffer.makePlan (start, stop) replacement cursor affinity = some plan ∧ Sound seg buffer ranges plan ∧
      plan.replacement = replacement := by
  have normal := (normalizeAtomicRanges_spec seg buffer.text ranges).1
  obtain ⟨part, cut⟩ := slice_boundaries seg forward first.boundary last.boundary
  refine ⟨_, by unfold EditBuffer.makePlan; rw [cut]; rfl, ⟨first, last, forward, cut, ?_⟩, rfl⟩
  have inside := boundary_le seg last.boundary
  have start' := boundary_isSome seg first.boundary
  have stop' := boundary_isSome seg last.boundary
  unfold EditBuffer.validatePlan
  dsimp only
  rw [if_neg (by simp), if_neg, if_neg (by simp [cut]), if_neg (by omega), if_neg]
  · rintro ⟨exact', wrong⟩
    obtain ⟨rfl, rfl, boundary⟩ := still exact'
    rcases wrong with differs | off
    · obtain ⟨-, -, -, -, length⟩ := slice_eq_some.mp cut
      have none' : part = [] := byteLen_eq_zero.mp (by omega)
      exact differs none'.symm
    · exact off boundary
  · rintro (back | long | first' | last' | off | off)
    · omega
    · omega
    · simp [Option.isNone_iff_eq_none] at first'
      simp [first'] at start'
    · simp [Option.isNone_iff_eq_none] at last'
      simp [last'] at stop'
    · exact off first.boundary
    · exact off last.boundary

theorem planReplace_sound (cursor : Boundary seg buffer.text buffer.cursorByte) (range : Range) (replacement : Text) :
    ∃ plan, buffer.planReplaceByteRange seg range replacement ranges = some plan ∧ Sound seg buffer ranges plan ∧
      plan.replacement = replacement := by
  have normal := (normalizeAtomicRanges_spec seg buffer.text ranges).1
  obtain ⟨first, last, forward⟩ := replacementRange_spec seg normal range
  have inside := boundary_le seg last.boundary
  have within := boundary_le seg (normalizeCursor_edge seg normal cursor).boundary
  unfold EditBuffer.planReplaceByteRange
  dsimp only
  generalize normalizeReplacementRange seg buffer.text range (normalizeAtomicRanges seg buffer.text ranges) = chosen
    at *
  obtain ⟨start, stop⟩ := chosen
  dsimp only at first last forward inside ⊢
  refine makePlan_sound seg first last forward ?_ (fun exact' : PostEditCursorAffinity.right = .exact' => nomatch exact')
  split
  · omega
  split
  · omega
  · omega

theorem planCommand_sound (cursor : Boundary seg buffer.text buffer.cursorByte) (command : EditCommand) :
    ∃ plan, buffer.planCommand seg command ranges = some plan ∧ Sound seg buffer ranges plan := by
  have normal := (normalizeAtomicRanges_spec seg buffer.text ranges).1
  have edge := normalizeCursor_edge seg normal cursor
  have within := boundary_le seg edge.boundary
  unfold EditBuffer.planCommand
  dsimp only
  generalize normalizeCursorForAtomicRanges buffer.cursorByte (normalizeAtomicRanges seg buffer.text ranges) = position
    at edge within
  have move : ∀ target, Edge seg buffer.text (normalizeAtomicRanges seg buffer.text ranges) target →
      ∃ plan, buffer.makePlan (position, position) [] target .exact' = some plan ∧ Sound seg buffer ranges plan := by
    intro target there
    have short := boundary_le seg there.boundary
    obtain ⟨plan, made, sound, -⟩ := makePlan_sound seg edge edge (le_refl _)
      (show target ≤ byteLen buffer.text - (position - position) + byteLen [] by simpa using short)
      (fun _ => ⟨rfl, rfl, there.boundary⟩)
    exact ⟨plan, made, sound⟩
  have delete : ∀ start stop, Edge seg buffer.text (normalizeAtomicRanges seg buffer.text ranges) start →
      Edge seg buffer.text (normalizeAtomicRanges seg buffer.text ranges) stop → start ≤ stop →
        ∃ plan, buffer.makePlan (start, stop) [] start .right = some plan ∧ Sound seg buffer ranges plan := by
    intro start stop first last forward
    have short := boundary_le seg last.boundary
    have short' : start ≤ byteLen buffer.text - (stop - start) + byteLen [] := by
      rw [byteLen_nil]
      omega
    obtain ⟨plan, made, sound, -⟩ := makePlan_sound seg first last forward short'
      (fun exact' : PostEditCursorAffinity.right = .exact' => nomatch exact')
    exact ⟨plan, made, sound⟩
  have back := previousAtomic_spec seg normal position
  have next := nextAtomic_spec seg normal within
  cases command with
  | insert character =>
      have short : position + character.utf8Size ≤
          byteLen buffer.text - (position - position) + byteLen [character] := by
        rw [byteLen_cons, byteLen_nil]
        omega
      obtain ⟨plan, made, sound, -⟩ := makePlan_sound seg edge edge (le_refl _) short
        (fun exact' : PostEditCursorAffinity.right = .exact' => nomatch exact')
      exact ⟨plan, made, sound⟩
  | moveGraphemeLeft => exact move _ back.1
  | moveGraphemeRight => exact move _ next.1
  | moveWordLeft style =>
      obtain ⟨target, found, there, -⟩ := previousWord_spec seg normal style edge
      dsimp only
      rw [found]
      exact move target there
  | moveWordRight style =>
      obtain ⟨target, found, there, -⟩ := nextWord_spec seg normal style edge
      dsimp only
      rw [found]
      exact move target there
  | moveLogicalLineStart => exact move _ (lineStartTarget_spec seg position)
  | moveLogicalLineEnd => exact move _ (lineEndTarget_spec seg normal position)
  | deleteGraphemeBackward => exact delete _ _ back.1 edge back.2
  | deleteGraphemeForward => exact delete _ _ edge next.1 next.2
  | deleteWordBackward style =>
      obtain ⟨target, found, there, order⟩ := previousWord_spec seg normal style edge
      dsimp only
      rw [found]
      exact delete target position there edge order
  | deleteWordForward style =>
      obtain ⟨target, found, there, order⟩ := nextWord_spec seg normal style edge
      dsimp only
      rw [found]
      exact delete position target edge there order
  | deleteToLineStart =>
      generalize normalizeAtomicRanges seg buffer.text ranges = atomic at *
      have line : Edge seg buffer.text atomic (lineStartAt buffer.text position atomic) ∧
          lineStartAt buffer.text position atomic ≤ position := lineStart_spec seg position
      dsimp only
      split
      next same =>
        have earlier := previousAtomic_spec seg normal (lineStartAt buffer.text position atomic)
        exact delete _ _ earlier.1 edge (earlier.2.trans line.2)
      · exact delete _ _ line.1 edge line.2
  | deleteToLineEnd =>
      obtain ⟨there, ending⟩ := lineEnd_spec seg normal position
      generalize lineEndFrom buffer.text position (normalizeAtomicRanges seg buffer.text ranges) = lineEnd at *
      dsimp only
      split
      next past =>
        rw [Nat.min_eq_right past]
        cases found : lineEndingAt buffer.text lineEnd with
        | none => exact delete _ _ there there (le_refl _)
        | some range => exact delete _ _ there (ending range found).1 (ending range found).2
      next before =>
        rw [Nat.min_eq_left (Nat.le_of_not_le before)]
        exact delete _ _ edge there (Nat.le_of_not_le before)

end Plans

end GrokPi.Editor
