import GrokPi.Editor.UndoHistory

set_option autoImplicit false

namespace GrokPi.Editor

open Text TextArea

section Snapping

variable (seg : Segmentation) {text : Text} {elements : List TextElement} {position : Nat}

def ClearOf (elements : List TextElement) (position : Nat) : Prop :=
  ∀ element ∈ elements, ¬ (element.start < position ∧ position < element.stop)

instance (elements : List TextElement) (position : Nat) : Decidable (ClearOf elements position) :=
  inferInstanceAs (Decidable (∀ element ∈ elements, ¬ (element.start < position ∧ position < element.stop)))

structure Rests (text : Text) (elements : List TextElement) (cursor : Nat) : Prop where
  boundary : Boundary seg text cursor
  clear : ClearOf elements cursor

def Unstraddled (text : Text) (elements : List TextElement) : Prop :=
  ∀ element ∈ elements, (Boundary seg text element.start ∧ Boundary seg text element.stop) ∨
    ∀ inner < element.stop, element.start < inner → ¬ Boundary seg text inner

instance (text : Text) (elements : List TextElement) : Decidable (Unstraddled seg text elements) :=
  inferInstanceAs (Decidable (∀ element ∈ elements, (Boundary seg text element.start ∧ Boundary seg text element.stop) ∨
    ∀ inner < element.stop, element.start < inner → ¬ Boundary seg text inner))

variable {seg}

theorem ceil_clear (whole : Unstraddled seg text elements) (clear : ClearOf elements position) :
    ClearOf elements (ceilGraphemeBoundary seg text position) := by
  intro element member ⟨low, high⟩
  obtain ⟨boundary, above⟩ := ceil_spec seg text position
  rcases whole element member with ⟨start, stop⟩ | within
  · have outside := clear element member
    have inside := boundary_le seg stop
    by_cases before : position ≤ element.start
    · have below := ceil_le seg start before
      omega
    · omega
  · exact within _ high low boundary

theorem externalCursor_clear (whole : Unstraddled seg text elements) (clear : ClearOf elements position) :
    ClearOf elements (normalizeExternalCursor seg text position) := by
  intro element member ⟨low, high⟩
  rcases whole element member with ⟨start, stop⟩ | within
  · have outside := clear element member
    have inside := boundary_le seg stop
    have floor := (floor_spec seg text (min position (byteLen text))).2
    have ceil := (ceil_spec seg text (min position (byteLen text))).2
    unfold normalizeExternalCursor at low high
    dsimp only at low high
    by_cases before : position ≤ element.start
    · have below := ceil_le seg start (show min position (byteLen text) ≤ element.start by omega)
      split at low <;> omega
    · have above := le_floor seg stop (show element.stop ≤ min position (byteLen text) by omega)
      split at high <;> omega
  · exact within _ high low (externalCursor_boundary seg text position)

end Snapping

section Merging

variable {seg : Segmentation} {text : Text} {position : Nat}

theorem mergeInto_outside {previous : Range} {rest : List Range} (outside : Outside (previous :: rest) position) :
    Outside (mergeInto previous rest) position := by
  induction rest generalizing previous with
  | nil => exact outside
  | cons next rest ih =>
      have first := outside previous List.mem_cons_self
      have second := outside next (List.mem_cons_of_mem _ List.mem_cons_self)
      have later : Outside rest position := fun range member =>
        outside range (List.mem_cons_of_mem _ (List.mem_cons_of_mem _ member))
      unfold mergeInto
      split
      -- Ranges that are merged share a byte, so the position is in no gap between them.
      · apply ih
        intro range member
        rcases List.mem_cons.mp member with rfl | member
        · dsimp only
          omega
        · exact later range member
      · intro range member
        rcases List.mem_cons.mp member with rfl | member
        · exact first
        · exact ih (fun range member => outside range (List.mem_cons_of_mem _ member)) range member

theorem normalizeAtomicRanges_outside (boundary : Boundary seg text position) {ranges : List Range}
    (forward : ∀ range ∈ ranges, range.1 ≤ range.2 ∧ range.2 ≤ byteLen text) (outside : Outside ranges position) :
    Outside (normalizeAtomicRanges seg text ranges) position := by
  have each : Outside ((ranges.filterMap (normalizeAtomicRange seg text)).insertionSort startsEarlier) position := by
    intro range member
    rw [List.mem_insertionSort] at member
    obtain ⟨raw, within, normalized⟩ := List.mem_filterMap.mp member
    have order := forward raw within
    have apart := outside raw within
    unfold normalizeAtomicRange at normalized
    dsimp only at normalized
    split at normalized
    · cases normalized
    split at normalized
    · obtain rfl := Option.some.inj normalized
      rintro ⟨low, high⟩
      -- Only clusters are added at both ends, and none of them reaches over the position.
      have behind : raw.1 < position := by
        by_contra before
        have below := le_floor seg boundary (show position ≤ min (min raw.1 raw.2) (byteLen text) by omega)
        omega
      have before : position < raw.2 := by
        by_contra after
        have above := ceil_le seg boundary (show min (max raw.1 raw.2) (byteLen text) ≤ position by omega)
        omega
      exact apart ⟨behind, before⟩
    · cases normalized
  unfold normalizeAtomicRanges mergeRanges
  split
  next shape => exact shape ▸ each
  next shape =>
    rw [shape] at each
    exact mergeInto_outside each

theorem fold_start {atomic : List Range} {range : Range} (outside : Outside atomic position) (start : range.1 = position) :
    (atomic.foldl absorb range).1 = position := by
  induction atomic generalizing range with
  | nil => exact start
  | cons first later ih =>
      refine ih (fun other member => outside other (List.mem_cons_of_mem _ member)) ?_
      have apart := outside first List.mem_cons_self
      unfold absorb
      split
      · dsimp only
        omega
      · exact start

theorem replacementRange_start {atomic : List Range} (normal : Normalized seg text atomic)
    (boundary : Boundary seg text position) (outside : Outside atomic position) {stop : Nat} (forward : position < stop) :
    (normalizeReplacementRange seg text (position, stop) atomic).1 = position := by
  have within := boundary_le seg boundary
  have raw : min (min position stop) (byteLen text) = position := by omega
  unfold normalizeReplacementRange
  dsimp only
  rw [raw]
  split
  · rw [externalCursor_eq seg boundary]
    unfold normalizeCursorForAtomicRanges
    have none' : (atomic.find? fun range => range.1 < position && position < range.2) = none := by
      rw [List.find?_eq_none]
      intro range member
      simpa using outside range member
    rw [none']
  · rw [absorbAll_eq seg normal]
    exact fold_start outside (floor_eq seg boundary)

end Merging

section Selections

variable {seg : Segmentation} {made : List (Nat × Text)} {area : TextArea} {position : Nat}

theorem elementRanges_outside (clear : ClearOf area.elements position) : Outside area.elementRanges position := by
  intro range member
  obtain ⟨element, there, rfl⟩ := List.mem_map.mp member
  exact clear element there

theorem Sane.forward (sane : Sane seg made area) :
    ∀ range ∈ area.elementRanges, range.1 ≤ range.2 ∧ range.2 ≤ byteLen area.buffer.text := by
  intro range member
  obtain ⟨element, there, rfl⟩ := List.mem_map.mp member
  exact sane.elements.forward there

theorem Sane.edge_clear (sane : Sane seg made area)
    (edge : Edge seg area.buffer.text (normalizeAtomicRanges seg area.buffer.text area.elementRanges) position) :
    ClearOf area.elements position := by
  intro element member ⟨low, high⟩
  obtain ⟨-, inside⟩ := sane.elements.forward member
  obtain ⟨whole, there, wide, wide'⟩ := (normalizeAtomicRanges_spec seg area.buffer.text area.elementRanges).2
    element.range (List.mem_map_of_mem member) (low.trans high) inside
  have outside := edge.outside whole there
  unfold TextElement.range at wide wide'
  dsimp only at wide wide'
  omega

theorem absorb_empty {range : Range} {point : Nat} : absorb range (point, point) = range := by
  unfold absorb
  split
  next overlap =>
    dsimp only at overlap ⊢
    rw [Nat.min_eq_left (by omega), Nat.max_eq_left (by omega)]
  · rfl

theorem fold_nonempty (ranges : List Range) (forward : ∀ range ∈ ranges, range.1 ≤ range.2) (range : Range) :
    ranges.foldl absorb range = (ranges.filter fun other => other.1 < other.2).foldl absorb range := by
  induction ranges generalizing range with
  | nil => rfl
  | cons first rest ih =>
      have rest' := ih (fun range member => forward range (List.mem_cons_of_mem _ member))
      by_cases long : first.1 < first.2
      · rw [List.filter_cons_of_pos (by simpa using long), List.foldl_cons, List.foldl_cons]
        exact rest' _
      · have point : first = (first.1, first.1) :=
          Prod.ext rfl (Nat.le_antisymm (Nat.le_of_not_lt long) (forward first List.mem_cons_self))
        rw [List.filter_cons_of_neg (by simpa using long), List.foldl_cons, point, absorb_empty]
        exact rest' _

theorem absorbAll_wider (atomic : List Range) (rounds : Nat) (range : Range) :
    (absorbAll atomic rounds range).1 ≤ range.1 ∧ range.2 ≤ (absorbAll atomic rounds range).2 := by
  induction rounds generalizing range with
  | zero => exact ⟨le_refl _, le_refl _⟩
  | succ rounds ih =>
      unfold absorbAll
      dsimp only
      split
      · exact ⟨le_refl _, le_refl _⟩
      · have first := fold_wider atomic range
        have rest := ih (atomic.foldl absorb range)
        exact ⟨rest.1.trans first.1, first.2.trans rest.2⟩

theorem Sane.expanded_clear (sane : Sane seg made area) (range : Range) :
    ∀ element ∈ area.elements, element.start < element.stop → Clear (area.expandRangeToElementBoundaries range) element.range := by
  intro element member long
  have forward : ∀ range ∈ area.elementRanges, range.1 ≤ range.2 := fun range member => (sane.forward range member).1
  have apart : (area.elementRanges.filter fun other => other.1 < other.2).Pairwise fun first second => first.2 ≤ second.1 := by
    have both := (List.pairwise_and_iff.mpr ⟨sane.elements.sorted, sane.elements.apart⟩)
    have ranges : area.elementRanges.Pairwise fun a b => a.1 ≤ b.1 ∧ (a.2 ≤ b.1 ∨ b.2 ≤ a.1) := List.pairwise_map.mpr both
    refine (List.pairwise_filter.mpr (ranges.imp ?_))
    intro a b order longA longB
    have longA := of_decide_eq_true longA
    have longB := of_decide_eq_true longB
    omega
  -- Empty elements widen nothing, and the others lie apart, so one pass is enough.
  have settled (range : Range) : ∀ other ∈ area.elementRanges.filter fun other => other.1 < other.2,
      Clear (area.elementRanges.foldl absorb range) other := by
    rw [fold_nonempty _ forward]
    exact fold_clear range (fun other member => of_decide_eq_true (List.mem_filter.mp member).2) apart
  have kept : element.range ∈ area.elementRanges.filter fun other => other.1 < other.2 :=
    List.mem_filter.mpr ⟨List.mem_map_of_mem member, decide_eq_true long⟩
  have again (range : Range) : area.elementRanges.foldl absorb (area.elementRanges.foldl absorb range) =
      area.elementRanges.foldl absorb range := by
    rw [fold_nonempty _ forward (area.elementRanges.foldl absorb range)]
    exact fold_of_clear (settled range)
  obtain ⟨rounds, count⟩ : ∃ rounds, 2 * area.elements.length + 1 = rounds + 2 := by
    have some' := List.length_pos_of_mem member
    exact ⟨2 * area.elements.length - 1, by omega⟩
  unfold expandRangeToElementBoundaries
  rw [count, absorbAll_settled rounds (again range)]
  exact settled range _ kept

theorem le_charBoundaryBelow {text : Text} {position bound : Nat} (character : (splitAtByte text position).isSome)
    (below : position ≤ bound) : position ≤ charBoundaryBelow text bound := by
  induction bound with
  | zero => exact below
  | succ bound ih =>
      unfold charBoundaryBelow
      split
      · exact below
      next off =>
        rcases Nat.lt_or_eq_of_le below with lower | rfl
        · exact ih (Nat.le_of_lt_succ lower)
        · exact absurd character off

theorem charBoundaryBelow_le (text : Text) (bound : Nat) : charBoundaryBelow text bound ≤ bound := by
  induction bound with
  | zero => exact le_refl _
  | succ bound ih =>
      unfold charBoundaryBelow
      split
      · exact le_refl _
      · exact ih.trans (Nat.le_succ _)

theorem Sane.selection_clear (sane : Sane seg made area) {range : Range} (selected : area.selectionRange = some range) :
    ClearOf area.elements range.1 ∧ range.1 < range.2 := by
  unfold selectionRange at selected
  split at selected
  · cases selected
  next selection _ =>
    split at selected
    · cases selected
    next different =>
      dsimp only at selected
      split at selected
      · cases selected
      next forward =>
        obtain rfl := Option.some.inj selected
        refine ⟨fun element member ⟨low, high⟩ => ?_, Nat.lt_of_not_le forward⟩
        dsimp only at low high
        have wide := absorbAll_wider area.elementRanges (2 * area.elements.length + 1)
          (min selection.anchor selection.head, max selection.anchor selection.head)
        have clear := sane.expanded_clear (min selection.anchor selection.head, max selection.anchor selection.head)
          element member (low.trans high)
        unfold expandRangeToElementBoundaries at low high clear
        generalize absorbAll area.elementRanges (2 * area.elements.length + 1)
          (min selection.anchor selection.head, max selection.anchor selection.head) = expanded at *
        -- The ends are taken to characters; an element that is ahead ends on one.
        have below := charBoundaryBelow_le area.buffer.text (min expanded.1 (byteLen area.buffer.text))
        have character := (sane.elements.wellPlaced.onCharacters element member).2
        have inside := (sane.elements.forward member).2
        unfold Clear TextElement.range at clear
        dsimp only at clear wide
        have ahead : element.stop ≤ expanded.1 := by omega
        have above := le_charBoundaryBelow character (show element.stop ≤ min expanded.1 (byteLen area.buffer.text) by omega)
        omega

end Selections

section Aims

variable (seg : Segmentation) {buffer : EditBuffer} {ranges : List Range} {plan : EditPlan}

def Aimed (buffer : EditBuffer) (ranges : List Range) (plan : EditPlan) : Prop :=
  ∃ cursor, Edge seg buffer.text (normalizeAtomicRanges seg buffer.text ranges) cursor ∧
    ((plan.cursorAffinity = .exact' ∧ plan.cursorByte = cursor ∧ plan.isSemanticEdit = false) ∨
      (plan.cursorAffinity = .right ∧
        plan.cursorByte = adjustPositionAfterEdit cursor plan.replacedByteRange (byteLen plan.replacement)))

variable {seg}

theorem planReplace_aimed (cursor : Boundary seg buffer.text buffer.cursorByte) {range : Range} {replacement : Text}
    (planned : buffer.planReplaceByteRange seg range replacement ranges = some plan) : Aimed seg buffer ranges plan := by
  have normal := (normalizeAtomicRanges_spec seg buffer.text ranges).1
  unfold EditBuffer.planReplaceByteRange EditBuffer.makePlan at planned
  obtain ⟨removed, -, rfl⟩ := Option.map_eq_some_iff.mp planned
  exact ⟨_, normalizeCursor_edge seg normal cursor, .inr ⟨rfl, rfl⟩⟩

theorem delete_aimed {start stop : Nat} (edge : Edge seg buffer.text (normalizeAtomicRanges seg buffer.text ranges) start)
    (forward : start ≤ stop) (planned : buffer.makePlan (start, stop) [] start .right = some plan) :
    Aimed seg buffer ranges plan := by
  unfold EditBuffer.makePlan at planned
  obtain ⟨removed, -, rfl⟩ := Option.map_eq_some_iff.mp planned
  refine ⟨start, edge, .inr ⟨rfl, ?_⟩⟩
  unfold adjustPositionAfterEdit
  dsimp only
  rw [if_neg (Nat.lt_irrefl _), if_pos forward]
  rfl

theorem move_aimed {position target : Nat} (edge : Edge seg buffer.text (normalizeAtomicRanges seg buffer.text ranges) target)
    (planned : buffer.makePlan (position, position) [] target .exact' = some plan) : Aimed seg buffer ranges plan := by
  have plain := move_plain planned
  unfold EditBuffer.makePlan at planned
  obtain ⟨removed, -, rfl⟩ := Option.map_eq_some_iff.mp planned
  exact ⟨target, edge, .inl ⟨rfl, rfl, plain⟩⟩

theorem planCommand_aimed (cursor : Boundary seg buffer.text buffer.cursorByte) {command : EditCommand}
    (planned : buffer.planCommand seg command ranges = some plan) : Aimed seg buffer ranges plan := by
  have normal := (normalizeAtomicRanges_spec seg buffer.text ranges).1
  have edge := normalizeCursor_edge seg normal cursor
  have within := boundary_le seg edge.boundary
  unfold EditBuffer.planCommand at planned
  dsimp only at planned
  generalize normalizeCursorForAtomicRanges buffer.cursorByte (normalizeAtomicRanges seg buffer.text ranges) = position
    at edge within planned
  have back := previousAtomic_spec seg normal position
  have next := nextAtomic_spec seg normal within
  cases command with
  | insert character =>
      unfold EditBuffer.makePlan at planned
      obtain ⟨removed, -, rfl⟩ := Option.map_eq_some_iff.mp planned
      refine ⟨position, edge, .inr ⟨rfl, ?_⟩⟩
      unfold adjustPositionAfterEdit
      dsimp only
      rw [if_neg (Nat.lt_irrefl _), if_pos (le_refl _), byteLen_cons, byteLen_nil, Nat.add_zero]
  -- The moves go to a neighbouring edge or to one of the line.
  | moveGraphemeLeft => exact move_aimed back.1 planned
  | moveGraphemeRight => exact move_aimed next.1 planned
  | moveWordLeft style =>
      obtain ⟨target, found, there, -⟩ := previousWord_spec seg normal style edge
      simp only [found, Option.bind_some] at planned
      exact move_aimed there planned
  | moveWordRight style =>
      obtain ⟨target, found, there, -⟩ := nextWord_spec seg normal style edge
      simp only [found, Option.bind_some] at planned
      exact move_aimed there planned
  | moveLogicalLineStart => exact move_aimed (lineStartTarget_spec seg position) planned
  | moveLogicalLineEnd => exact move_aimed (lineEndTarget_spec seg normal position) planned
  | deleteGraphemeBackward => exact delete_aimed back.1 back.2 planned
  | deleteGraphemeForward => exact delete_aimed edge next.2 planned
  | deleteWordBackward style =>
      obtain ⟨target, found, there, order⟩ := previousWord_spec seg normal style edge
      simp only [found, Option.bind_some] at planned
      exact delete_aimed there order planned
  | deleteWordForward style =>
      obtain ⟨target, found, there, order⟩ := nextWord_spec seg normal style edge
      simp only [found, Option.bind_some] at planned
      exact delete_aimed edge order planned
  | deleteToLineStart =>
      dsimp only at planned
      have line := @lineStart_spec seg buffer.text (normalizeAtomicRanges seg buffer.text ranges) position
      split at planned
      · have earlier := previousAtomic_spec seg normal (lineStartAt buffer.text position
          (normalizeAtomicRanges seg buffer.text ranges))
        exact delete_aimed earlier.1 (earlier.2.trans line.2) planned
      · exact delete_aimed line.1 line.2 planned
  | deleteToLineEnd =>
      obtain ⟨there, ending⟩ := lineEnd_spec seg normal position
      dsimp only at planned
      generalize lineEndFrom buffer.text position (normalizeAtomicRanges seg buffer.text ranges) = lineEnd
        at there ending planned
      split at planned
      next past =>
        rw [Nat.min_eq_right past] at planned
        cases found : lineEndingAt buffer.text lineEnd with
        | none =>
            rw [found] at planned
            exact delete_aimed there (le_refl _) planned
        | some range =>
            rw [found] at planned
            exact delete_aimed there (ending range found).2 planned
      next before =>
        rw [Nat.min_eq_left (Nat.le_of_not_le before)] at planned
        exact delete_aimed edge (Nat.le_of_not_le before) planned

end Aims

section Edits

variable {seg : Segmentation} {made : List (Nat × Text)} {area next : TextArea} {plan : EditPlan}
variable {kind : Option MutationKind}

theorem applyValidated_moved (sane : Sane seg made area) (sound : Sound seg area.buffer area.elementRanges plan)
    (applied : area.applyValidatedEditPlan seg plan kind = some next) :
    ∀ moved ∈ next.elements, ∃ old ∈ area.elements,
      (old.stop ≤ plan.replacedByteRange.1 ∧ moved.start = old.start ∧ moved.stop = old.stop) ∨
        (plan.replacedByteRange.2 ≤ old.start ∧
          moved.start = old.start - (plan.replacedByteRange.2 - plan.replacedByteRange.1) + byteLen plan.replacement ∧
          moved.stop = old.stop - (plan.replacedByteRange.2 - plan.replacedByteRange.1) + byteLen plan.replacement) := by
  -- An element that is left stands in front of the edit as before, or behind it and moved along.
  have spared := edges_spare seg sane.elements sound.start sound.stop
  have forward := sound.forward
  unfold applyValidatedEditPlan at applied
  obtain ⟨buffer, -, rfl⟩ := Option.map_eq_some_iff.mp applied
  intro moved member
  dsimp only at member
  split at member
  · obtain ⟨old, within, rfl⟩ := List.mem_map.mp member
    have stop : plan.replacedByteRange.1 + (plan.replacedByteRange.2 - plan.replacedByteRange.1) =
        plan.replacedByteRange.2 := by omega
    obtain ⟨there, beside⟩ := kept_beside (by rw [stop]; exact spared) within
    refine ⟨old, there, ?_⟩
    unfold Beside at beside
    by_cases before : old.stop ≤ plan.replacedByteRange.1
    · rw [shift_before before]
      exact .inl ⟨before, rfl, rfl⟩
    · rw [shift_behind before (by omega)]
      exact .inr ⟨by omega, rfl, rfl⟩
  next plain =>
    obtain ⟨same, empty⟩ := plain_edit (Bool.eq_false_iff.mpr plain)
    obtain ⟨-, -, -, -, length⟩ := slice_eq_some.mp sound.removed
    have none' : byteLen plan.replacement = 0 := by
      rw [← same]
      omega
    have apart := spared moved member
    have order := (sane.elements.forward member).1
    unfold Spared at apart
    refine ⟨moved, member, ?_⟩
    omega

theorem applyValidated_cursor (applied : area.applyValidatedEditPlan seg plan kind = some next) :
    (plan.cursorAffinity = .exact' → next.buffer.cursorByte = plan.cursorByte) ∧
      (plan.cursorAffinity = .right →
        next.buffer.cursorByte = ceilGraphemeBoundary seg next.buffer.text plan.cursorByte) := by
  unfold applyValidatedEditPlan at applied
  obtain ⟨buffer, moved, rfl⟩ := Option.map_eq_some_iff.mp applied
  have cursor : (plan.cursorAffinity = .exact' → buffer.cursorByte = plan.cursorByte) ∧
      (plan.cursorAffinity = .right → buffer.cursorByte = ceilGraphemeBoundary seg buffer.text plan.cursorByte) := by
    unfold EditBuffer.applyValidatedPlan at moved
    dsimp only at moved
    obtain ⟨text, -, rfl⟩ := Option.map_eq_some_iff.mp moved
    rw [(advance_if _ _).1, (advance_if _ _).2]
    exact ⟨fun affinity => by simp only [affinity], fun affinity => by simp only [affinity]⟩
  dsimp only
  split
  · exact cursor
  · exact cursor

theorem applyValidated_rests (sane : Sane seg made area) (sound : Sound seg area.buffer area.elementRanges plan)
    (aimed : Aimed seg area.buffer area.elementRanges plan)
    (applied : area.applyValidatedEditPlan seg plan kind = some next)
    (whole : Unstraddled seg next.buffer.text next.elements) :
    Rests seg next.buffer.text next.elements next.buffer.cursorByte := by
  obtain ⟨same, applied', sane', -⟩ := applyValidated_sane sane sound kind
  obtain rfl : next = same := Option.some.inj (applied.symm.trans applied')
  refine ⟨sane'.cursor, ?_⟩
  obtain ⟨cursor, edge, ⟨affinity, target, plain⟩ | ⟨affinity, target⟩⟩ := aimed
  -- A move, which leaves the elements, and then an edit, which moves them along.
  · have elements : next.elements = area.elements := congrArg Prod.snd (applyValidated_plain plain applied)
    rw [(applyValidated_cursor applied).1 affinity, elements, target]
    exact sane.edge_clear edge
  · rw [(applyValidated_cursor applied).2 affinity]
    apply ceil_clear whole
    rw [target]
    have clear := sane.edge_clear edge
    have forward := sound.forward
    intro moved member inside
    obtain ⟨old, there, place⟩ := applyValidated_moved sane sound applied moved member
    have outside := clear old there
    unfold adjustPositionAfterEdit at inside
    split at inside
    · omega
    split at inside
    · omega
    · omega

end Edits

section Placing

variable {seg : Segmentation} {made : List (Nat × Text)} {area next : TextArea}

def Lays (seg : Segmentation) (result : Option TextArea) : Prop :=
  ∀ next, result = some next → Unstraddled seg next.buffer.text next.elements → ClearOf next.elements next.buffer.cursorByte

theorem Lays.map {result : Option TextArea} {change : TextArea → TextArea} (lays : Lays seg result)
    (same : ∀ next, (change next).buffer = next.buffer ∧ (change next).elements = next.elements) :
    Lays seg (result.map change) := by
  intro next changed whole
  obtain ⟨before, found, rfl⟩ := Option.map_eq_some_iff.mp changed
  obtain ⟨buffer, elements⟩ := same before
  rw [buffer, elements] at whole ⊢
  exact lays before found whole

theorem lays_same (clear : ClearOf area.elements area.buffer.cursorByte) : Lays seg (some area) := by
  rintro next ⟨⟩ -
  exact clear

theorem applyEditPlan_carried {plan : EditPlan} {kind : Option MutationKind}
    (applied : area.applyEditPlan seg plan kind = some next) :
    ∃ before edited, (before = area ∨ ∃ mutation, before = area.preMutate mutation) ∧
      before.applyValidatedEditPlan seg plan kind = some edited ∧ (next = edited ∨ next = edited.postMutate) := by
  rcases applyEditPlan_cases applied with ⟨mutation, edited, found, rfl⟩ | ⟨-, found⟩
  · exact ⟨_, edited, .inr ⟨mutation, rfl⟩, found, .inr rfl⟩
  · exact ⟨area, next, .inl rfl, found, .inl rfl⟩

theorem noted_bookkeeping {before : TextArea} (noted : before = area ∨ ∃ mutation, before = area.preMutate mutation) :
    Bookkeeping area before := by
  rcases noted with rfl | ⟨mutation, rfl⟩
  · exact .of_undo_eq rfl rfl rfl rfl
  · exact preMutate_bookkeeping area mutation

theorem applyEditPlan_lays (sane : Sane seg made area) {plan : EditPlan}
    (sound : Sound seg area.buffer area.elementRanges plan) (aimed : Aimed seg area.buffer area.elementRanges plan)
    (kind : Option MutationKind) : Lays seg (area.applyEditPlan seg plan kind) := by
  intro next applied whole
  obtain ⟨before, edited, noted, found, shown⟩ := applyEditPlan_carried applied
  have kept := noted_bookkeeping noted
  have aimed' : Aimed seg before.buffer before.elementRanges plan := by
    unfold elementRanges at *
    rw [kept.buffer, kept.elements]
    exact aimed
  rcases shown with rfl | rfl
  · exact (applyValidated_rests (sane.bookkeeping kept) (sound.bookkeeping kept) aimed' found whole).clear
  · exact (applyValidated_rests (sane.bookkeeping kept) (sound.bookkeeping kept) aimed' found whole).clear

theorem applyEditPlan_place (sane : Sane seg made area) {plan : EditPlan}
    (sound : Sound seg area.buffer area.elementRanges plan) {kind : Option MutationKind}
    (applied : area.applyEditPlan seg plan kind = some next) :
    ClearOf next.elements plan.replacedByteRange.1 ∧ plan.replacedByteRange.1 ≤ byteLen next.buffer.text := by
  obtain ⟨before, edited, noted, found, shown⟩ := applyEditPlan_carried applied
  have kept := noted_bookkeeping noted
  obtain ⟨same, found', -, -, a, c, text, start, free⟩ :=
    applyValidated_sane (sane.bookkeeping kept) (sound.bookkeeping kept) kind
  obtain rfl : edited = same := Option.some.inj (found.symm.trans found')
  have place : ClearOf edited.elements plan.replacedByteRange.1 ∧ plan.replacedByteRange.1 ≤ byteLen edited.buffer.text := by
    rw [text, ← start, byteLen_append, byteLen_append]
    refine ⟨fun element member inside => ?_, by omega⟩
    have apart := free element member
    omega
  rcases shown with rfl | rfl
  · exact place
  · exact place

theorem applyEditCommand_lays (sane : Sane seg made area) (command : EditCommand) (kind : Option MutationKind) :
    Lays seg (area.applyEditCommand seg command kind) := by
  obtain ⟨plan, planned, sound⟩ := planEditCommand_sound sane command
  unfold applyEditCommand
  rw [planned]
  exact applyEditPlan_lays sane sound (planCommand_aimed sane.cursor planned) kind

theorem applyEditReplacement_lays (sane : Sane seg made area) (range : Range) (text : Text) (kind : MutationKind) :
    Lays seg (area.applyEditReplacement seg range text kind) := by
  obtain ⟨plan, planned, sound, -⟩ := planEditReplacement_sound sane range text
  unfold applyEditReplacement
  rw [planned]
  exact applyEditPlan_lays sane sound (planReplace_aimed sane.cursor planned) (some kind)

theorem noteInserted_shown (text : Text) (area : TextArea) :
    (area.noteInserted text).buffer = area.buffer ∧ (area.noteInserted text).elements = area.elements :=
  ⟨(noteInserted_bookkeeping area text).buffer, (noteInserted_bookkeeping area text).elements⟩

theorem insertStr_lays (sane : Sane seg made area) (text : Text)
    (clear : text = [] → ClearOf area.elements area.buffer.cursorByte) : Lays seg (area.insertStr seg text) := by
  unfold insertStr
  split
  next none' => exact lays_same (clear none')
  · exact (applyEditReplacement_lays (sane.bookkeeping (breakBatch_bookkeeping area text)) _ text .insert).map
      (noteInserted_shown text)

theorem insertStrAt_lays (sane : Sane seg made area) (clear : ClearOf area.elements area.buffer.cursorByte) (position : Nat)
    (text : Text) : Lays seg (area.insertStrAt seg position text) := by
  unfold insertStrAt
  split
  · exact lays_same clear
  · exact (applyEditReplacement_lays sane _ text .insert).map (noteInserted_shown text)

theorem applyClassifiedCommand_lays (sane : Sane seg made area) (command : EditCommand) :
    Lays seg (area.applyClassifiedCommand seg command) := by
  unfold applyClassifiedCommand
  split
  · exact insertStr_lays sane _ (fun none' => by cases none')
  · exact applyEditCommand_lays sane _ _

theorem setText_lays (text : Text) : Lays seg (area.setText seg text) := by
  intro next applied _ element member
  obtain ⟨edited, -, none', rfl⟩ := setText_cases applied
  rw [show edited.postMutate.elements = [] from none'] at member
  cases member

theorem killCurrentLine_lays (sane : Sane seg made area) (clear : ClearOf area.elements area.buffer.cursorByte) :
    Lays seg (area.killCurrentLine seg) := by
  unfold killCurrentLine
  dsimp only
  split
  · split
    · exact applyEditReplacement_lays sane _ [] .kill
    · exact lays_same clear
  · exact applyEditReplacement_lays sane _ [] .kill

theorem ends_clear {text : Text} {elements : List TextElement} (whole : Whole made text elements) {element : TextElement}
    (member : element ∈ elements) : ClearOf elements element.start ∧ ClearOf elements element.stop := by
  have either : Std.Symm fun a b : TextElement => a.stop ≤ b.start ∨ b.stop ≤ a.start := ⟨fun _ _ => Or.symm⟩
  have order : ∀ other ∈ elements, other = element ∨ other.stop ≤ element.start ∨ element.stop ≤ other.start := by
    intro other within
    by_cases same : other = element
    · exact .inl same
    · exact .inr (whole.apart.forall within member same)
  have forward := (whole.forward member).1
  constructor
  · rintro other within ⟨low, high⟩
    rcases order other within with rfl | apart
    · omega
    · omega
  · rintro other within ⟨low, high⟩
    rcases order other within with rfl | apart
    · omega
    · omega

theorem clampPos_clear {text : Text} (whole : Whole made text area.elements) (position : Nat) :
    ClearOf area.elements (area.clampPosToNearestBoundary position) := by
  unfold clampPosToNearestBoundary
  dsimp only
  split
  next none' =>
    intro element member inside
    have missed := List.find?_eq_none.mp none' element member
    simp only [Bool.and_eq_true, decide_eq_true_eq] at missed
    exact missed inside
  next element found =>
    have member := List.mem_of_find?_eq_some found
    split
    · exact (ends_clear whole member).1
    · exact (ends_clear whole member).2

theorem setCursorByte_clear {position : Nat} (clear : ClearOf area.elements position)
    (elements : next.elements = area.elements) (buffer : next.buffer = area.buffer.setCursorByte seg position)
    (whole : Unstraddled seg next.buffer.text next.elements) : ClearOf next.elements next.buffer.cursorByte := by
  have cursor : next.buffer.cursorByte = normalizeExternalCursor seg area.buffer.text position := by
    rw [buffer]
    unfold EditBuffer.setCursorByte
    dsimp only
    rw [(advance_if _ _).2]
  rw [buffer, (setCursorByte_spec seg area.buffer position).1, elements] at whole
  rw [cursor, elements]
  exact externalCursor_clear whole clear

theorem setCursorInner_lays {position : Nat} (clear : ClearOf area.elements position) :
    Lays seg (some (area.setCursorInner seg position)) := by
  intro next placed
  obtain rfl := Option.some.inj placed
  exact setCursorByte_clear clear rfl rfl

theorem deleteSelection_lays (sane : Sane seg made area) (clear : ClearOf area.elements area.buffer.cursorByte)
    (cuts : ∀ range, area.selectionRange = some range → Boundary seg area.buffer.text range.1) :
    Lays seg (area.deleteSelection seg) := by
  unfold deleteSelection
  split
  · exact lays_same clear
  next range selected =>
    intro next applied whole
    obtain ⟨edited, replaced, rfl⟩ := Option.map_eq_some_iff.mp applied
    -- The deletion begins where the selection does, and there no element is left.
    obtain ⟨plan, planned, sound, -⟩ := planEditReplacement_sound sane range []
    obtain ⟨free, forward⟩ := sane.selection_clear selected
    have normal := (normalizeAtomicRanges_spec seg area.buffer.text area.elementRanges).1
    have boundary := cuts range selected
    have start : plan.replacedByteRange.1 = range.1 := by
      unfold planEditReplacement EditBuffer.planReplaceByteRange EditBuffer.makePlan at planned
      obtain ⟨removed, -, rfl⟩ := Option.map_eq_some_iff.mp planned
      exact replacementRange_start normal boundary
        (normalizeAtomicRanges_outside boundary sane.forward (elementRanges_outside free)) forward
    unfold applyEditReplacement at replaced
    rw [planned, Option.bind_some] at replaced
    obtain ⟨place, inside⟩ := applyEditPlan_place sane sound replaced
    rw [start] at place inside
    rw [Nat.min_eq_left inside] at whole ⊢
    exact setCursorByte_clear place rfl rfl whole

theorem endUndoGroup_shown (area : TextArea) :
    area.endUndoGroup.buffer = area.buffer ∧ area.endUndoGroup.elements = area.elements :=
  ⟨(endUndoGroup_bookkeeping area).buffer, (endUndoGroup_bookkeeping area).elements⟩

theorem insertStrReplacingSelection_lays (sane : Sane seg made area) (clear : ClearOf area.elements area.buffer.cursorByte)
    (text : Text) (cuts : text = [] → ∀ range, area.selectionRange = some range → Boundary seg area.buffer.text range.1) :
    Lays seg (area.insertStrReplacingSelection seg text) := by
  unfold insertStrReplacingSelection
  split
  · exact insertStr_lays sane.deselected text fun _ => clear
  · refine Lays.map (fun next applied whole => ?_) endUndoGroup_shown
    obtain ⟨cleared, deleted, inserted⟩ := Option.bind_eq_some_iff.mp applied
    have begun := sane.bookkeeping (beginUndoGroup_bookkeeping area)
    by_cases none' : text = []
    · rw [insertStr, if_pos none'] at inserted
      obtain rfl := Option.some.inj inserted
      exact deleteSelection_lays begun clear (cuts none') cleared deleted whole
    · obtain ⟨same, deleted', sane'⟩ := deleteSelection_lands begun
      obtain rfl : cleared = same := Option.some.inj (deleted.symm.trans deleted')
      exact insertStr_lays sane' text (fun none'' => absurd none'' none') next inserted whole

theorem yank_lays (sane : Sane seg made area) (clear : ClearOf area.elements area.buffer.cursorByte) :
    Lays seg (area.yank seg) := by
  unfold yank
  split
  · exact lays_same clear
  dsimp only
  intro next applied whole
  obtain ⟨cleared, found, applied⟩ := Option.bind_eq_some_iff.mp applied
  have sane' : Sane seg made cleared := by
    split at found
    · obtain ⟨same, deleted, sane'⟩ := deleteSelection_lands (sane.bookkeeping (beginUndoGroup_bookkeeping area))
      obtain rfl : cleared = same := Option.some.inj (found.symm.trans deleted)
      exact sane'
    · obtain rfl := Option.some.inj found
      exact sane
  refine Lays.map (applyEditReplacement_lays sane' _ _ .insert) (fun before => ?_) next applied whole
  obtain ⟨buffer, elements⟩ := noteInserted_shown cleared.killBuffer
    (if area.selectionRange.isSome = true then before.endUndoGroup else before)
  rw [buffer, elements]
  split
  · exact endUndoGroup_shown before
  · exact ⟨rfl, rfl⟩

theorem replaceRangeWithElement_lays (sane : Sane seg made area) (range : Range) (text : Text) :
    Lays seg (area.replaceRangeWithElement seg range text) := by
  intro next applied whole
  obtain ⟨same, applied', sane'⟩ := replaceRangeWithElement_lands sane range text
  obtain rfl : next = same := Option.some.inj (applied.symm.trans applied')
  obtain ⟨plan, -, carried⟩ := Option.bind_eq_some_iff.mp applied
  obtain ⟨edited, -, shown⟩ := applyElementTransaction_cases carried
  generalize edited.addElement plan.replacedByteRange.1 (plan.replacedByteRange.1 + byteLen plan.replacement) = added
    at shown
  have elements : next.elements = added.elements := by
    rw [shown]
    rfl
  have kept := sane'.elements
  rw [elements] at kept
  exact setCursorByte_clear (clampPos_clear kept _) elements (by rw [shown]; rfl) whole

theorem inlineElement_lays (sane : Sane seg made area) (clear : ClearOf area.elements area.buffer.cursorByte) (id : Nat) :
    Lays seg (some (area.inlineElement seg id)) := by
  unfold inlineElement
  split
  · exact lays_same clear
  next element found =>
    have noted := preMutate_bookkeeping area .element
    have stop := (ends_clear sane.elements (List.mem_of_find?_eq_some found)).2
    have fewer : ClearOf ((area.preMutate .element).elements.eraseP fun element => element.id = id) element.stop := by
      intro other member
      rw [noted.elements] at member
      exact stop other (List.mem_of_mem_eraseP member)
    intro next inlined whole
    obtain rfl := Option.some.inj inlined
    exact @setCursorByte_clear seg { area.preMutate .element with
      elements := (area.preMutate .element).elements.eraseP fun element => element.id = id } _ _ fewer rfl rfl whole

end Placing

section Recording

variable {seg : Segmentation} {area next : TextArea}

structure Recorded (area next : TextArea) : Prop where
  entries : ∀ entry ∈ next.undo.entries, entry ∈ area.undo.entries ∨ entry = area.snapshot
  grouped : 0 < area.undo.groupDepth →
    next.undo.groupDepth = area.undo.groupDepth ∧ ∀ entry ∈ next.undo.entries, entry ∈ area.undo.entries

def Records (area : TextArea) (result : Option TextArea) : Prop := ∀ next, result = some next → Recorded area next

variable {before : TextArea}

theorem Recorded.shown (recorded : Recorded area before) (entries : next.undo.entries = before.undo.entries)
    (depth : next.undo.groupDepth = before.undo.groupDepth) : Recorded area next := by
  refine ⟨fun entry member => recorded.entries entry (entries ▸ member), fun inside => ?_⟩
  obtain ⟨same, kept⟩ := recorded.grouped inside
  exact ⟨depth.trans same, fun entry member => kept entry (entries ▸ member)⟩

theorem Recorded.postMutate (recorded : Recorded area next) : Recorded area next.postMutate := recorded.shown rfl rfl

theorem recorded_self (area : TextArea) : Recorded area area :=
  ⟨fun _ member => .inl member, fun _ => ⟨rfl, fun _ member => member⟩⟩

theorem records_same : Records area (some area) := by
  rintro next ⟨⟩
  exact recorded_self area

variable {result : Option TextArea}

theorem Records.map {change : TextArea → TextArea} (records : Records area result)
    (entries : ∀ next, (change next).undo.entries = next.undo.entries)
    (depth : ∀ next, (change next).undo.groupDepth = next.undo.groupDepth) : Records area (result.map change) := by
  intro next changed
  obtain ⟨before, found, rfl⟩ := Option.map_eq_some_iff.mp changed
  exact (records before found).shown (entries before) (depth before)

theorem preMutate_recorded (area : TextArea) (kind : MutationKind) : Recorded area (area.preMutate kind) := by
  refine ⟨(preMutate_bookkeeping area kind).history, fun inside => ?_⟩
  unfold preMutate
  rw [if_pos inside]
  exact ⟨rfl, fun _ member => member⟩

theorem applyEditPlan_records (plan : EditPlan) (kind : Option MutationKind) :
    Records area (area.applyEditPlan seg plan kind) := by
  intro next applied
  obtain ⟨before, edited, noted, found, shown⟩ := applyEditPlan_carried applied
  have recorded : Recorded area before := by
    rcases noted with rfl | ⟨mutation, rfl⟩
    · exact recorded_self _
    · exact preMutate_recorded area mutation
  have undo := applyValidated_undo found
  have edit : Recorded area edited := recorded.shown (by rw [undo]) (by rw [undo])
  rcases shown with rfl | rfl
  · exact edit
  · exact edit.postMutate

theorem applyEditReplacement_records (range : Range) (text : Text) (kind : MutationKind) :
    Records area (area.applyEditReplacement seg range text kind) := by
  intro next applied
  obtain ⟨plan, -, applied⟩ := Option.bind_eq_some_iff.mp applied
  exact applyEditPlan_records plan _ next applied

theorem noteInserted_entries (text : Text) (area : TextArea) :
    (area.noteInserted text).undo.entries = area.undo.entries ∧
      (area.noteInserted text).undo.groupDepth = area.undo.groupDepth := by
  unfold noteInserted
  split
  · exact ⟨rfl, rfl⟩
  · exact ⟨rfl, rfl⟩

theorem breakBatch_entries (text : Text) (area : TextArea) :
    (area.breakBatch text).undo.entries = area.undo.entries ∧
      (area.breakBatch text).undo.groupDepth = area.undo.groupDepth ∧ (area.breakBatch text).snapshot = area.snapshot := by
  unfold breakBatch
  split
  · exact ⟨rfl, rfl, rfl⟩
  split
  · exact ⟨rfl, rfl, rfl⟩
  · exact ⟨rfl, rfl, rfl⟩

theorem insertStr_records (text : Text) : Records area (area.insertStr seg text) := by
  unfold insertStr
  split
  · exact records_same
  · refine Records.map (fun next applied => ?_) (fun next => (noteInserted_entries text next).1)
      fun next => (noteInserted_entries text next).2
    obtain ⟨entries, depth, snapshot⟩ := breakBatch_entries text area
    have recorded := applyEditReplacement_records _ text .insert next applied
    refine ⟨fun entry member => ?_, fun inside => ?_⟩
    · rw [← entries, ← snapshot]
      exact recorded.entries entry member
    · rw [← entries, ← depth]
      exact recorded.grouped (depth ▸ inside)

theorem insertStrAt_records (position : Nat) (text : Text) : Records area (area.insertStrAt seg position text) := by
  unfold insertStrAt
  split
  · exact records_same
  · exact (applyEditReplacement_records _ text .insert).map (fun next => (noteInserted_entries text next).1)
      fun next => (noteInserted_entries text next).2

theorem applyClassifiedCommand_records (command : EditCommand) : Records area (area.applyClassifiedCommand seg command) := by
  unfold applyClassifiedCommand
  split
  · exact insertStr_records _
  · intro next applied
    obtain ⟨plan, -, applied⟩ := Option.bind_eq_some_iff.mp applied
    exact applyEditPlan_records plan _ next applied

theorem setText_records (text : Text) : Records area (area.setText seg text) := by
  intro next applied
  obtain ⟨edited, undo, -, rfl⟩ := setText_cases applied
  have edit : Recorded area edited := (preMutate_recorded area .replace).shown (by rw [undo]) (by rw [undo])
  exact edit.postMutate

theorem deleteSelection_records : Records area (area.deleteSelection seg) := by
  unfold deleteSelection
  split
  · exact records_same
  next range _ =>
    intro next deleted
    obtain ⟨edited, applied, rfl⟩ := Option.map_eq_some_iff.mp deleted
    have edit := applyEditReplacement_records range [] .replace edited applied
    have placed : Recorded area (edited.setCursorInner seg (min range.1 (byteLen edited.buffer.text))) := edit.shown rfl rfl
    exact placed.postMutate.shown rfl rfl

theorem killCurrentLine_records : Records area (area.killCurrentLine seg) := by
  unfold killCurrentLine
  dsimp only
  split
  · split
    · exact applyEditReplacement_records _ [] .kill
    · exact records_same
  · exact applyEditReplacement_records _ [] .kill

theorem replaceRangeWithElement_records (range : Range) (text : Text) :
    Records area (area.replaceRangeWithElement seg range text) := by
  intro next applied
  obtain ⟨plan, -, applied⟩ := Option.bind_eq_some_iff.mp applied
  obtain ⟨edited, found, rfl⟩ := applyElementTransaction_cases applied
  have undo := applyValidated_undo found
  have edit : Recorded area edited := (preMutate_recorded area .element).shown (by rw [undo]) (by rw [undo])
  exact Recorded.postMutate (edit.shown rfl rfl)

theorem inlineElement_recorded (id : Nat) : Recorded area (area.inlineElement seg id) := by
  unfold inlineElement
  split
  · exact recorded_self area
  · exact (preMutate_recorded area .element).shown rfl rfl

theorem group_entries (recorded : Records area.beginUndoGroup result) (found : result = some next) :
    ∀ entry ∈ next.endUndoGroup.undo.entries, entry ∈ area.undo.entries ∨ entry = area.snapshot := by
  intro entry member
  have inside := ((recorded next found).grouped (Nat.succ_pos _)).2 entry (endUndoGroup_entries member)
  exact (beginUndoGroup_bookkeeping area).history entry inside

theorem Records.bind {later : TextArea → Option TextArea} (grouped : 0 < area.undo.groupDepth)
    (records : Records area result) (rest : ∀ next, result = some next → Records next (later next)) :
    Records area (result.bind later) := by
  intro next applied
  obtain ⟨before, found, applied⟩ := Option.bind_eq_some_iff.mp applied
  obtain ⟨depth, entries⟩ := (records before found).grouped grouped
  obtain ⟨depth', entries'⟩ := (rest before found next applied).grouped (depth ▸ grouped)
  have kept : ∀ entry ∈ next.undo.entries, entry ∈ area.undo.entries := fun entry member =>
    entries entry (entries' entry member)
  exact ⟨fun entry member => .inl (kept entry member), fun _ => ⟨depth'.trans depth, kept⟩⟩

theorem insertStrReplacingSelection_entries {text : Text} (applied : area.insertStrReplacingSelection seg text = some next) :
    ∀ entry ∈ next.undo.entries, entry ∈ area.undo.entries ∨ entry = area.snapshot := by
  unfold insertStrReplacingSelection at applied
  split at applied
  · exact (insertStr_records text next applied).entries
  · obtain ⟨inserted, found, rfl⟩ := Option.map_eq_some_iff.mp applied
    exact group_entries (deleteSelection_records.bind (Nat.succ_pos _) fun _ _ => insertStr_records text) found

theorem yank_entries (applied : area.yank seg = some next) :
    ∀ entry ∈ next.undo.entries, entry ∈ area.undo.entries ∨ entry = area.snapshot := by
  unfold yank at applied
  split at applied
  · obtain rfl := Option.some.inj applied
    exact (recorded_self area).entries
  dsimp only at applied
  obtain ⟨cleared, found, applied⟩ := Option.bind_eq_some_iff.mp applied
  obtain ⟨inserted, replaced, rfl⟩ := Option.map_eq_some_iff.mp applied
  rw [(noteInserted_entries _ _).1]
  by_cases selected : area.selectionRange.isSome = true
  · rw [if_pos selected] at found ⊢
    have records := (@deleteSelection_records seg area.beginUndoGroup).bind (Nat.succ_pos _) fun area _ =>
      @applyEditReplacement_records seg area (area.buffer.cursorByte, area.buffer.cursorByte) area.killBuffer .insert
    refine group_entries records ?_
    rw [found, Option.bind_some]
    exact replaced
  · rw [if_neg selected] at found ⊢
    obtain rfl := Option.some.inj found
    exact (applyEditReplacement_records _ _ .insert inserted replaced).entries

theorem step_entries {op : Op} (stepped : area.step seg op = some next) :
    ∀ entry ∈ next.undo.entries, entry ∈ area.undo.entries ∨ entry = area.snapshot := by
  cases op with
  | command command => exact (applyClassifiedCommand_records command next stepped).entries
  | insertStr text => exact (insertStr_records text next stepped).entries
  | insertStrAt position text => exact (insertStrAt_records position text next stepped).entries
  | insertStrReplacingSelection text => exact insertStrReplacingSelection_entries stepped
  | replaceRange range text => exact (applyEditReplacement_records range text .replace next stepped).entries
  | setText text => exact (setText_records text next stepped).entries
  | insertElement text => exact (replaceRangeWithElement_records _ text next stepped).entries
  | replaceRangeWithElement range text => exact (replaceRangeWithElement_records range text next stepped).entries
  | killCurrentLine => exact (killCurrentLine_records next stepped).entries
  | yank => exact yank_entries stepped
  | deleteSelection => exact (deleteSelection_records next stepped).entries
  | inlineElement id =>
      obtain rfl := Option.some.inj stepped
      exact (inlineElement_recorded id).entries
  | setSelection | clearSelection | setCursor | setCursorInner | setTabWidth =>
      obtain rfl := Option.some.inj stepped
      exact (recorded_self area).entries
  | undo =>
      obtain rfl := Option.some.inj stepped
      unfold undoLast
      split
      · exact (recorded_self area).entries
      · exact (undone_bookkeeping area).history
  | redo =>
      obtain rfl := Option.some.inj stepped
      unfold redoLast
      split
      · exact (recorded_self area).entries
      · exact (redone_bookkeeping area).history
  | beginUndoGroup =>
      obtain rfl := Option.some.inj stepped
      exact (beginUndoGroup_bookkeeping area).history
  | endUndoGroup =>
      obtain rfl := Option.some.inj stepped
      exact (endUndoGroup_bookkeeping area).history
  | cancelUndoGroup =>
      obtain rfl := Option.some.inj stepped
      unfold cancelUndoGroup
      split
      · exact (recorded_self area).entries
      dsimp only
      split
      · exact (cancelled_bookkeeping area).history
      · exact (cancelled_bookkeeping area).history
  | clearHistory =>
      obtain rfl := Option.some.inj stepped
      exact (clearHistory_bookkeeping area).history

end Recording

section Runs

variable {seg : Segmentation} {made : List (Nat × Text)} {area : TextArea}

/-- Where a move over rows puts the cursor: `display_col_to_buffer_pos` ends at an end of an element or clamps. -/
inductive RowTarget (area : TextArea) : Nat → Prop
  | first : RowTarget area 0
  | last : RowTarget area (byteLen area.buffer.text)
  | start {element : TextElement} (member : element ∈ area.elements) : RowTarget area element.start
  | stop {element : TextElement} (member : element ∈ area.elements) : RowTarget area element.stop
  | clamped (position : Nat) : RowTarget area (area.clampPosToNearestBoundary position)

theorem RowTarget.clear {position : Nat} (target : RowTarget area position) (sane : Sane seg made area) :
    ClearOf area.elements position := by
  cases target with
  | first => exact fun _ _ inside => absurd inside.1 (Nat.not_lt_zero _)
  | last =>
      intro element member inside
      have within := (sane.elements.forward member).2
      omega
  | start member => exact (ends_clear sane.elements member).1
  | stop member => exact (ends_clear sane.elements member).2
  | clamped position => exact clampPos_clear sane.elements position

def Op.place : Op → Option Nat
  | .setCursorInner position => some position
  | _ => none

structure Careful (seg : Segmentation) (area : TextArea) (op : Op) : Prop where
  placed : ∀ position, op.place = some position → ClearOf area.elements position
  cut : op = .deleteSelection ∨ op = .insertStrReplacingSelection [] →
    ∀ range, area.selectionRange = some range → Boundary seg area.buffer.text range.1
  whole : ∀ next, area.step seg op = some next → Unstraddled seg next.buffer.text next.elements

instance (seg : Segmentation) (area : TextArea) (op : Op) : Decidable (Careful seg area op) :=
  have : Decidable (∀ position ∈ op.place, ClearOf area.elements position) := inferInstance
  have : Decidable (op = .deleteSelection ∨ op = .insertStrReplacingSelection [] →
      ∀ range ∈ area.selectionRange, Boundary seg area.buffer.text range.1) := inferInstance
  have : Decidable (∀ next ∈ area.step seg op, Unstraddled seg next.buffer.text next.elements) := inferInstance
  decidable_of_iff
    ((∀ position ∈ op.place, ClearOf area.elements position) ∧
      (op = .deleteSelection ∨ op = .insertStrReplacingSelection [] →
        ∀ range ∈ area.selectionRange, Boundary seg area.buffer.text range.1) ∧
      ∀ next ∈ area.step seg op, Unstraddled seg next.buffer.text next.elements)
    ⟨fun ⟨placed, cut, whole⟩ => ⟨placed, cut, whole⟩, fun careful => ⟨careful.placed, careful.cut, careful.whole⟩⟩

/-- The cursor rests, and would again after any undo or redo. -/
structure Resting (seg : Segmentation) (area : TextArea) : Prop where
  sane : ∃ made, Sane seg made area
  clear : ClearOf area.elements area.buffer.cursorByte
  history : ∀ entry ∈ area.undo.entries, Rests seg entry.text entry.elements entry.cursor

theorem Resting.rests (resting : Resting seg area) :
    Rests seg area.buffer.text area.elements area.buffer.cursorByte := by
  obtain ⟨made, sane⟩ := resting.sane
  exact ⟨sane.cursor, resting.clear⟩

theorem restore_clear {entry : UndoEntry} (rests : Rests seg entry.text entry.elements entry.cursor) :
    ClearOf (area.restore seg entry).elements (area.restore seg entry).buffer.cursorByte := by
  -- It rested on a boundary, so the snap leaves it there.
  have cursor : (area.restore seg entry).buffer.cursorByte = entry.cursor := externalCursor_eq seg rests.boundary
  rw [cursor]
  exact rests.clear

theorem undoLast_clear (resting : Resting seg area) :
    ClearOf (area.undoLast seg).elements (area.undoLast seg).buffer.cursorByte := by
  unfold undoLast
  split
  · exact resting.clear
  next entry found =>
    have known : entry ∈ area.undo.stack := List.mem_of_getLast? found
    exact restore_clear (resting.history entry (List.mem_append_left _ (List.mem_append_left _ known)))

theorem redoLast_clear (resting : Resting seg area) :
    ClearOf (area.redoLast seg).elements (area.redoLast seg).buffer.cursorByte := by
  unfold redoLast
  split
  · exact resting.clear
  next entry found =>
    have known : entry ∈ area.undo.redo := List.mem_of_getLast? found
    exact restore_clear (resting.history entry (List.mem_append_left _ (List.mem_append_right _ known)))

theorem cancelUndoGroup_clear (resting : Resting seg area) :
    ClearOf (area.cancelUndoGroup seg).elements (area.cancelUndoGroup seg).buffer.cursorByte := by
  unfold cancelUndoGroup
  split
  · exact resting.clear
  dsimp only
  split
  · exact resting.clear
  next checkpoint found =>
    exact restore_clear (resting.history checkpoint (List.mem_append_right _ (by rw [found]; simp)))

theorem step_lays (resting : Resting seg area) {op : Op} (careful : Careful seg area op) : Lays seg (area.step seg op) := by
  obtain ⟨made, sane⟩ := resting.sane
  have clear := resting.clear
  cases op with
  | command command => exact applyClassifiedCommand_lays sane command
  | insertStr text => exact insertStr_lays sane text fun _ => clear
  | insertStrAt position text => exact insertStrAt_lays sane clear position text
  | insertStrReplacingSelection text =>
      refine insertStrReplacingSelection_lays sane clear text fun none' => ?_
      exact careful.cut (.inr (by rw [none']))
  | replaceRange range text => exact applyEditReplacement_lays sane range text .replace
  | setText text => exact setText_lays text
  | insertElement text => exact replaceRangeWithElement_lays sane _ text
  | replaceRangeWithElement range text => exact replaceRangeWithElement_lays sane range text
  | inlineElement id => exact inlineElement_lays sane clear id
  | killCurrentLine => exact killCurrentLine_lays sane clear
  | yank => exact yank_lays sane clear
  | deleteSelection => exact deleteSelection_lays sane clear (careful.cut (.inl rfl))
  | setSelection | clearSelection | setTabWidth | clearHistory =>
      rintro next ⟨⟩ -
      exact clear
  | setCursor position => exact setCursorInner_lays (clampPos_clear sane.elements _)
  | setCursorInner position => exact setCursorInner_lays (careful.placed position rfl)
  | undo => exact lays_same (undoLast_clear resting)
  | redo => exact lays_same (redoLast_clear resting)
  | beginUndoGroup =>
      rintro next ⟨⟩ -
      exact clear
  | endUndoGroup =>
      refine lays_same ?_
      rw [(endUndoGroup_shown area).1, (endUndoGroup_shown area).2]
      exact clear
  | cancelUndoGroup => exact lays_same (cancelUndoGroup_clear resting)

theorem step_resting (resting : Resting seg area) {op : Op} (careful : Careful seg area op) :
    ∃ next, area.step seg op = some next ∧ Resting seg next := by
  obtain ⟨made, sane⟩ := resting.sane
  obtain ⟨next, stepped, sane'⟩ := step_lands sane op
  refine ⟨next, stepped, ⟨_, sane'⟩, step_lays resting careful next stepped (careful.whole next stepped), fun entry member => ?_⟩
  rcases step_entries stepped entry member with old | rfl
  · exact resting.history entry old
  · exact resting.rests

theorem new_resting (seg : Segmentation) : Resting seg TextArea.new :=
  ⟨⟨[], new_sane seg⟩, fun _ member => absurd member List.not_mem_nil, by simp [UndoState.entries, TextArea.new, UndoState.new]⟩

variable (seg)

/--
In every reachable state the cursor is on a boundary, and the target of a move over rows is clear
of the elements. In every careful run the cursor stays clear of them.
-/
theorem cursor_rests :
    (∀ ops, ∃ area, TextArea.new.run seg ops = some area ∧ Boundary seg area.buffer.text area.buffer.cursorByte ∧
      ∀ position, RowTarget area position → ClearOf area.elements position) ∧
    ∀ ops, Runs.AlongPartial (TextArea.step seg) (Careful seg) TextArea.new ops →
      Runs.AlongPartial (TextArea.step seg) (fun area op => ∃ next, area.step seg op = some next ∧
        Rests seg next.buffer.text next.elements next.buffer.cursorByte) TextArea.new ops := by
  refine ⟨fun ops => ?_, fun ops careful => ?_⟩
  · obtain ⟨area, ran, sane⟩ := run_lands (new_sane seg) ops
    exact ⟨area, ran, sane.cursor, fun position target => target.clear sane⟩
  · refine Runs.alongPartial_follows (TextArea.step seg) (fun area op next resting careful stepped => ?_)
      (fun area op resting careful => ?_) (new_resting seg) careful
    · obtain ⟨same, stepped', resting'⟩ := step_resting resting careful
      obtain rfl : next = same := Option.some.inj (stepped.symm.trans stepped')
      exact resting'
    · obtain ⟨next, stepped, resting'⟩ := step_resting resting careful
      exact ⟨next, stepped, resting'.rests⟩

theorem element_stepped_over :
    Runs.AlongPartial (TextArea.step (characterSegmentation Char.isAlphanum))
      (fun area op => ∃ next, area.step (characterSegmentation Char.isAlphanum) op = some next ∧
        Rests (characterSegmentation Char.isAlphanum) next.buffer.text next.elements next.buffer.cursorByte) TextArea.new
      [.insertStr ['a'], .insertElement ['x', 'y', 'z'], .setCursor 2, .undo] ∧
    (TextArea.new.run (characterSegmentation Char.isAlphanum) [.insertStr ['a'], .insertElement ['x', 'y', 'z'], .setCursor 2]).map
      (fun area => (area.elements, area.buffer.cursorByte)) = some ([⟨0, 1, 4⟩], 1) := by
  refine ⟨(cursor_rests (characterSegmentation Char.isAlphanum)).2 _ ?_, ?_⟩
  · decide +kernel
  · decide +kernel

/--
Two ways in: a return joins the line feed at the head of an element, and a deletion takes all of a
cluster but leaves the cursor where the selection began.
-/
theorem joined_element_entered :
    (∃ area, TextArea.new.run (characterSegmentation Char.isAlphanum)
        [.insertElement ['\n', 'b'], .setCursor 0, .insertStr ['\r']] = some area ∧
      area.buffer.text = ['\r', '\n', 'b'] ∧ area.elements = [⟨0, 1, 3⟩] ∧ area.buffer.cursorByte = 2 ∧
      ¬ ClearOf area.elements area.buffer.cursorByte) ∧
    ∃ area, TextArea.new.run (characterSegmentation Char.isAlphanum)
        [.insertStr ['\r', '\n'], .insertElement ['x', 'y'], .setSelection 1 2, .deleteSelection] = some area ∧
      area.buffer.text = ['x', 'y'] ∧ area.elements = [⟨0, 0, 2⟩] ∧ area.buffer.cursorByte = 1 ∧
      ¬ ClearOf area.elements area.buffer.cursorByte := by
  have joined : (TextArea.new.run (characterSegmentation Char.isAlphanum)
      [.insertElement ['\n', 'b'], .setCursor 0, .insertStr ['\r']]).map (fun area =>
        (area.buffer.text, area.elements, area.buffer.cursorByte)) =
      some (['\r', '\n', 'b'], [⟨0, 1, 3⟩], 2) := by decide +kernel
  have deleted : (TextArea.new.run (characterSegmentation Char.isAlphanum)
      [.insertStr ['\r', '\n'], .insertElement ['x', 'y'], .setSelection 1 2, .deleteSelection]).map (fun area =>
        (area.buffer.text, area.elements, area.buffer.cursorByte)) =
      some (['x', 'y'], [⟨0, 0, 2⟩], 1) := by decide +kernel
  obtain ⟨area, ran, facts⟩ := Option.map_eq_some_iff.mp joined
  obtain ⟨area', ran', facts'⟩ := Option.map_eq_some_iff.mp deleted
  simp only [Prod.mk.injEq] at facts facts'
  refine ⟨⟨area, ran, facts.1, facts.2.1, facts.2.2, ?_⟩, area', ran', facts'.1, facts'.2.1, facts'.2.2, ?_⟩
  · rw [facts.2.1, facts.2.2]
    decide
  · rw [facts'.2.1, facts'.2.2]
    decide

end Runs

end GrokPi.Editor
