import GrokPi.Editor.TextArea
import GrokPi.Editor.Validity

set_option autoImplicit false

namespace GrokPi.Editor

open Text

structure Whole (made : List (Nat × Text)) (text : Text) (elements : List TextElement) : Prop where
  sorted : elements.Pairwise fun a b => a.start ≤ b.start
  apart : elements.Pairwise fun a b => a.stop ≤ b.start ∨ b.stop ≤ a.start
  ids : (elements.map TextElement.id).Nodup
  kept : ∀ element ∈ elements, ∃ part, slice text element.start element.stop = some part ∧ (element.id, part) ∈ made

section Shifting

variable {made : List (Nat × Text)} {elements : List TextElement}

theorem Whole.nil (made : List (Nat × Text)) (text : Text) : Whole made text [] :=
  ⟨List.Pairwise.nil, List.Pairwise.nil, List.nodup_nil, by simp⟩

theorem Whole.mono {made' : List (Nat × Text)} {text : Text} (whole : Whole made text elements)
    (more : ∀ one ∈ made, one ∈ made') : Whole made' text elements := by
  refine ⟨whole.sorted, whole.apart, whole.ids, ?_⟩
  intro element member
  obtain ⟨part, cut, known⟩ := whole.kept element member
  exact ⟨part, cut, more _ known⟩

variable {element : TextElement}

theorem Whole.forward {text : Text} (whole : Whole made text elements)
    (member : element ∈ elements) : element.start ≤ element.stop ∧ element.stop ≤ byteLen text := by
  obtain ⟨part, cut, -⟩ := whole.kept element member
  obtain ⟨a, b, rfl, start, stop⟩ := slice_eq_some.mp cut
  rw [byteLen_append, byteLen_append]
  omega

def Spared (start stop : Nat) (element : TextElement) : Prop :=
  element.stop ≤ start ∨ stop ≤ element.start ∨ (start ≤ element.start ∧ element.stop ≤ stop)

def Beside (start stop : Nat) (element : TextElement) : Prop :=
  (element.stop ≤ start ∧ element.start < start) ∨ (stop ≤ element.start ∧ stop < element.stop)

theorem kept_beside {at' removed : Nat}
    (spared : ∀ element ∈ elements, Spared at' (at' + removed) element)
    (kept : element ∈ elements.filter fun element => !(at' ≤ element.start && element.stop ≤ at' + removed)) :
    element ∈ elements ∧ Beside at' (at' + removed) element := by
  obtain ⟨there, outside⟩ := List.mem_filter.mp kept
  refine ⟨there, ?_⟩
  have where' := spared element there
  unfold Spared at where'
  unfold Beside
  simp at outside
  omega

variable {at' removed inserted : Nat}

theorem shift_before (before : element.stop ≤ at') :
    element.shift at' removed inserted = element := if_pos before

theorem shift_behind (before : ¬ element.stop ≤ at') (behind : at' + removed ≤ element.start) :
    element.shift at' removed inserted =
      { element with
        start := element.start - removed + inserted
        stop := element.stop - removed + inserted } := by
  unfold TextElement.shift
  rw [if_neg before, if_pos behind]

theorem shift_id (at' removed inserted : Nat) (element : TextElement) :
    (element.shift at' removed inserted).id = element.id := by
  unfold TextElement.shift
  split
  · rfl
  split
  · rfl
  · rfl

theorem shift_pair {a b : TextElement} (forward : a.start ≤ a.stop)
    (forward' : b.start ≤ b.stop) (first : Beside at' (at' + removed) a) (second : Beside at' (at' + removed) b) :
    (a.start ≤ b.start → (a.shift at' removed inserted).start ≤ (b.shift at' removed inserted).start) ∧
      (a.stop ≤ b.start → (a.shift at' removed inserted).stop ≤ (b.shift at' removed inserted).start) := by
  unfold Beside at first second
  by_cases before : a.stop ≤ at' <;> by_cases before' : b.stop ≤ at'
  · rw [shift_before before, shift_before before']
    exact ⟨id, id⟩
  · rw [shift_before before, shift_behind before' (by omega)]
    dsimp only
    omega
  · rw [shift_behind before (by omega), shift_before before']
    dsimp only
    omega
  · rw [shift_behind before (by omega), shift_behind before' (by omega)]
    dsimp only
    omega

variable {a b c replacement : Text}

theorem shift_slice {part : Text} (beside : Beside (byteLen a) (byteLen a + byteLen b) element)
    (cut : slice (a ++ b ++ c) element.start element.stop = some part) :
    slice (a ++ replacement ++ c) (element.shift (byteLen a) (byteLen b) (byteLen replacement)).start
      (element.shift (byteLen a) (byteLen b) (byteLen replacement)).stop = some part := by
  obtain ⟨front, back, whole, start, stop⟩ := slice_eq_some.mp cut
  by_cases before : element.stop ≤ byteLen a
  · rw [shift_before before]
    have same : (front ++ part) ++ back = a ++ (b ++ c) := by rw [← List.append_assoc a, whole]
    obtain ⟨middle, rfl, -⟩ := cuts_nested same (by rw [byteLen_append]; omega)
    exact slice_eq_some.mpr ⟨front, middle ++ replacement ++ c, by simp, start, stop⟩
  · have behind : byteLen a + byteLen b ≤ element.start := by
      unfold Beside at beside
      omega
    rw [shift_behind before behind]
    have same : (a ++ b) ++ c = front ++ (part ++ back) := by rw [whole, List.append_assoc]
    obtain ⟨middle, rfl, rfl⟩ := cuts_nested same (by rw [byteLen_append]; omega)
    rw [byteLen_append, byteLen_append] at start
    refine slice_eq_some.mpr ⟨a ++ replacement ++ middle, back, by simp, ?_, ?_⟩
    · rw [byteLen_append, byteLen_append]
      dsimp only
      omega
    · dsimp only
      omega

theorem shiftElements_whole (whole : Whole made (a ++ b ++ c) elements)
    (spared : ∀ element ∈ elements, Spared (byteLen a) (byteLen a + byteLen b) element) :
    Whole made (a ++ replacement ++ c) (shiftElements (byteLen a) (byteLen b) (byteLen replacement) elements) := by
  unfold shiftElements
  refine ⟨?_, ?_, ?_, ?_⟩
  · rw [List.pairwise_map]
    refine (whole.sorted.filter _).imp_of_mem ?_
    intro first second member member' order
    obtain ⟨there, beside⟩ := kept_beside spared member
    obtain ⟨there', beside'⟩ := kept_beside spared member'
    exact (shift_pair (whole.forward there).1 (whole.forward there').1 beside beside').1 order
  · rw [List.pairwise_map]
    refine (whole.apart.filter _).imp_of_mem ?_
    intro first second member member' order
    obtain ⟨there, beside⟩ := kept_beside spared member
    obtain ⟨there', beside'⟩ := kept_beside spared member'
    rcases order with order | order
    · exact .inl ((shift_pair (whole.forward there).1 (whole.forward there').1 beside beside').2 order)
    · exact .inr ((shift_pair (whole.forward there').1 (whole.forward there).1 beside' beside).2 order)
  · have names : TextElement.id ∘ TextElement.shift (byteLen a) (byteLen b) (byteLen replacement) = TextElement.id :=
      funext (shift_id _ _ _)
    rw [List.map_map, names]
    exact whole.ids.sublist (List.filter_sublist.map _)
  · intro moved member
    obtain ⟨element, kept, rfl⟩ := List.mem_map.mp member
    obtain ⟨there, beside⟩ := kept_beside spared kept
    obtain ⟨part, cut, known⟩ := whole.kept element there
    exact ⟨part, shift_slice beside cut, by rw [shift_id]; exact known⟩

theorem shiftElements_clear {text : Text} (whole : Whole made text elements)
    (spared : ∀ element ∈ elements, Spared at' (at' + removed) element) :
    ∀ moved ∈ shiftElements at' removed inserted elements, moved.stop ≤ at' ∨ at' + inserted ≤ moved.start := by
  intro moved member
  obtain ⟨element, kept, rfl⟩ := List.mem_map.mp member
  obtain ⟨there, beside⟩ := kept_beside spared kept
  have forward := (whole.forward there).1
  unfold Beside at beside
  by_cases before : element.stop ≤ at'
  · rw [shift_before before]
    exact .inl before
  · rw [shift_behind before (by omega)]
    dsimp only
    omega

theorem addElement_whole {id : Nat} (whole : Whole made (a ++ replacement ++ c) elements)
    (free : ∀ element ∈ elements, element.stop ≤ byteLen a ∨ byteLen a + byteLen replacement ≤ element.start)
    (fresh : ∀ one ∈ made, one.1 < id) :
    Whole (made ++ [(id, replacement)]) (a ++ replacement ++ c)
      (sortByStart
        (elements ++
          [{ id := id
             start := byteLen a
             stop := byteLen a + byteLen replacement }])) := by
  let new : TextElement :=
    { id := id
      start := byteLen a
      stop := byteLen a + byteLen replacement }
  have same : (sortByStart (elements ++ [new])).Perm (elements ++ [new]) := List.perm_insertionSort _ _
  refine ⟨?_, ?_, ?_, ?_⟩
  · have total : Std.Total fun a b : TextElement => a.start ≤ b.start := ⟨fun a b => Nat.le_total a.start b.start⟩
    have transitive : IsTrans TextElement fun a b => a.start ≤ b.start := ⟨fun _ _ _ => Nat.le_trans⟩
    exact List.pairwise_insertionSort (fun a b : TextElement => a.start ≤ b.start) _
  · refine (same.pairwise_iff fun {x y} => Or.symm).mpr ?_
    refine List.pairwise_append.mpr ⟨whole.apart, List.pairwise_singleton _ _, ?_⟩
    intro element member other isNew
    obtain rfl := List.mem_singleton.mp isNew
    exact (free element member)
  · rw [(same.map TextElement.id).nodup_iff, List.map_append]
    refine List.nodup_append.mpr ⟨whole.ids, List.nodup_singleton _, ?_⟩
    rintro other member one isNew rfl
    obtain ⟨element, there, rfl⟩ := List.mem_map.mp member
    obtain ⟨part, -, known⟩ := whole.kept element there
    have older := fresh _ known
    have newest : element.id = id := List.mem_singleton.mp isNew
    dsimp only at older
    omega
  · intro element member
    rcases List.mem_append.mp (same.mem_iff.mp member) with old | isNew
    · obtain ⟨part, cut, known⟩ := whole.kept element old
      exact ⟨part, cut, List.mem_append_left _ known⟩
    · obtain rfl := List.mem_singleton.mp isNew
      exact ⟨replacement, slice_middle a replacement c, List.mem_append_right _ (List.mem_singleton_self _)⟩

end Shifting

theorem edges_spare (seg : Segmentation) {text : Text} {elements : List TextElement} {made : List (Nat × Text)}
    (whole : Whole made text elements) {start stop : Nat}
    (first : Edge seg text (normalizeAtomicRanges seg text (elements.map TextElement.range)) start)
    (last : Edge seg text (normalizeAtomicRanges seg text (elements.map TextElement.range)) stop) :
    ∀ element ∈ elements, Spared start stop element := by
  -- The ends of a plan are edges of the normalized ranges, so it spares every element or takes all of it.
  intro element member
  obtain ⟨order, inside⟩ := whole.forward member
  unfold Spared
  by_cases long : element.start < element.stop
  · obtain ⟨range, there, low, high⟩ := (normalizeAtomicRanges_spec seg text (elements.map TextElement.range)).2
      element.range (List.mem_map_of_mem member) long inside
    have outside := first.outside range there
    have outside' := last.outside range there
    unfold TextElement.range at low high
    dsimp only at low high
    omega
  · omega

section States

variable (seg : Segmentation)

def UndoState.entries (undo : UndoState) : List UndoEntry := undo.stack ++ undo.redo ++ undo.groupCheckpoint.toList

structure Sane (made : List (Nat × Text)) (area : TextArea) : Prop where
  cursor : Boundary seg area.buffer.text area.buffer.cursorByte
  elements : Whole made area.buffer.text area.elements
  history : ∀ entry ∈ area.undo.entries, Whole made entry.text entry.elements
  fresh : ∀ one ∈ made, one.1 < area.nextElementId
  once : (made.map Prod.fst).Nodup

structure Bookkeeping (area next : TextArea) : Prop where
  buffer : next.buffer = area.buffer
  elements : next.elements = area.elements
  nextElementId : next.nextElementId = area.nextElementId
  history : ∀ entry ∈ next.undo.entries, entry ∈ area.undo.entries ∨ entry = area.snapshot

variable {seg} {made : List (Nat × Text)} {area next : TextArea}

theorem Sane.bookkeeping (sane : Sane seg made area) (kept : Bookkeeping area next) : Sane seg made next := by
  refine ⟨?_, ?_, ?_, ?_, sane.once⟩
  · rw [kept.buffer]
    exact sane.cursor
  · rw [kept.buffer, kept.elements]
    exact sane.elements
  · intro entry member
    rcases kept.history entry member with old | rfl
    · exact sane.history entry old
    · exact sane.elements
  · rw [kept.nextElementId]
    exact sane.fresh

theorem Bookkeeping.of_undo_eq (buffer : next.buffer = area.buffer) (elements : next.elements = area.elements)
    (nextElementId : next.nextElementId = area.nextElementId) (undo : next.undo.entries = area.undo.entries) :
    Bookkeeping area next :=
  ⟨buffer, elements, nextElementId, fun _ member => .inl (undo ▸ member)⟩

theorem pushEntry_entries {undo : UndoState} {entry one : UndoEntry}
    (member : one ∈ (TextArea.pushEntry undo entry).entries) : one ∈ undo.entries ∨ one = entry := by
  have stack : one ∈ (TextArea.pushEntry undo entry).stack → one ∈ undo.stack ∨ one = entry := by
    unfold TextArea.pushEntry
    dsimp only
    intro there
    have there : one ∈ undo.stack ++ [entry] := by
      split at there
      · exact List.mem_of_mem_tail there
      · exact there
    simpa using there
  unfold UndoState.entries at *
  simp only [List.mem_append] at member ⊢
  rcases member with (there | redo) | checkpoint
  · rcases stack there with old | new
    · exact .inl (.inl (.inl old))
    · exact .inr new
  · exact .inl (.inl (.inr redo))
  · exact .inl (.inr checkpoint)

theorem preMutate_bookkeeping (area : TextArea) (kind : MutationKind) : Bookkeeping area (area.preMutate kind) := by
  unfold TextArea.preMutate
  split
  · exact ⟨rfl, rfl, rfl, fun _ member => .inl member⟩
  · dsimp only
    refine ⟨rfl, rfl, rfl, ?_⟩
    intro entry member
    -- The redo entries are dropped, the snapshot may be added.
    have either : ∀ push : Bool,
        entry ∈ (if push then TextArea.pushEntry area.undo area.snapshot else area.undo).stack ++ [] ++
          (if push then TextArea.pushEntry area.undo area.snapshot else area.undo).groupCheckpoint.toList →
        entry ∈ area.undo.entries ∨ entry = area.snapshot := by
      intro push there
      have kept : entry ∈ (if push then TextArea.pushEntry area.undo area.snapshot else area.undo).entries := by
        unfold UndoState.entries
        simp only [List.mem_append, List.not_mem_nil, or_false] at there ⊢
        exact there.elim (fun stack => .inl (.inl stack)) .inr
      cases push with
      | true => exact pushEntry_entries kept
      | false => exact .inl kept
    exact either _ member

theorem postMutate_bookkeeping (area : TextArea) : Bookkeeping area area.postMutate :=
  .of_undo_eq rfl rfl rfl rfl

theorem resetBatching_bookkeeping (kept : Bookkeeping area next) : Bookkeeping area next.resetBatching :=
  ⟨kept.buffer, kept.elements, kept.nextElementId, kept.history⟩

theorem clearHistory_bookkeeping (area : TextArea) : Bookkeeping area area.clearHistory := by
  refine resetBatching_bookkeeping ⟨rfl, rfl, rfl, ?_⟩
  intro entry member
  exact .inl (List.mem_append_right _ member)

theorem beginUndoGroup_bookkeeping (area : TextArea) : Bookkeeping area area.beginUndoGroup := by
  refine ⟨rfl, rfl, rfl, ?_⟩
  intro entry member
  rcases List.mem_append.mp member with old | checkpoint
  · exact .inl (List.mem_append_left _ old)
  · dsimp only [TextArea.beginUndoGroup] at checkpoint
    split at checkpoint
    · exact .inr (by simpa using checkpoint)
    · exact .inl (List.mem_append_right _ checkpoint)

theorem endUndoGroup_entries {entry : UndoEntry} (member : entry ∈ area.endUndoGroup.undo.entries) :
    entry ∈ area.undo.entries := by
  unfold TextArea.endUndoGroup at member
  split at member
  · exact member
  dsimp only at member
  split at member
  · exact member
  split at member
  · exact member
  next checkpoint found =>
    have known : checkpoint ∈ area.undo.entries := List.mem_append_right _ (by rw [found]; simp)
    split at member
    · have pushed : entry ∈ (TextArea.pushEntry { area.undo with groupCheckpoint := none } checkpoint).entries := by
        unfold UndoState.entries at *
        simp only [TextArea.resetBatching, List.mem_append, List.not_mem_nil, or_false] at member ⊢
        exact member.elim (fun stack => .inl (.inl stack)) .inr
      rcases pushEntry_entries pushed with old | rfl
      · unfold UndoState.entries at *
        simp only [Option.toList_none, List.append_nil] at old
        exact List.mem_append_left _ old
      · exact known
    · unfold UndoState.entries at *
      simp only [TextArea.resetBatching, Option.toList_none, List.append_nil] at member
      exact List.mem_append_left _ member

theorem endUndoGroup_bookkeeping (area : TextArea) : Bookkeeping area area.endUndoGroup := by
  have shown : area.endUndoGroup.buffer = area.buffer ∧ area.endUndoGroup.elements = area.elements ∧
      area.endUndoGroup.nextElementId = area.nextElementId := by
    unfold TextArea.endUndoGroup
    split
    · exact ⟨rfl, rfl, rfl⟩
    dsimp only
    split
    · exact ⟨rfl, rfl, rfl⟩
    split
    · exact ⟨rfl, rfl, rfl⟩
    split
    · exact ⟨rfl, rfl, rfl⟩
    · exact ⟨rfl, rfl, rfl⟩
  exact ⟨shown.1, shown.2.1, shown.2.2, fun _ member => .inl (endUndoGroup_entries member)⟩

theorem noteInserted_bookkeeping (area : TextArea) (text : Text) : Bookkeeping area (area.noteInserted text) := by
  unfold TextArea.noteInserted
  split
  · exact .of_undo_eq rfl rfl rfl rfl
  · exact .of_undo_eq rfl rfl rfl rfl

theorem breakBatch_bookkeeping (area : TextArea) (text : Text) : Bookkeeping area (area.breakBatch text) := by
  unfold TextArea.breakBatch
  split
  · exact .of_undo_eq rfl rfl rfl rfl
  split
  · exact .of_undo_eq rfl rfl rfl rfl
  · exact .of_undo_eq rfl rfl rfl rfl

end States

section Buffers

variable {seg : Segmentation} {buffer : EditBuffer} {plan : EditPlan}

theorem advanceGeneration_same (buffer : EditBuffer) :
    buffer.advanceGeneration.text = buffer.text ∧ buffer.advanceGeneration.cursorByte = buffer.cursorByte := by
  unfold EditBuffer.advanceGeneration
  split
  · exact ⟨rfl, rfl⟩
  · exact ⟨rfl, rfl⟩

theorem advance_if (changed : Prop) [Decidable changed] (next : EditBuffer) :
    (if changed then next.advanceGeneration else next).text = next.text ∧
      (if changed then next.advanceGeneration else next).cursorByte = next.cursorByte := by
  split
  · exact advanceGeneration_same next
  · exact ⟨rfl, rfl⟩

theorem setCursorByte_spec (seg : Segmentation) (buffer : EditBuffer) (cursor : Nat) :
    (buffer.setCursorByte seg cursor).text = buffer.text ∧
      Boundary seg (buffer.setCursorByte seg cursor).text (buffer.setCursorByte seg cursor).cursorByte := by
  have boundary := externalCursor_boundary seg buffer.text cursor
  unfold EditBuffer.setCursorByte
  dsimp only
  rw [(advance_if _ _).1, (advance_if _ _).2]
  exact ⟨rfl, boundary⟩

theorem valid_exact (valid : buffer.validatePlan seg plan = .ok ()) (exact' : plan.cursorAffinity = .exact') :
    plan.replacement = plan.removedText ∧ Boundary seg buffer.text plan.cursorByte := by
  unfold EditBuffer.validatePlan at valid
  dsimp only at valid
  split at valid
  · cases valid
  split at valid
  · cases valid
  split at valid
  · cases valid
  split at valid
  · cases valid
  split at valid
  · cases valid
  next right =>
    by_contra wrong
    exact right ⟨exact', by tauto⟩

theorem apply_sound {ranges : List Range} (sound : Sound seg buffer ranges plan) :
    ∃ next a b c, buffer.applyValidatedPlan seg plan = some next ∧ buffer.text = a ++ b ++ c ∧
      byteLen a = plan.replacedByteRange.1 ∧ byteLen a + byteLen b = plan.replacedByteRange.2 ∧
        next.text = a ++ plan.replacement ++ c ∧ Boundary seg next.text next.cursorByte := by
  -- A sound plan is carried out, and the cursor stays between clusters.
  obtain ⟨a, c, whole, start, stop⟩ := slice_eq_some.mp sound.removed
  have replaced : (if plan.removedText ≠ plan.replacement then
      replaceBytes buffer.text plan.replacedByteRange.1 plan.replacedByteRange.2 plan.replacement
      else some buffer.text) = some (a ++ plan.replacement ++ c) := by
    split
    · rw [whole, ← stop, ← start, replaceBytes_middle]
    next same => rw [whole, ← not_ne_iff.mp same]
  unfold EditBuffer.applyValidatedPlan
  dsimp only
  rw [replaced, Option.map_some]
  refine ⟨_, a, plan.removedText, c, rfl, whole, start, ?_, ?_, ?_⟩
  · rw [start, stop]
  · exact (advance_if _ _).1
  · rw [(advance_if _ _).1, (advance_if _ _).2]
    cases affinity : plan.cursorAffinity with
    | exact' =>
        obtain ⟨same, boundary⟩ := valid_exact sound.valid affinity
        rw [same, ← whole]
        exact boundary
    | right => exact (ceil_spec seg _ _).1

end Buffers

section Steps

variable {seg : Segmentation} {made : List (Nat × Text)} {area : TextArea} {plan : EditPlan}

def Lands (seg : Segmentation) (made : List (Nat × Text)) (result : Option TextArea) : Prop :=
  ∃ next, result = some next ∧ Sane seg made next

theorem Lands.map {result : Option TextArea} {change : TextArea → TextArea} (lands : Lands seg made result)
    (keeps : ∀ next, Sane seg made next → Sane seg made (change next)) : Lands seg made (result.map change) := by
  obtain ⟨next, rfl, sane⟩ := lands
  exact ⟨change next, rfl, keeps next sane⟩

theorem Lands.bind {result : Option TextArea} {later : TextArea → Option TextArea} (lands : Lands seg made result)
    (keeps : ∀ next, Sane seg made next → Lands seg made (later next)) : Lands seg made (result.bind later) := by
  obtain ⟨next, rfl, sane⟩ := lands
  exact keeps next sane

theorem setCursorInner_sane (sane : Sane seg made area) (position : Nat) :
    Sane seg made (area.setCursorInner seg position) := by
  obtain ⟨same, boundary⟩ := setCursorByte_spec seg area.buffer position
  refine ⟨boundary, ?_, sane.history, sane.fresh, sane.once⟩
  change Whole made (area.buffer.setCursorByte seg position).text area.elements
  rw [same]
  exact sane.elements

theorem plain_edit (plain : plan.isSemanticEdit = false) :
    plan.removedText = plan.replacement ∧ plan.replacedByteRange.2 ≤ plan.replacedByteRange.1 := by
  unfold EditPlan.isSemanticEdit at plain
  obtain ⟨same, empty⟩ := Bool.or_eq_false_iff.mp plain
  exact ⟨by simpa using same, by simpa using empty⟩

theorem applyValidated_sane (sane : Sane seg made area) (sound : Sound seg area.buffer area.elementRanges plan)
    (kind : Option MutationKind) :
    ∃ next, area.applyValidatedEditPlan seg plan kind = some next ∧ Sane seg made next ∧
      next.nextElementId = area.nextElementId ∧
        ∃ a c, next.buffer.text = a ++ plan.replacement ++ c ∧ byteLen a = plan.replacedByteRange.1 ∧
          ∀ element ∈ next.elements,
            element.stop ≤ byteLen a ∨ byteLen a + byteLen plan.replacement ≤ element.start := by
  obtain ⟨buffer, a, b, c, applied, whole, start, stop, replaced, cursor⟩ := apply_sound sound
  have elements := sane.elements
  rw [whole] at elements
  have spared := edges_spare seg sane.elements sound.start sound.stop
  rw [← start, ← stop] at spared
  have shifted : Whole made (a ++ plan.replacement ++ c)
      (shiftElements (byteLen a) (byteLen b) (byteLen plan.replacement) area.elements) :=
    shiftElements_whole elements spared
  have clear : ∀ moved ∈ shiftElements (byteLen a) (byteLen b) (byteLen plan.replacement) area.elements,
      moved.stop ≤ byteLen a ∨ byteLen a + byteLen plan.replacement ≤ moved.start :=
    shiftElements_clear elements spared
  unfold TextArea.applyValidatedEditPlan
  rw [applied, Option.map_some]
  dsimp only
  refine ⟨_, rfl, ?_⟩
  have removed : plan.replacedByteRange.2 - plan.replacedByteRange.1 = byteLen b := by omega
  rw [removed, ← start]
  split
  · refine ⟨⟨cursor, ?_, sane.history, sane.fresh, sane.once⟩, rfl, a, c, replaced, rfl, clear⟩
    dsimp only
    rw [replaced]
    exact shifted
  next plain =>
    obtain ⟨same, empty⟩ := plain_edit (Bool.eq_false_iff.mpr plain)
    have nothing : b = [] := byteLen_eq_zero.mp (by omega)
    obtain ⟨-, -, -, -, length⟩ := slice_eq_some.mp sound.removed
    have nothing' : plan.replacement = [] := by
      rw [← same]
      exact byteLen_eq_zero.mp (by omega)
    refine ⟨⟨cursor, ?_, sane.history, sane.fresh, sane.once⟩, rfl, a, c, replaced, rfl, ?_⟩
    · dsimp only
      rw [replaced, nothing', ← nothing, ← whole]
      exact sane.elements
    · intro element member
      have apart := spared element member
      have forward := (sane.elements.forward member).1
      unfold Spared at apart
      rw [nothing', byteLen_nil]
      rw [nothing, byteLen_nil] at apart
      omega

theorem Sound.bookkeeping {next : TextArea} (sound : Sound seg area.buffer area.elementRanges plan)
    (kept : Bookkeeping area next) : Sound seg next.buffer next.elementRanges plan := by
  unfold TextArea.elementRanges at *
  rw [kept.buffer, kept.elements]
  exact sound

theorem applyEditPlan_lands (sane : Sane seg made area) (sound : Sound seg area.buffer area.elementRanges plan)
    (kind : Option MutationKind) : Lands seg made (area.applyEditPlan seg plan kind) := by
  unfold TextArea.applyEditPlan
  rw [sound.valid]
  have plain : ∀ kind, Lands seg made (area.applyValidatedEditPlan seg plan kind) := by
    intro kind
    obtain ⟨next, applied, sane', -⟩ := applyValidated_sane sane sound kind
    exact ⟨next, applied, sane'⟩
  cases kind with
  | none => exact plain none
  | some mutation =>
      dsimp only
      split
      · have noted := preMutate_bookkeeping area mutation
        obtain ⟨next, applied, sane', -⟩ :=
          applyValidated_sane (sane.bookkeeping noted) (sound.bookkeeping noted) (some mutation)
        rw [applied]
        exact ⟨_, rfl, sane'.bookkeeping (postMutate_bookkeeping next)⟩
      · exact plain _

theorem planEditCommand_sound (sane : Sane seg made area) (command : EditCommand) :
    ∃ plan, area.buffer.planCommand seg command area.elementRanges = some plan ∧
      Sound seg area.buffer area.elementRanges plan :=
  planCommand_sound seg sane.cursor command

theorem applyEditCommand_lands (sane : Sane seg made area) (command : EditCommand) (kind : Option MutationKind) :
    Lands seg made (area.applyEditCommand seg command kind) := by
  obtain ⟨plan, planned, sound⟩ := planEditCommand_sound sane command
  unfold TextArea.applyEditCommand
  rw [planned]
  exact applyEditPlan_lands sane sound kind

theorem planEditReplacement_sound (sane : Sane seg made area) (range : Range) (replacement : Text) :
    ∃ plan, area.planEditReplacement seg range replacement = some plan ∧
      Sound seg area.buffer area.elementRanges plan ∧ plan.replacement = expandTabs area.tabWidth replacement :=
  planReplace_sound seg sane.cursor range _

theorem applyEditReplacement_lands (sane : Sane seg made area) (range : Range) (replacement : Text)
    (kind : MutationKind) : Lands seg made (area.applyEditReplacement seg range replacement kind) := by
  obtain ⟨plan, planned, sound, -⟩ := planEditReplacement_sound sane range replacement
  unfold TextArea.applyEditReplacement
  rw [planned]
  exact applyEditPlan_lands sane sound (some kind)

theorem Sane.deselected (sane : Sane seg made area) : Sane seg made { area with selection := none } :=
  sane.bookkeeping (.of_undo_eq rfl rfl rfl rfl)

theorem setText_lands (sane : Sane seg made area) (text : Text) : Lands seg made (area.setText seg text) := by
  obtain ⟨plan, planned, sound, -⟩ := planEditReplacement_sound sane (0, byteLen area.buffer.text) text
  have noted := preMutate_bookkeeping area .replace
  obtain ⟨buffer, -, -, -, applied, -, -, -, -, cursor⟩ := apply_sound (sound.bookkeeping noted)
  have sane' := sane.bookkeeping noted
  unfold TextArea.setText
  dsimp only
  rw [planned]
  dsimp only
  rw [sound.valid]
  dsimp only
  rw [applied, Option.map_some]
  refine ⟨_, rfl, ?_⟩
  have emptied : Sane seg made
      { area.preMutate .replace with
        buffer := buffer
        elements := [] } :=
    ⟨cursor, Whole.nil made _, sane'.history, sane'.fresh, sane'.once⟩
  exact (setCursorInner_sane emptied _).deselected.bookkeeping (postMutate_bookkeeping _)

theorem insertStr_lands (sane : Sane seg made area) (text : Text) : Lands seg made (area.insertStr seg text) := by
  unfold TextArea.insertStr
  split
  · exact ⟨area, rfl, sane⟩
  · have sane' := sane.bookkeeping (breakBatch_bookkeeping area text)
    exact (applyEditReplacement_lands sane' _ text .insert).map fun next sane =>
      sane.bookkeeping (noteInserted_bookkeeping next text)

theorem insertStrAt_lands (sane : Sane seg made area) (position : Nat) (text : Text) :
    Lands seg made (area.insertStrAt seg position text) := by
  unfold TextArea.insertStrAt
  split
  · exact ⟨area, rfl, sane⟩
  · exact (applyEditReplacement_lands sane _ text .insert).map fun next sane =>
      sane.bookkeeping (noteInserted_bookkeeping next text)

theorem deleteSelection_lands (sane : Sane seg made area) : Lands seg made (area.deleteSelection seg) := by
  unfold TextArea.deleteSelection
  split
  · exact ⟨area, rfl, sane⟩
  · refine (applyEditReplacement_lands sane _ [] .replace).map fun next sane => ?_
    exact ((setCursorInner_sane sane _).bookkeeping (postMutate_bookkeeping _)).deselected

theorem insertStrReplacingSelection_lands (sane : Sane seg made area) (text : Text) :
    Lands seg made (area.insertStrReplacingSelection seg text) := by
  unfold TextArea.insertStrReplacingSelection
  split
  · exact insertStr_lands sane.deselected text
  · have begun := sane.bookkeeping (beginUndoGroup_bookkeeping area)
    have cleared := deleteSelection_lands begun
    exact (cleared.bind fun next sane => insertStr_lands sane text).map fun next sane =>
      sane.bookkeeping (endUndoGroup_bookkeeping next)

theorem killCurrentLine_lands (sane : Sane seg made area) : Lands seg made (area.killCurrentLine seg) := by
  unfold TextArea.killCurrentLine
  dsimp only
  split
  · split
    · exact applyEditReplacement_lands sane _ [] .kill
    · exact ⟨area, rfl, sane⟩
  · exact applyEditReplacement_lands sane _ [] .kill

theorem yank_lands (sane : Sane seg made area) : Lands seg made (area.yank seg) := by
  unfold TextArea.yank
  split
  · exact ⟨area, rfl, sane⟩
  dsimp only
  have cleared : Lands seg made
      (if area.selectionRange.isSome then area.beginUndoGroup.deleteSelection seg else some area) := by
    split
    · exact deleteSelection_lands (sane.bookkeeping (beginUndoGroup_bookkeeping area))
    · exact ⟨area, rfl, sane⟩
  refine cleared.bind fun next sane => ?_
  refine (applyEditReplacement_lands sane _ _ .insert).map fun last sane => ?_
  have ended : Sane seg made (if area.selectionRange.isSome then last.endUndoGroup else last) := by
    split
    · exact sane.bookkeeping (endUndoGroup_bookkeeping last)
    · exact sane
  exact ended.bookkeeping (noteInserted_bookkeeping _ _)

theorem applyClassifiedCommand_lands (sane : Sane seg made area) (command : EditCommand) :
    Lands seg made (area.applyClassifiedCommand seg command) := by
  unfold TextArea.applyClassifiedCommand
  split
  · exact insertStr_lands sane _
  · exact applyEditCommand_lands sane _ _

theorem restore_sane {entry : UndoEntry} (sane : Sane seg made area) (whole : Whole made entry.text entry.elements) :
    Sane seg made (area.restore seg entry) :=
  ⟨externalCursor_boundary seg entry.text entry.cursor, whole, sane.history, sane.fresh, sane.once⟩

theorem undone_bookkeeping (area : TextArea) :
    Bookkeeping area
      { area with
        undo :=
          { area.undo with
            stack := area.undo.stack.dropLast
            redo := area.undo.redo ++ [area.snapshot] } } := by
  refine ⟨rfl, rfl, rfl, ?_⟩
  intro one member
  unfold UndoState.entries at *
  simp only [List.mem_append, List.mem_singleton] at member ⊢
  rcases member with (stack | redo | new) | checkpoint
  · exact .inl (.inl (.inl (List.dropLast_subset _ stack)))
  · exact .inl (.inl (.inr redo))
  · exact .inr new
  · exact .inl (.inr checkpoint)

theorem redone_bookkeeping (area : TextArea) :
    Bookkeeping area
      { area with
        undo :=
          { area.undo with
            stack := area.undo.stack ++ [area.snapshot]
            redo := area.undo.redo.dropLast } } := by
  refine ⟨rfl, rfl, rfl, ?_⟩
  intro one member
  unfold UndoState.entries at *
  simp only [List.mem_append, List.mem_singleton] at member ⊢
  rcases member with ((stack | new) | redo) | checkpoint
  · exact .inl (.inl (.inl stack))
  · exact .inr new
  · exact .inl (.inl (.inr (List.dropLast_subset _ redo)))
  · exact .inl (.inr checkpoint)

theorem cancelled_bookkeeping (area : TextArea) :
    Bookkeeping area
      { area with
        undo :=
          { area.undo with
            groupDepth := 0
            groupCheckpoint := none } } := by
  refine ⟨rfl, rfl, rfl, ?_⟩
  intro one member
  unfold UndoState.entries at *
  simp only [Option.toList_none, List.append_nil] at member
  exact .inl (List.mem_append_left _ member)

theorem undoLast_sane (sane : Sane seg made area) : Sane seg made (area.undoLast seg) := by
  unfold TextArea.undoLast
  split
  · exact sane
  next entry found =>
    have known : entry ∈ area.undo.stack := List.mem_of_getLast? found
    have whole := sane.history entry (List.mem_append_left _ (List.mem_append_left _ known))
    exact (restore_sane (sane.bookkeeping (undone_bookkeeping area)) whole).bookkeeping (.of_undo_eq rfl rfl rfl rfl)

theorem redoLast_sane (sane : Sane seg made area) : Sane seg made (area.redoLast seg) := by
  unfold TextArea.redoLast
  split
  · exact sane
  next entry found =>
    have known : entry ∈ area.undo.redo := List.mem_of_getLast? found
    have whole := sane.history entry (List.mem_append_left _ (List.mem_append_right _ known))
    exact (restore_sane (sane.bookkeeping (redone_bookkeeping area)) whole).bookkeeping (.of_undo_eq rfl rfl rfl rfl)

theorem cancelUndoGroup_sane (sane : Sane seg made area) : Sane seg made (area.cancelUndoGroup seg) := by
  have kept := cancelled_bookkeeping area
  unfold TextArea.cancelUndoGroup
  split
  · exact sane
  dsimp only
  split
  · exact (sane.bookkeeping kept).bookkeeping (.of_undo_eq rfl rfl rfl rfl)
  next checkpoint found =>
    have whole := sane.history checkpoint (List.mem_append_right _ (by rw [found]; simp))
    exact (restore_sane (sane.bookkeeping kept) whole).bookkeeping (.of_undo_eq rfl rfl rfl rfl)

theorem inlineElement_sane (sane : Sane seg made area) (id : Nat) : Sane seg made (area.inlineElement seg id) := by
  unfold TextArea.inlineElement
  split
  · exact sane
  next element found =>
    have sane' := sane.bookkeeping (preMutate_bookkeeping area .element)
    have fewer := List.eraseP_sublist (p := fun element : TextElement => element.id = id)
      (l := (area.preMutate .element).elements)
    have inlined : Sane seg made
        { area.preMutate .element with
          elements := (area.preMutate .element).elements.eraseP fun element => element.id = id } := by
      refine ⟨sane'.cursor, ?_, sane'.history, sane'.fresh, sane'.once⟩
      refine ⟨sane'.elements.sorted.sublist fewer, sane'.elements.apart.sublist fewer,
        sane'.elements.ids.sublist (fewer.map _), ?_⟩
      intro one member
      exact sane'.elements.kept one (fewer.subset member)
    exact (setCursorInner_sane inlined _).bookkeeping (.of_undo_eq rfl rfl rfl rfl)

theorem replaceRangeWithElement_lands (sane : Sane seg made area) (range : Range) (text : Text) :
    Lands seg (made ++ [(area.nextElementId, expandTabs area.tabWidth text)])
      (area.replaceRangeWithElement seg range text) := by
  obtain ⟨plan, planned, sound, same⟩ := planEditReplacement_sound sane range text
  have noted := preMutate_bookkeeping area .element
  obtain ⟨next, applied, sane', number, a, c, shape, start, free⟩ :=
    applyValidated_sane (sane.bookkeeping noted) (sound.bookkeeping noted) (some .element)
  rw [noted.nextElementId] at number
  have whole := sane'.elements
  rw [shape] at whole
  have added : Sane seg (made ++ [(area.nextElementId, expandTabs area.tabWidth text)])
      (next.addElement plan.replacedByteRange.1 (plan.replacedByteRange.1 + byteLen plan.replacement)) := by
    refine ⟨sane'.cursor, ?_, ?_, ?_, ?_⟩
    · unfold TextArea.addElement
      dsimp only
      rw [shape, number, ← start, ← same]
      exact addElement_whole whole free sane.fresh
    · intro entry member
      exact (sane'.history entry member).mono fun one known => List.mem_append_left _ known
    · intro one member
      change one.1 < next.nextElementId + 1
      rw [number]
      rcases List.mem_append.mp member with old | new
      · exact (sane.fresh one old).trans (Nat.lt_succ_self _)
      · obtain rfl := List.mem_singleton.mp new
        exact Nat.lt_succ_self _
    · rw [List.map_append]
      refine List.nodup_append.mpr ⟨sane.once, List.nodup_singleton _, ?_⟩
      rintro id member other new rfl
      obtain ⟨one, there, rfl⟩ := List.mem_map.mp member
      have older := sane.fresh one there
      have newest : one.1 = area.nextElementId := List.mem_singleton.mp new
      omega
  unfold TextArea.replaceRangeWithElement TextArea.applyElementTransaction
  rw [planned, Option.bind_some]
  dsimp only
  rw [sound.valid]
  dsimp only
  rw [applied]
  exact ⟨_, rfl, (setCursorInner_sane added _).bookkeeping (postMutate_bookkeeping _)⟩

theorem step_lands (sane : Sane seg made area) (op : Op) : Lands seg (made ++ area.made op) (area.step seg op) := by
  have plain : ∀ result : Option TextArea, Lands seg made result → Lands seg (made ++ []) result := by
    intro result lands
    rw [List.append_nil]
    exact lands
  cases op with
  | command command => exact plain _ (applyClassifiedCommand_lands sane command)
  | insertStr text => exact plain _ (insertStr_lands sane text)
  | insertStrAt position text => exact plain _ (insertStrAt_lands sane position text)
  | insertStrReplacingSelection text => exact plain _ (insertStrReplacingSelection_lands sane text)
  | replaceRange range text => exact plain _ (applyEditReplacement_lands sane range text .replace)
  | setText text => exact plain _ (setText_lands sane text)
  | insertElement text => exact replaceRangeWithElement_lands sane _ text
  | replaceRangeWithElement range text => exact replaceRangeWithElement_lands sane range text
  | inlineElement id => exact plain _ ⟨_, rfl, inlineElement_sane sane id⟩
  | killCurrentLine => exact plain _ (killCurrentLine_lands sane)
  | yank => exact plain _ (yank_lands sane)
  | deleteSelection => exact plain _ (deleteSelection_lands sane)
  | setSelection anchor head => exact plain _ ⟨_, rfl, sane.bookkeeping (.of_undo_eq rfl rfl rfl rfl)⟩
  | clearSelection => exact plain _ ⟨_, rfl, sane.bookkeeping (.of_undo_eq rfl rfl rfl rfl)⟩
  | setCursor position => exact plain _ ⟨_, rfl, setCursorInner_sane sane _⟩
  | setCursorInner position => exact plain _ ⟨_, rfl, setCursorInner_sane sane position⟩
  | undo => exact plain _ ⟨_, rfl, undoLast_sane sane⟩
  | redo => exact plain _ ⟨_, rfl, redoLast_sane sane⟩
  | beginUndoGroup => exact plain _ ⟨_, rfl, sane.bookkeeping (beginUndoGroup_bookkeeping area)⟩
  | endUndoGroup => exact plain _ ⟨_, rfl, sane.bookkeeping (endUndoGroup_bookkeeping area)⟩
  | cancelUndoGroup => exact plain _ ⟨_, rfl, cancelUndoGroup_sane sane⟩
  | clearHistory => exact plain _ ⟨_, rfl, sane.bookkeeping (clearHistory_bookkeeping area)⟩
  | setTabWidth tabWidth => exact plain _ ⟨_, rfl, sane.bookkeeping (.of_undo_eq rfl rfl rfl rfl)⟩

theorem run_lands (sane : Sane seg made area) (ops : List Op) :
    Lands seg (made ++ area.madeAlong seg ops) (area.run seg ops) := by
  induction ops generalizing made area with
  | nil => exact ⟨area, rfl, by rw [TextArea.madeAlong, List.append_nil]; exact sane⟩
  | cons op later ih =>
      obtain ⟨next, stepped, sane'⟩ := step_lands sane op
      rw [TextArea.run, TextArea.madeAlong, stepped, Option.bind_some, ← List.append_assoc]
      exact ih sane'

theorem new_sane (seg : Segmentation) : Sane seg [] TextArea.new :=
  ⟨boundary_zero seg [], Whole.nil [] [], by simp [UndoState.entries, TextArea.new, UndoState.new], by simp,
    List.nodup_nil⟩

end Steps

section Claims

variable (seg : Segmentation)

def PlansValid (area : TextArea) : Prop :=
  (∀ command, ∃ plan, area.buffer.planCommand seg command area.elementRanges = some plan ∧
      area.buffer.validatePlan seg plan = .ok ()) ∧
    ∀ range replacement, ∃ plan, area.planEditReplacement seg range replacement = some plan ∧
      area.buffer.validatePlan seg plan = .ok ()

structure WellPlaced (text : Text) (elements : List TextElement) : Prop where
  sorted : elements.Pairwise fun a b => a.start ≤ b.start
  inBounds : ∀ element ∈ elements, element.start ≤ element.stop ∧ element.stop ≤ byteLen text
  onCharacters : ∀ element ∈ elements, (splitAtByte text element.start).isSome ∧ (splitAtByte text element.stop).isSome
  disjoint : elements.Pairwise fun a b => a.stop ≤ b.start ∨ b.stop ≤ a.start
  distinctIds : (elements.map TextElement.id).Nodup

theorem Whole.wellPlaced {made : List (Nat × Text)} {text : Text} {elements : List TextElement}
    (whole : Whole made text elements) : WellPlaced text elements := by
  refine ⟨whole.sorted, fun element member => whole.forward member, ?_, whole.apart, whole.ids⟩
  intro element member
  obtain ⟨part, cut, -⟩ := whole.kept element member
  obtain ⟨a, b, rfl, start, stop⟩ := slice_eq_some.mp cut
  rw [← start] at stop ⊢
  rw [← stop, ← byteLen_append, splitAtByte_append, List.append_assoc, splitAtByte_append]
  exact ⟨rfl, rfl⟩

theorem run_keeps_elements (ops : List Op) :
    ∃ area, TextArea.new.run seg ops = some area ∧ PlansValid seg area ∧
      WellPlaced area.buffer.text area.elements ∧ ((TextArea.new.madeAlong seg ops).map Prod.fst).Nodup ∧
        ∀ element ∈ area.elements, ∃ text, (element.id, text) ∈ TextArea.new.madeAlong seg ops ∧
          slice area.buffer.text element.start element.stop = some text := by
  obtain ⟨area, ran, sane⟩ := run_lands (new_sane seg) ops
  rw [List.nil_append] at sane
  refine ⟨area, ran, ⟨?_, ?_⟩, sane.elements.wellPlaced, sane.once, ?_⟩
  · intro command
    obtain ⟨plan, planned, sound⟩ := planEditCommand_sound sane command
    exact ⟨plan, planned, sound.valid⟩
  · intro range replacement
    obtain ⟨plan, planned, sound, -⟩ := planEditReplacement_sound sane range replacement
    exact ⟨plan, planned, sound.valid⟩
  · intro element member
    obtain ⟨part, cut, known⟩ := sane.elements.kept element member
    exact ⟨part, known, cut⟩

-- The line feed joins the last cluster of the element, and goes with all of it.
example :
    (TextArea.new.run (characterSegmentation Char.isAlphanum)
        [.insertElement ['x', '\r'], .insertStr ['\n'], .command .deleteGraphemeBackward]).map
      (fun area => (area.buffer.text, area.elements)) = some ([], []) := by decide +kernel

end Claims

end GrokPi.Editor
