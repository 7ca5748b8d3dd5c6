import GrokPi.Editor.Elements
import GrokPi.Shared.Runs
import GrokPi.Shared.Timeline

set_option autoImplicit false

namespace GrokPi.Editor

section Contents

variable (seg : Segmentation)

abbrev Content := Text × List TextElement

def UndoEntry.content (entry : UndoEntry) : Content := (entry.text, entry.elements)

namespace TextArea

def content (area : TextArea) : Content := (area.buffer.text, area.elements)

def timeline (area : TextArea) : Timeline Content :=
  { past := area.undo.stack.map UndoEntry.content
    now := area.content
    future := area.undo.redo.map UndoEntry.content }

def undoAll : Nat → TextArea → TextArea
  | 0, area => area
  | fuel + 1, area => if area.undo.stack = [] then area else undoAll fuel (area.undoLast seg)

def redoAll : Nat → TextArea → TextArea
  | 0, area => area
  | fuel + 1, area => if area.undo.redo = [] then area else redoAll fuel (area.redoLast seg)

end TextArea

open TextArea

variable {seg} {area : TextArea}

theorem undoLast_timeline : (area.undoLast seg).timeline = area.timeline.undo := by
  rcases List.eq_nil_or_concat' area.undo.stack with none' | ⟨stack, entry, shape⟩
  · simp [undoLast, timeline, Timeline.undo, none']
  · rw [@Timeline.undo_concat _ area.timeline (stack.map UndoEntry.content) entry.content (by rw [timeline, shape, List.map_append]; rfl)]
    simp [undoLast, timeline, shape, resetBatching, restore, content, UndoEntry.content, EditBuffer.fromParts, snapshot]

theorem redoLast_timeline : (area.redoLast seg).timeline = area.timeline.redo := by
  rcases List.eq_nil_or_concat' area.undo.redo with none' | ⟨redo, entry, shape⟩
  · simp [redoLast, timeline, Timeline.redo, none']
  · simp [redoLast, timeline, shape, resetBatching, restore, content, UndoEntry.content, EditBuffer.fromParts, snapshot,
      Timeline.redo]

theorem undoAll_timeline (fuel : Nat) : (area.undoAll seg fuel).timeline = area.timeline.undoAll fuel := by
  induction fuel generalizing area with
  | zero => rfl
  | succ fuel ih =>
      have empty : area.timeline.past = [] ↔ area.undo.stack = [] := List.map_eq_nil_iff
      rw [undoAll, Timeline.undoAll]
      split
      next none' => rw [if_pos (empty.mpr none')]
      next some' => rw [if_neg (fun none' => some' (empty.mp none')), ih, undoLast_timeline]

theorem redoAll_timeline (fuel : Nat) : (area.redoAll seg fuel).timeline = area.timeline.redoAll fuel := by
  induction fuel generalizing area with
  | zero => rfl
  | succ fuel ih =>
      have empty : area.timeline.future = [] ↔ area.undo.redo = [] := List.map_eq_nil_iff
      rw [redoAll, Timeline.redoAll]
      split
      next none' => rw [if_pos (empty.mpr none')]
      next some' => rw [if_neg (fun none' => some' (empty.mp none')), ih, redoLast_timeline]

theorem redo_undo_snapshot (cursor : Boundary seg area.buffer.text area.buffer.cursorByte) (some' : area.undo.stack ≠ []) :
    ((area.undoLast seg).redoLast seg).snapshot = area.snapshot := by
  -- The cursor is on a boundary, so restoring it moves it no further.
  obtain ⟨stack, entry, shape⟩ := List.eq_nil_or_concat' area.undo.stack |>.resolve_left some'
  simp [undoLast, shape, redoLast, resetBatching, restore, snapshot, EditBuffer.fromParts, externalCursor_eq seg cursor]

theorem undo_redo_snapshot (cursor : Boundary seg area.buffer.text area.buffer.cursorByte) (some' : area.undo.redo ≠ []) :
    ((area.redoLast seg).undoLast seg).snapshot = area.snapshot := by
  obtain ⟨redo, entry, shape⟩ := List.eq_nil_or_concat' area.undo.redo |>.resolve_left some'
  simp [undoLast, shape, redoLast, resetBatching, restore, snapshot, EditBuffer.fromParts, externalCursor_eq seg cursor]

end Contents

section Origins

open TextArea

variable {seg : Segmentation} {area next : TextArea} {origin : Content}

def Full (area : TextArea) : Prop := area.undo.maxDepth ≤ area.undo.stack.length

/-- The oldest frame is the origin; in a group it is the checkpoint that counts, not what is shown. -/
structure Restorable (origin : Content) (area : TextArea) : Prop where
  latest : area.undo.redo = []
  outside : area.undo.groupDepth = 0 →
    (area.undo.stack.map UndoEntry.content ++ [area.content]).head? = some origin
  inside : 0 < area.undo.groupDepth → ∃ checkpoint, area.undo.groupCheckpoint = some checkpoint ∧
    (area.undo.stack.map UndoEntry.content ++ [checkpoint.content]).head? = some origin
  batched : area.undo.lastKind ≠ none → area.undo.stack ≠ []

def Held (origin : Content) (area : TextArea) : Prop := Full area ∨ Restorable origin area

def Free (origin : Content) (area : TextArea) : Prop :=
  Full area ∨ (Restorable origin area ∧ (0 < area.undo.groupDepth ∨ area.undo.stack ≠ []))

structure SameHistory (area next : TextArea) : Prop where
  stack : next.undo.stack = area.undo.stack
  redo : next.undo.redo = area.undo.redo
  maxDepth : next.undo.maxDepth = area.undo.maxDepth
  groupDepth : next.undo.groupDepth = area.undo.groupDepth
  groupCheckpoint : next.undo.groupCheckpoint = area.undo.groupCheckpoint
  lastKind : next.undo.lastKind = area.undo.lastKind ∨ next.undo.lastKind = none

theorem SameHistory.of_eq (same : next.undo = area.undo) : SameHistory area next := by
  constructor <;> simp [same]

theorem Held.same (held : Held origin area) (same : SameHistory area next) (content : next.content = area.content) :
    Held origin next := by
  refine held.imp (fun full => ?_) fun restorable => ⟨?_, ?_, ?_, ?_⟩
  · rw [Full, same.stack, same.maxDepth]
    exact full
  · rw [same.redo]
    exact restorable.latest
  · rw [same.groupDepth, same.stack, content]
    exact restorable.outside
  · rw [same.groupDepth, same.groupCheckpoint, same.stack]
    exact restorable.inside
  · rw [same.stack]
    intro kind
    exact restorable.batched fun none' => kind (same.lastKind.elim (fun eq => eq.trans none') id)

theorem Free.same (free : Free origin area) (same : SameHistory area next) : Held origin next := by
  -- Whatever is shown then, the history still leads back.
  refine free.imp (fun full => ?_) fun ⟨restorable, free⟩ => ⟨?_, ?_, ?_, ?_⟩
  · rw [Full, same.stack, same.maxDepth]
    exact full
  · rw [same.redo]
    exact restorable.latest
  · rw [same.groupDepth, same.stack]
    intro none'
    have some' := free.resolve_left (by omega)
    have old := restorable.outside none'
    rw [List.head?_append_of_ne_nil _ (by simpa using some')] at old ⊢
    exact old
  · rw [same.groupDepth, same.groupCheckpoint, same.stack]
    exact restorable.inside
  · rw [same.stack]
    intro kind
    exact restorable.batched fun none' => kind (same.lastKind.elim (fun eq => eq.trans none') id)

theorem pushEntry_room {undo : UndoState} (entry : UndoEntry) (room : undo.stack.length < undo.maxDepth) :
    (pushEntry undo entry).stack = undo.stack ++ [entry] := by
  unfold pushEntry
  dsimp only
  rw [if_neg]
  simp
  omega

theorem pushEntry_full {undo : UndoState} (entry : UndoEntry) (full : undo.maxDepth ≤ undo.stack.length) :
    undo.maxDepth ≤ (pushEntry undo entry).stack.length := by
  unfold pushEntry
  dsimp only
  split
  · simpa using full
  · simp
    omega

theorem preMutate_outside (depth : area.undo.groupDepth = 0) (kind : MutationKind) :
    ∃ push : Bool, (area.undo.lastKind = none → push = true) ∧
      area.preMutate kind = { area with undo := { (if push then pushEntry area.undo area.snapshot else area.undo) with
        redo := []
        lastKind := some kind } } := by
  unfold preMutate
  rw [if_neg (by omega)]
  refine ⟨_, fun none' => ?_, rfl⟩
  rw [none']

theorem preMutate_free (held : Held origin area) (kind : MutationKind) : Free origin (area.preMutate kind) := by
  -- Before a mutation the history takes a checkpoint, or the batch has one already.
  by_cases depth : area.undo.groupDepth = 0
  · obtain ⟨push, first, shape⟩ := preMutate_outside depth kind
    rw [shape]
    by_cases full : Full area
    · left
      -- The old state becomes an entry, or the batch has had one from its start.
      cases push with
      | true => exact pushEntry_full _ full
      | false => exact full
    right
    have restorable := held.resolve_left full
    cases push with
    | true =>
        have stack := pushEntry_room area.snapshot (Nat.lt_of_not_le full)
        have some' : (pushEntry area.undo area.snapshot).stack ≠ [] := by simp [stack]
        refine ⟨⟨rfl, fun _ => ?_, fun inside => absurd depth inside.ne', fun _ => some'⟩, .inr some'⟩
        have old := restorable.outside depth
        simp only [if_true, stack, List.map_append]
        rw [List.head?_append_of_ne_nil _ (by simp)]
        exact old
    | false =>
        have some' := restorable.batched fun none' => absurd (first none') (by simp)
        exact ⟨⟨rfl, restorable.outside, fun inside => absurd depth inside.ne', fun _ => some'⟩, .inr some'⟩
  · unfold preMutate
    rw [if_pos (Nat.pos_of_ne_zero depth)]
    exact held.imp id fun restorable => ⟨restorable, .inl (Nat.pos_of_ne_zero depth)⟩

end Origins

section Edits

open TextArea

variable {seg : Segmentation} {area next : TextArea} {origin : Content}

def Keeps (origin : Content) (result : Option TextArea) : Prop := ∀ next, result = some next → Held origin next

theorem Held.keeps (held : Held origin area) : Keeps origin (some area) := by
  rintro next ⟨⟩
  exact held

theorem Keeps.map {result : Option TextArea} {change : TextArea → TextArea} (keeps : Keeps origin result)
    (held : ∀ area, Held origin area → Held origin (change area)) : Keeps origin (result.map change) := by
  intro next changed
  obtain ⟨area, found, rfl⟩ := Option.map_eq_some_iff.mp changed
  exact held area (keeps area found)

theorem Keeps.bind {result : Option TextArea} {later : TextArea → Option TextArea} (keeps : Keeps origin result)
    (held : ∀ area, Held origin area → Keeps origin (later area)) : Keeps origin (result.bind later) := by
  intro next changed
  obtain ⟨area, found, rest⟩ := Option.bind_eq_some_iff.mp changed
  exact held area (keeps area found) next rest

theorem setCursorInner_content (area : TextArea) (position : Nat) : (area.setCursorInner seg position).content = area.content := by
  simp only [setCursorInner, content, (setCursorByte_spec seg area.buffer position).1]

theorem setCursorInner_held (held : Held origin area) (position : Nat) : Held origin (area.setCursorInner seg position) :=
  held.same (.of_eq rfl) (setCursorInner_content area position)

theorem postMutate_held (held : Held origin area) : Held origin area.postMutate :=
  held.same ⟨rfl, rfl, rfl, rfl, rfl, .inl rfl⟩ rfl

theorem noteInserted_held (text : Text) (held : Held origin area) : Held origin (area.noteInserted text) := by
  unfold noteInserted
  split
  · exact held
  · exact held.same ⟨rfl, rfl, rfl, rfl, rfl, .inl rfl⟩ rfl

theorem breakBatch_held (held : Held origin area) (text : Text) : Held origin (area.breakBatch text) := by
  unfold breakBatch
  split
  · exact held
  split
  · exact held.same ⟨rfl, rfl, rfl, rfl, rfl, .inr rfl⟩ rfl
  · exact held

variable {kind : Option MutationKind} {plan : EditPlan}

theorem applyValidated_undo
    (applied : area.applyValidatedEditPlan seg plan kind = some next) : next.undo = area.undo := by
  unfold applyValidatedEditPlan at applied
  obtain ⟨buffer, -, rfl⟩ := Option.map_eq_some_iff.mp applied
  dsimp only
  split
  · rfl
  · rfl

theorem applyEditPlan_cases (applied : area.applyEditPlan seg plan kind = some next) :
    (∃ mutation edited, (area.preMutate mutation).applyValidatedEditPlan seg plan kind = some edited ∧
      next = edited.postMutate) ∨
    ((kind = none ∨ plan.isSemanticEdit = false) ∧ area.applyValidatedEditPlan seg plan kind = some next) := by
  -- A plan that edits is carried out behind a checkpoint, any other just so.
  unfold applyEditPlan at applied
  split at applied
  · cases applied
  split at applied
  next mutation =>
    split at applied
    · obtain ⟨edited, found, rfl⟩ := Option.map_eq_some_iff.mp applied
      exact .inl ⟨mutation, edited, found, rfl⟩
    next plain => exact .inr ⟨.inr (Bool.eq_false_iff.mpr plain), applied⟩
  · exact .inr ⟨.inl rfl, applied⟩

theorem setText_cases {text : Text} (applied : area.setText seg text = some next) :
    ∃ edited : TextArea, edited.undo = (area.preMutate .replace).undo ∧ edited.elements = [] ∧ next = edited.postMutate := by
  unfold setText at applied
  dsimp only at applied
  split at applied
  · cases applied
  split at applied
  · cases applied
  obtain ⟨buffer, -, rfl⟩ := Option.map_eq_some_iff.mp applied
  refine ⟨_, ?_, ?_, rfl⟩
  · rfl
  · rfl

theorem applyElementTransaction_cases (applied : area.applyElementTransaction seg plan = some next) :
    ∃ edited, (area.preMutate .element).applyValidatedEditPlan seg plan (some .element) = some edited ∧
      next = ((edited.addElement plan.replacedByteRange.1
          (plan.replacedByteRange.1 + Text.byteLen plan.replacement)).setCursor seg
        (plan.replacedByteRange.1 + Text.byteLen plan.replacement)).postMutate := by
  unfold applyElementTransaction at applied
  dsimp only at applied
  split at applied
  · cases applied
  obtain ⟨edited, found, rfl⟩ := Option.map_eq_some_iff.mp applied
  exact ⟨edited, found, rfl⟩

theorem applyValidated_plain (plain : plan.isSemanticEdit = false)
    (applied : area.applyValidatedEditPlan seg plan kind = some next) : next.content = area.content := by
  unfold applyValidatedEditPlan at applied
  obtain ⟨buffer, moved, rfl⟩ := Option.map_eq_some_iff.mp applied
  simp only [plain, Bool.false_eq_true, if_false]
  have same : buffer.text = area.buffer.text := by
    unfold EditBuffer.applyValidatedPlan at moved
    simp only [(plain_edit plain).1, ne_eq, not_true_eq_false, if_false, false_or, Option.map_some, Option.some.injEq] at moved
    rw [← moved, (advance_if _ _).1]
  rw [content, same]
  rfl

theorem applyEditPlan_keeps (held : Held origin area) (plan : EditPlan)
    (moves : kind = none → plan.isSemanticEdit = false) : Keeps origin (area.applyEditPlan seg plan kind) := by
  intro next applied
  rcases applyEditPlan_cases applied with ⟨mutation, edited, found, rfl⟩ | ⟨plain, found⟩
  · exact postMutate_held ((preMutate_free held mutation).same (.of_eq (applyValidated_undo found)))
  · exact held.same (.of_eq (applyValidated_undo found)) (applyValidated_plain (plain.elim moves id) found)

theorem applyEditReplacement_keeps (held : Held origin area) (range : Range) (text : Text) (kind : MutationKind) :
    Keeps origin (area.applyEditReplacement seg range text kind) := by
  intro next applied
  obtain ⟨plan, -, applied⟩ := Option.bind_eq_some_iff.mp applied
  exact applyEditPlan_keeps held plan (fun none' => by cases none') next applied

theorem move_plain {buffer : EditBuffer} {position target : Nat}
    (planned : buffer.makePlan (position, position) [] target .exact' = some plan) : plan.isSemanticEdit = false := by
  unfold EditBuffer.makePlan at planned
  obtain ⟨removed, cut, rfl⟩ := Option.map_eq_some_iff.mp planned
  obtain ⟨a, b, -, start, stop⟩ := Text.slice_eq_some.mp cut
  obtain rfl : removed = [] := Text.byteLen_eq_zero.mp (by omega)
  simp [EditPlan.isSemanticEdit]

theorem applyClassifiedCommand_plain {command : EditCommand} (moves : command.mutationKind = none)
    (planned : area.buffer.planCommand seg command area.elementRanges = some plan) : plan.isSemanticEdit = false := by
  unfold EditBuffer.planCommand at planned
  dsimp only at planned
  cases command with
  | insert | deleteGraphemeBackward | deleteGraphemeForward | deleteWordBackward | deleteWordForward | deleteToLineStart
    | deleteToLineEnd => cases moves
  | moveGraphemeLeft | moveGraphemeRight | moveLogicalLineStart | moveLogicalLineEnd => exact move_plain planned
  | moveWordLeft style | moveWordRight style =>
      obtain ⟨target, -, planned⟩ := Option.bind_eq_some_iff.mp planned
      exact move_plain planned

theorem insertStr_keeps (held : Held origin area) (text : Text) : Keeps origin (area.insertStr seg text) := by
  unfold insertStr
  split
  · exact held.keeps
  · exact (applyEditReplacement_keeps (breakBatch_held held text) _ text .insert).map fun _ => noteInserted_held text

theorem insertStrAt_keeps (held : Held origin area) (position : Nat) (text : Text) :
    Keeps origin (area.insertStrAt seg position text) := by
  unfold insertStrAt
  split
  · exact held.keeps
  · exact (applyEditReplacement_keeps held _ text .insert).map fun _ => noteInserted_held text

theorem applyClassifiedCommand_keeps (held : Held origin area) (command : EditCommand) :
    Keeps origin (area.applyClassifiedCommand seg command) := by
  unfold applyClassifiedCommand
  split
  · exact insertStr_keeps held _
  · intro next applied
    obtain ⟨plan, planned, applied⟩ := Option.bind_eq_some_iff.mp applied
    exact applyEditPlan_keeps held plan (fun moves => applyClassifiedCommand_plain moves planned) next applied

theorem setText_keeps (held : Held origin area) (text : Text) : Keeps origin (area.setText seg text) := by
  intro next applied
  obtain ⟨edited, undo, -, rfl⟩ := setText_cases applied
  exact postMutate_held ((preMutate_free held .replace).same (.of_eq undo))

theorem deleteSelection_keeps (held : Held origin area) : Keeps origin (area.deleteSelection seg) := by
  unfold deleteSelection
  split
  · exact held.keeps
  next range _ =>
    refine (applyEditReplacement_keeps held range [] .replace).map fun area held => ?_
    exact (postMutate_held (@setCursorInner_held seg _ _ held _)).same (.of_eq rfl) rfl

theorem killCurrentLine_keeps (held : Held origin area) : Keeps origin (area.killCurrentLine seg) := by
  unfold killCurrentLine
  dsimp only
  split
  · split
    · exact applyEditReplacement_keeps held _ [] .kill
    · exact held.keeps
  · exact applyEditReplacement_keeps held _ [] .kill

theorem replaceRangeWithElement_keeps (held : Held origin area) (range : Range) (text : Text) :
    Keeps origin (area.replaceRangeWithElement seg range text) := by
  intro next applied
  obtain ⟨plan, -, applied⟩ := Option.bind_eq_some_iff.mp applied
  obtain ⟨edited, found, rfl⟩ := applyElementTransaction_cases applied
  have undo := applyValidated_undo found
  exact postMutate_held ((preMutate_free held .element).same (.of_eq undo))

theorem inlineElement_held (held : Held origin area) (id : Nat) : Held origin (area.inlineElement seg id) := by
  unfold inlineElement
  split
  · exact held
  · exact (preMutate_free held .element).same ⟨rfl, rfl, rfl, rfl, rfl, .inr rfl⟩

end Edits

section Groups

open TextArea

variable (seg : Segmentation) {area next : TextArea} {origin : Content}

/-- The end of a group takes for unchanged what has other elements, and there is no older checkpoint. -/
def Blind (area : TextArea) : Prop :=
  area.undo.groupDepth = 1 ∧ area.undo.stack = [] ∧ ∃ checkpoint, area.undo.groupCheckpoint = some checkpoint ∧
    checkpoint.text = area.buffer.text ∧ checkpoint.cursor = area.buffer.cursorByte ∧
      checkpoint.elements.length = area.elements.length ∧ checkpoint.elements ≠ area.elements

instance (area : TextArea) : Decidable (Blind area) :=
  inferInstanceAs (Decidable (area.undo.groupDepth = 1 ∧ area.undo.stack = [] ∧
    ∃ checkpoint ∈ area.undo.groupCheckpoint, checkpoint.text = area.buffer.text ∧
      checkpoint.cursor = area.buffer.cursorByte ∧ checkpoint.elements.length = area.elements.length ∧
        checkpoint.elements ≠ area.elements))

def TextArea.closing (area : TextArea) : Op → Option TextArea
  | .endUndoGroup => some area
  | .insertStrReplacingSelection text =>
      if area.selectionRange = none then none
      else (area.beginUndoGroup.deleteSelection seg).bind fun area => area.insertStr seg text
  | .yank =>
      if area.killBuffer = [] ∨ area.selectionRange = none then none
      else
        (area.beginUndoGroup.deleteSelection seg).bind fun area =>
          area.applyEditReplacement seg (area.buffer.cursorByte, area.buffer.cursorByte) area.killBuffer .insert
  | _ => none

def Sighted (area : TextArea) (op : Op) : Prop := ∀ before, area.closing seg op = some before → ¬ Blind before

instance (area : TextArea) (op : Op) : Decidable (Sighted seg area op) :=
  inferInstanceAs (Decidable (∀ before ∈ area.closing seg op, ¬ Blind before))

def Op.edits : Op → Bool
  | .undo | .redo | .clearHistory => false
  | _ => true

variable {seg}

theorem beginUndoGroup_held (held : Held origin area) : Held origin area.beginUndoGroup := by
  refine held.imp id fun restorable =>
    ⟨restorable.latest, fun depth => absurd depth (Nat.succ_ne_zero _), fun _ => ?_, restorable.batched⟩
  by_cases depth : area.undo.groupDepth = 0
  · exact ⟨area.snapshot, if_pos depth, restorable.outside depth⟩
  · obtain ⟨checkpoint, found, old⟩ := restorable.inside (Nat.pos_of_ne_zero depth)
    exact ⟨checkpoint, (if_neg depth).trans found, old⟩

theorem endUndoGroup_held (held : Held origin area) (sighted : ¬ Blind area) : Held origin area.endUndoGroup := by
  unfold endUndoGroup
  cases depth : area.undo.groupDepth with
  | zero => exact held
  | succ depth' =>
      dsimp only
      split
      -- An inner group keeps the checkpoint of the outermost one.
      next inner =>
        refine held.imp id fun restorable => ⟨restorable.latest, fun outer => absurd outer inner.ne', fun _ => ?_, restorable.batched⟩
        exact restorable.inside (by omega)
      next outer =>
        obtain rfl : depth' = 0 := by omega
        split
        next none' =>
          refine held.imp id fun restorable => ?_
          obtain ⟨checkpoint, found, -⟩ := restorable.inside (by omega)
          rw [found] at none'
          cases none'
        next checkpoint found =>
          split
          · by_cases full : Full area
            · exact .inl (@pushEntry_full { area.undo with groupDepth := 0, groupCheckpoint := none } checkpoint full)
            · have restorable := held.resolve_left full
              obtain ⟨same, found', old⟩ := restorable.inside (by omega)
              obtain rfl : checkpoint = same := Option.some.inj (found.symm.trans found')
              have stack := @pushEntry_room { area.undo with groupDepth := 0, groupCheckpoint := none } checkpoint
                (Nat.lt_of_not_le full)
              refine .inr ⟨rfl, fun _ => ?_, fun inside => absurd inside (Nat.lt_irrefl 0), fun kind => absurd rfl kind⟩
              simp only [resetBatching, stack, List.map_append]
              rw [List.head?_append_of_ne_nil _ (by simp)]
              exact old
          -- Nothing is pushed: the oldest frame is an older entry, or what is shown is the checkpoint still.
          next unchanged =>
            refine held.imp id fun restorable =>
              ⟨restorable.latest, fun _ => ?_, fun inside => absurd inside (Nat.lt_irrefl 0), fun kind => absurd rfl kind⟩
            obtain ⟨same, found', old⟩ := restorable.inside (by omega)
            obtain rfl : checkpoint = same := Option.some.inj (found.symm.trans found')
            simp only [not_or, ne_eq, not_not] at unchanged
            by_cases none' : area.undo.stack = []
            · have elements : checkpoint.elements = area.elements := by
                by_contra other
                exact sighted ⟨depth, none', checkpoint, found, unchanged.1, unchanged.2.1, unchanged.2.2, other⟩
              have content : checkpoint.content = area.content := Prod.ext unchanged.1 elements
              rw [content] at old
              exact old
            · rw [List.head?_append_of_ne_nil _ (by simpa using none')] at old
              change (area.undo.stack.map UndoEntry.content ++ [area.content]).head? = some origin
              rw [List.head?_append_of_ne_nil _ (by simpa using none')]
              exact old

theorem cancelUndoGroup_held (held : Held origin area) : Held origin (area.cancelUndoGroup seg) := by
  unfold cancelUndoGroup
  split
  · exact held
  next inside =>
    dsimp only
    split
    next none' =>
      refine held.imp id fun restorable => ?_
      obtain ⟨checkpoint, found, -⟩ := restorable.inside (Nat.pos_of_ne_zero inside)
      rw [found] at none'
      cases none'
    next checkpoint found =>
      refine held.imp id fun restorable =>
        ⟨restorable.latest, fun _ => ?_, fun inside => absurd inside (Nat.lt_irrefl 0), fun kind => absurd rfl kind⟩
      obtain ⟨same, found', old⟩ := restorable.inside (Nat.pos_of_ne_zero inside)
      obtain rfl : checkpoint = same := Option.some.inj (found.symm.trans found')
      exact old

theorem insertStrReplacingSelection_keeps (held : Held origin area) (text : Text)
    (sighted : Sighted seg area (.insertStrReplacingSelection text)) :
    Keeps origin (area.insertStrReplacingSelection seg text) := by
  intro next applied
  unfold insertStrReplacingSelection at applied
  split at applied
  · have deselected : Held origin { area with selection := none } := held.same (.of_eq rfl) rfl
    exact insertStr_keeps deselected text next applied
  next selected =>
    obtain ⟨before, found, rfl⟩ := Option.map_eq_some_iff.mp applied
    have closes : area.closing seg (.insertStrReplacingSelection text) = some before := (if_neg selected).trans found
    exact endUndoGroup_held (((deleteSelection_keeps (beginUndoGroup_held held)).bind
      fun area held => insertStr_keeps held text) before found) (sighted before closes)

theorem yank_keeps (held : Held origin area) (sighted : Sighted seg area .yank) : Keeps origin (area.yank seg) := by
  intro next applied
  unfold yank at applied
  split at applied
  next none' =>
    obtain rfl := Option.some.inj applied
    exact held
  next killed =>
    dsimp only at applied
    obtain ⟨cleared, found, applied⟩ := Option.bind_eq_some_iff.mp applied
    obtain ⟨before, inserted, rfl⟩ := Option.map_eq_some_iff.mp applied
    apply noteInserted_held
    by_cases selected : area.selectionRange = none
    · simp only [selected, Option.isSome_none, Bool.false_eq_true, if_false, Option.some.injEq] at found ⊢
      subst found
      exact applyEditReplacement_keeps held _ _ .insert before inserted
    · have some' : area.selectionRange.isSome = true := Option.isSome_iff_ne_none.mpr selected
      rw [some', if_pos rfl] at found
      rw [some', if_pos rfl]
      have closes : area.closing seg .yank = some before := by
        refine (if_neg (not_or.mpr ⟨killed, selected⟩)).trans ?_
        rw [found, Option.bind_some]
        exact inserted
      exact endUndoGroup_held (applyEditReplacement_keeps (deleteSelection_keeps (beginUndoGroup_held held) cleared found)
        _ _ .insert before inserted) (sighted before closes)

theorem Held.unnoticed (held : Held origin area) (undo : next.undo = area.undo) (content : next.content = area.content) :
    Keeps origin (some next) := (held.same (.of_eq undo) content).keeps

theorem step_keeps (held : Held origin area) (op : Op) (edits : op.edits = true) (sighted : Sighted seg area op) :
    Keeps origin (area.step seg op) := by
  cases op with
  | command command => exact applyClassifiedCommand_keeps held command
  | insertStr text => exact insertStr_keeps held text
  | insertStrAt position text => exact insertStrAt_keeps held position text
  | insertStrReplacingSelection text => exact insertStrReplacingSelection_keeps held text sighted
  | replaceRange range text => exact applyEditReplacement_keeps held range text .replace
  | setText text => exact setText_keeps held text
  | insertElement text => exact replaceRangeWithElement_keeps held _ text
  | replaceRangeWithElement range text => exact replaceRangeWithElement_keeps held range text
  | inlineElement id => exact (inlineElement_held held id).keeps
  | killCurrentLine => exact killCurrentLine_keeps held
  | yank => exact yank_keeps held sighted
  | deleteSelection => exact deleteSelection_keeps held
  | setSelection anchor head => exact held.unnoticed rfl rfl
  | clearSelection => exact held.unnoticed rfl rfl
  | setCursor position => exact (setCursorInner_held held _).keeps
  | setCursorInner position => exact (setCursorInner_held held position).keeps
  | undo | redo | clearHistory => cases edits
  | beginUndoGroup => exact (beginUndoGroup_held held).keeps
  | endUndoGroup => exact (endUndoGroup_held held (sighted area rfl)).keeps
  | cancelUndoGroup => exact (cancelUndoGroup_held held).keeps
  | setTabWidth tabWidth => exact held.unnoticed rfl rfl

end Groups

section Runs

open TextArea

variable (seg : Segmentation)

theorem run_eq_runPartial (area : TextArea) (ops : List Op) : area.run seg ops = Runs.runPartial (TextArea.step seg) area ops := by
  induction ops generalizing area with
  | nil => rfl
  | cons op later ih => exact congrArg _ (funext fun next => ih next)

theorem clearHistory_restorable {area : TextArea} (outside : area.undo.groupDepth = 0) :
    Restorable area.content area.clearHistory :=
  ⟨rfl, fun _ => rfl, fun inside => absurd outside inside.ne', fun kind => absurd rfl kind⟩

/--
Undo and redo are each other's inverses in every reachable state. And as long as no group ends
unnoticed as the first change, the whole history since it was cleared goes back and forth.
-/
theorem undo_loses_nothing :
    (∀ ops area, TextArea.new.run seg ops = some area →
      (area.undo.stack ≠ [] → ((area.undoLast seg).redoLast seg).snapshot = area.snapshot) ∧
        (area.undo.redo ≠ [] → ((area.redoLast seg).undoLast seg).snapshot = area.snapshot)) ∧
    ∀ (area : TextArea) ops last, area.undo.groupDepth = 0 → area.clearHistory.run seg ops = some last →
      (∀ op ∈ ops, op.edits = true) → last.undo.groupDepth = 0 → last.undo.stack.length < last.undo.maxDepth →
      Runs.AlongPartial (TextArea.step seg) (Sighted seg) area.clearHistory ops →
      ∀ fuel, last.undo.stack.length ≤ fuel →
        (last.undoAll seg fuel).undo.stack = [] ∧ (last.undoAll seg fuel).content = area.content ∧
        ∀ fuel', (last.undoAll seg fuel).undo.redo.length ≤ fuel' →
          ((last.undoAll seg fuel).redoAll seg fuel').undo.redo = [] ∧
            ((last.undoAll seg fuel).redoAll seg fuel').content = last.content := by
  refine ⟨fun ops area ran => ?_, fun area ops last outside ran edits balanced room sighted fuel enough => ?_⟩
  · obtain ⟨same, ran', sane⟩ := run_lands (new_sane seg) ops
    obtain rfl : area = same := Option.some.inj (ran.symm.trans ran')
    exact ⟨redo_undo_snapshot sane.cursor, undo_redo_snapshot sane.cursor⟩
  · rw [run_eq_runPartial] at ran
    have held : Held area.content last := Runs.alongPartial_invariant (TextArea.step seg)
      (fun area op next held guard stepped => step_keeps held op guard.1 guard.2 next stepped)
      (.inr (clearHistory_restorable outside)) (Runs.alongPartial_and _ edits sighted) ran
    have restorable := held.resolve_left (Nat.not_le_of_lt room)
    have first : last.timeline.frames.head? = some area.content := by
      have old := restorable.outside balanced
      have future : last.timeline.future = [] := List.map_eq_nil_iff.mpr restorable.latest
      rw [Timeline.frames, future]
      exact old
    have past : last.timeline.past.length ≤ fuel := by simpa [timeline] using enough
    have undone := @undoAll_timeline seg last fuel
    have empty := (last.timeline.undoAll_spec past).1
    refine ⟨?_, ?_, fun fuel' enough' => ⟨?_, ?_⟩⟩
    · rw [← undone] at empty
      exact List.map_eq_nil_iff.mp empty
    · have now := last.timeline.undoAll_now past
      rw [first, ← undone] at now
      exact (Option.some.inj now).symm
    · have future : (last.undoAll seg fuel).timeline.future.length ≤ fuel' := by simpa [timeline] using enough'
      have forth := ((last.undoAll seg fuel).timeline.redoAll_spec future).1
      rw [← redoAll_timeline] at forth
      exact List.map_eq_nil_iff.mp forth
    · have future : (last.timeline.undoAll fuel).future.length ≤ fuel' := by
        rw [← undone]
        simpa [timeline] using enough'
      have again := last.timeline.redoAll_undoAll (List.map_eq_nil_iff.mpr restorable.latest) past future
      rw [← undone, ← redoAll_timeline] at again
      exact again

def typed : List Op :=
  [.beginUndoGroup, .insertElement ['x'], .insertStr ['a', 'b'], .endUndoGroup, .setCursor 0, .insertStr ['c']]

theorem typed_text_restored :
    (∃ area, TextArea.new.run (characterSegmentation Char.isAlphanum) typed = some area ∧
      ((area.undoLast (characterSegmentation Char.isAlphanum)).redoLast (characterSegmentation Char.isAlphanum)).snapshot =
        area.snapshot) ∧
    ∃ last, TextArea.new.clearHistory.run (characterSegmentation Char.isAlphanum) typed = some last ∧
      last.content = (['c', 'x', 'a', 'b'], [⟨0, 1, 2⟩]) ∧ last.undo.stack.length = 2 ∧
      (last.undoAll (characterSegmentation Char.isAlphanum) 2).content = ([], []) ∧
      ((last.undoAll (characterSegmentation Char.isAlphanum) 2).redoAll
        (characterSegmentation Char.isAlphanum) 2).content = last.content := by
  have first : ((TextArea.new.run (characterSegmentation Char.isAlphanum) typed).map
      fun area => area.undo.stack.length) = some 2 := by decide +kernel
  have edited : ((TextArea.new.clearHistory.run (characterSegmentation Char.isAlphanum) typed).map fun last =>
      (last.content, last.undo.groupDepth, last.undo.stack.length, last.undo.maxDepth,
        (last.undoAll (characterSegmentation Char.isAlphanum) 2).undo.redo.length)) =
      some ((['c', 'x', 'a', 'b'], [⟨0, 1, 2⟩]), 0, 2, 100, 2) := by decide +kernel
  obtain ⟨area, ran, one⟩ := Option.map_eq_some_iff.mp first
  obtain ⟨last, ran', facts⟩ := Option.map_eq_some_iff.mp edited
  simp only [Prod.mk.injEq] at facts
  obtain ⟨content, depth, stack, maxDepth, redo⟩ := facts
  -- The group ends as the first change of all, with another text than it began with.
  have sighted : Runs.AlongPartial (TextArea.step (characterSegmentation Char.isAlphanum))
      (Sighted (characterSegmentation Char.isAlphanum)) TextArea.new.clearHistory typed := by decide +kernel
  have whole := (undo_loses_nothing (characterSegmentation Char.isAlphanum)).2 TextArea.new _ last rfl ran'
    (by decide) depth (by omega) sighted 2 (by omega)
  refine ⟨⟨area, ran, ?_⟩, last, ran', content, stack, whole.2.1, (whole.2.2 2 (by omega)).2⟩
  exact ((undo_loses_nothing (characterSegmentation Char.isAlphanum)).1 _ area ran).1
    (List.ne_nil_of_length_pos (by omega))

/-- An element takes the place of another with the same text: the end of the group sees no change. -/
theorem exchanged_element_kept :
    ((TextArea.new.run (characterSegmentation Char.isAlphanum) [.insertElement ['x']]).bind fun area =>
      (area.clearHistory.run (characterSegmentation Char.isAlphanum)
          [.beginUndoGroup, .replaceRangeWithElement (0, 1) ['x'], .endUndoGroup]).map fun last =>
        (area.content, last.content, (last.undoAll (characterSegmentation Char.isAlphanum) 100).content)) =
      some ((['x'], [⟨0, 0, 1⟩]), (['x'], [⟨1, 0, 1⟩]), (['x'], [⟨1, 0, 1⟩])) ∧
    ((TextArea.new.run (characterSegmentation Char.isAlphanum) [.insertElement ['x']]).bind fun area =>
      (area.clearHistory.run (characterSegmentation Char.isAlphanum)
          [.beginUndoGroup, .replaceRangeWithElement (0, 1) ['x'], .endUndoGroup]).map fun last =>
        (area.undo.groupDepth, last.undo.groupDepth, last.undo.stack.length, last.undo.maxDepth)) =
      some (0, 0, 0, 100) := by
  decide +kernel

end Runs

end GrokPi.Editor
