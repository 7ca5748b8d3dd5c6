import GrokPi.Editor.Plans

set_option autoImplicit false

namespace GrokPi.Editor

open Text

structure TextElement where
  id : Nat
  start : Nat
  stop : Nat
  deriving DecidableEq

structure UndoEntry where
  text : Text
  cursor : Nat
  elements : List TextElement
  deriving DecidableEq

inductive MutationKind where
  | insert
  | delete
  | kill
  | element
  | replace
  deriving DecidableEq

structure UndoState where
  stack : List UndoEntry
  redo : List UndoEntry
  maxDepth : Nat
  lastKind : Option MutationKind
  lastCursor : Nat
  lastInsertWs : Bool
  groupDepth : Nat
  groupCheckpoint : Option UndoEntry

structure Selection where
  anchor : Nat
  head : Nat
  deriving DecidableEq

structure TextArea where
  buffer : EditBuffer
  elements : List TextElement
  nextElementId : Nat
  killBuffer : Text
  undo : UndoState
  selection : Option Selection
  tabWidth : Nat

def UndoState.new : UndoState :=
  { stack := []
    redo := []
    maxDepth := 100
    lastKind := none
    lastCursor := 0
    lastInsertWs := false
    groupDepth := 0
    groupCheckpoint := none }

def TextArea.new : TextArea :=
  { buffer :=
      { text := []
        cursorByte := 0
        identity := 0
        generation := 0 }
    elements := []
    nextElementId := 0
    killBuffer := []
    undo := .new
    selection := none
    tabWidth := 4 }

def expandTabs (tabWidth : Nat) (text : Text) : Text :=
  if tabWidth = 0 ∨ '\t' ∉ text then text
  else text.flatMap fun c => if c = '\t' then List.replicate tabWidth ' ' else [c]

def EditCommand.mutationKind : EditCommand → Option MutationKind
  | .insert _ => some .insert
  | .moveGraphemeLeft | .moveGraphemeRight | .moveWordLeft _ | .moveWordRight _ => none
  | .moveLogicalLineStart | .moveLogicalLineEnd => none
  | .deleteGraphemeBackward | .deleteGraphemeForward => some .delete
  | .deleteWordBackward _ | .deleteWordForward _ | .deleteToLineStart | .deleteToLineEnd => some .kill

def EditPlan.isSemanticEdit (plan : EditPlan) : Bool :=
  plan.removedText != plan.replacement || decide (plan.replacedByteRange.1 < plan.replacedByteRange.2)

def adjustPositionAfterEdit (position : Nat) (replaced : Range) (insertedLen : Nat) : Nat :=
  if position < replaced.1 then position
  else if position ≤ replaced.2 then replaced.1 + insertedLen
  else position - (replaced.2 - replaced.1) + insertedLen

namespace TextElement

def range (element : TextElement) : Range := (element.start, element.stop)

def shift (at' removed inserted : Nat) (element : TextElement) : TextElement :=
  if element.stop ≤ at' then element
  else if at' + removed ≤ element.start then
    { element with
      start := element.start - removed + inserted
      stop := element.stop - removed + inserted }
  else
    -- Only part of the element was replaced.
    { element with
      start := min at' element.start
      stop := at' + max inserted (element.stop - (at' + removed)) }

end TextElement

def shiftElements (at' removed inserted : Nat) (elements : List TextElement) : List TextElement :=
  (elements.filter fun element => !(at' ≤ element.start && element.stop ≤ at' + removed)).map
    (TextElement.shift at' removed inserted)

def sortByStart (elements : List TextElement) : List TextElement :=
  elements.insertionSort fun a b => a.start ≤ b.start

namespace TextArea

section History

def elementRanges (area : TextArea) : List Range := area.elements.map TextElement.range

def snapshot (area : TextArea) : UndoEntry :=
  { text := area.buffer.text
    cursor := area.buffer.cursorByte
    elements := area.elements }

def pushEntry (undo : UndoState) (entry : UndoEntry) : UndoState :=
  let stack := undo.stack ++ [entry]
  { undo with stack := if stack.length > undo.maxDepth then stack.tail else stack }

def preMutate (area : TextArea) (kind : MutationKind) : TextArea :=
  if area.undo.groupDepth > 0 then area
  else
    let shouldPush : Bool :=
      match area.undo.lastKind with
      | none => true
      | some previous =>
          previous != kind || area.buffer.cursorByte != area.undo.lastCursor ||
            [MutationKind.kill, .element, .replace].contains kind
    let undo := if shouldPush then pushEntry area.undo area.snapshot else area.undo
    { area with
      undo :=
        { undo with
          redo := []
          lastKind := some kind } }

def postMutate (area : TextArea) : TextArea :=
  { area with undo := { area.undo with lastCursor := area.buffer.cursorByte } }

-- The next mutation starts a new step.
def resetBatching (area : TextArea) : TextArea :=
  { area with
    undo :=
      { area.undo with
        lastKind := none
        lastCursor := area.buffer.cursorByte } }

def clearHistory (area : TextArea) : TextArea :=
  resetBatching
    { area with
      undo :=
        { area.undo with
          stack := []
          redo := [] } }

def beginUndoGroup (area : TextArea) : TextArea :=
  { area with
    undo :=
      { area.undo with
        groupDepth := area.undo.groupDepth + 1
        groupCheckpoint :=
          if area.undo.groupDepth = 0 then some area.snapshot else area.undo.groupCheckpoint } }

def endUndoGroup (area : TextArea) : TextArea :=
  match area.undo.groupDepth with
  | 0 => area
  | depth + 1 =>
      let undo := { area.undo with groupDepth := depth }
      if depth > 0 then { area with undo := undo }
      else
        match undo.groupCheckpoint with
        | none => resetBatching { area with undo := undo }
        | some checkpoint =>
            let undo := { undo with groupCheckpoint := none }
            let changed := checkpoint.text ≠ area.buffer.text ∨ checkpoint.cursor ≠ area.buffer.cursorByte ∨
              checkpoint.elements.length ≠ area.elements.length
            if changed then resetBatching { area with undo := { pushEntry undo checkpoint with redo := [] } }
            else resetBatching { area with undo := undo }

variable (seg : Segmentation)

-- Neither the next id nor the kill buffer goes back.
def restore (area : TextArea) (entry : UndoEntry) : TextArea :=
  { area with
    buffer := area.buffer.fromParts seg entry.text entry.cursor
    elements := entry.elements }

def undoLast (area : TextArea) : TextArea :=
  match area.undo.stack.getLast? with
  | none => area
  | some entry =>
      let undo :=
        { area.undo with
          stack := area.undo.stack.dropLast
          redo := area.undo.redo ++ [area.snapshot] }
      resetBatching (restore seg { area with undo := undo } entry)

def redoLast (area : TextArea) : TextArea :=
  match area.undo.redo.getLast? with
  | none => area
  | some entry =>
      let undo :=
        { area.undo with
          stack := area.undo.stack ++ [area.snapshot]
          redo := area.undo.redo.dropLast }
      resetBatching (restore seg { area with undo := undo } entry)

def cancelUndoGroup (area : TextArea) : TextArea :=
  if area.undo.groupDepth = 0 then area
  else
    let undo :=
      { area.undo with
        groupDepth := 0
        groupCheckpoint := none }
    match area.undo.groupCheckpoint with
    | none => resetBatching { area with undo := undo }
    | some checkpoint => resetBatching (restore seg { area with undo := undo } checkpoint)

end History

-- Where an edit would panic there is no result.
section Edits

variable (seg : Segmentation)

def applyValidatedEditPlan (area : TextArea) (plan : EditPlan) (kind : Option MutationKind) : Option TextArea :=
  (area.buffer.applyValidatedPlan seg plan).map fun buffer =>
    let replaced := plan.replacedByteRange
    let insertedLen := byteLen plan.replacement
    if plan.isSemanticEdit then
      let moved := area.selection.map fun selection =>
        { anchor := adjustPositionAfterEdit selection.anchor replaced insertedLen
          head := adjustPositionAfterEdit selection.head replaced insertedLen : Selection }
      { area with
        buffer := buffer
        elements := shiftElements replaced.1 (replaced.2 - replaced.1) insertedLen area.elements
        selection := moved.filter fun selection => selection.anchor != selection.head
        killBuffer := if kind = some .kill then plan.removedText else area.killBuffer }
    else { area with buffer := buffer }

def applyEditPlan (area : TextArea) (plan : EditPlan) (kind : Option MutationKind) : Option TextArea :=
  match area.buffer.validatePlan seg plan with
  | .error _ => none
  | .ok () =>
      match kind with
      | some mutation =>
          if plan.isSemanticEdit then
            ((area.preMutate mutation).applyValidatedEditPlan seg plan kind).map postMutate
          else area.applyValidatedEditPlan seg plan kind
      | none => area.applyValidatedEditPlan seg plan none

def applyEditCommand (area : TextArea) (command : EditCommand) (kind : Option MutationKind) : Option TextArea :=
  (area.buffer.planCommand seg command area.elementRanges).bind fun plan => area.applyEditPlan seg plan kind

def planEditReplacement (area : TextArea) (range : Range) (replacement : Text) : Option EditPlan :=
  area.buffer.planReplaceByteRange seg range (expandTabs area.tabWidth replacement) area.elementRanges

def applyEditReplacement (area : TextArea) (range : Range) (replacement : Text) (kind : MutationKind) :
    Option TextArea :=
  (area.planEditReplacement seg range replacement).bind fun plan => area.applyEditPlan seg plan (some kind)

def setCursorInner (area : TextArea) (position : Nat) : TextArea :=
  { area with buffer := area.buffer.setCursorByte seg position }

def clampPosToNearestBoundary (area : TextArea) (position : Nat) : Nat :=
  let position := min position (byteLen area.buffer.text)
  match area.elements.find? fun element => element.start < position && position < element.stop with
  | none => position
  | some element => if position - element.start ≤ element.stop - position then element.start else element.stop

def setCursor (area : TextArea) (position : Nat) : TextArea :=
  area.setCursorInner seg (area.clampPosToNearestBoundary (min position (byteLen area.buffer.text)))

def setText (area : TextArea) (text : Text) : Option TextArea :=
  let cursor := area.buffer.cursorByte
  match area.planEditReplacement seg (0, byteLen area.buffer.text) text with
  | none => none
  | some plan =>
      match area.buffer.validatePlan seg plan with
      | .error _ => none
      | .ok () =>
          let area := area.preMutate .replace
          (area.buffer.applyValidatedPlan seg plan).map fun buffer =>
            let area :=
              { area with
                buffer := buffer
                elements := [] }
            postMutate { area.setCursorInner seg (min cursor (byteLen buffer.text)) with selection := none }

def noteInserted (area : TextArea) (text : Text) : TextArea :=
  match text.getLast? with
  | none => area
  | some last => { area with undo := { area.undo with lastInsertWs := Text.isWhitespace last } }

-- A change between spaces and words starts a new step.
def breakBatch (area : TextArea) (text : Text) : TextArea :=
  match text.head? with
  | none => area
  | some first =>
      if area.undo.lastKind = some .insert ∧ area.undo.lastInsertWs ≠ Text.isWhitespace first then
        { area with undo := { area.undo with lastKind := none } }
      else area

def insertStr (area : TextArea) (text : Text) : Option TextArea :=
  if text = [] then some area
  else
    let area := area.breakBatch text
    (area.applyEditReplacement seg (area.buffer.cursorByte, area.buffer.cursorByte) text .insert).map
      (noteInserted · text)

def insertStrAt (area : TextArea) (position : Nat) (text : Text) : Option TextArea :=
  if text = [] then some area
  else (area.applyEditReplacement seg (position, position) text .insert).map (noteInserted · text)

def replaceRange (area : TextArea) (range : Range) (text : Text) : Option TextArea :=
  area.applyEditReplacement seg range text .replace

-- Each pass but the last takes one end of the range to the end of another element.
def expandRangeToElementBoundaries (area : TextArea) (range : Range) : Range :=
  absorbAll area.elementRanges (2 * area.elements.length + 1) range

def charBoundaryBelow (text : Text) : Nat → Nat
  | 0 => 0
  | position + 1 => if (splitAtByte text (position + 1)).isSome then position + 1 else charBoundaryBelow text position

def charBoundaryAbove (text : Text) (position : Nat) : Nat :=
  ((List.range' position (byteLen text - position)).find? fun p => (splitAtByte text p).isSome).getD (byteLen text)

def selectionRange (area : TextArea) : Option Range :=
  match area.selection with
  | none => none
  | some selection =>
      if selection.anchor = selection.head then none
      else
        let start := min selection.anchor selection.head
        let stop := max selection.anchor selection.head
        let expanded := area.expandRangeToElementBoundaries (start, stop)
        let clampedStart := charBoundaryBelow area.buffer.text (min expanded.1 (byteLen area.buffer.text))
        let clampedEnd := charBoundaryAbove area.buffer.text (min expanded.2 (byteLen area.buffer.text))
        if clampedStart ≥ clampedEnd then none else some (clampedStart, clampedEnd)

def deleteSelection (area : TextArea) : Option TextArea :=
  match area.selectionRange with
  | none => some area
  | some range =>
      (area.applyEditReplacement seg range [] .replace).map fun area =>
        { (area.setCursorInner seg (min range.1 (byteLen area.buffer.text))).postMutate with selection := none }

def insertStrReplacingSelection (area : TextArea) (text : Text) : Option TextArea :=
  if area.selectionRange = none then { area with selection := none }.insertStr seg text
  else
    ((area.beginUndoGroup.deleteSelection seg).bind fun area => area.insertStr seg text).map endUndoGroup

def isInsideElement (area : TextArea) (position : Nat) : Bool :=
  area.elements.any fun element => element.start ≤ position && position < element.stop

def isLineBreak (area : TextArea) (position : Nat) : Bool :=
  charAt area.buffer.text position == some '\n' && !area.isInsideElement position

def beginningOfLine (area : TextArea) (position : Nat) : Nat :=
  (((List.range position).reverse.find? area.isLineBreak).map (· + 1)).getD 0

def endOfLine (area : TextArea) (position : Nat) : Nat :=
  ((List.range' position (byteLen area.buffer.text - position)).find? area.isLineBreak).getD
    (byteLen area.buffer.text)

def killCurrentLine (area : TextArea) : Option TextArea :=
  let bol := area.beginningOfLine area.buffer.cursorByte
  let eol := area.endOfLine area.buffer.cursorByte
  if bol = eol then
    if bol > 0 then area.applyEditReplacement seg (bol - 1, bol) [] .kill else some area
  else area.applyEditReplacement seg (bol, eol) [] .kill

def yank (area : TextArea) : Option TextArea :=
  if area.killBuffer = [] then some area
  else
    let replacingSelection := area.selectionRange.isSome
    let cleared := if replacingSelection then area.beginUndoGroup.deleteSelection seg else some area
    cleared.bind fun area =>
      let text := area.killBuffer
      (area.applyEditReplacement seg (area.buffer.cursorByte, area.buffer.cursorByte) text .insert).map fun area =>
        (if replacingSelection then area.endUndoGroup else area).noteInserted text

def applyClassifiedCommand (area : TextArea) (command : EditCommand) : Option TextArea :=
  match command with
  | .insert character => area.insertStr seg [character]
  | command => area.applyEditCommand seg command command.mutationKind

end Edits

section Elements

variable (seg : Segmentation)

def addElement (area : TextArea) (start stop : Nat) : TextArea :=
  { area with
    elements :=
      sortByStart
        (area.elements ++
          [{ id := area.nextElementId
             start := start
             stop := stop }])
    nextElementId := area.nextElementId + 1 }

def applyElementTransaction (area : TextArea) (plan : EditPlan) : Option TextArea :=
  let start := plan.replacedByteRange.1
  let stop := start + byteLen plan.replacement
  match area.buffer.validatePlan seg plan with
  | .error _ => none
  | .ok () =>
      ((area.preMutate .element).applyValidatedEditPlan seg plan (some .element)).map fun area =>
        ((area.addElement start stop).setCursor seg stop).postMutate

def replaceRangeWithElement (area : TextArea) (range : Range) (text : Text) : Option TextArea :=
  (area.planEditReplacement seg range text).bind (area.applyElementTransaction seg)

def insertElement (area : TextArea) (text : Text) : Option TextArea :=
  area.replaceRangeWithElement seg (area.buffer.cursorByte, area.buffer.cursorByte) text

def inlineElement (area : TextArea) (id : Nat) : TextArea :=
  match area.elements.find? fun element => element.id = id with
  | none => area
  | some element =>
      let area := area.preMutate .element
      let area := { area with elements := area.elements.eraseP fun element => element.id = id }
      let area := area.setCursorInner seg element.stop
      { area with undo := { area.undo with lastKind := none } }

end Elements

end TextArea

/-- What a host or a key can ask for. Deleting several graphemes is a group of commands, and the moves over
visual rows, like those of the mouse, end in one of the two ways to put the cursor somewhere. -/
inductive Op where
  | command (command : EditCommand)
  | insertStr (text : Text)
  | insertStrAt (position : Nat) (text : Text)
  | insertStrReplacingSelection (text : Text)
  | replaceRange (range : Range) (text : Text)
  | setText (text : Text)
  | insertElement (text : Text)
  | replaceRangeWithElement (range : Range) (text : Text)
  | inlineElement (id : Nat)
  | killCurrentLine
  | yank
  | deleteSelection
  | setSelection (anchor head : Nat)
  | clearSelection
  | setCursor (position : Nat)
  | setCursorInner (position : Nat)
  | undo
  | redo
  | beginUndoGroup
  | endUndoGroup
  | cancelUndoGroup
  | clearHistory
  | setTabWidth (tabWidth : Nat)
  deriving DecidableEq

namespace TextArea

variable (seg : Segmentation)

def step (area : TextArea) : Op → Option TextArea
  | .command command => area.applyClassifiedCommand seg command
  | .insertStr text => area.insertStr seg text
  | .insertStrAt position text => area.insertStrAt seg position text
  | .insertStrReplacingSelection text => area.insertStrReplacingSelection seg text
  | .replaceRange range text => area.replaceRange seg range text
  | .setText text => area.setText seg text
  | .insertElement text => area.insertElement seg text
  | .replaceRangeWithElement range text => area.replaceRangeWithElement seg range text
  | .inlineElement id => some (area.inlineElement seg id)
  | .killCurrentLine => area.killCurrentLine seg
  | .yank => area.yank seg
  | .deleteSelection => area.deleteSelection seg
  | .setSelection anchor head =>
      some
        { area with
          selection :=
            some
              { anchor := anchor
                head := head } }
  | .clearSelection => some { area with selection := none }
  | .setCursor position => some (area.setCursor seg position)
  | .setCursorInner position => some (area.setCursorInner seg position)
  | .undo => some (area.undoLast seg)
  | .redo => some (area.redoLast seg)
  | .beginUndoGroup => some area.beginUndoGroup
  | .endUndoGroup => some area.endUndoGroup
  | .cancelUndoGroup => some (area.cancelUndoGroup seg)
  | .clearHistory => some area.clearHistory
  | .setTabWidth tabWidth => some { area with tabWidth := tabWidth }

def run (area : TextArea) : List Op → Option TextArea
  | [] => some area
  | op :: later => (area.step seg op).bind fun next => next.run later

def made (area : TextArea) : Op → List (Nat × Text)
  | .insertElement text | .replaceRangeWithElement _ text => [(area.nextElementId, expandTabs area.tabWidth text)]
  | _ => []

def madeAlong (area : TextArea) : List Op → List (Nat × Text)
  | [] => []
  | op :: later =>
      area.made op ++
        match area.step seg op with
        | none => []
        | some next => next.madeAlong later

end TextArea

end GrokPi.Editor
