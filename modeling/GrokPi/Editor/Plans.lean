import GrokPi.Editor.Segmentation

set_option autoImplicit false

namespace GrokPi.Editor

open Text

inductive WordStyle where
  | small
  | whitespaceDelimited
  deriving DecidableEq

inductive EditCommand where
  | insert (character : Char)
  | moveGraphemeLeft
  | moveGraphemeRight
  | moveWordLeft (style : WordStyle)
  | moveWordRight (style : WordStyle)
  | moveLogicalLineStart
  | moveLogicalLineEnd
  | deleteGraphemeBackward
  | deleteGraphemeForward
  | deleteWordBackward (style : WordStyle)
  | deleteWordForward (style : WordStyle)
  | deleteToLineStart
  | deleteToLineEnd
  deriving DecidableEq

inductive PostEditCursorAffinity where
  | exact'
  | right
  deriving DecidableEq

abbrev Range : Type := Nat × Nat

structure EditPlan where
  replacedByteRange : Range
  replacement : Text
  removedText : Text
  cursorByte : Nat
  cursorAffinity : PostEditCursorAffinity
  sourceIdentity : Nat
  sourceGeneration : Nat
  deriving DecidableEq

inductive ApplyEditPlanError where
  | stalePlan
  | invalidRange
  | removedTextMismatch
  | invalidCursor
  deriving DecidableEq

structure EditBuffer where
  text : Text
  cursorByte : Nat
  identity : Nat
  generation : Nat
  deriving DecidableEq

section AtomicRanges

variable (seg : Segmentation)

def normalizeAtomicRange (text : Text) (range : Range) : Option Range :=
  let rawStart := min (min range.1 range.2) (byteLen text)
  let rawEnd := min (max range.1 range.2) (byteLen text)
  if rawStart = rawEnd then none
  else
    let start := floorGraphemeBoundary seg text rawStart
    let stop := ceilGraphemeBoundary seg text rawEnd
    if start < stop then some (start, stop) else none

/-- Ranges that share a byte become one. -/
def mergeInto : Range → List Range → List Range
  | previous, [] => [previous]
  | previous, range :: rest =>
      if range.1 < previous.2 then mergeInto (previous.1, max previous.2 range.2) rest
      else previous :: mergeInto range rest

def mergeRanges : List Range → List Range
  | [] => []
  | first :: rest => mergeInto first rest

def startsEarlier (a b : Range) : Prop := a.1 < b.1 ∨ (a.1 = b.1 ∧ a.2 ≤ b.2)

instance : DecidableRel startsEarlier := fun a b => inferInstanceAs (Decidable (a.1 < b.1 ∨ (a.1 = b.1 ∧ a.2 ≤ b.2)))

def normalizeAtomicRanges (text : Text) (ranges : List Range) : List Range :=
  mergeRanges ((ranges.filterMap (normalizeAtomicRange seg text)).insertionSort startsEarlier)

def normalizeCursorForAtomicRanges (cursorByte : Nat) (atomic : List Range) : Nat :=
  match atomic.find? fun range => range.1 < cursorByte && cursorByte < range.2 with
  | none => cursorByte
  | some range => if cursorByte - range.1 ≤ range.2 - cursorByte then range.1 else range.2

def absorb (range atomic : Range) : Range :=
  if atomic.1 < range.2 ∧ range.1 < atomic.2 then (min range.1 atomic.1, max range.2 atomic.2) else range

-- Passes over the ranges until one changes nothing.
def absorbAll (atomic : List Range) : Nat → Range → Range
  | 0, range => range
  | rounds + 1, range =>
      let next := atomic.foldl absorb range
      if next = range then range else absorbAll atomic rounds next

def normalizeReplacementRange (text : Text) (range : Range) (atomic : List Range) : Range :=
  let rawStart := min (min range.1 range.2) (byteLen text)
  let rawEnd := min (max range.1 range.2) (byteLen text)
  if rawStart = rawEnd then
    let cursor := normalizeCursorForAtomicRanges (normalizeExternalCursor seg text rawStart) atomic
    (cursor, cursor)
  else
    absorbAll atomic (atomic.length + 2)
      (floorGraphemeBoundary seg text rawStart, ceilGraphemeBoundary seg text rawEnd)

def previousAtomicBoundary (text : Text) (byte : Nat) (atomic : List Range) : Nat :=
  match atomic.find? fun range => range.1 < byte && byte ≤ range.2 with
  | some range => range.1
  | none =>
      let boundary := previousGraphemeBoundary seg text byte
      ((atomic.find? fun range => range.1 < boundary && boundary < range.2).map Prod.fst).getD boundary

def nextAtomicBoundary (text : Text) (byte : Nat) (atomic : List Range) : Nat :=
  match atomic.find? fun range => range.1 ≤ byte && byte < range.2 with
  | some range => range.2
  | none =>
      let boundary := nextGraphemeBoundary seg text byte
      ((atomic.find? fun range => range.1 < boundary && boundary < range.2).map Prod.snd).getD boundary

def byteIsInsideAtomicRange (byte : Nat) (atomic : List Range) : Bool :=
  atomic.any fun range => range.1 ≤ byte && byte < range.2

end AtomicRanges

section Words

variable (seg : Segmentation)

inductive WordClass where
  | whitespace
  | word
  | punctuation
  | atomic (index : Nat)
  deriving DecidableEq

def wordClass (style : WordStyle) (grapheme : Text) : Option WordClass :=
  match grapheme with
  | [] => none
  | character :: _ =>
      if Text.isWhitespace character then some .whitespace
      else if style = .whitespaceDelimited ∨ seg.isAlphanumeric character ∨ character = '_' then some .word
      else some .punctuation

-- No result at all where slicing the text would panic.
def atomicWordClass (text : Text) (style : WordStyle) (atomic : List Range) (start stop : Nat) :
    Option (Option WordClass) :=
  match atomic.findIdx? fun range => range = (start, stop) with
  | some index => some (some (if style = .small then .atomic index else .word))
  | none => (slice text start stop).map (wordClass seg style)

def walkBack (text : Text) (style : WordStyle) (atomic : List Range) (keep : Option WordClass → Bool) :
    Nat → Nat → Option Nat
  | 0, position => some position
  | rounds + 1, position =>
      if position = 0 then some position
      else
        let previous := previousAtomicBoundary seg text position atomic
        match atomicWordClass seg text style atomic previous position with
        | none => none
        | some found => if keep found then walkBack text style atomic keep rounds previous else some position

def walkForward (text : Text) (style : WordStyle) (atomic : List Range) (keep : Option WordClass → Bool) :
    Nat → Nat → Option Nat
  | 0, position => some position
  | rounds + 1, position =>
      if byteLen text ≤ position then some position
      else
        let next := nextAtomicBoundary seg text position atomic
        match atomicWordClass seg text style atomic position next with
        | none => none
        | some found => if keep found then walkForward text style atomic keep rounds next else some position

def previousWordBoundary (text : Text) (style : WordStyle) (cursorByte : Nat) (atomic : List Range) : Option Nat :=
  match walkBack seg text style atomic (· == some .whitespace) cursorByte cursorByte with
  | none => none
  | some 0 => some 0
  | some position =>
      let previous := previousAtomicBoundary seg text position atomic
      match atomicWordClass seg text style atomic previous position with
      | none => none
      | some target => walkBack seg text style atomic (· == target) position position

def nextWordBoundary (text : Text) (style : WordStyle) (cursorByte : Nat) (atomic : List Range) : Option Nat :=
  match walkForward seg text style atomic (· == some .whitespace) (byteLen text - cursorByte) cursorByte with
  | none => none
  | some position =>
      if position = byteLen text then some position
      else
        let next := nextAtomicBoundary seg text position atomic
        match atomicWordClass seg text style atomic position next with
        | none => none
        | some target => walkForward seg text style atomic (· == target) (byteLen text - position) position

end Words

section LogicalLines

variable (seg : Segmentation)

def isLineFeed (text : Text) (atomic : List Range) (position : Nat) : Bool :=
  charAt text position == some '\n' && !byteIsInsideAtomicRange position atomic

def lineStartAt (text : Text) (cursorByte : Nat) (atomic : List Range) : Nat :=
  (((List.range (min cursorByte (byteLen text))).reverse.find? (isLineFeed text atomic)).map (· + 1)).getD 0

def lineEndFrom (text : Text) (cursorByte : Nat) (atomic : List Range) : Nat :=
  let cursorByte := min cursorByte (byteLen text)
  match (List.range' cursorByte (byteLen text - cursorByte)).find? (isLineFeed text atomic) with
  | none => byteLen text
  | some lineFeed => if 0 < lineFeed ∧ charAt text (lineFeed - 1) = some '\r' then lineFeed - 1 else lineFeed

def lineEndingAt (text : Text) (lineEnd : Nat) : Option Range :=
  match splitAtByte text lineEnd with
  | some (_, '\r' :: '\n' :: _) => some (lineEnd, lineEnd + 2)
  | some (_, '\n' :: _) => some (lineEnd, lineEnd + 1)
  | _ => none

def logicalLineStartTarget (text : Text) (cursorByte : Nat) (atomic : List Range) : Nat :=
  let lineStart := lineStartAt text cursorByte atomic
  if cursorByte = lineStart ∧ 0 < lineStart then
    lineStartAt text (previousAtomicBoundary seg text lineStart atomic) atomic
  else lineStart

def logicalLineEndTarget (text : Text) (cursorByte : Nat) (atomic : List Range) : Nat :=
  let lineEnd := lineEndFrom text cursorByte atomic
  if cursorByte = lineEnd then
    match lineEndingAt text lineEnd with
    | none => lineEnd
    | some range => lineEndFrom text range.2 atomic
  else lineEnd

end LogicalLines

section Planning

variable (seg : Segmentation)

def EditBuffer.makePlan (buffer : EditBuffer) (range : Range) (replacement : Text) (cursorByte : Nat)
    (affinity : PostEditCursorAffinity) : Option EditPlan :=
  (slice buffer.text range.1 range.2).map fun removedText =>
    { replacedByteRange := range
      replacement := replacement
      removedText := removedText
      cursorByte := cursorByte
      cursorAffinity := affinity
      sourceIdentity := buffer.identity
      sourceGeneration := buffer.generation }

def EditBuffer.planReplaceByteRange (buffer : EditBuffer) (range : Range) (replacement : Text)
    (atomicByteRanges : List Range) : Option EditPlan :=
  let atomic := normalizeAtomicRanges seg buffer.text atomicByteRanges
  let range := normalizeReplacementRange seg buffer.text range atomic
  let cursorByte := normalizeCursorForAtomicRanges buffer.cursorByte atomic
  let nextCursor :=
    if cursorByte < range.1 then cursorByte
    else if cursorByte ≤ range.2 then range.1 + byteLen replacement
    else cursorByte - (range.2 - range.1) + byteLen replacement
  buffer.makePlan range replacement nextCursor .right

def EditBuffer.planCommand (buffer : EditBuffer) (command : EditCommand) (atomicByteRanges : List Range) :
    Option EditPlan :=
  let text := buffer.text
  let atomic := normalizeAtomicRanges seg text atomicByteRanges
  let cursorByte := normalizeCursorForAtomicRanges buffer.cursorByte atomic
  let moveTo := fun target => buffer.makePlan (cursorByte, cursorByte) [] target .exact'
  let delete := fun start stop => buffer.makePlan (start, stop) [] start .right
  match command with
  | .insert character =>
      buffer.makePlan (cursorByte, cursorByte) [character] (cursorByte + character.utf8Size) .right
  | .moveGraphemeLeft => moveTo (previousAtomicBoundary seg text cursorByte atomic)
  | .moveGraphemeRight => moveTo (nextAtomicBoundary seg text cursorByte atomic)
  | .moveWordLeft style => (previousWordBoundary seg text style cursorByte atomic).bind moveTo
  | .moveWordRight style => (nextWordBoundary seg text style cursorByte atomic).bind moveTo
  | .moveLogicalLineStart => moveTo (logicalLineStartTarget seg text cursorByte atomic)
  | .moveLogicalLineEnd => moveTo (logicalLineEndTarget text cursorByte atomic)
  | .deleteGraphemeBackward => delete (previousAtomicBoundary seg text cursorByte atomic) cursorByte
  | .deleteGraphemeForward => delete cursorByte (nextAtomicBoundary seg text cursorByte atomic)
  | .deleteWordBackward style =>
      (previousWordBoundary seg text style cursorByte atomic).bind fun start => delete start cursorByte
  | .deleteWordForward style =>
      (nextWordBoundary seg text style cursorByte atomic).bind fun stop => delete cursorByte stop
  | .deleteToLineStart =>
      let lineStart := lineStartAt text cursorByte atomic
      delete (if cursorByte = lineStart then previousAtomicBoundary seg text lineStart atomic else lineStart)
        cursorByte
  | .deleteToLineEnd =>
      let lineEnd := lineEndFrom text cursorByte atomic
      delete (min cursorByte lineEnd)
        (if lineEnd ≤ cursorByte then ((lineEndingAt text lineEnd).map Prod.snd).getD lineEnd else lineEnd)

def EditBuffer.validatePlan (buffer : EditBuffer) (plan : EditPlan) : Except ApplyEditPlanError Unit :=
  let range := plan.replacedByteRange
  if plan.sourceIdentity ≠ buffer.identity ∨ plan.sourceGeneration ≠ buffer.generation then .error .stalePlan
  else if range.1 > range.2 ∨ range.2 > byteLen buffer.text ∨
      (splitAtByte buffer.text range.1).isNone ∨ (splitAtByte buffer.text range.2).isNone ∨
      ¬ Boundary seg buffer.text range.1 ∨ ¬ Boundary seg buffer.text range.2 then .error .invalidRange
  else if slice buffer.text range.1 range.2 ≠ some plan.removedText then .error .removedTextMismatch
  else if plan.cursorByte > byteLen buffer.text - (range.2 - range.1) + byteLen plan.replacement then
    .error .invalidCursor
  else if plan.cursorAffinity = .exact' ∧
      (plan.replacement ≠ plan.removedText ∨ ¬ Boundary seg buffer.text plan.cursorByte) then .error .invalidCursor
  else .ok ()

def maxGeneration : Nat := 2 ^ 64 - 1

-- A buffer whose counter is full becomes another buffer.
def EditBuffer.advanceGeneration (buffer : EditBuffer) : EditBuffer :=
  if buffer.generation < maxGeneration then { buffer with generation := buffer.generation + 1 }
  else
    { buffer with
      identity := buffer.identity + 1
      generation := 0 }

def EditBuffer.applyValidatedPlan (buffer : EditBuffer) (plan : EditPlan) : Option EditBuffer :=
  let textChanged := plan.removedText ≠ plan.replacement
  let replaced :=
    if textChanged then
      replaceBytes buffer.text plan.replacedByteRange.1 plan.replacedByteRange.2 plan.replacement
    else some buffer.text
  replaced.map fun text =>
    let cursorByte :=
      match plan.cursorAffinity with
      | .exact' => plan.cursorByte
      | .right => ceilGraphemeBoundary seg text plan.cursorByte
    let next := { buffer with text := text, cursorByte := cursorByte }
    if textChanged ∨ cursorByte ≠ buffer.cursorByte then next.advanceGeneration else next

def EditBuffer.setCursorByte (buffer : EditBuffer) (cursorByte : Nat) : EditBuffer :=
  let next := { buffer with cursorByte := normalizeExternalCursor seg buffer.text cursorByte }
  if next.cursorByte ≠ buffer.cursorByte then next.advanceGeneration else next

def EditBuffer.fromParts (old : EditBuffer) (text : Text) (cursorByte : Nat) : EditBuffer :=
  { text := text
    cursorByte := normalizeExternalCursor seg text cursorByte
    identity := old.identity + 1
    generation := 0 }

end Planning

end GrokPi.Editor
