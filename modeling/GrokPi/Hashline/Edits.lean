import GrokPi.Hashline.Anchors

set_option autoImplicit false

namespace GrokPi.Hashline

inductive HashlineOp where
  | replace (anchor : Text) (endAnchor : Option Text) (content : Text)
  | insertAfter (anchor content : Text)
  | write (content : Text)
  deriving DecidableEq

inductive HashlineEditErrorKind where
  | anchorStale
  | ambiguousAnchor
  | anchorNotFound
  | overlappingEdits
  | invalidInput
  deriving DecidableEq

structure HashlineEditError where
  error : HashlineEditErrorKind
  message : Text
  requestedAnchor : Option Text := none
  current : Option Text := none
  context : Option Text := none
  contextStartLine : Option Nat := none
  shiftedTo : Option Nat := none
  shiftedAnchor : Option Text := none
  ambiguousCandidates : List Nat := []
  deriving DecidableEq

structure HashlineEditsApplied where
  applied : Nat
  scheme : Text
  snippetStartLine : Nat
  snippet : Text
  absolutePath : Text
  warnings : List Text
  deriving DecidableEq

inductive HashlineEditOutput where
  | editsApplied (result : HashlineEditsApplied)
  | error (e : HashlineEditError)
  deriving DecidableEq

/-- A validated operation; lines are counted from 0. -/
structure ResolvedOp where
  originalIdx : Nat
  start : Nat
  stop : Nat
  newLines : List Text
  deriving DecidableEq

structure EditRegionDetail where
  oldLine : Nat
  oldText : Text
  newLine : Nat
  newText : Text
  deriving DecidableEq

structure ApplyResult where
  output : HashlineEditOutput
  newContent : Option Text
  editDetails : List EditRegionDetail
  deriving DecidableEq

section Rendering

def number (n : Nat) : Text := Nat.toDigits 10 n

def Anchor.suffix (anchor : Anchor) : Text :=
  match anchor.context with
  | some ctx => anchor.localHash ++ ':' :: ctx
  | none => anchor.localHash

def arrow : Text := ['\u2192']

def renderAnchoredLine (anchor : Anchor) (content : Text) : Text :=
  number anchor.line ++ ':' :: anchor.suffix ++ arrow ++ content

def noAnchor : Anchor := ⟨0, [], none⟩

def formatHashlineContent (fileContent : Text) (offset limit : Nat) (scheme : AnchorScheme) : Text :=
  let allLines := splitLines fileContent
  let anchors := scheme.generateAnchors allLines
  let window := (List.range' (offset - 1) limit).filter (· < allLines.length)
  Text.joinLines (window.map fun i =>
    number (i + 1) ++ ':' :: (anchors.getD i noAnchor).suffix ++ arrow ++ allLines.getD i [])

def anchorFormatHint (scheme : AnchorScheme) : Text × Text :=
  let len := max 1 (min scheme.hashLen 4)
  let hash := "abcd".toList.take len
  if (scheme.generateAnchors [['x']]).head?.any fun anchor => anchor.context.isSome then
    ("LINE:HASH1:HASH2".toList, "22:".toList ++ hash ++ ':' :: "rstu".toList.take len)
  else ("LINE:HASH".toList, "22:".toList ++ hash)

end Rendering

section ContentChecks

def anchorBefore (line : Text) (separator : Text) : Bool :=
  (splitOnce separator line).any fun parts =>
    (Text.asBytes parts.1).length ≤ 25 && parts.1.contains ':' && !parts.1.contains ' '

def detectAnchorPrefixInContent (content : Text) : Option Nat :=
  ((Text.lines content).findIdx? fun line =>
    anchorBefore line.trimStart arrow || anchorBefore line.trimStart "->".toList).map (· + 1)

def anchorContentError (opLabel content : Text) (lineNum : Nat) : HashlineEditError :=
  let lines := Text.lines content
  let ctxStart := lineNum - 1 - 1
  let ctxEnd := min (lineNum + 1) lines.length
  let context := (List.range' ctxStart (ctxEnd - ctxStart)).map fun i =>
    (if i + 1 = lineNum then ">>>".toList else "   ".toList) ++ " line ".toList ++ number (i + 1) ++
      ": ".toList ++ lines.getD i []
  { error := .invalidInput
    message := opLabel ++ " content contains anchor prefixes (e.g. \"22:abc:rst\u2192\") ".toList ++
      "copied from hashline_read output. The first offending line is line ".toList ++ number lineNum ++
      ". Strip the anchor prefixes and the \u2192 separator from every line, ".toList ++
      "keeping only the actual file content, then retry.".toList
    current := some (lines.getD (lineNum - 1) [])
    context := some (Text.joinLines context)
    contextStartLine := some (ctxStart + 1) }

end ContentChecks

section Validation

def recoverAnchorBySuffix (suffix : Text) (lines : List Text) (scheme : AnchorScheme) : Option ParsedAnchor :=
  let fits := (scheme.generateAnchors lines).filter fun anchor =>
    match anchor.context, splitOnce [':'] suffix with
    | some ctx, some (localHash, suffixCtx) => anchor.localHash == localHash && ctx == suffixCtx
    | none, none => anchor.localHash == suffix
    | _, _ => false
  match fits with
  | [anchor] => some ⟨anchor.line, anchor.localHash, anchor.context⟩
  | _ => none

def malformedAnchorError (anchorStr : Text) (scheme : AnchorScheme) : HashlineEditError :=
  let (format, sample) := anchorFormatHint scheme
  { error := .invalidInput
    message := "Malformed anchor: \"".toList ++ anchorStr ++ "\". Expected format: \"".toList ++ format ++
      "\" (e.g. \"".toList ++ sample ++ "\").".toList
    requestedAnchor := some anchorStr }

def outOfRangeError (anchorStr : Text) (parsed : ParsedAnchor) (lines : List Text) : HashlineEditError :=
  { error := .anchorNotFound
    message := "Line ".toList ++ number parsed.line ++ " is out of range (file has ".toList ++
      number lines.length ++ " lines).".toList
    requestedAnchor := some anchorStr }

def numberList (numbers : List Nat) : Text :=
  '[' :: ", ".toList.intercalate (numbers.map number) ++ [']']

def staleAnchorError (anchorStr : Text) (parsed : ParsedAnchor) (lines : List Text) (scheme : AnchorScheme) :
    HashlineEditError :=
  let anchors := scheme.generateAnchors lines
  let recoveryCtx := 5
  let ctxStart := parsed.line - 1 - recoveryCtx
  let ctxEnd := min (parsed.line + recoveryCtx) lines.length
  let rendered := fun i => renderAnchoredLine (anchors.getD i noAnchor) (lines.getD i [])
  let idx := parsed.line - 1
  let stale := "Anchor stale at line ".toList ++ number parsed.line
  let useFresh := "Use the fresh anchors from the context below to retry your edit.".toList
  let base : HashlineEditError :=
    { error := .anchorStale
      message := stale ++ ". ".toList ++ useFresh
      requestedAnchor := some anchorStr
      current := if idx < lines.length then some (rendered idx) else none
      context := some (Text.joinLines ((List.range' ctxStart (ctxEnd - ctxStart)).map rendered))
      contextStartLine := some (ctxStart + 1) }
  match scheme.findShifted parsed lines defaultSearchRadius with
  | .found newLine =>
      let fresh := number newLine ++ ':' :: (anchors.getD (newLine - 1) noAnchor).suffix
      { base with
        message := stale ++ ". Content appears to have shifted to line ".toList ++ number newLine ++
          ". Retry with anchor \"".toList ++ fresh ++ "\".".toList
        shiftedTo := some newLine
        shiftedAnchor := some fresh }
  | .ambiguous candidates =>
      { base with
        error := .ambiguousAnchor
        message := stale ++ ". Multiple candidates at lines ".toList ++ numberList candidates ++ ". ".toList ++
          useFresh
        ambiguousCandidates := candidates }
  | .notFound => base

-- What the model copied behind the anchor is cut off.
def anchorOnly (anchorStr : Text) : Text :=
  match (splitOnce arrow anchorStr).or (splitOnce "->".toList anchorStr) with
  | some (before, _) => before
  | none => anchorStr

def validateAnchor (anchorText : Text) (lines : List Text) (scheme : AnchorScheme) :
    Except HashlineEditError Nat :=
  let anchorStr := anchorOnly anchorText
  match (ParsedAnchor.parse anchorStr).or (recoverAnchorBySuffix anchorStr lines scheme) with
  | none => .error (malformedAnchorError anchorStr scheme)
  | some parsed =>
      match scheme.validate parsed lines with
      | .valid => .ok (parsed.line - 1)
      | .outOfRange => .error (outOfRangeError anchorStr parsed lines)
      | .stale => .error (staleAnchorError anchorStr parsed lines scheme)

end Validation

section Resolution

def endBeforeStartError (endAnchor : Text) (stop start : Nat) : HashlineEditError :=
  { error := .invalidInput
    message := "end_anchor line ".toList ++ number (stop + 1) ++ " is before start anchor line ".toList ++
      number (start + 1) ++ ".".toList
    requestedAnchor := some endAnchor }

def resolveEnd (endAnchor : Option Text) (start : Nat) (lines : List Text) (scheme : AnchorScheme) :
    Except HashlineEditError Nat :=
  match endAnchor with
  | none => .ok (start + 1)
  | some anchor => do
      let last ← validateAnchor anchor lines scheme
      if last < start then .error (endBeforeStartError anchor last start)
      else .ok (last + 1)

-- The empty line behind a final line feed stays the last one.
def insertionPoint (anchor : Text) (lines : List Text) (scheme : AnchorScheme) : Except HashlineEditError Nat :=
  if anchor = "0:".toList then .ok 0
  else if anchor = "EOF".toList then
    if 1 < lines.length ∧ lines.getLast? = some [] then .ok (lines.length - 1) else .ok lines.length
  else do
    let line ← validateAnchor anchor lines scheme
    .ok (line + 1)

def checkContent (opLabel content : Text) : Except HashlineEditError Unit :=
  match detectAnchorPrefixInContent content with
  | some lineNum => .error (anchorContentError opLabel content lineNum)
  | none => .ok ()

def resolveOp (op : HashlineOp) (originalIdx : Nat) (lines : List Text) (scheme : AnchorScheme) :
    Except HashlineEditError ResolvedOp :=
  match op with
  | .replace anchor endAnchor content => do
      let start ← validateAnchor anchor lines scheme
      let stop ← resolveEnd endAnchor start lines scheme
      checkContent "replace".toList content
      -- Empty content deletes the range.
      .ok ⟨originalIdx, start, stop, if content = [] then [] else Text.lines content⟩
  | .insertAfter anchor content => do
      let insertAt ← insertionPoint anchor lines scheme
      checkContent "insert_after".toList content
      -- Empty content is a blank line.
      .ok ⟨originalIdx, insertAt, insertAt, if content = [] then [[]] else Text.lines content⟩
  | .write _ =>
      .error
        { error := .invalidInput
          message := "Write op must be the only operation in a batch. ".toList ++
            "Either use write alone (to replace the entire file) or use ".toList ++
            "replace/insert_after ops without write.".toList }

def HashlineOp.label : HashlineOp → Text
  | replace _ _ _ => "replace".toList
  | insertAfter _ _ => "insert_after".toList
  | write _ => "write".toList

def batchError (op : HashlineOp) (idx total : Nat) (e : HashlineEditError) : HashlineEditError :=
  if total > 1 then
    { e with
      message := "Edit ".toList ++ number (idx + 1) ++ "/".toList ++ number total ++ " (".toList ++ op.label ++
        "): ".toList ++ e.message ++ "\n\nThis batch contained ".toList ++ number total ++
        " edits. Because this anchor failed validation, none of the edits were applied. Retry all ".toList ++
        number total ++ " edits with fresh anchors, not just the failed one.".toList }
  else e

def resolveOpsFrom (total : Nat) (lines : List Text) (scheme : AnchorScheme) : Nat → List HashlineOp →
    Except HashlineEditError (List ResolvedOp)
  | _, [] => .ok []
  | idx, op :: rest =>
      match resolveOp op idx lines scheme with
      | .error e => .error (batchError op idx total e)
      | .ok resolved =>
          match resolveOpsFrom total lines scheme (idx + 1) rest with
          | .error e => .error e
          | .ok more => .ok (resolved :: more)

def resolveOps (ops : List HashlineOp) (lines : List Text) (scheme : AnchorScheme) :
    Except HashlineEditError (List ResolvedOp) := resolveOpsFrom ops.length lines scheme 0 ops

end Resolution

section Overlaps

def editDescription (start stop idx : Nat) : Text :=
  if start = stop then "edit #".toList ++ number (idx + 1) ++ " (insertion at line ".toList ++
    number (start + 1) ++ ")".toList
  else "edit #".toList ++ number (idx + 1) ++ " (lines ".toList ++ number (start + 1) ++ "-".toList ++
    number stop ++ ")".toList

def overlapError (a b : ResolvedOp) : HashlineEditError :=
  { error := .overlappingEdits
    message := "Overlapping edits: ".toList ++ editDescription a.start a.stop a.originalIdx ++ " and ".toList ++
      editDescription b.start b.stop b.originalIdx ++ ".".toList }

def ResolvedOp.isInsertion (op : ResolvedOp) : Bool := op.start == op.stop

def overlappingWindow : List ResolvedOp → Option (ResolvedOp × ResolvedOp)
  | first :: second :: rest =>
      if first.stop > second.start then some (first, second) else overlappingWindow (second :: rest)
  | _ => none

def insertionInside (ranges : List ResolvedOp) : List ResolvedOp → Option (ResolvedOp × ResolvedOp)
  | [] => none
  | op :: rest =>
      if op.isInsertion then
        match ranges.find? fun range => range.start ≤ op.start && op.start < range.stop with
        | some range => some (range, op)
        | none => insertionInside ranges rest
      else insertionInside ranges rest

def rangesByStart (ops : List ResolvedOp) : List ResolvedOp :=
  (ops.filter fun op => !op.isInsertion).insertionSort fun a b => a.start ≤ b.start

def checkOverlaps (ops : List ResolvedOp) : Option HashlineEditError :=
  match overlappingWindow (rangesByStart ops) with
  | some (a, b) => some (overlapError a b)
  | none => (insertionInside (rangesByStart ops) ops).map fun pair => overlapError pair.1 pair.2

def overlapBatchError (total : Nat) (e : HashlineEditError) : HashlineEditError :=
  if total > 1 then
    { e with
      message := e.message ++ "\n\nThis batch contained ".toList ++ number total ++
        " edits. Because of the overlap, none were applied. ".toList ++
        "Fix the overlapping ranges and retry all edits.".toList }
  else e

end Overlaps

section Warnings

inductive RangeSize where
  | small
  | medium
  | large
  deriving DecidableEq

def RangeSize.classify (lineCount : Nat) : RangeSize :=
  if lineCount ≤ 5 then small else if lineCount ≤ 20 then medium else large

def rangeWarning (start stop : Nat) : Option Text :=
  let count := stop - start
  let span := number count ++ " lines, lines ".toList ++ number (start + 1) ++ "-".toList ++ number stop
  match RangeSize.classify count with
  | .large =>
      some ("Caution: large range edit (".toList ++ span ++ "). Verify the target range is correct.".toList)
  | .medium => some ("Note: medium range edit (".toList ++ span ++ ").".toList)
  | .small => none

end Warnings

section Snippets

def snippetContext : Nat := 3

def maxContiguousSnippet : Nat := 80

-- Newest region first.
def mergeRegion (totalNewLines : Nat) (merged : List (Nat × Nat)) (region : Nat × Nat) : List (Nat × Nat) :=
  let ctxStart := region.1 - snippetContext
  let ctxEnd := min (region.2 + snippetContext) totalNewLines
  match merged with
  | last :: earlier =>
      if ctxStart ≤ last.2 then (last.1, max last.2 ctxEnd) :: earlier else (ctxStart, ctxEnd) :: merged
  | [] => [(ctxStart, ctxEnd)]

def linesNotShown (count : Nat) : Text := "... ".toList ++ number count ++ " lines not shown ...".toList

def snippetParts (newContent : Text) (scheme : AnchorScheme) (totalNewLines : Nat) : Nat → Bool →
    List (Nat × Nat) → List Text
  | prevEnd, _, [] => if prevEnd < totalNewLines then [linesNotShown (totalNewLines - prevEnd)] else []
  | prevEnd, isFirst, (start, stop) :: rest =>
      let gap :=
        if isFirst then (if start > 0 then [linesNotShown start] else []) else [linesNotShown (start - prevEnd)]
      gap ++ formatHashlineContent newContent (start + 1) (stop - start) scheme ::
        snippetParts newContent scheme totalNewLines stop false rest

def buildSnippet (newContent : Text) (editRegions : List (Nat × Nat)) (totalNewLines : Nat)
    (scheme : AnchorScheme) : Text :=
  match editRegions.head?, editRegions.getLast? with
  | some first, some last =>
      let globalStart := first.1 - snippetContext
      let globalEnd := min (last.2 + snippetContext) totalNewLines
      if globalEnd - globalStart ≤ maxContiguousSnippet then
        formatHashlineContent newContent (globalStart + 1) (globalEnd - globalStart) scheme
      else
        let merged := (editRegions.foldl (mergeRegion totalNewLines) []).reverse
        Text.joinLines (snippetParts newContent scheme totalNewLines 0 true merged)
  | _, _ => []

def buildWriteResult (newContent filePath : Text) (scheme : AnchorScheme) : HashlineEditOutput :=
  let snippetEnd := min (snippetContext * 2) (splitLines newContent).length
  .editsApplied
    { applied := 1
      scheme := scheme.name
      snippetStartLine := 1
      snippet := formatHashlineContent newContent 1 snippetEnd scheme
      absolutePath := filePath
      warnings := [] }

end Snippets

section Application

-- Of two operations at one line the later request comes first.
def bottomUp (a b : ResolvedOp) : Prop := b.start < a.start ∨ (b.start = a.start ∧ b.originalIdx ≤ a.originalIdx)

instance : DecidableRel bottomUp := fun a b =>
  inferInstanceAs (Decidable (b.start < a.start ∨ (b.start = a.start ∧ b.originalIdx ≤ a.originalIdx)))

/-- One pass from the top down; `cumulativeShift` is what the operations above have added. -/
def regionsAndDetails (lines : List Text) : Int → List ResolvedOp → List ((Nat × Nat) × EditRegionDetail)
  | _, [] => []
  | cumulativeShift, op :: rest =>
      let shiftedStart := (op.start + cumulativeShift).toNat
      let replaced := op.stop - op.start
      let inserted := op.newLines.length
      let oldText :=
        if op.start < op.stop then Text.joinLines ((lines.drop op.start).take (op.stop - op.start)) else []
      ((shiftedStart, shiftedStart + inserted),
          { oldLine := op.start + 1
            oldText := oldText
            newLine := shiftedStart + 1
            newText := Text.joinLines op.newLines }) ::
        regionsAndDetails lines (cumulativeShift + inserted - replaced) rest

def spliceOp (resultLines : List Text) (op : ResolvedOp) : List Text :=
  resultLines.take op.start ++ op.newLines ++ resultLines.drop op.stop

def applyResolved (lines : List Text) (ops : List HashlineOp) (resolved : List ResolvedOp) (filePath : Text)
    (scheme : AnchorScheme) : ApplyResult :=
  let warnings := resolved.filterMap fun op => rangeWarning op.start op.stop
  let sorted := resolved.insertionSort bottomUp
  let passed := regionsAndDetails lines 0 sorted.reverse
  let newContent := Text.joinLines (sorted.foldl spliceOp lines)
  let totalNewLines := (splitLines newContent).length
  let editRegions := (passed.map Prod.fst).insertionSort fun a b => a.1 ≤ b.1
  { output := .editsApplied
      { applied := ops.length
        scheme := scheme.name
        snippetStartLine := (editRegions.head?.map fun region => region.1 - snippetContext + 1).getD 1
        snippet := buildSnippet newContent editRegions totalNewLines scheme
        absolutePath := filePath
        warnings := warnings }
    newContent := some newContent
    editDetails := passed.map Prod.snd }

def ApplyResult.failed (e : HashlineEditError) : ApplyResult := ⟨.error e, none, []⟩

def applyBatch (content : Text) (ops : List HashlineOp) (filePath : Text) (scheme : AnchorScheme) : ApplyResult :=
  let lines := splitLines content
  match resolveOps ops lines scheme with
  | .error e => .failed e
  | .ok resolved =>
      match checkOverlaps resolved with
      | some e => .failed (overlapBatchError ops.length e)
      | none => applyResolved lines ops resolved filePath scheme

def applyEdits (content : Text) (ops : List HashlineOp) (filePath : Text) (scheme : AnchorScheme) : ApplyResult :=
  match ops with
  | [.write newContent] =>
      match checkContent "write".toList newContent with
      | .error e => .failed e
      | .ok () => ⟨buildWriteResult newContent filePath scheme, some newContent, []⟩
  | ops => applyBatch content ops filePath scheme

end Application

end GrokPi.Hashline
