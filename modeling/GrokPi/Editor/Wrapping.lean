import GrokPi.Editor.Reading
import GrokPi.Editor.TextArea
import GrokPi.Editor.Validity
import GrokPi.Shared.Loops

set_option autoImplicit false

namespace GrokPi.Editor

open Text Loops

structure DisplayedElement extends TextElement where
  display : Option (List Text)
  deriving DecidableEq

structure DisplayedArea where
  text : Text
  elements : List DisplayedElement
  tabWidth : Nat

section Widths

-- `UnicodeWidthStr::width`
variable (seg : Segmentation) (strWidth : Text → Nat)

def graphemeDisplayWidthWithTab (grapheme : Text) (tabWidth : Nat) : Nat :=
  if grapheme = ['\t'] then
    if tabWidth = 0 then 0 else tabWidth
  else strWidth grapheme

def plainDisplayWidthWithTab (text : Text) (tabWidth : Nat) : Nat :=
  if tabWidth = 0 ∨ '\t' ∉ text then strWidth text
  else ((seg.clusters text).map fun grapheme => graphemeDisplayWidthWithTab strWidth grapheme tabWidth).sum

def spansWidth (spans : List Text) : Nat := (spans.map strWidth).sum

end Widths

namespace DisplayedArea

variable (seg : Segmentation) (strWidth : Text → Nat) (area : DisplayedArea)

def elementRanges : List Range := area.elements.map fun element => element.range

def graphemeDisplayWidth (grapheme : Text) : Nat := graphemeDisplayWidthWithTab strWidth grapheme area.tabWidth

def plainDisplayWidth (text : Text) : Nat := plainDisplayWidthWithTab seg strWidth text area.tabWidth

def sliceDisplayWidth (start stop : Nat) : Option Nat :=
  (slice area.text start stop).map (area.plainDisplayWidth seg strWidth)

def remainingDisplayWidth (stop pos width : Nat) : Option Nat :=
  if pos < stop then (area.sliceDisplayWidth seg strWidth pos stop).map (width + ·) else some width

def elementPartWidth (element : DisplayedElement) (first last : Nat) : Option Nat :=
  match element.display with
  | some spans =>
      if first = element.start then some (spansWidth strWidth spans)
      else area.sliceDisplayWidth seg strWidth first last
  | none => area.sliceDisplayWidth seg strWidth first last

def displayWidthFrom (stop : Nat) : List DisplayedElement → Nat → Nat → Option Nat
  | [], pos, width => area.remainingDisplayWidth seg strWidth stop pos width
  | element :: rest, pos, width =>
      if stop ≤ element.start then area.remainingDisplayWidth seg strWidth stop pos width
      else if element.stop ≤ pos then displayWidthFrom stop rest pos width
      else
        let plainEnd := min element.start stop
        let front :=
          if pos < element.start then
            (area.sliceDisplayWidth seg strWidth pos plainEnd).map fun columns => (plainEnd, width + columns)
          else some (pos, width)
        front.bind fun (pos, width) =>
          if stop ≤ pos then area.remainingDisplayWidth seg strWidth stop pos width
          else
            let first := max element.start pos
            let last := min element.stop stop
            if first < last then
              (area.elementPartWidth seg strWidth element first last).bind fun columns =>
                displayWidthFrom stop rest last (width + columns)
            else displayWidthFrom stop rest pos width

def displayWidthOfRange (start stop : Nat) : Option Nat :=
  if stop ≤ start then some 0 else area.displayWidthFrom seg strWidth stop area.elements start 0

def nextNewlineBody (pos : Nat) : Option (Pass Nat Nat) :=
  if pos < byteLen area.text then
    match area.elements.find? fun element => decide (element.start ≤ pos ∧ pos < element.stop) with
    | some element => some (.again element.stop)
    | none => if charAt area.text pos = some '\n' then some (.leave pos) else some (.again (pos + 1))
  else some (.leave (byteLen area.text))

def nextLogicalNewline (passes start : Nat) : Option Nat := loop area.nextNewlineBody passes start

def Blank (pos : Nat) : Prop := charAt area.text pos = some ' ' ∨ charAt area.text pos = some '\t'

instance (pos : Nat) : Decidable (area.Blank pos) := inferInstanceAs (Decidable (_ ∨ _))

def skipBlanksBody (stop pos lineStart : Nat) : Option (Pass Nat Nat) :=
  if lineStart < stop ∧ lineStart < pos ∧ area.Blank lineStart then some (.again (lineStart + 1))
  else some (.leave lineStart)

def skipBlanks (stop pos passes lineStart : Nat) : Option Nat := loop (area.skipBlanksBody stop pos) passes lineStart

structure WrapState where
  lineStart : Nat
  pos : Nat
  displayW : Nat
  -- Right after the last break opportunity.
  lastBreakPos : Option Nat
  result : List Range
  deriving DecidableEq

def elementDisplayWidth (element : DisplayedElement) (elementEnd : Nat) : Option Nat :=
  match element.display with
  | some spans => some (spansWidth strWidth spans)
  | none => area.sliceDisplayWidth seg strWidth element.start elementEnd

def wrapElement (stop width passes : Nat) (state : WrapState) (element : DisplayedElement) : Option WrapState :=
  let elementEnd := min element.stop stop
  (area.elementDisplayWidth seg strWidth element elementEnd).bind fun columns =>
    if 0 < state.displayW ∧ width < state.displayW + columns then
      let breakAt := state.lastBreakPos.getD state.pos
      (area.skipBlanks stop state.pos passes breakAt).map fun lineStart =>
        { lineStart
          pos := lineStart
          displayW := 0
          lastBreakPos := none
          result := state.result ++ [(state.lineStart, breakAt)] }
    else
      some
        { state with
          displayW := state.displayW + columns
          pos := elementEnd
          lastBreakPos := some elementEnd }

def wrapGrapheme (stop width passes : Nat) (state : WrapState) (grapheme : Text) : Option WrapState :=
  let columns := area.graphemeDisplayWidth strWidth grapheme
  if width < state.displayW + columns ∧ 0 < state.displayW then
    let breakAt := state.lastBreakPos.getD state.pos
    (area.skipBlanks stop state.pos passes breakAt).bind fun lineStart =>
      (area.displayWidthOfRange seg strWidth lineStart state.pos).map fun displayW =>
        { lineStart
          -- No break opportunity: the row breaks at the current position.
          pos := if lineStart = state.pos then state.pos + byteLen grapheme else state.pos
          displayW := if lineStart = state.pos then columns else displayW
          lastBreakPos := none
          result := state.result ++ [(state.lineStart, breakAt)] }
  else
    some
      { state with
        lastBreakPos :=
          if grapheme = [' '] ∨ grapheme = ['\t'] then some (state.pos + byteLen grapheme) else state.lastBreakPos
        displayW := state.displayW + columns
        pos := state.pos + byteLen grapheme }

def wrapBody (stop width passes : Nat) (state : WrapState) : Option (Pass WrapState (List Range)) :=
  if state.pos < stop then
    match area.elements.find? fun element => decide (state.pos = element.start ∧ element.start < element.stop) with
    | some element => (area.wrapElement seg strWidth stop width passes state element).map .again
    | none =>
        (slice area.text state.pos stop).bind fun part =>
          match seg.clusters part with
          | [] => some (.leave (state.result ++ [(state.lineStart, stop)]))
          | grapheme :: _ => (area.wrapGrapheme seg strWidth stop width passes state grapheme).map .again
  else some (.leave (state.result ++ [(state.lineStart, stop)]))

def greedyWrapSegment (passes start stop width : Nat) (result : List Range) : Option (List Range) :=
  if stop ≤ start then some (result ++ [(start, stop)])
  else
    loop (area.wrapBody seg strWidth stop width passes) passes
      { lineStart := start
        pos := start
        displayW := 0
        lastBreakPos := none
        result }

def segmentBody (width passes : Nat) (state : Nat × List Range) :
    Option (Pass (Nat × List Range) (List Range)) :=
  (area.nextLogicalNewline passes state.1).bind fun segEnd =>
    (area.greedyWrapSegment seg strWidth passes state.1 segEnd width state.2).map fun result =>
      if byteLen area.text ≤ segEnd then .leave result else .again (segEnd + 1, result)

def elementAwareWrapRanges (passes width : Nat) : Option (List Range) :=
  (loop (area.segmentBody seg strWidth (max width 1) passes) passes (0, [])).map fun result =>
    if result = [] then [(0, 0)] else result

end DisplayedArea

end GrokPi.Editor
