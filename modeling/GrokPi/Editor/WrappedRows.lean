import GrokPi.Editor.RowItems

set_option autoImplicit false

namespace GrokPi.Editor

open Text Loops

variable (seg : Segmentation) (strWidth : Text → Nat) (area : DisplayedArea) (width : Nat)

def LogicalNewline (byte : Nat) : Prop :=
  charAt area.text byte = some '\n' ∧ ∀ element ∈ area.elements, ¬ (element.start ≤ byte ∧ byte < element.stop)

structure GoodRow (row : Range) : Prop where
  starts : Outside area.elementRanges row.1
  stops : Outside area.elementRanges row.2
  -- Too wide only where one item alone is responsible.
  fitting : ∃ columns, area.displayWidthOfRange seg strWidth row.1 row.2 = some columns ∧
    (width < columns → (area.itemWidths seg strWidth row.1 row.2).countP (0 < ·) ≤ 1)

/-- What lies between a row and the next one: a line feed, or the blanks that a wrap skipped. -/
def Gap (last next : Nat) : Prop :=
  (next = last + 1 ∧ LogicalNewline area last) ∨
    (last ≤ next ∧ ∀ byte, last ≤ byte → byte < next → area.Blank byte)

inductive Tiled : List Range → Nat → Prop where
  | start : Tiled [] 0
  | row {rows : List Range} {first last next : Nat} (earlier : Tiled rows first)
      (good : GoodRow seg strWidth area width (first, last)) (forward : first ≤ last) (further : first < next)
      (gap : Gap area last next) : Tiled (rows ++ [(first, last)]) next

structure WrappedRows (rows : List Range) : Prop where
  ascending : rows.Pairwise fun first second => first.1 < second.1 ∧ first.2 ≤ second.1
  forward : ∀ row ∈ rows, row.1 ≤ row.2 ∧ row.2 ≤ byteLen area.text
  covers : ∀ byte < byteLen area.text,
    (∃ row ∈ rows, row.1 ≤ byte ∧ byte < row.2) ∨
      LogicalNewline area byte ∨
        -- A blank that a wrap skipped, directly in front of the next row.
        ∃ first second, [first, second] <:+: rows ∧ first.2 ≤ byte ∧ byte < second.1 ∧
          ∀ blank, first.2 ≤ blank → blank < second.1 → area.Blank blank
  good : ∀ row ∈ rows, GoodRow seg strWidth area width row

section Tiling

variable {seg strWidth area width} {rows : List Range} {next : Nat}

theorem Gap.le {last : Nat} (gap : Gap area last next) : last ≤ next := by
  rcases gap with ⟨rfl, -⟩ | ⟨behind, -⟩
  · exact Nat.le_succ last
  · exact behind

theorem Tiled.good (tiled : Tiled seg strWidth area width rows next) :
    ∀ row ∈ rows, GoodRow seg strWidth area width row := by
  induction tiled with
  | start => simp
  | row earlier good forward further gap ih =>
      intro row member
      rcases List.mem_append.mp member with early | last
      · exact ih row early
      · exact List.mem_singleton.mp last ▸ good

theorem Tiled.before (tiled : Tiled seg strWidth area width rows next) :
    ∀ row ∈ rows, row.1 ≤ row.2 ∧ row.1 < next ∧ row.2 ≤ next := by
  induction tiled with
  | start => simp
  | row earlier good forward further gap ih =>
      have behind := gap.le
      intro row member
      rcases List.mem_append.mp member with early | last
      · have bounds := ih row early
        omega
      · obtain rfl := List.mem_singleton.mp last
        exact ⟨forward, further, behind⟩

theorem Tiled.ascending (tiled : Tiled seg strWidth area width rows next) (last : Nat) :
    (rows ++ [(next, last)]).Pairwise fun first second => first.1 < second.1 ∧ first.2 ≤ second.1 := by
  induction tiled generalizing last with
  | start => simp
  | row earlier good forward further gap ih =>
      refine List.pairwise_append.mpr ⟨ih _, List.pairwise_singleton .., fun row member other last => ?_⟩
      obtain rfl := List.mem_singleton.mp last
      exact ((Tiled.row earlier good forward further gap).before row member).2

theorem Tiled.covers (tiled : Tiled seg strWidth area width rows next) (last : Nat) {byte : Nat} (before : byte < next) :
    (∃ row ∈ rows, row.1 ≤ byte ∧ byte < row.2) ∨
      LogicalNewline area byte ∨
        ∃ first second, [first, second] <:+: rows ++ [(next, last)] ∧ first.2 ≤ byte ∧ byte < second.1 ∧
          ∀ blank, first.2 ≤ blank → blank < second.1 → area.Blank blank := by
  induction tiled generalizing last with
  | start => exact absurd before (Nat.not_lt_zero _)
  | @row rows first stop next earlier good forward further gap ih =>
      by_cases early : byte < first
      · rcases ih stop early with ⟨row, member, inside⟩ | newline | ⟨one, two, pair, between⟩
        · exact .inl ⟨row, List.mem_append_left _ member, inside⟩
        · exact .inr (.inl newline)
        · exact .inr (.inr ⟨one, two, pair.trans (List.infix_append' [] _ _), between⟩)
      by_cases inside : byte < stop
      · exact .inl ⟨(first, stop), by simp, by omega, inside⟩
      rcases gap with ⟨rfl, newline⟩ | ⟨behind, blanks⟩
      · obtain rfl : byte = stop := by omega
        exact .inr (.inl newline)
      · -- The row and the one to come are neighbours.
        exact .inr (.inr ⟨(first, stop), (next, last), ⟨rows, [], by simp⟩, by omega, before, blanks⟩)

theorem Tiled.wrappedRows (tiled : Tiled seg strWidth area width rows next) (within : next ≤ byteLen area.text)
    (good : GoodRow seg strWidth area width (next, byteLen area.text)) :
    WrappedRows seg strWidth area width (rows ++ [(next, byteLen area.text)]) := by
  refine
    { ascending := tiled.ascending _
      forward := ?_
      covers := ?_
      good := ?_ }
  · intro row member
    rcases List.mem_append.mp member with early | last
    · have bounds := tiled.before row early
      omega
    · obtain rfl := List.mem_singleton.mp last
      exact ⟨within, le_refl _⟩
  · intro byte inside
    by_cases early : byte < next
    · rcases tiled.covers (byteLen area.text) early with ⟨row, member, bounds⟩ | newline | gap
      · exact .inl ⟨row, List.mem_append_left _ member, bounds⟩
      · exact .inr (.inl newline)
      · exact .inr (.inr gap)
    · exact .inl ⟨_, List.mem_append_right _ (List.mem_singleton_self _), by omega, inside⟩
  · intro row member
    rcases List.mem_append.mp member with early | last
    · exact tiled.good row early
    · exact List.mem_singleton.mp last ▸ good

end Tiling

section Newlines

variable {seg area} (normal : Normalized seg area.text area.elementRanges) {start : Nat}

include normal

theorem nextNewlineBody_advances {pos : Nat} (reached : start ≤ pos ∧ pos ≤ byteLen area.text ∧ Outside area.elementRanges pos) :
    Advances (fun _ => area.nextNewlineBody) 0
      (fun pos => start ≤ pos ∧ pos ≤ byteLen area.text ∧ Outside area.elementRanges pos)
      (fun pos => byteLen area.text - pos)
      (fun stop => start ≤ stop ∧ stop ≤ byteLen area.text ∧ Outside area.elementRanges stop ∧
        (stop = byteLen area.text ∨ LogicalNewline area stop)) pos := by
  obtain ⟨behind, within, outside⟩ := reached
  unfold Advances DisplayedArea.nextNewlineBody
  by_cases ahead : pos < byteLen area.text
  · simp only [if_pos ahead]
    cases found : area.elements.find? fun element => decide (element.start ≤ pos ∧ pos < element.stop) with
    | some element =>
        have member := List.mem_of_find?_eq_some found
        have covers : element.start ≤ pos ∧ pos < element.stop := by simpa using List.find?_some found
        have inside := List.mem_map_of_mem (f := fun element : DisplayedElement => element.range) member
        have bound : element.stop ≤ byteLen area.text := boundary_le seg (normal.stop _ inside)
        refine .inl ⟨element.stop, fun _ _ => rfl, ⟨by omega, bound, (ends_outside seg normal inside).2⟩, by omega⟩
    | none =>
        have uncovered : ∀ element ∈ area.elements, ¬ (element.start ≤ pos ∧ pos < element.stop) := by
          intro element member
          simpa using List.find?_eq_none.mp found element member
        by_cases newline : charAt area.text pos = some '\n'
        · simp only [if_pos newline]
          exact .inr ⟨pos, fun _ _ => rfl, behind, within, outside, .inr ⟨newline, uncovered⟩⟩
        · simp only [if_neg newline]
          refine .inl ⟨pos + 1, fun _ _ => rfl, ⟨by omega, ahead, ?_⟩, by omega⟩
          rintro range inside ⟨above, below⟩
          obtain ⟨element, member, rfl⟩ := List.mem_map.mp inside
          simp only [TextElement.range] at above below
          exact uncovered element member ⟨by omega, by omega⟩
  · simp only [if_neg ahead]
    obtain rfl : pos = byteLen area.text := by omega
    exact .inr ⟨_, fun _ _ => rfl, behind, le_refl _, outside, .inl rfl⟩

theorem nextLogicalNewline_spec (within : start ≤ byteLen area.text) (outside : Outside area.elementRanges start) :
    ∃ stop, (start ≤ stop ∧ stop ≤ byteLen area.text ∧ Outside area.elementRanges stop ∧
        (stop = byteLen area.text ∨ LogicalNewline area stop)) ∧
      ∀ passes, byteLen area.text < passes → area.nextLogicalNewline passes start = some stop := by
  obtain ⟨stop, found, runs⟩ := loop_leaves (fun pos => byteLen area.text - pos)
    (fun pos reached => nextNewlineBody_advances normal reached) ⟨le_refl start, within, outside⟩
  exact ⟨stop, found, fun passes enough => runs 0 (le_refl _) passes (by omega)⟩

omit normal

theorem logicalLine_exists {stop : Nat} (outside : Outside area.elementRanges stop)
    (ends : stop = byteLen area.text ∨ LogicalNewline area stop) :
    ∃ line after, LogicalLine area line after ∧ byteLen line = stop := by
  rcases ends with rfl | ⟨newline, -⟩
  · exact ⟨area.text, [], ⟨(List.append_nil _).symm, .inl rfl, outside⟩, rfl⟩
  · obtain ⟨line, later, whole, rfl⟩ := charAt_eq_some.mp newline
    exact ⟨line, '\n' :: later, ⟨whole, .inr ⟨later, rfl⟩, outside⟩, rfl⟩

theorem behind_newline {stop : Nat} (newline : LogicalNewline area stop) :
    Boundary seg area.text (stop + 1) ∧ Outside area.elementRanges (stop + 1) := by
  constructor
  · obtain ⟨line, later, whole, rfl⟩ := charAt_eq_some.mp newline.1
    rw [boundary_iff, whole]
    exact seg.after_lf line later
  · rintro range inside ⟨above, below⟩
    obtain ⟨element, member, rfl⟩ := List.mem_map.mp inside
    simp only [TextElement.range] at above below
    exact newline.2 element member ⟨by omega, by omega⟩

end Newlines

section Rows

variable {seg strWidth area width} {line after : Text} (laws : seg.Local)
  (normal : Normalized seg area.text area.elementRanges) (logical : LogicalLine area line after)
  (additive : area.Additive seg strWidth)
  (spaced : ∀ cluster, strWidth cluster ≤ strWidth (' ' :: cluster))

include laws normal logical

section Skipping

include spaced

structure Skipped (seg : Segmentation) (strWidth : Text → Nat) (area : DisplayedArea) (line : Text)
    (breakAt pos : Nat) (widths : List Nat) (lineStart : Nat) : Prop where
  behind : breakAt ≤ lineStart
  before : lineStart ≤ pos
  blanks : ∀ byte, breakAt ≤ byte → byte < lineStart → area.Blank byte
  readable : Readable seg line lineStart
  reads : ∃ narrower, Reads seg strWidth area line lineStart pos narrower ∧ Narrower narrower widths

theorem skipBlanksBody_advances {breakAt pos lineStart : Nat} {widths : List Nat} (stop : Nat)
    (clear : ∀ element ∈ area.elements, element.start < breakAt ∨ pos ≤ element.start)
    (skipped : Skipped seg strWidth area line breakAt pos widths lineStart) :
    Advances (fun _ => area.skipBlanksBody stop pos) 0 (Skipped seg strWidth area line breakAt pos widths)
      (fun lineStart => pos - lineStart) (Skipped seg strWidth area line breakAt pos widths) lineStart := by
  unfold Advances DisplayedArea.skipBlanksBody
  by_cases goes : lineStart < stop ∧ lineStart < pos ∧ area.Blank lineStart
  · simp only [if_pos goes]
    obtain ⟨-, ahead, blank⟩ := goes
    obtain ⟨narrower, reads, below⟩ := skipped.reads
    have behind := skipped.behind
    obtain ⟨readable, fewer, reads', below'⟩ := reads.skip laws normal logical spaced ahead blank (by
      intro element member
      have apart := clear element member
      omega)
    refine .inl ⟨lineStart + 1, fun _ _ => rfl, ⟨by omega, ahead, ?_, readable, fewer, reads', below'.trans below⟩, by omega⟩
    intro byte first last
    by_cases early : byte < lineStart
    · exact skipped.blanks byte first early
    · obtain rfl : byte = lineStart := by omega
      exact blank
  · simp only [if_neg goes]
    exact .inr ⟨lineStart, fun _ _ => rfl, skipped⟩

theorem skipBlanks_spec {breakAt pos : Nat} {widths : List Nat} (stop : Nat)
    (clear : ∀ element ∈ area.elements, element.start < breakAt ∨ pos ≤ element.start)
    (readable : Readable seg line breakAt) (reads : Reads seg strWidth area line breakAt pos widths) :
    ∃ lineStart, Skipped seg strWidth area line breakAt pos widths lineStart ∧
      ∀ passes, pos < passes → area.skipBlanks stop pos passes breakAt = some lineStart := by
  have initial : Skipped seg strWidth area line breakAt pos widths breakAt :=
    { behind := le_refl _
      before := (reads.progress laws normal).1
      blanks := fun byte first last => by omega
      readable
      reads := ⟨widths, reads, .refl widths⟩ }
  obtain ⟨lineStart, skipped, runs⟩ := loop_leaves (fun lineStart => pos - lineStart)
    (fun lineStart => skipBlanksBody_advances laws normal logical spaced stop clear) initial
  exact ⟨lineStart, skipped, fun passes enough => runs 0 (le_refl _) passes (by omega)⟩

end Skipping

include additive

theorem goodRow_of_reads {first last : Nat} {widths : List Nat} (starts : Outside area.elementRanges first)
    (readable : Readable seg line first) (reads : Reads seg strWidth area line first last widths)
    (fits : Fits width widths) : GoodRow seg strWidth area width (first, last) := by
  have columns := reads.displayWidth laws normal logical additive readable starts
  refine ⟨starts, reads.outside laws normal logical starts, widths.sum, columns, fun wide => ?_⟩
  rw [reads.items laws normal logical starts]
  exact fits.resolve_left (by omega)

end Rows

open DisplayedArea

structure HeldRow (line : Text) (state : WrapState) : Prop where
  tiled : Tiled seg strWidth area width state.result state.lineStart
  starts : Outside area.elementRanges state.lineStart
  readable : Readable seg line state.lineStart
  readablePos : Readable seg line state.pos
  parts : ∃ front back, Reads seg strWidth area line state.lineStart (state.lastBreakPos.getD state.pos) front ∧
    Reads seg strWidth area line (state.lastBreakPos.getD state.pos) state.pos back ∧
      state.displayW = (front ++ back).sum ∧ Fits width (front ++ back)
  ahead : ∀ breakAt, state.lastBreakPos = some breakAt → state.lineStart < breakAt
  -- No element begins between the break and the current position.
  clear : ∀ element ∈ area.elements,
    element.start < state.lastBreakPos.getD state.pos ∨ state.pos ≤ element.start

/-- Rows come first: a new row may begin far in front of the current position. -/
def wrapRank (line : Text) (state : WrapState) : Nat :=
  (byteLen line - state.lineStart) * (byteLen line + 1) + (byteLen line - state.pos)

theorem wrapRank_row {line : Text} {state next : WrapState} (further : state.lineStart < next.lineStart)
    (within : next.lineStart ≤ byteLen line) : wrapRank line next < wrapRank line state := by
  have rows : byteLen line - next.lineStart + 1 ≤ byteLen line - state.lineStart := by omega
  have scaled := Nat.mul_le_mul_right (byteLen line + 1) rows
  rw [Nat.add_mul, Nat.one_mul] at scaled
  unfold wrapRank
  omega

theorem wrapRank_pos {line : Text} {state next : WrapState} (same : next.lineStart = state.lineStart)
    (further : state.pos < next.pos) (within : next.pos ≤ byteLen line) : wrapRank line next < wrapRank line state := by
  unfold wrapRank
  rw [same]
  omega

section Loop

variable {seg strWidth area width} {line after : Text} {state : WrapState}

theorem held_fresh {first pos : Nat} {widths : List Nat} {rows : List Range}
    (tiled : Tiled seg strWidth area width rows first) (starts : Outside area.elementRanges first)
    (readable : Readable seg line first) (readablePos : Readable seg line pos)
    (reads : Reads seg strWidth area line first pos widths) (fits : Fits width widths) :
    HeldRow seg strWidth area width line
      { lineStart := first
        pos
        displayW := widths.sum
        lastBreakPos := none
        result := rows } :=
  { tiled
    starts
    readable
    readablePos
    parts := ⟨widths, [], reads, .done pos, by rw [List.append_nil], by rwa [List.append_nil]⟩
    ahead := by simp
    clear := fun element _ => Nat.lt_or_ge element.start pos }

theorem HeldRow.push (held : HeldRow seg strWidth area width line state) {item next : Nat} {opportunity : Option Nat}
    (step : Reads seg strWidth area line state.pos next [item]) (readable : Readable seg line next)
    (further : state.lineStart < next)
    (room : state.displayW + item ≤ width ∨ state.displayW = 0)
    (choice : opportunity = some next ∨ opportunity = state.lastBreakPos ∧
      ∀ element ∈ area.elements, state.pos ≤ element.start → next ≤ element.start) :
    HeldRow seg strWidth area width line
      { state with
        displayW := state.displayW + item
        pos := next
        lastBreakPos := opportunity } := by
  -- The current row takes an item, and its end may be a break opportunity.
  obtain ⟨front, back, reads, reads', sum, fits⟩ := held.parts
  rw [sum] at room
  have sum' : state.displayW + item = (front ++ back ++ [item]).sum := by
    rw [List.sum_append, ← sum, List.sum_singleton]
  have fits' := fits_push room
  have whole := (reads.append reads').append step
  -- A break at the new position leaves nothing behind it.
  have atEnd : opportunity.getD next = next → HeldRow seg strWidth area width line
      { state with
        displayW := state.displayW + item
        pos := next
        lastBreakPos := opportunity } := by
    intro last
    refine
      { tiled := held.tiled
        starts := held.starts
        readable := held.readable
        readablePos := readable
        parts := ⟨_, [], by rw [last]; exact whole, by rw [last]; exact .done next, by rw [List.append_nil]; exact sum',
          by rwa [List.append_nil]⟩
        ahead := ?_
        clear := fun element _ => by rw [last]; exact Nat.lt_or_ge element.start next }
    rintro breakAt rfl
    rw [Option.getD_some] at last
    exact last ▸ further
  rcases choice with rfl | ⟨rfl, clear⟩
  · exact atEnd rfl
  · cases opportunity : state.lastBreakPos with
    | none =>
        rw [opportunity] at atEnd
        exact atEnd rfl
    | some breakAt =>
        have ahead := held.ahead breakAt opportunity
        have before := held.clear
        rw [opportunity, Option.getD_some] at reads reads' before
        refine
          { tiled := held.tiled
            starts := held.starts
            readable := held.readable
            readablePos := readable
            parts := ⟨front, back ++ [item], reads, reads'.append step, by rw [← List.append_assoc]; exact sum',
              by rwa [← List.append_assoc]⟩
            ahead := by rintro breakAt' ⟨⟩; exact ahead
            clear := fun element member => (before element member).imp_right (clear element member) }

variable (laws : seg.Local) (normal : Normalized seg area.text area.elementRanges)
  (logical : LogicalLine area line after)
  (additive : area.Additive seg strWidth)
  (spaced : ∀ cluster, strWidth cluster ≤ strWidth (' ' :: cluster))

include laws normal logical additive spaced

structure Broken (seg : Segmentation) (strWidth : Text → Nat) (area : DisplayedArea) (width : Nat) (line : Text)
    (state : WrapState) (lineStart : Nat) : Prop where
  further : state.lineStart < lineStart
  before : lineStart ≤ state.pos
  tiled : Tiled seg strWidth area width
    (state.result ++ [(state.lineStart, state.lastBreakPos.getD state.pos)]) lineStart
  starts : Outside area.elementRanges lineStart
  readable : Readable seg line lineStart
  reads : ∃ widths, Reads seg strWidth area line lineStart state.pos widths ∧ Fits width widths

theorem HeldRow.breaks (held : HeldRow seg strWidth area width line state) (stop : Nat) (filled : 0 < state.displayW) :
    ∃ lineStart, Broken seg strWidth area width line state lineStart ∧
      ∀ passes, state.pos < passes →
        area.skipBlanks stop state.pos passes (state.lastBreakPos.getD state.pos) = some lineStart := by
  obtain ⟨front, back, reads, reads', sum, fits⟩ := held.parts
  have stops := reads.outside laws normal logical held.starts
  -- No row is empty, which is why the loop ends.
  have forward : state.lineStart < state.lastBreakPos.getD state.pos := by
    cases opportunity : state.lastBreakPos with
    | some breakAt => exact held.ahead breakAt opportunity
    | none =>
        -- The break is at the position, so everything that was counted is in front of it.
        rw [opportunity, Option.getD_none] at reads reads'
        obtain rfl := reads'.eq_nil laws normal
        refine (reads.progress laws normal).2 ?_
        rintro rfl
        rw [sum] at filled
        exact absurd filled (Nat.lt_irrefl _)
  have readable : Readable seg line (state.lastBreakPos.getD state.pos) :=
    readable_of_boundary laws ((reads.ends laws normal logical).resolve_left (by omega))
  obtain ⟨lineStart, skipped, runs⟩ := skipBlanks_spec laws normal logical spaced stop held.clear readable reads'
  obtain ⟨narrower, reads'', below⟩ := skipped.reads
  have behind := skipped.behind
  refine ⟨lineStart, ?_, runs⟩
  exact
    { further := by omega
      before := skipped.before
      tiled := .row held.tiled
        (goodRow_of_reads laws normal logical additive held.starts held.readable reads
          (fits.narrower (narrower_front front back)))
        forward.le (by omega) (.inr ⟨behind, skipped.blanks⟩)
      starts := by
        rintro range inside ⟨above, below⟩
        obtain ⟨element, member, rfl⟩ := List.mem_map.mp inside
        have before := skipped.before
        have clear := held.clear element member
        have apart := outside_at member stops
        simp only [TextElement.range] at above below
        omega
      readable := skipped.readable
      reads := ⟨narrower, reads'', fits.narrower (below.trans (narrower_back front back))⟩ }

def Wrapped (seg : Segmentation) (strWidth : Text → Nat) (area : DisplayedArea) (width : Nat) (line : Text)
    (result : List Range) : Prop :=
  ∃ rows first, result = rows ++ [(first, byteLen line)] ∧ Tiled seg strWidth area width rows first ∧
    first ≤ byteLen line ∧ GoodRow seg strWidth area width (first, byteLen line)

theorem HeldRow.wrapElement (held : HeldRow seg strWidth area width line state) {element : DisplayedElement}
    (member : element ∈ area.elements) (at' : state.pos = element.start) (within : state.pos < byteLen line) :
    ∃ next, (∀ passes, byteLen line < passes →
        area.wrapElement seg strWidth (byteLen line) width passes state element = some next) ∧
      HeldRow seg strWidth area width line next ∧ wrapRank line next < wrapRank line state := by
  have long := element_forward normal member
  have inside : element.stop ≤ byteLen line := by
    have apart := outside_at member logical.outside
    omega
  have ranged := List.mem_map_of_mem (f := fun element : DisplayedElement => element.range) member
  have columns := elementDisplayWidth_eq additive long.le (normal.start _ ranged) (normal.stop _ ranged)
  obtain ⟨front, back, reads, reads', sum, fits⟩ := held.parts
  have passed := ((reads.append reads').progress laws normal).1
  unfold DisplayedArea.wrapElement
  simp only [Nat.min_eq_left inside, columns, Option.bind_some]
  by_cases full : 0 < state.displayW ∧ width < state.displayW + area.elementColumns seg strWidth element
  · simp only [if_pos full]
    obtain ⟨lineStart, broken, runs⟩ := held.breaks laws normal logical additive spaced (byteLen line) full.1
    refine ⟨_, fun passes enough => by rw [runs passes (by omega), Option.map_some], ?_, ?_⟩
    · -- The position goes back to the start of the new row, where nothing is counted yet.
      exact held_fresh broken.tiled broken.starts broken.readable broken.readable (.done lineStart) (.inl (Nat.zero_le _))
    · have before := broken.before
      exact wrapRank_row broken.further (by show lineStart ≤ byteLen line; omega)
  · simp only [if_neg full]
    have step : Reads seg strWidth area line state.pos element.stop [area.elementColumns seg strWidth element] :=
      at' ▸ .element member inside (.done _)
    refine ⟨_, fun _ _ => rfl, ?_, ?_⟩
    · exact held.push step
        (readable_of_boundary laws ((element_breaks laws normal logical member).2 inside)) (by omega) (by omega) (.inl rfl)
    · exact wrapRank_pos rfl (by show state.pos < element.stop; omega) inside

theorem HeldRow.wrapGrapheme (held : HeldRow seg strWidth area width line state) {tail cluster : Text} {rest : List Text}
    (plain : Plain area state.pos) (cut : slice line state.pos (byteLen line) = some tail)
    (read : seg.clusters tail = cluster :: rest) :
    ∃ next, (∀ passes, byteLen line < passes →
        area.wrapGrapheme seg strWidth (byteLen line) width passes state cluster = some next) ∧
      HeldRow seg strWidth area width line next ∧ wrapRank line next < wrapRank line state := by
  have long := cluster_positive laws read
  have boundary := (held.readablePos.next_boundary laws cut read).1
  have bound := boundary_le seg boundary
  have readable := readable_of_boundary laws boundary
  have step : Reads seg strWidth area line state.pos (state.pos + byteLen cluster)
      [area.graphemeDisplayWidth strWidth cluster] := .grapheme held.readablePos plain cut read (.done _)
  obtain ⟨front, back, reads, reads', sum, fits⟩ := held.parts
  have passed := ((reads.append reads').progress laws normal).1
  unfold DisplayedArea.wrapGrapheme
  by_cases full : width < state.displayW + area.graphemeDisplayWidth strWidth cluster ∧ 0 < state.displayW
  · simp only [if_pos full]
    obtain ⟨lineStart, broken, runs⟩ := held.breaks laws normal logical additive spaced (byteLen line) full.2
    obtain ⟨widths, reads'', fits'⟩ := broken.reads
    have columns := reads''.displayWidth laws normal logical additive broken.readable broken.starts
    have before := broken.before
    refine ⟨_, fun passes enough => by rw [runs passes (by omega), Option.bind_some, columns, Option.map_some], ?_, ?_⟩
    · by_cases same : lineStart = state.pos
      · -- A cluster that starts its row goes in whatever its width.
        simp only [if_pos same]
        have alone : Fits width [area.graphemeDisplayWidth strWidth cluster] := @fits_push [] width _ (.inr rfl)
        have fresh := held_fresh broken.tiled broken.starts broken.readable readable (same ▸ step) alone
        rw [List.sum_singleton] at fresh
        exact fresh
      · simp only [if_neg same]
        exact held_fresh broken.tiled broken.starts broken.readable held.readablePos reads'' fits'
    · exact wrapRank_row broken.further (by show lineStart ≤ byteLen line; omega)
  · simp only [if_neg full]
    refine ⟨_, fun _ _ => rfl, held.push step readable (by omega) (by omega) ?_, ?_⟩
    · split_ifs
      · exact .inl rfl
      · refine .inr ⟨rfl, fun element member ahead => ?_⟩
        have long := element_forward normal member
        have passed := plain element member
        exact cluster_before laws normal logical held.readablePos cut read member (by omega)
    · exact wrapRank_pos rfl (by show state.pos < state.pos + byteLen cluster; omega) bound

theorem HeldRow.wrapBody (held : HeldRow seg strWidth area width line state) :
    Advances (area.wrapBody seg strWidth (byteLen line) width) (byteLen line + 1)
      (HeldRow seg strWidth area width line) (wrapRank line) (Wrapped seg strWidth area width line) state := by
  obtain ⟨front, back, reads, reads', sum, fits⟩ := held.parts
  have whole := reads.append reads'
  have forward := (whole.progress laws normal).1
  have bound := held.readablePos.le
  have outside := whole.outside laws normal logical held.starts
  unfold Advances DisplayedArea.wrapBody
  by_cases ahead : state.pos < byteLen line
  · simp only [if_pos ahead]
    refine .inl ?_
    cases found : area.elements.find? fun element =>
        decide (state.pos = element.start ∧ element.start < element.stop) with
    | some element =>
        have member := List.mem_of_find?_eq_some found
        have at' : state.pos = element.start ∧ element.start < element.stop := by simpa using List.find?_some found
        obtain ⟨next, runs, kept, falls⟩ :=
          held.wrapElement laws normal logical additive spaced member at'.1 ahead
        refine ⟨next, fun passes enough => ?_, kept, falls⟩
        dsimp only
        rw [runs passes (by omega)]
        rfl
    | none =>
        -- No element begins here, and the walk never stops inside one.
        have plain : Plain area state.pos := by
          intro element member early
          have missed := List.find?_eq_none.mp found element member
          simp only [decide_eq_true_eq, not_and, not_lt] at missed
          have long := element_forward normal member
          have apart := outside_at member outside
          by_contra inside
          have behind := missed (by omega)
          omega
        obtain ⟨tail, cut, filled⟩ := held.readablePos.tail ahead
        obtain ⟨cluster, rest, read, -⟩ := clusters_cons laws filled
        obtain ⟨next, runs, kept, falls⟩ := held.wrapGrapheme laws normal logical additive spaced plain cut read
        have cut' : slice area.text state.pos (byteLen line) = some tail := by
          rw [logical.whole, slice_front line after (le_refl _), cut]
        refine ⟨next, fun passes enough => ?_, kept, falls⟩
        rw [cut', Option.bind_some, read]
        dsimp only
        rw [runs passes (by omega)]
        rfl
  · simp only [if_neg ahead]
    have last : state.pos = byteLen line := by omega
    rw [last] at whole
    refine .inr ⟨_, fun _ _ => rfl, state.result, state.lineStart, rfl, held.tiled, by omega, ?_⟩
    exact goodRow_of_reads laws normal logical additive held.starts held.readable whole fits

theorem greedyWrapSegment_spec {start : Nat} {rows : List Range} (tiled : Tiled seg strWidth area width rows start)
    (starts : Outside area.elementRanges start) (readable : Readable seg line start) :
    ∃ result, Wrapped seg strWidth area width line result ∧
      ∀ passes, (byteLen line + 1) ^ 2 ≤ passes →
        area.greedyWrapSegment seg strWidth passes start (byteLen line) width rows = some result := by
  have within := readable.le
  unfold DisplayedArea.greedyWrapSegment
  by_cases empty : byteLen line ≤ start
  · simp only [if_pos empty]
    obtain rfl : start = byteLen line := by omega
    refine ⟨_, ⟨rows, byteLen line, rfl, tiled, le_refl _, ?_⟩, fun _ _ => rfl⟩
    exact goodRow_of_reads laws normal logical additive starts readable (.done _) (.inl (Nat.zero_le _))
  · simp only [if_neg empty]
    have initial := held_fresh tiled starts readable readable (.done start)
      (show Fits width [] from .inl (Nat.zero_le _))
    obtain ⟨result, wrapped, runs⟩ := loop_leaves (wrapRank line)
      (fun state held => HeldRow.wrapBody laws normal logical additive spaced held) initial
    refine ⟨result, wrapped, fun passes enough => runs passes ?_ passes ?_⟩
    · nlinarith
    · unfold wrapRank
      dsimp only
      have rank : (byteLen line - start) * (byteLen line + 1) ≤ byteLen line * (byteLen line + 1) :=
        Nat.mul_le_mul_right _ (Nat.sub_le ..)
      nlinarith [Nat.sub_le (byteLen line) start]

end Loop

section Segments

variable {seg strWidth area width} (laws : seg.Local) (normal : Normalized seg area.text area.elementRanges)
  (additive : area.Additive seg strWidth)
  (spaced : ∀ cluster, strWidth cluster ≤ strWidth (' ' :: cluster))

include laws normal additive spaced

structure AtLine (seg : Segmentation) (strWidth : Text → Nat) (area : DisplayedArea) (width : Nat)
    (state : Nat × List Range) : Prop where
  tiled : Tiled seg strWidth area width state.2 state.1
  boundary : Boundary seg area.text state.1
  outside : Outside area.elementRanges state.1

theorem AtLine.segmentBody {state : Nat × List Range} (reached : AtLine seg strWidth area width state) :
    Advances (area.segmentBody seg strWidth width) ((byteLen area.text + 1) ^ 2) (AtLine seg strWidth area width)
      (fun state => byteLen area.text - state.1)
      (fun rows => rows ≠ [] ∧ WrappedRows seg strWidth area width rows) state := by
  obtain ⟨stop, ⟨behind, within, outside, ends⟩, finds⟩ :=
    nextLogicalNewline_spec normal (boundary_le seg reached.boundary) reached.outside
  obtain ⟨line, after, logical, rfl⟩ := logicalLine_exists outside ends
  have boundary : Boundary seg line state.1 :=
    line_boundary laws logical.ends (by rw [← logical.whole]; exact reached.boundary) behind
  obtain ⟨result, ⟨rows, first, rfl, tiled, forward, good⟩, wraps⟩ :=
    greedyWrapSegment_spec laws normal logical additive spaced reached.tiled reached.outside
      (readable_of_boundary laws boundary)
  have squares : (byteLen line + 1) ^ 2 ≤ (byteLen area.text + 1) ^ 2 := Nat.pow_le_pow_left (by omega) 2
  have linear : byteLen area.text < (byteLen area.text + 1) ^ 2 := by nlinarith
  have runs : ∀ passes, (byteLen area.text + 1) ^ 2 ≤ passes →
      area.segmentBody seg strWidth width passes state =
        some (if byteLen area.text ≤ byteLen line then .leave (rows ++ [(first, byteLen line)])
          else .again (byteLen line + 1, rows ++ [(first, byteLen line)])) := by
    intro passes enough
    rw [DisplayedArea.segmentBody, finds passes (by omega), Option.bind_some, wraps passes (by omega), Option.map_some]
  unfold Advances
  by_cases last : byteLen area.text ≤ byteLen line
  · -- The text ends here, and with it the last row.
    simp only [if_pos last] at runs
    have whole : byteLen line = byteLen area.text := by omega
    rw [whole] at runs good forward
    exact .inr ⟨_, runs, by simp, tiled.wrappedRows forward good⟩
  · simp only [if_neg last] at runs
    have newline := ends.resolve_left (by omega)
    have next : Boundary seg area.text (byteLen line + 1) ∧ _ := behind_newline newline
    refine .inl ⟨_, runs, ⟨.row tiled good forward (by omega) (.inl ⟨rfl, newline⟩), next.1, next.2⟩, ?_⟩
    dsimp only
    omega

/-- Wrapping ends, and its rows are in order, cover the text but for line feeds and skipped blanks, divide no element,
and are too wide only where one item alone is. -/
theorem wrap_rows_tile (width : Nat) :
    ∃ rows, WrappedRows seg strWidth area (max width 1) rows ∧
      ∀ passes, (byteLen area.text + 1) ^ 2 ≤ passes →
        area.elementAwareWrapRanges seg strWidth passes width = some rows := by
  have initial : AtLine seg strWidth area (max width 1) (0, []) :=
    { tiled := .start
      boundary := boundary_zero seg area.text
      outside := fun range _ inside => absurd inside.1 (Nat.not_lt_zero _) }
  obtain ⟨rows, ⟨filled, wrapped⟩, runs⟩ := loop_leaves (fun state : Nat × List Range => byteLen area.text - state.1)
    (fun state reached => AtLine.segmentBody laws normal additive spaced reached) initial
  refine ⟨rows, wrapped, fun passes enough => ?_⟩
  have linear : byteLen area.text < (byteLen area.text + 1) ^ 2 := by nlinarith
  rw [elementAwareWrapRanges, runs passes enough passes (by omega), Option.map_some, if_neg filled]

end Segments

def chipArea : DisplayedArea :=
  { text := ['s', 'e', 'e', ' ', '[', 'x', ']', ' ', ' ', 'n', 'o', 'w', '\n', 'a', '\t', 'b']
    elements :=
      [{ id := 0
         start := 4
         stop := 7
         display := some [['@', 'f', 'i', 'l', 'e']] }]
    tabWidth := 4 }

theorem length_additive (seg : Segmentation) (area : DisplayedArea) (positive : 0 < area.tabWidth) (part : Text) :
    area.plainDisplayWidth seg List.length part =
      ((seg.clusters part).map (area.graphemeDisplayWidth List.length)).sum := by
  -- Where every character has one column, widths add up as soon as tabs have a width of their own.
  unfold plainDisplayWidth plainDisplayWidthWithTab
  split_ifs with free
  · have untabbed : '\t' ∉ part := free.resolve_left (by omega)
    have same : ∀ cluster ∈ seg.clusters part, area.graphemeDisplayWidth List.length cluster = cluster.length := by
      intro cluster member
      refine if_neg ?_
      rintro rfl
      rw [← seg.covers part] at untabbed
      exact untabbed (List.mem_flatten_of_mem member List.mem_cons_self)
    rw [List.map_congr_left same, ← List.length_flatten, seg.covers]
  · rfl

theorem wrap_rows_tile_chip :
    ∃ rows, WrappedRows (characterSegmentation Char.isAlphanum) List.length chipArea (max 8 1) rows ∧
      ∀ passes, (byteLen chipArea.text + 1) ^ 2 ≤ passes →
        chipArea.elementAwareWrapRanges (characterSegmentation Char.isAlphanum) List.length passes 8 = some rows :=
  wrap_rows_tile (characterSegmentation_local _)
    { nonempty := by decide
      start := by decide
      stop := by decide
      apart := by decide }
    (fun part _ => length_additive _ chipArea (by decide) part) (fun cluster => Nat.le_succ _) 8

end GrokPi.Editor
