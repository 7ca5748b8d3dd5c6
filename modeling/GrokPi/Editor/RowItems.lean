import GrokPi.Editor.Wrapping

set_option autoImplicit false

namespace GrokPi.Editor

open Text

namespace DisplayedArea

variable (seg : Segmentation) (strWidth : Text → Nat) (area : DisplayedArea)

def clusterWidths (start stop : Nat) : List Nat :=
  ((slice area.text start stop).map fun part => (seg.clusters part).map (area.graphemeDisplayWidth strWidth)).getD []

def elementColumns (element : DisplayedElement) : Nat :=
  (area.elementDisplayWidth seg strWidth element element.stop).getD 0

def itemsFrom (stop : Nat) : List DisplayedElement → Nat → List Nat
  | [], pos => area.clusterWidths seg strWidth pos stop
  | element :: rest, pos =>
      if element.stop ≤ pos then itemsFrom stop rest pos
      else if stop ≤ element.start then area.clusterWidths seg strWidth pos stop
      else
        area.clusterWidths seg strWidth pos element.start ++
          area.elementColumns seg strWidth element :: itemsFrom stop rest element.stop

def itemWidths (start stop : Nat) : List Nat := area.itemsFrom seg strWidth stop area.elements start

/-- The display width of every part of the text is the sum over its graphemes. -/
def Additive : Prop :=
  ∀ part, part <:+: area.text →
    area.plainDisplayWidth seg strWidth part = ((seg.clusters part).map (area.graphemeDisplayWidth strWidth)).sum

end DisplayedArea

section Narrower

def Narrower (fewer more : List Nat) : Prop :=
  fewer.sum ≤ more.sum ∧ fewer.countP (0 < ·) ≤ more.countP (0 < ·)

def Fits (width : Nat) (items : List Nat) : Prop := items.sum ≤ width ∨ items.countP (0 < ·) ≤ 1

variable {a b c : List Nat} {width : Nat}

theorem Narrower.refl (items : List Nat) : Narrower items items := ⟨le_refl _, le_refl _⟩

theorem Narrower.trans (first : Narrower a b) (second : Narrower b c) : Narrower a c :=
  ⟨first.1.trans second.1, first.2.trans second.2⟩

theorem narrower_front (a b : List Nat) : Narrower a (a ++ b) := by
  constructor
  · rw [List.sum_append]
    exact Nat.le_add_right ..
  · rw [List.countP_append]
    exact Nat.le_add_right ..

theorem narrower_back (a b : List Nat) : Narrower b (a ++ b) := by
  constructor
  · rw [List.sum_append]
    exact Nat.le_add_left ..
  · rw [List.countP_append]
    exact Nat.le_add_left ..

theorem narrower_head {x y : Nat} (below : x ≤ y) (rest : List Nat) : Narrower (x :: rest) (y :: rest) := by
  constructor
  · rw [List.sum_cons, List.sum_cons]
    exact Nat.add_le_add_right below _
  · rw [List.countP_cons, List.countP_cons]
    have held : (if decide (0 < x) then 1 else 0) ≤ if decide (0 < y) then 1 else 0 := by
      simp only [decide_eq_true_eq]
      split_ifs <;> omega
    exact Nat.add_le_add_left held _

theorem Fits.narrower (fits : Fits width b) (narrower : Narrower a b) : Fits width a :=
  fits.imp narrower.1.trans narrower.2.trans

theorem fits_push {item : Nat} (room : a.sum + item ≤ width ∨ a.sum = 0) : Fits width (a ++ [item]) := by
  rcases room with within | bare
  · left
    rwa [List.sum_append, List.sum_singleton]
  · right
    have zero : a.countP (0 < ·) = 0 := by
      rw [List.countP_eq_zero]
      intro one member
      have none := List.sum_eq_zero_iff.mp bare one member
      simp [none]
    rw [List.countP_append, zero, Nat.zero_add, List.countP_singleton]
    split_ifs <;> omega

end Narrower

section Lists

variable {seg : Segmentation} {text : Text} {element : DisplayedElement} {rest : List DisplayedElement} {pos : Nat}

structure FirstRange (seg : Segmentation) (text : Text) (element : DisplayedElement)
    (rest : List DisplayedElement) : Prop where
  forward : element.start < element.stop
  start : Boundary seg text element.start
  stop : Boundary seg text element.stop
  before : ∀ other ∈ rest, element.stop ≤ other.start
  rest : Normalized seg text (rest.map fun other => other.range)

theorem firstRange (normal : Normalized seg text ((element :: rest).map fun other => other.range)) :
    FirstRange seg text element rest := by
  rw [List.map_cons] at normal
  obtain ⟨before, apart⟩ := List.pairwise_cons.mp normal.apart
  have first : element.range ∈ element.range :: rest.map fun other => other.range := List.mem_cons_self
  refine
    { forward := normal.nonempty _ first
      start := normal.start _ first
      stop := normal.stop _ first
      before := fun other member => before other.range (List.mem_map_of_mem member)
      rest := ⟨?_, ?_, ?_, apart⟩ }
  · exact fun range member => normal.nonempty range (List.mem_cons_of_mem _ member)
  · exact fun range member => normal.start range (List.mem_cons_of_mem _ member)
  · exact fun range member => normal.stop range (List.mem_cons_of_mem _ member)

theorem outside_cons (outside : Outside ((element :: rest).map fun other => other.range) pos) :
    (pos ≤ element.start ∨ element.stop ≤ pos) ∧ Outside (rest.map fun other => other.range) pos := by
  constructor
  · have inside := outside element.range List.mem_cons_self
    simp only [TextElement.range] at inside
    omega
  · exact fun range member => outside range (List.mem_cons_of_mem _ member)

theorem outside_at {elements : List DisplayedElement} (member : element ∈ elements)
    (outside : Outside (elements.map fun other => other.range) pos) : pos ≤ element.start ∨ element.stop ≤ pos := by
  have inside := outside element.range (List.mem_map_of_mem member)
  simp only [TextElement.range] at inside
  omega

end Lists

section Widths

variable {seg : Segmentation} {strWidth : Text → Nat} {area : DisplayedArea} (laws : seg.Local)

include laws

theorem clusterWidths_self (pos : Nat) : area.clusterWidths seg strWidth pos pos = [] := by
  unfold DisplayedArea.clusterWidths
  cases cut : slice area.text pos pos with
  | none => rfl
  | some part =>
      obtain ⟨a, b, -, length, same⟩ := slice_eq_some.mp cut
      obtain rfl : part = [] := byteLen_eq_zero.mp (by omega)
      rw [Option.map_some, clusters_nil laws]
      rfl

variable (additive : area.Additive seg strWidth)

include additive

omit laws in
theorem sliceDisplayWidth_eq {start stop : Nat} (forward : start ≤ stop) (first : (splitAtByte area.text start).isSome)
    (last : (splitAtByte area.text stop).isSome) :
    area.sliceDisplayWidth seg strWidth start stop = some (area.clusterWidths seg strWidth start stop).sum := by
  obtain ⟨a, b, c, whole, rfl, rfl⟩ := cut_thrice forward first last
  have cut := slice_middle a b c
  rw [← whole] at cut
  have sum := additive b ⟨a, c, whole.symm⟩
  rw [DisplayedArea.sliceDisplayWidth, DisplayedArea.clusterWidths, cut, Option.map_some, Option.map_some, sum]
  rfl

theorem remainingDisplayWidth_eq {stop pos : Nat} (width : Nat) (forward : pos ≤ stop)
    (first : (splitAtByte area.text pos).isSome) (last : (splitAtByte area.text stop).isSome) :
    area.remainingDisplayWidth seg strWidth stop pos width =
      some (width + (area.clusterWidths seg strWidth pos stop).sum) := by
  unfold DisplayedArea.remainingDisplayWidth
  split
  · rw [sliceDisplayWidth_eq additive forward first last, Option.map_some]
  next reached =>
    obtain rfl : pos = stop := by omega
    rw [clusterWidths_self laws, List.sum_nil, Nat.add_zero]

omit laws in
theorem elementDisplayWidth_eq {element : DisplayedElement} (forward : element.start ≤ element.stop)
    (first : Boundary seg area.text element.start) (last : Boundary seg area.text element.stop) :
    area.elementDisplayWidth seg strWidth element element.stop = some (area.elementColumns seg strWidth element) := by
  unfold DisplayedArea.elementColumns DisplayedArea.elementDisplayWidth
  cases element.display with
  | some spans => rfl
  | none =>
      -- Without a display the element is counted as the text it covers.
      rw [sliceDisplayWidth_eq additive forward (boundary_isSome seg first) (boundary_isSome seg last)]
      rfl

omit laws in
theorem elementPartWidth_eq {element : DisplayedElement} (forward : element.start ≤ element.stop)
    (first : Boundary seg area.text element.start) (last : Boundary seg area.text element.stop) :
    area.elementPartWidth seg strWidth element element.start element.stop =
      some (area.elementColumns seg strWidth element) := by
  rw [← elementDisplayWidth_eq additive forward first last]
  unfold DisplayedArea.elementPartWidth DisplayedArea.elementDisplayWidth
  cases element.display with
  | some spans => exact if_pos rfl
  | none => rfl

theorem displayWidthFrom_eq {elements : List DisplayedElement} {stop pos : Nat} (width : Nat)
    (normal : Normalized seg area.text (elements.map fun other => other.range)) (forward : pos ≤ stop)
    (first : (splitAtByte area.text pos).isSome) (last : (splitAtByte area.text stop).isSome)
    (starts : Outside (elements.map fun other => other.range) pos)
    (stops : Outside (elements.map fun other => other.range) stop) :
    area.displayWidthFrom seg strWidth stop elements pos width =
      some (width + (area.itemsFrom seg strWidth stop elements pos).sum) := by
  induction elements generalizing pos width with
  | nil => exact remainingDisplayWidth_eq laws additive width forward first last
  | cons element rest ih =>
      have head := firstRange normal
      obtain ⟨starts, starts'⟩ := outside_cons starts
      obtain ⟨stops, stops'⟩ := outside_cons stops
      have long := head.forward
      unfold DisplayedArea.displayWidthFrom DisplayedArea.itemsFrom
      by_cases behind : stop ≤ element.start
      · rw [if_pos behind, if_neg (by omega), if_pos behind]
        exact remainingDisplayWidth_eq laws additive width forward first last
      rw [if_neg behind, if_neg behind]
      by_cases passed : element.stop ≤ pos
      · rw [if_pos passed, if_pos passed]
        exact ih width head.rest forward first starts' stops'
      rw [if_neg passed, if_neg passed]
      have before : pos ≤ element.start := by omega
      have within : element.stop ≤ stop := by omega
      -- The text in front of the element.
      have front : (if pos < element.start then
            (area.sliceDisplayWidth seg strWidth pos (min element.start stop)).map
              fun columns => (min element.start stop, width + columns)
          else some (pos, width)) =
          some (element.start, width + (area.clusterWidths seg strWidth pos element.start).sum) := by
        split
        · rw [Nat.min_eq_left (by omega),
            sliceDisplayWidth_eq additive before first (boundary_isSome seg head.start), Option.map_some]
        next reached =>
          obtain rfl : pos = element.start := by omega
          rw [clusterWidths_self laws, List.sum_nil, Nat.add_zero]
      dsimp only
      rw [front, Option.bind_some]
      dsimp only
      rw [if_neg behind, max_self, Nat.min_eq_left within, if_pos long]
      -- The element as a whole.
      rw [elementPartWidth_eq additive long.le head.start head.stop, Option.bind_some,
        ih _ head.rest within (boundary_isSome seg head.stop) ?_ stops']
      · rw [List.sum_append, List.sum_cons]
        exact congrArg some (by omega)
      · rintro range member ⟨above, -⟩
        obtain ⟨other, within, rfl⟩ := List.mem_map.mp member
        exact absurd (head.before other within) (by simpa [TextElement.range] using above)

end Widths

/-- A stretch of the text that no line feed outside the elements divides, up to its end. -/
structure LogicalLine (area : DisplayedArea) (line after : Text) : Prop where
  whole : area.text = line ++ after
  ends : after = [] ∨ ∃ later, after = '\n' :: later
  outside : Outside area.elementRanges (byteLen line)

section Reads

variable (seg : Segmentation) (strWidth : Text → Nat) (area : DisplayedArea) (line : Text)

def Plain (pos : Nat) : Prop := ∀ element ∈ area.elements, element.start ≤ pos → element.stop ≤ pos

inductive Reads : Nat → Nat → List Nat → Prop where
  | done (pos : Nat) : Reads pos pos []
  | element {element : DisplayedElement} {stop : Nat} {widths : List Nat} (member : element ∈ area.elements)
      (within : element.stop ≤ byteLen line) (behind : Reads element.stop stop widths) :
      Reads element.start stop (area.elementColumns seg strWidth element :: widths)
  | grapheme {pos stop : Nat} {widths : List Nat} {tail cluster : Text} {rest : List Text}
      (readable : Readable seg line pos) (plain : Plain area pos)
      (cut : slice line pos (byteLen line) = some tail) (read : seg.clusters tail = cluster :: rest)
      (behind : Reads (pos + byteLen cluster) stop widths) :
      Reads pos stop (area.graphemeDisplayWidth strWidth cluster :: widths)

variable {seg strWidth area line} {pos stop : Nat} {widths : List Nat}

theorem Reads.append {middle : Nat} {widths' : List Nat} (first : Reads seg strWidth area line pos middle widths)
    (second : Reads seg strWidth area line middle stop widths') :
    Reads seg strWidth area line pos stop (widths ++ widths') := by
  induction first with
  | done pos => exact second
  | element member within behind ih => exact .element member within (ih second)
  | grapheme readable plain cut read behind ih => exact .grapheme readable plain cut read (ih second)

variable (laws : seg.Local) (normal : Normalized seg area.text area.elementRanges) {after : Text}
  (logical : LogicalLine area line after)

section Placement

include normal

omit laws in
theorem element_forward {element : DisplayedElement} (member : element ∈ area.elements) : element.start < element.stop :=
  normal.nonempty element.range (List.mem_map_of_mem member)

include laws logical

theorem element_breaks {element : DisplayedElement} (member : element ∈ area.elements) :
    (element.start ≤ byteLen line → Boundary seg line element.start) ∧
      (element.stop ≤ byteLen line → Boundary seg line element.stop) := by
  have start := normal.start element.range (List.mem_map_of_mem member)
  have stop := normal.stop element.range (List.mem_map_of_mem member)
  rw [logical.whole] at start stop
  exact ⟨line_boundary laws logical.ends start, line_boundary laws logical.ends stop⟩

end Placement

section Steps

include laws

include normal

theorem Reads.progress (reads : Reads seg strWidth area line pos stop widths) :
    pos ≤ stop ∧ (widths ≠ [] → pos < stop) := by
  induction reads with
  | done pos => exact ⟨le_refl _, fun filled => absurd rfl filled⟩
  | element member within behind ih =>
      have long := element_forward normal member
      have below := ih.1
      exact ⟨by omega, fun _ => by omega⟩
  | grapheme readable plain cut read behind ih =>
      have long := cluster_positive laws read
      have below := ih.1
      exact ⟨by omega, fun _ => by omega⟩

theorem Reads.eq_nil (reads : Reads seg strWidth area line pos pos widths) : widths = [] := by
  by_contra filled
  exact absurd ((reads.progress laws normal).2 filled) (Nat.lt_irrefl _)

include logical

theorem Reads.ends (reads : Reads seg strWidth area line pos stop widths) :
    pos = stop ∨ Boundary seg line stop := by
  -- A walk ends at a break, unless it has not begun.
  induction reads with
  | done pos => exact .inl rfl
  | element member within behind ih =>
      rcases ih with rfl | boundary
      · exact .inr ((element_breaks laws normal logical member).2 within)
      · exact .inr boundary
  | grapheme readable plain cut read behind ih =>
      rcases ih with rfl | boundary
      · exact .inr (readable.next_boundary laws cut read).1
      · exact .inr boundary

theorem cluster_before {tail cluster : Text} {rest : List Text} (readable : Readable seg line pos)
    (cut : slice line pos (byteLen line) = some tail) (read : seg.clusters tail = cluster :: rest)
    {element : DisplayedElement} (member : element ∈ area.elements) (ahead : pos < element.start) :
    pos + byteLen cluster ≤ element.start := by
  obtain ⟨boundary, least⟩ := readable.next_boundary laws cut read
  by_cases within : element.start ≤ byteLen line
  · exact least _ ((element_breaks laws normal logical member).1 within) ahead
  · have bound := boundary_le seg boundary
    omega

theorem outside_cluster {tail cluster : Text} {rest : List Text} (readable : Readable seg line pos)
    (plain : Plain area pos) (cut : slice line pos (byteLen line) = some tail)
    (read : seg.clusters tail = cluster :: rest) : Outside area.elementRanges (pos + byteLen cluster) := by
  rintro range inside ⟨above, below⟩
  obtain ⟨element, member, rfl⟩ := List.mem_map.mp inside
  simp only [TextElement.range] at above below
  by_cases early : element.start ≤ pos
  · have passed := plain element member early
    omega
  · have ahead := cluster_before laws normal logical readable cut read member (by omega)
    omega

theorem Reads.outside (reads : Reads seg strWidth area line pos stop widths) (start : Outside area.elementRanges pos) :
    Outside area.elementRanges stop := by
  induction reads with
  | done pos => exact start
  | element member within behind ih => exact ih (ends_outside seg normal (List.mem_map_of_mem member)).2
  | grapheme readable plain cut read behind ih => exact ih (outside_cluster laws normal logical readable plain cut read)

end Steps

section Items

omit laws in
theorem clusterWidths_part {start last : Nat} {part : Text} (logical : LogicalLine area line after)
    (within : last ≤ byteLen line) (cut : slice line start last = some part) :
    area.clusterWidths seg strWidth start last = (seg.clusters part).map (area.graphemeDisplayWidth strWidth) := by
  unfold DisplayedArea.clusterWidths
  rw [logical.whole, slice_front line after within, cut]
  rfl

include laws

variable {elements : List DisplayedElement}

theorem itemsFrom_self (starts : Outside (elements.map fun other => other.range) pos) :
    area.itemsFrom seg strWidth pos elements pos = [] := by
  induction elements with
  | nil => exact clusterWidths_self laws pos
  | cons element rest ih =>
      obtain ⟨apart, starts⟩ := outside_cons starts
      unfold DisplayedArea.itemsFrom
      split_ifs
      · exact ih starts
      · exact clusterWidths_self laws pos
      · omega

omit laws in
theorem itemsFrom_element {text : Text}
    (normal : Normalized seg text (elements.map fun other => other.range)) (laws : seg.Local)
    {element : DisplayedElement} (member : element ∈ elements) (within : element.stop ≤ stop) :
    area.itemsFrom seg strWidth stop elements element.start =
      area.elementColumns seg strWidth element :: area.itemsFrom seg strWidth stop elements element.stop := by
  induction elements with
  | nil => cases member
  | cons first rest ih =>
      have head := firstRange normal
      have long := head.forward
      rcases List.mem_cons.mp member with rfl | later
      · rw [DisplayedArea.itemsFrom, if_neg (by omega), if_neg (by omega), clusterWidths_self laws,
          DisplayedArea.itemsFrom, if_pos (le_refl _)]
        rfl
      · have before := head.before element later
        have forward := head.rest.nonempty element.range (List.mem_map_of_mem later)
        simp only [TextElement.range] at forward
        rw [DisplayedArea.itemsFrom, if_pos before, DisplayedArea.itemsFrom, if_pos (by omega)]
        exact ih head.rest later

include logical

theorem itemsFrom_cluster (normal : Normalized seg area.text (elements.map fun other => other.range))
    {tail cluster : Text} {rest : List Text} (readable : Readable seg line pos)
    (plain : ∀ element ∈ elements, element.start ≤ pos → element.stop ≤ pos)
    (cut : slice line pos (byteLen line) = some tail) (read : seg.clusters tail = cluster :: rest)
    (ahead : ∀ element ∈ elements, pos < element.start → pos + byteLen cluster ≤ element.start)
    (breaks : ∀ element ∈ elements, element.start ≤ byteLen line → Boundary seg line element.start)
    (stops : Boundary seg line stop) (forward : pos + byteLen cluster ≤ stop) :
    area.itemsFrom seg strWidth stop elements pos =
      area.graphemeDisplayWidth strWidth cluster ::
        area.itemsFrom seg strWidth stop elements (pos + byteLen cluster) := by
  have within := boundary_le seg stops
  -- The text up to any later break begins with the cluster.
  have upTo : ∀ last, Boundary seg line last → pos + byteLen cluster ≤ last →
      area.clusterWidths seg strWidth pos last =
        area.graphemeDisplayWidth strWidth cluster :: area.clusterWidths seg strWidth (pos + byteLen cluster) last := by
    intro last boundary behind
    obtain ⟨part, later, whole, shorter, clusters⟩ := readable.part laws cut read boundary behind
    have bound := boundary_le seg boundary
    rw [clusterWidths_part logical bound whole, clusterWidths_part logical bound shorter, clusters, List.map_cons]
  induction elements with
  | nil => exact upTo stop stops forward
  | cons element others ih =>
      have head := firstRange normal
      have long := head.forward
      have next := ahead element List.mem_cons_self
      have passed := plain element List.mem_cons_self
      rw [DisplayedArea.itemsFrom, DisplayedArea.itemsFrom]
      by_cases early : element.stop ≤ pos
      · -- An element further back is passed over from both positions.
        rw [if_pos early, if_pos (by omega)]
        exact ih head.rest (fun other member => plain other (List.mem_cons_of_mem _ member))
          (fun other member => ahead other (List.mem_cons_of_mem _ member))
          (fun other member => breaks other (List.mem_cons_of_mem _ member))
      · have behind := next (by omega)
        rw [if_neg early, if_neg (show ¬ element.stop ≤ pos + byteLen cluster by omega)]
        by_cases reached : stop ≤ element.start
        · rw [if_pos reached, if_pos reached]
          exact upTo stop stops forward
        · rw [if_neg reached, if_neg reached,
            upTo element.start (breaks element List.mem_cons_self (by omega)) behind]
          rfl

include normal

theorem Reads.items (reads : Reads seg strWidth area line pos stop widths) (start : Outside area.elementRanges pos) :
    area.itemWidths seg strWidth pos stop = widths := by
  induction reads with
  | done pos => exact itemsFrom_self laws start
  | @element element stop widths member within behind ih =>
      have outside := (ends_outside seg normal (List.mem_map_of_mem member)).2
      have forward := (behind.progress laws normal).1
      rw [DisplayedArea.itemWidths, itemsFrom_element normal laws member forward]
      exact congrArg _ (ih outside)
  | @grapheme pos stop widths tail cluster rest readable plain cut read behind ih =>
      have outside := outside_cluster laws normal logical readable plain cut read
      have forward := (behind.progress laws normal).1
      have boundary : Boundary seg line stop := by
        rcases behind.ends laws normal logical with rfl | boundary
        · exact (readable.next_boundary laws cut read).1
        · exact boundary
      rw [DisplayedArea.itemWidths, itemsFrom_cluster laws logical normal readable plain cut read
        (fun element member => cluster_before laws normal logical readable cut read member)
        (fun element member => (element_breaks laws normal logical member).1) boundary forward]
      exact congrArg _ (ih outside)

omit laws normal in
theorem cut_whole (found : (splitAtByte line pos).isSome) :
    (splitAtByte area.text pos).isSome := by
  obtain ⟨⟨front, back⟩, cut⟩ := Option.isSome_iff_exists.mp found
  obtain ⟨rfl, rfl⟩ := splitAtByte_eq_some.mp cut
  rw [logical.whole, List.append_assoc, splitAtByte_append]
  rfl

theorem Reads.displayWidth (additive : area.Additive seg strWidth)
    (reads : Reads seg strWidth area line pos stop widths) (readable : Readable seg line pos)
    (start : Outside area.elementRanges pos) :
    area.displayWidthOfRange seg strWidth pos stop = some widths.sum := by
  have forward := (reads.progress laws normal).1
  have items := reads.items laws normal logical start
  unfold DisplayedArea.displayWidthOfRange
  split
  next reached =>
    obtain rfl : pos = stop := by omega
    rw [reads.eq_nil laws normal, List.sum_nil]
  next ahead =>
    have boundary := (reads.ends laws normal logical).resolve_left (by omega)
    rw [displayWidthFrom_eq laws additive 0 normal forward (cut_whole logical readable.isSome)
      (cut_whole logical (boundary_isSome seg boundary)) start (reads.outside laws normal logical start), Nat.zero_add]
    exact congrArg (some ∘ List.sum) items

end Items

section Skip

variable (spaced : ∀ cluster, strWidth cluster ≤ strWidth (' ' :: cluster))

include laws spaced

theorem joined_wider {text joined : Text} {others : List Text}
    (glued : seg.clusters (' ' :: text) = (' ' :: joined) :: others) :
    area.graphemeDisplayWidth strWidth joined ≤ area.graphemeDisplayWidth strWidth (' ' :: joined) := by
  have noTab : joined ≠ ['\t'] := by
    rintro rfl
    have member : [' ', '\t'] ∈ seg.clusters (' ' :: text) := by rw [glued]; exact List.mem_cons_self
    simpa using laws.tab _ _ member (by simp)
  unfold DisplayedArea.graphemeDisplayWidth graphemeDisplayWidthWithTab
  rw [if_neg noTab, if_neg (by simp)]
  exact spaced joined

include normal logical

theorem Reads.skip (reads : Reads seg strWidth area line pos stop widths) (ahead : pos < stop) (blank : area.Blank pos)
    (clear : ∀ element ∈ area.elements, element.start < pos ∨ stop ≤ element.start) :
    Readable seg line (pos + 1) ∧
      ∃ narrower, Reads seg strWidth area line (pos + 1) stop narrower ∧ Narrower narrower widths := by
  cases reads with
  | done => exact absurd ahead (Nat.lt_irrefl _)
  | @element element _ widths member within behind =>
      rcases clear element member with early | late
      · exact absurd early (Nat.lt_irrefl _)
      · omega
  | @grapheme _ _ widths tail cluster rest readable plain cut read behind =>
      obtain ⟨c, isBlank, found⟩ : ∃ c, (c = ' ' ∨ c = '\t') ∧ charAt area.text pos = some c := by
        rcases blank with found | found
        · exact ⟨' ', .inl rfl, found⟩
        · exact ⟨'\t', .inr rfl, found⟩
      have one := blank_size isBlank
      obtain ⟨a, b, shape, length, bound⟩ := slice_eq_some.mp cut
      obtain ⟨w, rfl⟩ : ∃ w, tail = c :: w := by
        rw [logical.whole, shape, List.append_assoc, List.append_assoc, ← length, charAt_append] at found
        cases tail with
        | nil => simp [clusters_nil laws] at read
        | cons d w => exact ⟨w, by rw [Option.some.inj found]⟩
      have found : charAt line pos = some c := charAt_eq_some.mpr ⟨a, w ++ b, by simp [shape], length⟩
      have readable' := readable.blank laws found isBlank
      refine ⟨readable', ?_⟩
      rcases blank_clusters laws isBlank w with split | ⟨rfl, joined, others, later, glued⟩
      · -- The first step was over the blank alone.
        rw [split] at read
        obtain ⟨rfl, -⟩ := List.cons.inj read
        rw [byteLen_cons, one] at behind
        exact ⟨widths, behind, narrower_back [_] widths⟩
      · -- What the space had joined now begins the walk.
        rw [glued] at read
        obtain ⟨rfl, rfl⟩ := List.cons.inj read
        rw [byteLen_cons, one, ← Nat.add_assoc] at behind
        have forward := (behind.progress laws normal).1
        have filled := cluster_positive laws later
        have plain' : Plain area (pos + 1) := by
          intro element member early
          rcases clear element member with before | beyond
          · have passed := plain element member before.le
            omega
          · omega
        have cut' : slice line (pos + 1) (byteLen line) = some w := by
          refine slice_eq_some.mpr ⟨a ++ [' '], b, by simp [shape], by simp [length, one], ?_⟩
          rw [byteLen_cons, one] at bound
          omega
        exact ⟨_, .grapheme readable' plain' cut' later behind, narrower_head (joined_wider laws spaced glued) widths⟩

end Skip

end Reads

end GrokPi.Editor
