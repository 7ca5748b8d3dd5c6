import GrokPi.SearchReplace.Replacing
import GrokPi.Shared.TextLines

set_option autoImplicit false

namespace GrokPi.SearchReplace

open Text

section Rendering

structure LineRange where
  startLine : Nat
  endLine : Nat
  deriving DecidableEq

-- Nothing where a slice or a subtraction would panic, here and below.
def computeLineRange (text : Text) (startPos : Nat) (insertedText : Text) : Option LineRange :=
  (splitAtByte text startPos).map fun parts =>
    let startLine := parts.1.count '\n'
    let linesInInserted := max (splitInclusive '\n' insertedText).length 1
    { startLine := startLine
      endLine := startLine + linesInInserted - 1 }

def lineSlice (lines : List Text) (start stop : Nat) : Option (List Text) :=
  if start ≤ stop ∧ stop ≤ lines.length then some ((lines.drop start).take (stop - start)) else none

def numberedLine (index : Nat) (line : Text) : Text := (toString (index + 1)).toList ++ '→' :: line

def renderSnippet (newText newString : Text) (startPos contextSize : Nat) : Option (Text × Text × Text) :=
  (computeLineRange newText startPos newString).bind fun range =>
    let lines := splitInclusive '\n' newText
    let snippetStart := range.startLine - contextSize
    let snippetEnd := min (range.endLine + contextSize) (lines.length - 1)
    let beforeContext :=
      if snippetStart < range.startLine then (lineSlice lines snippetStart range.startLine).map List.flatten
      else some []
    let afterContext :=
      if range.endLine < snippetEnd then (lineSlice lines (range.endLine + 1) (snippetEnd + 1)).map List.flatten
      else some []
    if snippetStart ≤ snippetEnd then
      let numbered := lines.mapIdx numberedLine
      let snippet := ((numbered.drop snippetStart).take (snippetEnd - snippetStart + 1)).flatten
      beforeContext.bind fun before => afterContext.map fun after => (snippet, before, after)
    else none

structure SearchReplaceEditDetail where
  oldString : Text
  oldLine : Nat
  newString : Text
  newLine : Nat
  contextBefore : Text
  contextAfter : Text
  linePrefix : Text
  deriving DecidableEq

def buildEditDetail (newText oldString newString : Text) (contextLines startPos : Nat) :
    Option SearchReplaceEditDetail :=
  (renderSnippet newText newString startPos contextLines).bind fun (_, contextBefore, contextAfter) =>
    (computeLineRange newText startPos newString).bind fun lineRangeNew =>
      (splitAtByte newText startPos).map fun parts =>
        { oldString := oldString
          oldLine := lineRangeNew.startLine + 1
          newString := newString
          newLine := lineRangeNew.startLine + 1
          contextBefore := contextBefore
          contextAfter := contextAfter
          linePrefix := parts.1.rtakeWhile (· != '\n') }

def buildEditDetails (newText oldString newString : Text) (newPositions : List Nat) (contextLines : Nat) :
    Option (List SearchReplaceEditDetail) :=
  newPositions.mapM (buildEditDetail newText oldString newString contextLines)

end Rendering

section Statements

def lineOf (text : Text) (position : Nat) : Nat :=
  ((splitAtByte text position).map fun parts => parts.1.count '\n').getD 0 + 1

/-- The 1-based line in which a text that begins in this line ends; its last character is in it. -/
def lastLineOf (line : Nat) (part : Text) : Nat := line + part.dropLast.count '\n'

def textBefore (text : Text) (position : Nat) : Text := ((splitAtByte text position).map Prod.fst).getD []

def textBehind (text : Text) (position : Nat) : Text := ((splitAtByte text position).map Prod.snd).getD []

def DeletesLines (text oldString newString : Text) (position : Nat) : Prop :=
  newString = [] ∧ EndsInLine oldString ∧ (textBefore text position = [] ∨ EndsInLine (textBefore text position))

instance (text oldString newString : Text) (position : Nat) : Decidable (DeletesLines text oldString newString position) :=
  inferInstanceAs (Decidable (_ ∧ _))

/-- The last line that a replacement has a part in, or the one before it when it has no line. -/
def lastReplacedLine (newText oldString newString : Text) (position : Nat) : Nat :=
  if DeletesLines newText oldString newString position then lineOf newText position - 1
  else lastLineOf (lineOf newText position) newString

def linesBefore (text : Text) (line count : Nat) : Text :=
  (((splitInclusive '\n' text).take (line - 1)).drop (line - 1 - count)).flatten

def linesAfter (text : Text) (line count : Nat) : Text := (((splitInclusive '\n' text).drop line).take count).flatten

structure NamesLines (text newText oldString newString : Text) (contextLines : Nat) (places : Nat × Nat)
    (detail : SearchReplaceEditDetail) : Prop where
  oldLine : detail.oldLine = lineOf text places.1
  newLine : detail.newLine = lineOf newText places.2
  before : detail.contextBefore = linesBefore newText (lineOf newText places.2) contextLines
  after : detail.contextAfter = linesAfter newText (lastReplacedLine newText oldString newString places.2) contextLines

def DetailsNameLines (text : Text) (positions : List Nat) (oldString newString : Text) (contextLines : Nat) : Prop :=
  ∃ newText newPositions details, replaceUsingPositions text positions oldString newString = some (newText, newPositions) ∧
    List.Forall₂ (fun _ position =>
      Reads newText
        { start := position
          len := byteLen newString } newString) positions newPositions ∧
    buildEditDetails newText oldString newString newPositions contextLines = some details ∧
      List.Forall₂ (NamesLines text newText oldString newString contextLines) (positions.zip newPositions) details

/-- Whole lines are deleted in front of others, and the context is not the same from the first of these on as from the
second. -/
def LosesLine (text oldString newString : Text) (contextLines position : Nat) : Prop :=
  DeletesLines text oldString newString position ∧
    (splitInclusive '\n' (textBehind text (position + byteLen oldString))).take contextLines ≠
      (splitInclusive '\n' (textBehind text (position + byteLen oldString))).tail.take contextLines

end Statements

section Lines

theorem splitInclusive_length_cons (c : Char) (rest : Text) :
    (splitInclusive '\n' (c :: rest)).length = (c :: rest).dropLast.count '\n' + 1 := by
  induction rest generalizing c with
  | nil =>
      unfold splitInclusive
      split <;> simp [splitInclusive]
  | cons d rest ih =>
      have later := ih d
      rw [List.dropLast_cons_of_ne_nil (List.cons_ne_nil d rest), List.count_cons, splitInclusive]
      split
      next newline =>
        rw [List.length_cons, later, if_pos (by simpa using newline)]
      next other =>
        rw [if_neg (by simpa using other)]
        cases shape : splitInclusive '\n' (d :: rest) with
        | nil =>
            rw [shape, List.length_nil] at later
            omega
        | cons piece more =>
            rw [shape] at later
            exact later

theorem max_lines (text : Text) : max (splitInclusive '\n' text).length 1 = text.dropLast.count '\n' + 1 := by
  cases text with
  | nil => simp [splitInclusive]
  | cons c rest =>
      rw [splitInclusive_length_cons]
      omega

theorem count_le_lines (text : Text) : text.count '\n' ≤ (splitInclusive '\n' text).length := by
  cases text with
  | nil => simp
  | cons c rest =>
      rw [splitInclusive_length_cons]
      have last := List.dropLast_append_getLast (List.cons_ne_nil c rest)
      have split := congrArg (List.count '\n') last
      rw [List.count_append] at split
      have one : List.count '\n' [(c :: rest).getLast (List.cons_ne_nil c rest)] ≤ 1 := List.count_le_length
      omega

theorem splitInclusive_append_whole {front : Text} (back : Text) (whole : front = [] ∨ EndsInLine front) :
    splitInclusive '\n' (front ++ back) = splitInclusive '\n' front ++ splitInclusive '\n' back ∧
      (splitInclusive '\n' front).length = front.count '\n' := by
  induction front with
  | nil => exact ⟨rfl, rfl⟩
  | cons c rest ih =>
      have later : rest = [] ∨ EndsInLine rest := by
        rcases List.eq_nil_or_concat rest with rfl | ⟨body, last, rfl⟩
        · exact .inl rfl
        · have ended := whole.resolve_left (List.cons_ne_nil _ _)
          rw [EndsInLine, List.getLast?_cons_of_ne_nil (by simp)] at ended
          exact .inr ended
      obtain ⟨joined, count⟩ := ih later
      rw [List.cons_append, splitInclusive, splitInclusive]
      by_cases newline : c = '\n'
      · rw [if_pos newline, if_pos newline, joined, List.length_cons, count, newline, List.count_cons_self]
        exact ⟨rfl, rfl⟩
      · rw [if_neg newline, if_neg newline, joined, List.count_cons_of_ne newline]
        have some' : rest ≠ [] := by
          rintro rfl
          have ended := whole.resolve_left (List.cons_ne_nil _ _)
          exact newline (by simpa [EndsInLine] using ended)
        cases shape : splitInclusive '\n' rest with
        | nil => exact absurd ((splitInclusive_eq_nil '\n' rest).mp shape) some'
        | cons piece more =>
            rw [shape] at count
            exact ⟨rfl, count⟩

theorem take_pieces_inj (text : Text) (count : Nat) :
    ((splitInclusive '\n' text).take count).flatten = ((splitInclusive '\n' text).tail.take count).flatten ↔
      (splitInclusive '\n' text).take count = (splitInclusive '\n' text).tail.take count := by
  have shape := splitInclusive_pieces text
  have first := splitInclusive_of_pieces (pieces_part (List.take_prefix count _).isInfix shape)
  have second := splitInclusive_of_pieces
    (pieces_part ((List.take_prefix count _).isInfix.trans (List.tail_suffix _).isInfix) shape)
  constructor
  · intro same
    rw [← first, same, second]
  · exact congrArg List.flatten

end Lines

section Details

/-- The context that the code takes behind a replacement is the one behind the lines it has a part in. -/
def ContextStays (newText oldString newString : Text) (contextLines position : Nat) : Prop :=
  linesAfter newText (lastLineOf (lineOf newText position) newString) contextLines =
    linesAfter newText (lastReplacedLine newText oldString newString position) contextLines

variable {newText oldString newString : Text} {contextLines position : Nat}

theorem lineSlice_eq {lines : List Text} {start stop : Nat} (forward : start ≤ stop) (inside : stop ≤ lines.length) :
    lineSlice lines start stop = some ((lines.drop start).take (stop - start)) := if_pos ⟨forward, inside⟩

theorem computeLineRange_spec (front back insertedText : Text) :
    computeLineRange (front ++ insertedText ++ back) (byteLen front) insertedText =
      some
        { startLine := front.count '\n'
          endLine := front.count '\n' + insertedText.dropLast.count '\n' } := by
  unfold computeLineRange
  rw [List.append_assoc, splitAtByte_append, max_lines]
  rfl

theorem renderSnippet_spec (front back newString : Text) (positive : 1 ≤ contextLines) :
    ∃ snippet, renderSnippet (front ++ newString ++ back) newString (byteLen front) contextLines =
      some (snippet, linesBefore (front ++ newString ++ back) (front.count '\n' + 1) contextLines,
        linesAfter (front ++ newString ++ back) (lastLineOf (front.count '\n' + 1) newString) contextLines) := by
  -- Where the replacement stands, the contexts are the lines around it.
  have enough : front.count '\n' ≤ (splitInclusive '\n' (front ++ newString ++ back)).length := by
    have whole := count_le_lines (front ++ newString ++ back)
    rw [List.count_append, List.count_append] at whole
    omega
  unfold renderSnippet linesBefore linesAfter lastLineOf
  rw [computeLineRange_spec, Option.bind_some]
  dsimp only
  generalize splitInclusive '\n' (front ++ newString ++ back) = lines at *
  generalize front.count '\n' = first at *
  generalize newString.dropLast.count '\n' = more
  rw [Nat.add_sub_cancel, if_pos (by omega)]
  have before : (if first - contextLines < first then (lineSlice lines (first - contextLines) first).map List.flatten
      else some []) = some (((lines.take first).drop (first - contextLines)).flatten) := by
    split
    · rw [lineSlice_eq (by omega) enough, Option.map_some, List.drop_take]
    next none' =>
      have empty : first = 0 := by omega
      subst empty
      simp
  have after : (if first + more < min (first + more + contextLines) (lines.length - 1) then
        (lineSlice lines (first + more + 1) (min (first + more + contextLines) (lines.length - 1) + 1)).map List.flatten
      else some []) = some (((lines.drop (first + 1 + more)).take contextLines).flatten) := by
    have same : first + 1 + more = first + more + 1 := by omega
    rw [same]
    split
    · rw [lineSlice_eq (by omega) (by omega), Option.map_some]
      congr 2
      -- The end of the lines cuts both alike.
      rw [List.take_eq_take_iff, List.length_drop]
      omega
    · rw [List.drop_eq_nil_of_le (by omega)]
      simp
  rw [before, after]
  exact ⟨_, rfl⟩

theorem lineOf_append (front back : Text) : lineOf (front ++ back) (byteLen front) = front.count '\n' + 1 := by
  unfold lineOf
  rw [splitAtByte_append]
  rfl

theorem buildEditDetail_spec (positive : 1 ≤ contextLines) (oldString : Text)
    (reads : Reads newText
      { start := position
        len := byteLen newString } newString) :
    ∃ detail, buildEditDetail newText oldString newString contextLines position = some detail ∧
      detail.oldLine = lineOf newText position ∧ detail.newLine = lineOf newText position ∧
        detail.contextBefore = linesBefore newText (lineOf newText position) contextLines ∧
          detail.contextAfter = linesAfter newText (lastLineOf (lineOf newText position) newString) contextLines := by
  -- A detail names the line of the replacement twice.
  obtain ⟨front, back, rfl, start, -⟩ := reads
  dsimp only at start
  subst start
  obtain ⟨snippet, rendered⟩ := renderSnippet_spec front back newString positive
  have cut : splitAtByte (front ++ newString ++ back) (byteLen front) = some (front, newString ++ back) := by
    rw [List.append_assoc, splitAtByte_append]
  have line : lineOf (front ++ newString ++ back) (byteLen front) = front.count '\n' + 1 := by
    rw [List.append_assoc, lineOf_append]
  unfold buildEditDetail
  rw [rendered, computeLineRange_spec, cut, line]
  exact ⟨_, rfl, rfl, rfl, rfl, rfl⟩

end Details

section Main

variable {text oldString newString : Text} {contextLines : Nat}

theorem startsOf_reads (newString done : Text) (parts : List (Text × Text)) (tail : Text) :
    List.Forall₂ (fun (_ : Text × Text) position =>
        Reads (done ++ weave (fun _ => newString) parts tail)
          { start := position
            len := byteLen newString } newString)
      parts (startsOf (fun _ => newString) (byteLen done) parts) := by
  -- Each new position is where a replacement begins.
  induction parts generalizing done with
  | nil => exact .nil
  | cons part rest ih =>
      obtain ⟨gap, span⟩ := part
      have later := ih (done ++ gap ++ newString)
      rw [byteLen_append, byteLen_append] at later
      refine .cons ⟨done ++ gap, weave (fun _ => newString) rest tail, ?_, byteLen_append done gap, rfl⟩ ?_
      · simp [weave]
      · have whole : done ++ weave (fun _ => newString) ((gap, span) :: rest) tail =
            done ++ gap ++ newString ++ weave (fun _ => newString) rest tail := by simp [weave]
        rw [whole]
        exact later

/-- The lines of the matches are those of the replacements when no replacement moves the lines behind it. -/
theorem lines_agree_iff (newString done done' : Text) {parts : List (Text × Text)} (tail : Text)
    (old : ∀ part ∈ parts, part.2 = oldString) :
    List.Forall₂ (fun position newPosition =>
        lineOf (done ++ weave id parts tail) position =
          lineOf (done' ++ weave (fun _ => newString) parts tail) newPosition)
        (startsOf id (byteLen done) parts) (startsOf (fun _ => newString) (byteLen done') parts) ↔
      (parts = [] ∨ done.count '\n' = done'.count '\n') ∧
        (parts.length ≤ 1 ∨ oldString.count '\n' = newString.count '\n') := by
  induction parts generalizing done done' with
  | nil => simp [startsOf]
  | cons part rest ih =>
      obtain ⟨gap, span⟩ := part
      obtain rfl : span = oldString := old (gap, span) List.mem_cons_self
      have whole : done ++ weave id ((gap, span) :: rest) tail = (done ++ gap ++ span) ++ weave id rest tail := by
        simp [weave]
      have whole' : done' ++ weave (fun _ => newString) ((gap, span) :: rest) tail =
          (done' ++ gap ++ newString) ++ weave (fun _ => newString) rest tail := by simp [weave]
      have later := ih (done ++ gap ++ span) (done' ++ gap ++ newString)
        (fun other member => old other (List.mem_cons_of_mem _ member))
      have here : lineOf ((done ++ gap ++ span) ++ weave id rest tail) (byteLen done + byteLen gap) =
          done.count '\n' + gap.count '\n' + 1 := by
        rw [← byteLen_append, List.append_assoc, lineOf_append, List.count_append]
      have here' : lineOf ((done' ++ gap ++ newString) ++ weave (fun _ => newString) rest tail)
          (byteLen done' + byteLen gap) = done'.count '\n' + gap.count '\n' + 1 := by
        rw [← byteLen_append, List.append_assoc, lineOf_append, List.count_append]
      simp only [byteLen_append, List.count_append] at later
      rw [whole, whole', startsOf, startsOf, List.forall₂_cons, here, here', id_eq, later]
      cases rest with
      | nil =>
          simp
      | cons next rest =>
          simp only [reduceCtorEq, false_or, List.length_cons]
          omega

theorem mapM_details (text oldString : Text) (positive : 1 ≤ contextLines) {newText : Text} {newPositions : List Nat} {old : List Nat}
    (reads : List.Forall₂ (fun _ position =>
      Reads newText
        { start := position
          len := byteLen newString } newString) old newPositions) :
    ∃ details, buildEditDetails newText oldString newString newPositions contextLines = some details ∧
      (List.Forall₂ (NamesLines text newText oldString newString contextLines) (old.zip newPositions) details ↔
        List.Forall₂ (fun position newPosition => lineOf text position = lineOf newText newPosition) old newPositions ∧
          ∀ newPosition ∈ newPositions, ContextStays newText oldString newString contextLines newPosition) := by
  induction reads with
  | nil => exact ⟨[], rfl, by simp⟩
  | cons read _ ih =>
      obtain ⟨details, built, named⟩ := ih
      obtain ⟨detail, one, oldLine, newLine, before, after⟩ := buildEditDetail_spec positive oldString read
      refine ⟨detail :: details, ?_, ?_⟩
      · unfold buildEditDetails at *
        rw [List.mapM_cons, one, built]
        rfl
      · rw [List.zip_cons_cons, List.forall₂_cons, List.forall₂_cons, named, List.forall_mem_cons]
        constructor
        · rintro ⟨names, later, stays⟩
          exact ⟨⟨names.oldLine.symm.trans oldLine, later⟩, after.symm.trans names.after, stays⟩
        · rintro ⟨⟨same, later⟩, stays, others⟩
          exact ⟨⟨oldLine.trans same.symm, newLine, before, after.trans stays⟩, later, others⟩

theorem not_deletesLines_of_count {newText : Text} (still : oldString.count '\n' = newString.count '\n') (position : Nat) :
    ¬ DeletesLines newText oldString newString position := by
  rintro ⟨rfl, ended, -⟩
  have newline : '\n' ∈ oldString := List.mem_of_getLast? ended
  exact absurd still (List.count_pos_iff.mpr newline).ne'

theorem contextStays_iff_of_deletion (front back : Text) (oldString newString : Text) (contextLines : Nat) :
    ContextStays (front ++ newString ++ back) oldString newString contextLines (byteLen front) ↔
      ¬ LosesLine (front ++ oldString ++ back) oldString newString contextLines (byteLen front) := by
  have before : textBefore (front ++ newString ++ back) (byteLen front) = front := by
    rw [textBefore, List.append_assoc, splitAtByte_append]
    rfl
  have before' : textBefore (front ++ oldString ++ back) (byteLen front) = front := by
    rw [textBefore, List.append_assoc, splitAtByte_append]
    rfl
  have behind : textBehind (front ++ oldString ++ back) (byteLen front + byteLen oldString) = back := by
    rw [textBehind, ← byteLen_append, splitAtByte_append]
    rfl
  have deletes : DeletesLines (front ++ newString ++ back) oldString newString (byteLen front) ↔
      DeletesLines (front ++ oldString ++ back) oldString newString (byteLen front) := by
    rw [DeletesLines, DeletesLines, before, before']
  unfold ContextStays lastReplacedLine LosesLine
  rw [behind, ← deletes]
  split
  next deletion =>
    obtain ⟨rfl, -, whole⟩ := id deletion
    rw [before] at whole
    rw [List.append_nil] at deletion
    obtain ⟨split, count⟩ := splitInclusive_append_whole back whole
    have rest : (splitInclusive '\n' back).drop 1 = (splitInclusive '\n' back).tail := List.drop_one
    rw [List.append_nil, lineOf_append, lastLineOf, linesAfter, linesAfter, split, Nat.add_sub_cancel, ← count]
    simp only [List.dropLast_nil, List.count_nil, Nat.add_zero, List.drop_append_of_le_length le_rfl, List.drop_length,
      List.nil_append, List.drop_length_add_append, rest]
    rw [eq_comm, take_pieces_inj, and_iff_right deletion, not_not]
  next other => exact iff_of_true rfl fun loses => other loses.1

theorem contextStays_iff_losesLine {parts : List (Text × Text)} (tail : Text) (old : ∀ part ∈ parts, part.2 = oldString)
    (either : parts.length ≤ 1 ∨ oldString.count '\n' = newString.count '\n') :
    (∀ newPosition ∈ startsOf (fun _ => newString) 0 parts,
      ContextStays (weave (fun _ => newString) parts tail) oldString newString contextLines newPosition) ↔
      ∀ position ∈ startsOf id 0 parts, ¬ LosesLine (weave id parts tail) oldString newString contextLines position := by
  rcases either with one | still
  · match parts, one with
    | [], _ => simp [startsOf]
    | [(gap, span)], _ =>
        obtain rfl : span = oldString := old (gap, span) List.mem_cons_self
        have single := contextStays_iff_of_deletion gap tail span newString contextLines
        simpa [startsOf, weave] using single
  · constructor
    · rintro - position - ⟨deletes, -⟩
      exact not_deletesLines_of_count still position deletes
    · rintro - newPosition -
      rw [ContextStays, lastReplacedLine, if_neg (not_deletesLines_of_count still newPosition)]

theorem edit_details_name_lines_iff {positions : List Nat} (positive : 1 ≤ contextLines)
    (matches' : ∀ position ∈ positions,
      Reads text
        { start := position
          len := byteLen oldString } oldString)
    (ascending : positions.Pairwise fun a b => a + byteLen oldString ≤ b) :
    DetailsNameLines text positions oldString newString contextLines ↔
      (positions.length ≤ 1 ∨ oldString.count '\n' = newString.count '\n') ∧
        ∀ position ∈ positions, ¬ LosesLine text oldString newString contextLines position := by
  let spans := positions.map fun position =>
    { start := position
      len := byteLen oldString : Span }
  have reads : List.Forall₂ (Reads text) spans (positions.map fun _ => oldString) := by
    rw [List.forall₂_map_left_iff, List.forall₂_map_right_iff, List.forall₂_same]
    exact matches'
  have apart : Apart spans := by
    unfold Apart
    rw [List.pairwise_map]
    exact ascending
  obtain ⟨parts, tail, woven, texts⟩ := replaceSpans_woven text newString reads apart
  have starts : positions = startsOf id 0 parts := by
    rw [← woven.starts, List.map_map]
    exact (List.map_id positions).symm
  have count : positions.length = parts.length := by
    have same := congrArg List.length texts
    rw [List.length_map, List.length_map] at same
    exact same.symm
  have old : ∀ part ∈ parts, part.2 = oldString := by
    intro part member
    have there := List.mem_map_of_mem (f := Prod.snd) member
    rw [texts] at there
    obtain ⟨-, -, same⟩ := List.mem_map.mp there
    exact same.symm
  have placed := startsOf_reads newString [] parts tail
  rw [List.nil_append, byteLen_nil] at placed
  have reads' : List.Forall₂ (fun _ position =>
      Reads (weave (fun _ => newString) parts tail)
        { start := position
          len := byteLen newString } newString) positions (startsOf (fun _ => newString) 0 parts) := by
    rw [List.forall₂_iff_get] at placed ⊢
    exact ⟨count.trans placed.1, fun i first second => placed.2 i (count ▸ first) second⟩
  obtain ⟨details, built, named⟩ := mapM_details text oldString positive reads'
  have agree := lines_agree_iff newString [] [] tail old
  rw [List.nil_append, List.nil_append, byteLen_nil, ← woven.text, ← starts] at agree
  rw [count]
  constructor
  · rintro ⟨newText, newPositions, given, replaced, -, built', names⟩
    obtain ⟨rfl, rfl⟩ := Prod.mk.inj (Option.some.inj (woven.replaced.symm.trans replaced))
    obtain rfl := Option.some.inj (built.symm.trans built')
    obtain ⟨lines, stays⟩ := named.mp names
    have still := (agree.mp lines).2
    refine ⟨still, ?_⟩
    rw [starts, woven.text]
    exact (contextStays_iff_losesLine tail old still).mp stays
  · rintro ⟨still, keeps⟩
    rw [starts, woven.text] at keeps
    exact ⟨_, _, details, woven.replaced, reads', built,
      named.mpr ⟨agree.mpr ⟨.inr rfl, still⟩, (contextStays_iff_losesLine tail old still).mpr keeps⟩⟩

theorem two_edits_name_lines :
    DetailsNameLines "a\nb\nb\n".toList [2, 4] ['b'] ['c'] 3 ↔
      ([2, 4].length ≤ 1 ∨ ['b'].count '\n' = ['c'].count '\n') ∧
        ∀ position ∈ [2, 4], ¬ LosesLine "a\nb\nb\n".toList ['b'] ['c'] 3 position :=
  edit_details_name_lines_iff (by decide)
    (by
      intro position member
      rcases List.mem_cons.mp member with rfl | member
      · exact ⟨['a', '\n'], ['\n', 'b', '\n'], rfl, rfl, rfl⟩
      · obtain rfl := List.mem_singleton.mp member
        exact ⟨['a', '\n', 'b', '\n'], ['\n'], rfl, rfl, rfl⟩)
    (by decide)

theorem second_old_line_shifted :
    ¬ ∀ (text : Text) (positions : List Nat) (oldString newString : Text) (contextLines : Nat), 1 ≤ contextLines →
        oldString ≠ [] →
        (∀ position ∈ positions,
          Reads text
            { start := position
              len := byteLen oldString } oldString) →
        (positions.Pairwise fun a b => a + byteLen oldString ≤ b) →
        DetailsNameLines text positions oldString newString contextLines := by
  intro claim
  have reads : ∀ position ∈ [0, 2],
      Reads "b\nb\n".toList
        { start := position
          len := byteLen ['b'] } ['b'] := by
    intro position member
    rcases List.mem_cons.mp member with rfl | member
    · exact ⟨[], ['\n', 'b', '\n'], rfl, rfl, rfl⟩
    · obtain rfl := List.mem_singleton.mp member
      exact ⟨['b', '\n'], ['\n'], rfl, rfl, rfl⟩
  obtain ⟨newText, newPositions, details, replaced, -, built, names⟩ :=
    claim "b\nb\n".toList [0, 2] ['b'] ['x', '\n', 'y'] 3 (by decide) (by decide) reads (by decide)
  have known : replaceUsingPositions "b\nb\n".toList [0, 2] ['b'] ['x', '\n', 'y'] =
      some ("x\ny\nx\ny\n".toList, [0, 4]) := by decide
  obtain ⟨rfl, rfl⟩ := Prod.mk.inj (Option.some.inj (known.symm.trans replaced))
  have lines : (buildEditDetails "x\ny\nx\ny\n".toList ['b'] ['x', '\n', 'y'] [0, 4] 3).map
      (fun details => details.map SearchReplaceEditDetail.oldLine) = some [1, 3] := by decide
  rw [built] at lines
  cases names with
  | cons first rest =>
      cases rest with
      | cons second none' =>
          cases none'
          have line : lineOf "b\nb\n".toList 2 = 2 := by decide
          have named := second.oldLine
          simp only [Option.map_some, List.map_cons, List.map_nil, Option.some.injEq, List.cons.injEq] at lines
          dsimp only at named
          omega

end Main

end GrokPi.SearchReplace
