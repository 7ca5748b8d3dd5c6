import GrokPi.SearchReplace.Replacing

set_option autoImplicit false

namespace GrokPi.SearchReplace

open Text

section Confusables

def confusableMap : List (Char × Text) :=
  [('\u201C', "\"".toList), ('\u201D', "\"".toList), ('\u2018', "'".toList), ('\u2019', "'".toList),
    ('\u2014', "--".toList), ('\u2013', "-".toList), ('\u2026', "...".toList), ('\u00A0', " ".toList)]

def lookup (c : Char) : Option Text := (confusableMap.find? fun entry => entry.1 == c).map Prod.snd

def normalizeChar (c : Char) : Text := (lookup c).getD [c]

def normalizeConfusables (text : Text) : Text := text.flatMap normalizeChar

def charOffsets (offset : Nat) (c : Char) : List Nat :=
  match lookup c with
  | some replacement => List.replicate (byteLen replacement) offset
  | none => (List.range c.utf8Size).map (offset + ·)

def offsetsFrom : Nat → Text → List Nat
  | offset, [] => [offset]
  | offset, c :: rest => charOffsets offset c ++ offsetsFrom (offset + c.utf8Size) rest

def buildOffsetMap (text : Text) : Text × List Nat := (normalizeConfusables text, offsetsFrom 0 text)

end Confusables

section Finding

inductive NormalizedMatchResult where
  | noMatch
  | matches' (found : List Span)
  | ambiguous
  deriving DecidableEq

def remap (text normPattern : Text) (normStart : Nat) : Option Span :=
  let offsetMap := (buildOffsetMap text).2
  let origStart := offsetMap[normStart]?.getD 0
  let origEnd := offsetMap[normStart + byteLen normPattern]?.getD 0
  if origEnd ≤ origStart then none
  else if (slice text origStart origEnd).map normalizeConfusables ≠ some normPattern then none
  else
    some
      { start := origStart
        len := origEnd - origStart }

def candidates (text pattern : Text) : List Nat :=
  matchIndices (normalizeConfusables pattern) (buildOffsetMap text).1

def validated (text pattern : Text) : List Span :=
  (candidates text pattern).filterMap (remap text (normalizeConfusables pattern))

def overlapping : List Span → Bool
  | first :: second :: rest => first.stop > second.start || overlapping (second :: rest)
  | _ => false

def findNormalizedMatchPositions (text pattern : Text) : NormalizedMatchResult :=
  if normalizeConfusables pattern = [] then .noMatch
  else if validated text pattern = [] then
    if (candidates text pattern).any fun index => (remap text (normalizeConfusables pattern) index).isNone then
      .ambiguous
    else .noMatch
  else if overlapping (validated text pattern) then .ambiguous
  else .matches' (validated text pattern)

def replaceNormalizedMatches (text : Text) (found : List Span) (newString : Text) : Option (Text × List Nat) :=
  replaceSpansFrom text newString 0 [] [] found

end Finding

section Statements

/-- A stretch of whole characters that normalizes like the pattern; its normalized text begins at `index`. -/
def AlignedAt (text pattern : Text) (index : Nat) (span : Span) : Prop :=
  ∃ front part back, text = front ++ part ++ back ∧ byteLen front = span.start ∧ byteLen part = span.len ∧
    part ≠ [] ∧ normalizeConfusables part = normalizeConfusables pattern ∧
      byteLen (normalizeConfusables front) = index

def Aligned (text pattern : Text) (span : Span) : Prop := ∃ index, AlignedAt text pattern index span

def Overlaps (a b : Span) : Prop := a.start < b.stop ∧ b.start < a.stop

structure FindsAll (text pattern : Text) (result : NormalizedMatchResult) : Prop where
  aligned : ∀ found, result = .matches' found → ∀ span ∈ found, Aligned text pattern span
  ordered : ∀ found, result = .matches' found → found.Pairwise fun a b => a.start < b.start ∧ a.stop ≤ b.start
  every : ∀ found, result = .matches' found → ∀ span, Aligned text pattern span → ∃ one ∈ found, Overlaps one span
  noMatch : result = .noMatch → ∀ span, ¬ Aligned text pattern span
  replaced : ∀ found, result = .matches' found → ∀ newString, ∃ parts tail,
    Woven text newString found (replaceNormalizedMatches text found newString) parts tail

/-- How far inside the expansion of a character a place of the normalized text lies. -/
def depth : Text → Nat → Nat
  | [], _ => 0
  | c :: rest, place =>
      if place < byteLen (normalizeChar c) then place else depth rest (place - byteLen (normalizeChar c))

/-- The normalized pattern stands there in the normalized text, and cuts no expansion at its ends. -/
structure StandsAt (text pattern : Text) (place : Nat) : Prop where
  occurs : ∃ a b, normalizeConfusables text = a ++ normalizeConfusables pattern ++ b ∧ byteLen a = place
  first : depth text place = 0
  last : depth text (place + byteLen (normalizeConfusables pattern)) = 0

/-- An occurrence that cuts an expansion at both ends as deep is taken for the one that begins that
much before, if the pattern stands there. -/
structure TakenFor (text pattern : Text) (place other : Nat) : Prop where
  even : depth text place = depth text (place + byteLen (normalizeConfusables pattern))
  before : other + depth text place = place
  stands : StandsAt text pattern other

def Meets (pattern : Text) (a b : Nat) : Prop :=
  a < b + byteLen (normalizeConfusables pattern) ∧ b < a + byteLen (normalizeConfusables pattern)

/-- The occurrences are those of a scan of the normalized text from left to right, each behind the last.
One of them is read as an aligned span; and elsewhere the pattern stands where the scan, having
taken an occurrence that cuts an expansion, comes to nothing that is read as a span there. -/
structure Hides (text pattern : Text) : Prop where
  named : pattern ≠ []
  read : ∃ place ∈ matchIndices (normalizeConfusables pattern) (normalizeConfusables text),
    ∃ other, TakenFor text pattern place other
  hidden : ∃ there, StandsAt text pattern there ∧
    (∃ cut ∈ matchIndices (normalizeConfusables pattern) (normalizeConfusables text),
      ¬ StandsAt text pattern cut ∧ Meets pattern cut there) ∧
    ∀ place ∈ matchIndices (normalizeConfusables pattern) (normalizeConfusables text),
      ∀ other, TakenFor text pattern place other → ¬ Meets pattern other there

end Statements

section Offsets

theorem lookup_ne_nil {c : Char} {replacement : Text} (found : lookup c = some replacement) : replacement ≠ [] := by
  obtain ⟨entry, listed, rfl⟩ := Option.map_eq_some_iff.mp found
  have all : ∀ entry ∈ confusableMap, entry.2 ≠ [] := by decide
  exact all entry (List.mem_of_find?_eq_some listed)

theorem normalizeChar_ne_nil (c : Char) : normalizeChar c ≠ [] := by
  unfold normalizeChar
  cases found : lookup c with
  | none => exact List.cons_ne_nil _ _
  | some replacement => exact lookup_ne_nil found

@[simp]
theorem normalizeConfusables_append (a b : Text) :
    normalizeConfusables (a ++ b) = normalizeConfusables a ++ normalizeConfusables b := List.flatMap_append

@[simp]
theorem normalizeConfusables_cons (c : Char) (rest : Text) :
    normalizeConfusables (c :: rest) = normalizeChar c ++ normalizeConfusables rest := List.flatMap_cons

theorem normalizeConfusables_nil : normalizeConfusables [] = [] := rfl

theorem normalizeConfusables_eq_nil {text : Text} : normalizeConfusables text = [] ↔ text = [] := by
  cases text with
  | nil => exact ⟨fun _ => rfl, fun _ => rfl⟩
  | cons c rest => simp [normalizeChar_ne_nil]

theorem charOffsets_length (offset : Nat) (c : Char) : (charOffsets offset c).length = byteLen (normalizeChar c) := by
  unfold charOffsets normalizeChar
  cases lookup c with
  | none => simp
  | some replacement => simp

theorem charOffsets_first (offset : Nat) (c : Char) : (charOffsets offset c)[0]? = some offset := by
  -- The first byte of a character maps to where the character starts.
  have positive := byteLen_pos (normalizeChar_ne_nil c)
  rw [← charOffsets_length offset c] at positive
  unfold charOffsets at *
  cases found : lookup c with
  | none =>
      have size := c.utf8Size_pos
      rw [List.getElem?_map, List.getElem?_range size]
      rfl
  | some replacement =>
      rw [found, List.length_replicate] at positive
      exact List.getElem?_replicate_of_lt positive

theorem offsetsFrom_start (offset : Nat) (front back : Text) :
    (offsetsFrom offset (front ++ back))[byteLen (normalizeConfusables front)]? = some (offset + byteLen front) := by
  induction front generalizing offset with
  | nil =>
      cases back with
      | nil => rfl
      | cons c rest =>
          have positive := byteLen_pos (normalizeChar_ne_nil c)
          have within : 0 < (charOffsets offset c).length := by
            rw [charOffsets_length]
            exact positive
          rw [List.nil_append, offsetsFrom]
          exact (List.getElem?_append_left within).trans (charOffsets_first offset c)
  | cons c front ih =>
      rw [List.cons_append, offsetsFrom, normalizeConfusables_cons, byteLen_append, byteLen_cons,
        List.getElem?_append_right (by rw [charOffsets_length]; omega), charOffsets_length, Nat.add_sub_cancel_left,
        ih, Nat.add_assoc]

theorem offsetsFrom_inside (offset : Nat) (front : Text) {c : Char} (back : Text) {first second : Text}
    (split : normalizeChar c = first ++ second) (before : first ≠ []) (after : second ≠ []) :
    (offsetsFrom offset (front ++ c :: back))[byteLen (normalizeConfusables front) + byteLen first]? =
      some (offset + byteLen front) := by
  -- A byte inside an expansion maps to the start of its character too.
  have positive := byteLen_pos after
  induction front generalizing offset with
  | nil =>
      cases found : lookup c with
      | none =>
          -- A character of its own has no place inside it.
          have single : first ++ second = [c] := by rw [← split, normalizeChar, found]; rfl
          have two := congrArg List.length single
          have one := List.length_pos_iff.mpr before
          have other := List.length_pos_iff.mpr after
          rw [List.length_append, List.length_singleton] at two
          omega
      | some replacement =>
          have whole : byteLen replacement = byteLen first + byteLen second := by
            rw [← byteLen_append, ← split, normalizeChar, found]
            rfl
          have entries : charOffsets offset c = List.replicate (byteLen replacement) offset := by
            unfold charOffsets
            rw [found]
          rw [List.nil_append, offsetsFrom, entries, normalizeConfusables_nil, byteLen_nil, Nat.zero_add,
            List.getElem?_append_left (by rw [List.length_replicate]; omega),
            List.getElem?_replicate_of_lt (by omega)]
          rfl
  | cons d front ih =>
      rw [List.cons_append, offsetsFrom, normalizeConfusables_cons, byteLen_append, byteLen_cons,
        List.getElem?_append_right (by rw [charOffsets_length]; omega), charOffsets_length,
        Nat.add_assoc, Nat.add_sub_cancel_left, ih, Nat.add_assoc]

theorem normalized_split {text a b : Text} (whole : normalizeConfusables text = a ++ b) :
    (∃ front back, text = front ++ back ∧ normalizeConfusables front = a) ∨
      ∃ front c back first second, text = front ++ c :: back ∧ normalizeChar c = first ++ second ∧ first ≠ [] ∧
        second ≠ [] ∧ a = normalizeConfusables front ++ first := by
  -- A place between two characters of the normalized text is one of the text, or lies inside an expansion.
  induction text generalizing a with
  | nil =>
      obtain ⟨rfl, -⟩ := List.append_eq_nil_iff.mp whole.symm
      exact .inl ⟨[], [], rfl, rfl⟩
  | cons c rest ih =>
      rw [normalizeConfusables_cons] at whole
      rcases List.append_eq_append_iff.mp whole with ⟨middle, rfl, later⟩ | ⟨middle, split, -⟩
      · rcases ih later with ⟨front, back, rfl, same⟩ | ⟨front, d, back, first, second, rfl, expansion, before, after, same⟩
        · exact .inl ⟨c :: front, back, rfl, by rw [normalizeConfusables_cons, same]⟩
        · refine .inr ⟨c :: front, d, back, first, second, rfl, expansion, before, after, ?_⟩
          rw [normalizeConfusables_cons, same, List.append_assoc]
      · by_cases none' : a = []
        · exact .inl ⟨[], c :: rest, rfl, none'.symm⟩
        by_cases all : middle = []
        · refine .inl ⟨[c], rest, rfl, ?_⟩
          rw [normalizeConfusables_cons, normalizeConfusables_nil, List.append_nil, split, all, List.append_nil]
        · exact .inr ⟨[], c, rest, a, middle, rfl, split, none', all, rfl⟩

theorem depth_start (front back : Text) : depth (front ++ back) (byteLen (normalizeConfusables front)) = 0 := by
  induction front with
  | nil =>
      cases back with
      | nil => rfl
      | cons c rest =>
          have positive := byteLen_pos (normalizeChar_ne_nil c)
          rw [List.nil_append, normalizeConfusables_nil, byteLen_nil, depth, if_pos positive]
  | cons c front ih =>
      rw [List.cons_append, normalizeConfusables_cons, byteLen_append, depth, if_neg (by omega),
        Nat.add_sub_cancel_left, ih]

theorem start_before (front back : Text) {place : Nat} (before : byteLen (normalizeConfusables front) ≤ place) :
    byteLen (normalizeConfusables front) + depth (front ++ back) place ≤ place := by
  -- The last place before another that cuts no expansion.
  induction front generalizing place with
  | nil =>
      rw [normalizeConfusables_nil, byteLen_nil, Nat.zero_add, List.nil_append]
      induction back generalizing place with
      | nil => exact Nat.zero_le _
      | cons c rest ih =>
          rw [depth]
          split
          · exact Nat.le_refl _
          · have inner := @ih (place - byteLen (normalizeChar c)) (Nat.zero_le _)
            omega
  | cons c front ih =>
      rw [normalizeConfusables_cons, byteLen_append] at before ⊢
      rw [List.cons_append, depth, if_neg (by omega)]
      have inner := @ih (place - byteLen (normalizeChar c)) (by omega)
      omega

theorem depth_inside (front : Text) {c : Char} (back : Text) {first second : Text}
    (split : normalizeChar c = first ++ second) (after : second ≠ []) :
    depth (front ++ c :: back) (byteLen (normalizeConfusables front) + byteLen first) = byteLen first := by
  have positive := byteLen_pos after
  induction front with
  | nil =>
      rw [List.nil_append, normalizeConfusables_nil, byteLen_nil, Nat.zero_add, depth, split, byteLen_append,
        if_pos (by omega)]
  | cons d front ih =>
      rw [List.cons_append, normalizeConfusables_cons, byteLen_append, depth, if_neg (by omega), Nat.add_assoc,
        Nat.add_sub_cancel_left, ih]

theorem offset_of_split {text a b : Text} (whole : normalizeConfusables text = a ++ b) :
    ∃ front back, text = front ++ back ∧ (buildOffsetMap text).2[byteLen a]? = some (byteLen front) ∧
      byteLen (normalizeConfusables front) + depth text (byteLen a) = byteLen a := by
  -- Every place of the normalized text maps to one between two characters.
  rcases normalized_split whole with ⟨front, back, rfl, rfl⟩ | ⟨front, c, back, first, second, rfl, split, before, after, rfl⟩
  · refine ⟨front, back, rfl, ?_, by rw [depth_start, Nat.add_zero]⟩
    have there := offsetsFrom_start 0 front back
    rwa [Nat.zero_add] at there
  · refine ⟨front, c :: back, rfl, ?_, ?_⟩
    · have there := offsetsFrom_inside 0 front back split before after
      rwa [Nat.zero_add, ← byteLen_append] at there
    · rw [byteLen_append, depth_inside front back split after]

end Offsets

section Candidates

variable {text pattern : Text}

/-- The offset map has both ends of every candidate, and the slice that the round trip reads is there. -/
theorem candidate_never_panics (text pattern : Text) {index : Nat} (member : index ∈ candidates text pattern) :
    let offsetMap := (buildOffsetMap text).2
    ∃ origStart origEnd, offsetMap[index]? = some origStart ∧
      offsetMap[index + byteLen (normalizeConfusables pattern)]? = some origEnd ∧
        (origEnd ≤ origStart ∨ (slice text origStart origEnd).isSome) := by
  intro offsetMap
  obtain ⟨a, b, whole, rfl⟩ := matchIndices_sound member
  obtain ⟨front, back, cut, first, -⟩ := offset_of_split (whole.trans (List.append_assoc _ _ _))
  obtain ⟨front', back', cut', last, -⟩ := offset_of_split whole
  rw [byteLen_append] at last
  refine ⟨byteLen front, byteLen front', first, last, ?_⟩
  rcases Nat.lt_or_ge (byteLen front) (byteLen front') with forward | backward
  · right
    obtain ⟨middle, rfl, -⟩ := cuts_nested (cut.symm.trans cut') forward.le
    rw [cut', byteLen_append, slice_middle]
    rfl
  · exact Or.inl backward

theorem candidate_never_panics_at_dash :
    let offsetMap := (buildOffsetMap ['a', '—', 'b']).2
    ∃ origStart origEnd, offsetMap[1]? = some origStart ∧
      offsetMap[1 + byteLen (normalizeConfusables ['-', '-'])]? = some origEnd ∧
        (origEnd ≤ origStart ∨ (slice ['a', '—', 'b'] origStart origEnd).isSome) :=
  candidate_never_panics ['a', '—', 'b'] ['-', '-'] (by decide)

variable {span : Span}

theorem remap_aligned {index : Nat} (found : remap text (normalizeConfusables pattern) index = some span) :
    Aligned text pattern span := by
  unfold remap at found
  dsimp only at found
  split at found
  · simp at found
  next forward =>
    split at found
    · simp at found
    next same =>
      obtain rfl := Option.some.inj found
      obtain ⟨part, cut, normal⟩ := Option.map_eq_some_iff.mp (not_not.mp same)
      obtain ⟨front, back, whole, start, stop⟩ := slice_eq_some.mp cut
      refine ⟨_, front, part, back, whole, start, ?_, ?_, normal, rfl⟩
      · dsimp only
        omega
      · rintro rfl
        rw [byteLen_nil] at stop
        omega

theorem remap_of_alignedAt {index : Nat} (aligned : AlignedAt text pattern index span) :
    remap text (normalizeConfusables pattern) index = some span := by
  -- A candidate at which an aligned span begins is that span.
  obtain ⟨front, part, back, rfl, start, length, some', same, rfl⟩ := aligned
  have first := offsetsFrom_start 0 front (part ++ back)
  have last := offsetsFrom_start 0 (front ++ part) back
  rw [Nat.zero_add, ← List.append_assoc] at first
  rw [Nat.zero_add, normalizeConfusables_append, byteLen_append, byteLen_append, same] at last
  have positive := byteLen_pos some'
  unfold remap buildOffsetMap
  dsimp only
  rw [first, last, Option.getD_some, Option.getD_some, if_neg (by omega), slice_middle, Option.map_some, same,
    if_neg (by simp), Nat.add_sub_cancel_left, start, length]

theorem normalized_length_mono {a b c d : Text} (same : a ++ b = c ++ d) (shorter : byteLen a ≤ byteLen c) :
    byteLen (normalizeConfusables a) ≤ byteLen (normalizeConfusables c) := by
  obtain ⟨middle, rfl, -⟩ := cuts_nested same shorter
  rw [normalizeConfusables_append, byteLen_append]
  exact Nat.le_add_right _ _

theorem length_of_normalized {a b c d : Text} (same : a ++ b = c ++ d)
    (shorter : byteLen (normalizeConfusables a) ≤ byteLen (normalizeConfusables c)) : byteLen a ≤ byteLen c := by
  by_contra longer
  obtain ⟨middle, rfl, -⟩ := cuts_nested same.symm (by omega)
  have some' : middle ≠ [] := by
    rintro rfl
    simp at longer
  have positive := byteLen_pos (mt normalizeConfusables_eq_nil.mp some')
  rw [normalizeConfusables_append, byteLen_append] at shorter
  omega

theorem aligned_stands {place : Nat} (aligned : AlignedAt text pattern place span) :
    StandsAt text pattern place := by
  obtain ⟨front, part, back, rfl, -, -, -, same, rfl⟩ := aligned
  refine ⟨⟨normalizeConfusables front, normalizeConfusables back, by simp [same], rfl⟩, ?_, ?_⟩
  · rw [List.append_assoc, depth_start]
  · have last := depth_start (front ++ part) back
    rwa [normalizeConfusables_append, byteLen_append, same] at last

theorem named_of_aligned {place : Nat} (aligned : AlignedAt text pattern place span) : pattern ≠ [] := by
  obtain ⟨-, part, -, -, -, -, some', same, -⟩ := aligned
  rintro rfl
  exact some' (normalizeConfusables_eq_nil.mp same)

theorem stands_aligned {place : Nat} (named : pattern ≠ []) (stands : StandsAt text pattern place) :
    ∃ span, AlignedAt text pattern place span := by
  obtain ⟨⟨a, b, whole, rfl⟩, first, last⟩ := stands
  obtain ⟨front, rest, rfl, -, start⟩ := offset_of_split (whole.trans (List.append_assoc _ _ _))
  obtain ⟨front', back, cut, -, stop⟩ := offset_of_split whole
  rw [first, Nat.add_zero] at start
  rw [byteLen_append, last, Nat.add_zero] at stop
  obtain ⟨part, rfl, rfl⟩ := cuts_nested cut (length_of_normalized cut (by omega))
  simp only [normalizeConfusables_append, List.append_assoc] at whole
  obtain ⟨rfl, behind⟩ := cuts_same whole start
  rw [normalizeConfusables_append, byteLen_append] at stop
  obtain ⟨same, -⟩ := cuts_same behind (by omega)
  refine ⟨{ start := byteLen front, len := byteLen part }, front, part, back, by simp, rfl, rfl, ?_, same, rfl⟩
  rintro rfl
  exact named (normalizeConfusables_eq_nil.mp same.symm)

theorem alignedAt_overlaps {index other : Nat} {a b : Span} (first : AlignedAt text pattern index a)
    (second : AlignedAt text pattern other b) : Overlaps a b ↔ Meets pattern index other := by
  obtain ⟨front, part, back, whole, start, length, -, same, rfl⟩ := first
  obtain ⟨front', part', back', whole', start', length', -, same', rfl⟩ := second
  have cut : front ++ (part ++ back) = (front' ++ part') ++ back' := by rw [← List.append_assoc, ← whole, whole']
  have cut' : front' ++ (part' ++ back') = (front ++ part) ++ back := by rw [← List.append_assoc, ← whole', whole]
  have low : byteLen (front' ++ part') ≤ byteLen front ↔
      byteLen (normalizeConfusables (front' ++ part')) ≤ byteLen (normalizeConfusables front) :=
    ⟨normalized_length_mono cut.symm, length_of_normalized cut.symm⟩
  have high : byteLen (front ++ part) ≤ byteLen front' ↔
      byteLen (normalizeConfusables (front ++ part)) ≤ byteLen (normalizeConfusables front') :=
    ⟨normalized_length_mono cut'.symm, length_of_normalized cut'.symm⟩
  simp only [normalizeConfusables_append, byteLen_append, same, same'] at low high
  unfold Overlaps Span.stop Meets
  omega

theorem candidate_meets {other : Nat} (aligned : AlignedAt text pattern other span) :
    ∃ index ∈ candidates text pattern, Meets pattern index other := by
  -- The scan meets every aligned span in the normalized text.
  obtain ⟨front, part, back, rfl, -, -, some', same, rfl⟩ := aligned
  have pattern' : normalizeConfusables pattern ≠ [] := by
    rw [← same]
    exact mt normalizeConfusables_eq_nil.mp some'
  have met := matchIndices_maximal pattern' (normalizeConfusables front) (normalizeConfusables back)
  have whole : (buildOffsetMap (front ++ part ++ back)).1 =
      normalizeConfusables front ++ normalizeConfusables pattern ++ normalizeConfusables back := by
    unfold buildOffsetMap
    rw [normalizeConfusables_append, normalizeConfusables_append, same]
  unfold candidates
  rw [whole]
  exact met

structure Placed (text pattern : Text) (index : Nat) (front front' : Text) : Prop where
  start : (buildOffsetMap text).2[index]? = some (byteLen front)
  stop : (buildOffsetMap text).2[index + byteLen (normalizeConfusables pattern)]? = some (byteLen front')
  first : byteLen (normalizeConfusables front) + depth text index = index
  last : byteLen (normalizeConfusables front') + depth text (index + byteLen (normalizeConfusables pattern)) =
    index + byteLen (normalizeConfusables pattern)

theorem candidate_placed {index : Nat} (member : index ∈ candidates text pattern) :
    ∃ front back front' back', text = front ++ back ∧ text = front' ++ back' ∧
      Placed text pattern index front front' := by
  obtain ⟨a, b, whole, rfl⟩ := matchIndices_sound member
  obtain ⟨front, back, cut, start, first⟩ := offset_of_split (whole.trans (List.append_assoc _ _ _))
  obtain ⟨front', back', cut', stop, last⟩ := offset_of_split whole
  rw [byteLen_append] at stop last
  exact ⟨front, back, front', back', cut, cut', start, stop, first, last⟩

theorem remap_iff {index : Nat} (member : index ∈ candidates text pattern) :
    remap text (normalizeConfusables pattern) index = some span ↔
      ∃ other, TakenFor text pattern index other ∧ AlignedAt text pattern other span := by
  obtain ⟨front, back, front', back', cut, cut', placed⟩ := candidate_placed member
  constructor
  · intro passed
    have shape := passed
    unfold remap at shape
    simp only [placed.start, placed.stop, Option.getD_some] at shape
    split at shape
    · simp at shape
    split at shape
    · simp at shape
    next forward same =>
      obtain rfl := Option.some.inj shape
      obtain ⟨middle, rfl, rfl⟩ := cuts_nested (cut.symm.trans cut') (by omega)
      subst cut
      rw [byteLen_append, ← List.append_assoc, slice_middle, not_not, Option.map_some, Option.some.injEq] at same
      have last := placed.last
      rw [normalizeConfusables_append, byteLen_append, same] at last
      have first := placed.first
      have some' : middle ≠ [] := by
        rintro rfl
        simp at forward
      have aligned : AlignedAt (front ++ (middle ++ back')) pattern (byteLen (normalizeConfusables front))
          { start := byteLen front
            len := byteLen (front ++ middle) - byteLen front } :=
        ⟨front, middle, back', by simp, rfl, by simp, some', same, rfl⟩
      exact ⟨_, ⟨by omega, first, aligned_stands aligned⟩, aligned⟩
  · rintro ⟨other, ⟨even, before, stands⟩, aligned⟩
    have there := remap_of_alignedAt aligned
    have first : byteLen (normalizeConfusables front) = other := by
      have first := placed.first
      omega
    have last : byteLen (normalizeConfusables front') = other + byteLen (normalizeConfusables pattern) := by
      have last := placed.last
      omega
    -- Both ends map to where those of the other occurrence do.
    have start := offsetsFrom_start 0 front back
    have stop := offsetsFrom_start 0 front' back'
    rw [Nat.zero_add, ← cut, first] at start
    rw [Nat.zero_add, ← cut', last] at stop
    rw [← there]
    unfold remap
    simp only [placed.start, placed.stop]
    simp only [buildOffsetMap, start, stop]

theorem mem_validated : span ∈ validated text pattern ↔
      ∃ index ∈ candidates text pattern, remap text (normalizeConfusables pattern) index = some span :=
  List.mem_filterMap

theorem aligned_long (aligned : Aligned text pattern span) : span.start < span.stop := by
  obtain ⟨index, front, part, back, -, -, length, some', -⟩ := aligned
  have positive := byteLen_pos some'
  unfold Span.stop
  omega

theorem validated_apart :
    (validated text pattern).Pairwise fun a b => a.start < b.start ∧ a.stop ≤ b.start := by
  have scan : (candidates text pattern).Pairwise fun i j => i + byteLen (normalizeConfusables pattern) ≤ j :=
    matchIndices_apart _ _
  refine List.pairwise_filterMap.mpr (scan.imp_of_mem ?_)
  intro i j first second behind a one b two
  obtain ⟨place, taken, aligned⟩ := (remap_iff first).mp one
  obtain ⟨place', taken', aligned'⟩ := (remap_iff second).mp two
  have long := aligned_long ⟨place, aligned⟩
  obtain ⟨front, part, back, whole, start, length, -, same, rfl⟩ := aligned
  obtain ⟨front', part', back', whole', start', -, -, -, rfl⟩ := aligned'
  have before := @start_before (front ++ part) back j (by
    have taken := taken.before
    rw [normalizeConfusables_append, byteLen_append, same]
    omega)
  have taken' := taken'.before
  rw [← whole, normalizeConfusables_append, byteLen_append, same] at before
  have cut : (front ++ part) ++ back = front' ++ (part' ++ back') := by
    rw [← whole, whole', List.append_assoc]
  have apart := length_of_normalized cut (by
    rw [normalizeConfusables_append, byteLen_append, same]
    omega)
  rw [byteLen_append] at apart
  unfold Span.stop at long ⊢
  omega

theorem overlapping_of_apart {spans : List Span} (apart : spans.Pairwise fun a b => a.stop ≤ b.start) :
    overlapping spans = false := by
  induction spans with
  | nil => rfl
  | cons first rest ih =>
      cases rest with
      | nil => rfl
      | cons second rest =>
          have next := (List.pairwise_cons.mp apart).1 second List.mem_cons_self
          rw [overlapping, ih (List.pairwise_cons.mp apart).2, Bool.or_false]
          simpa using next

end Candidates

section Main

variable (text pattern : Text)

theorem find_matches {found : List Span} (result : findNormalizedMatchPositions text pattern = .matches' found) :
    found = validated text pattern ∧ validated text pattern ≠ [] := by
  unfold findNormalizedMatchPositions at result
  split at result
  · simp at result
  split at result
  · split at result
    · simp at result
    · simp at result
  next some' =>
    split at result
    · simp at result
    · have same : validated text pattern = found := by simpa using result
      exact ⟨same.symm, some'⟩

theorem find_of_validated (named : pattern ≠ []) (some' : validated text pattern ≠ []) :
    findNormalizedMatchPositions text pattern = .matches' (validated text pattern) := by
  have apart := overlapping_of_apart ((@validated_apart text pattern).imp And.right)
  unfold findNormalizedMatchPositions
  rw [if_neg (mt normalizeConfusables_eq_nil.mp named), if_neg some', if_neg (by rw [apart]; exact Bool.false_ne_true)]

theorem find_noMatch (result : findNormalizedMatchPositions text pattern = .noMatch) :
    ∀ span, ¬ Aligned text pattern span := by
  rintro span ⟨other, aligned⟩
  obtain ⟨index, member, -⟩ := candidate_meets aligned
  obtain ⟨-, part, -, -, -, -, some', same, -⟩ := aligned
  unfold findNormalizedMatchPositions at result
  split at result
  next none' => exact some' (normalizeConfusables_eq_nil.mp (same.trans none'))
  split at result
  next rejected =>
    split at result
    · simp at result
    next kept =>
      have passed : (remap text (normalizeConfusables pattern) index).isSome := by
        by_contra missing
        apply kept
        exact List.any_eq_true.mpr ⟨index, member, by simpa using missing⟩
      obtain ⟨one, found⟩ := Option.isSome_iff_exists.mp passed
      have listed := mem_validated.mpr ⟨index, member, found⟩
      rw [rejected] at listed
      simp at listed
  · split at result
    · simp at result
    · simp at result

theorem found_replaced {found : List Span} (result : findNormalizedMatchPositions text pattern = .matches' found)
    (newString : Text) :
    ∃ parts tail, Woven text newString found (replaceNormalizedMatches text found newString) parts tail := by
  -- What is found can be replaced, whether or not all is found.
  obtain ⟨rfl, -⟩ := find_matches text pattern result
  have aligned : ∀ span ∈ validated text pattern, Aligned text pattern span := by
    intro span member
    obtain ⟨index, -, passed⟩ := mem_validated.mp member
    exact remap_aligned passed
  have read : ∀ span ∈ validated text pattern, ∃ part, Reads text span part := by
    intro span member
    obtain ⟨-, front, part, back, whole, start, length, -⟩ := aligned span member
    exact ⟨part, front, back, whole, start, length⟩
  obtain ⟨texts, reads⟩ := texts_read read
  obtain ⟨parts, tail, woven, -⟩ := replaceSpans_woven text newString reads (validated_apart.imp And.right)
  exact ⟨parts, tail, woven⟩

theorem search_finds_all_iff :
    FindsAll text pattern (findNormalizedMatchPositions text pattern) ↔ ¬ Hides text pattern := by
  constructor
  · rintro finds ⟨named, ⟨index, member, other, taken⟩, there, stands, -, missed⟩
    obtain ⟨one, aligned⟩ := stands_aligned named taken.stands
    have some' : validated text pattern ≠ [] :=
      List.ne_nil_of_mem (mem_validated.mpr ⟨index, member, (remap_iff member).mpr ⟨other, taken, aligned⟩⟩)
    obtain ⟨span, hidden⟩ := stands_aligned named stands
    obtain ⟨match', listed, overlap⟩ :=
      finds.every _ (find_of_validated text pattern named some') span ⟨there, hidden⟩
    obtain ⟨index, member, passed⟩ := mem_validated.mp listed
    obtain ⟨other, taken, aligned⟩ := (remap_iff member).mp passed
    exact missed index member other taken ((alignedAt_overlaps aligned hidden).mp overlap)
  · intro shown
    refine ⟨?_, ?_, ?_, find_noMatch text pattern, fun found result => found_replaced text pattern result⟩
    · intro found result span member
      obtain ⟨rfl, -⟩ := find_matches text pattern result
      obtain ⟨index, -, passed⟩ := mem_validated.mp member
      exact remap_aligned passed
    · intro found result
      obtain ⟨rfl, -⟩ := find_matches text pattern result
      exact validated_apart
    · rintro found result span ⟨there, hidden⟩
      obtain ⟨rfl, some'⟩ := find_matches text pattern result
      by_contra missed
      have apart : ∀ place ∈ candidates text pattern, ∀ other, TakenFor text pattern place other →
          ¬ Meets pattern other there := by
        intro place member other taken meets
        have named := named_of_aligned hidden
        obtain ⟨one, aligned⟩ := stands_aligned named taken.stands
        exact missed ⟨one, mem_validated.mpr ⟨place, member, (remap_iff member).mpr ⟨other, taken, aligned⟩⟩,
          (alignedAt_overlaps aligned hidden).mpr meets⟩
      -- The occurrence that the scan takes there cuts an expansion, or it would be found itself.
      obtain ⟨cut, member, meets⟩ := candidate_meets hidden
      have broken : ¬ StandsAt text pattern cut := fun stands =>
        apart cut member cut ⟨stands.first.trans stands.last.symm, by rw [stands.first, Nat.add_zero], stands⟩ meets
      obtain ⟨one, rest, shape⟩ := List.exists_cons_of_ne_nil some'
      obtain ⟨index, listed, passed⟩ :=
        mem_validated.mp (shape ▸ List.mem_cons_self : one ∈ validated text pattern)
      obtain ⟨other, taken, -⟩ := (remap_iff listed).mp passed
      exact shown
        { named := named_of_aligned hidden
          read := ⟨index, listed, other, taken⟩
          hidden := ⟨there, aligned_stands hidden, ⟨cut, member, broken, meets⟩, apart⟩ }

/-- A hyphen and a dash, and further on two hyphens: only the hyphens are found. -/
theorem dash_behind_hyphen_missed :
    ¬ ∀ text pattern : Text, normalizeConfusables pattern ≠ [] →
        FindsAll text pattern (findNormalizedMatchPositions text pattern) := by
  intro claim
  have finds := claim ['-', '\u2014', ' ', '-', '-'] ['-', '-'] (by decide)
  have dash : Aligned ['-', '\u2014', ' ', '-', '-'] ['-', '-']
      { start := 1
        len := 3 } :=
    ⟨1, ['-'], ['\u2014'], [' ', '-', '-'], rfl, rfl, rfl, by decide, by decide, by decide⟩
  obtain ⟨one, listed, overlap⟩ := finds.every
    [{ start := 5
       len := 2 }] (by decide +kernel) _ dash
  obtain rfl := List.mem_singleton.mp listed
  exact absurd overlap (by unfold Overlaps Span.stop; decide)

end Main

end GrokPi.SearchReplace
