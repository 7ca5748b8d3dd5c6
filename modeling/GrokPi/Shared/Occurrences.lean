import GrokPi.Shared.ByteText

set_option autoImplicit false

namespace Text

def matchIndicesFrom (pattern : Text) : Nat → Nat → Text → List Nat
  | _, _, [] => []
  | skip, offset, c :: rest =>
      if skip = 0 ∧ pattern.isPrefixOf (c :: rest) then
        offset :: matchIndicesFrom pattern (pattern.length - 1) (offset + c.utf8Size) rest
      else matchIndicesFrom pattern (skip - 1) (offset + c.utf8Size) rest

def matchIndices (pattern text : Text) : List Nat := matchIndicesFrom pattern 0 0 text

theorem byteLen_pos {text : Text} (some' : text ≠ []) : 0 < byteLen text :=
  Nat.pos_of_ne_zero fun zero => some' (byteLen_eq_zero.mp zero)

theorem byteLen_lt_of_length {a b c d : Text} (same : a ++ b = c ++ d) (shorter : a.length < c.length) :
    byteLen a < byteLen c := by
  -- Of two beginnings of one text the shorter one begins the other.
  rcases List.append_eq_append_iff.mp same with ⟨middle, rfl, -⟩ | ⟨middle, rfl, -⟩
  · have some' : middle ≠ [] := by
      rintro rfl
      simp at shorter
    have positive := byteLen_pos some'
    rw [byteLen_append]
    omega
  · rw [List.length_append] at shorter
    omega

theorem matchIndicesFrom_sound {pattern text : Text} {skip offset index : Nat}
    (member : index ∈ matchIndicesFrom pattern skip offset text) :
    ∃ front back, text = front ++ pattern ++ back ∧ index = offset + byteLen front := by
  induction text generalizing skip offset with
  | nil => simp [matchIndicesFrom] at member
  | cons c rest ih =>
      have later : ∀ {skip : Nat}, index ∈ matchIndicesFrom pattern skip (offset + c.utf8Size) rest →
          ∃ front back, c :: rest = front ++ pattern ++ back ∧ index = offset + byteLen front := by
        intro skip there
        obtain ⟨front, back, rfl, rfl⟩ := ih there
        exact ⟨c :: front, back, rfl, by rw [byteLen_cons, Nat.add_assoc]⟩
      unfold matchIndicesFrom at member
      split at member
      next found =>
        rcases List.mem_cons.mp member with rfl | there
        · obtain ⟨back, whole⟩ := List.isPrefixOf_iff_prefix.mp found.2
          exact ⟨[], back, by rw [List.nil_append, whole], rfl⟩
        · exact later there
      · exact later member

theorem matchIndicesFrom_maximal {pattern : Text} (some' : pattern ≠ []) (front back : Text) (skip offset : Nat) :
    front.length < skip ∨
      ∃ index ∈ matchIndicesFrom pattern skip offset (front ++ pattern ++ back),
        index < offset + byteLen front + byteLen pattern ∧ offset + byteLen front < index + byteLen pattern := by
  have positive := byteLen_pos some'
  induction front generalizing skip offset with
  | nil =>
      by_cases free : skip = 0
      · obtain ⟨c, rest, shape⟩ := List.exists_cons_of_ne_nil some'
        have found : pattern.isPrefixOf (c :: (rest ++ back)) = true :=
          List.isPrefixOf_iff_prefix.mpr ⟨back, by rw [shape]; rfl⟩
        refine .inr ⟨offset, ?_, by rw [byteLen_nil]; omega, by rw [byteLen_nil]; omega⟩
        have whole : [] ++ pattern ++ back = c :: (rest ++ back) := by rw [shape]; rfl
        rw [whole]
        unfold matchIndicesFrom
        rw [if_pos ⟨free, found⟩]
        exact List.mem_cons_self
      · exact .inl (Nat.pos_of_ne_zero free)
  | cons c front ih =>
      rw [List.cons_append, List.cons_append]
      unfold matchIndicesFrom
      split
      next found =>
        by_cases within : front.length < pattern.length - 1
        · -- The occurrence that begins here covers the first character of the other.
          obtain ⟨rest, whole⟩ := List.isPrefixOf_iff_prefix.mp found.2
          have covered : byteLen (c :: front) < byteLen pattern := by
            have same : (c :: front) ++ (pattern ++ back) = pattern ++ rest := by
              rw [whole]
              simp
            exact byteLen_lt_of_length same (by rw [List.length_cons]; omega)
          exact .inr ⟨offset, List.mem_cons_self, by omega, by omega⟩
        · rcases ih (pattern.length - 1) (offset + c.utf8Size) with inside | ⟨index, member, first, second⟩
          · exact absurd inside within
          · refine .inr ⟨index, List.mem_cons_of_mem _ member, ?_, ?_⟩
            · rw [byteLen_cons]
              omega
            · rw [byteLen_cons]
              omega
      · rcases ih (skip - 1) (offset + c.utf8Size) with inside | ⟨index, member, first, second⟩
        · left
          rw [List.length_cons]
          omega
        · refine .inr ⟨index, member, ?_, ?_⟩
          · rw [byteLen_cons]
            omega
          · rw [byteLen_cons]
            omega

theorem matchIndices_sound {pattern text : Text} {index : Nat} (member : index ∈ matchIndices pattern text) :
    ∃ front back, text = front ++ pattern ++ back ∧ byteLen front = index := by
  obtain ⟨front, back, whole, same⟩ := matchIndicesFrom_sound member
  exact ⟨front, back, whole, by rw [same, Nat.zero_add]⟩

theorem matchIndices_maximal {pattern : Text} (some' : pattern ≠ []) (front back : Text) :
    ∃ index ∈ matchIndices pattern (front ++ pattern ++ back),
      index < byteLen front + byteLen pattern ∧ byteLen front < index + byteLen pattern := by
  have found := (matchIndicesFrom_maximal some' front back 0 0).resolve_left (Nat.not_lt_zero _)
  rwa [Nat.zero_add] at found

theorem matchIndicesFrom_late {pattern text : Text} {skip offset index : Nat}
    (member : index ∈ matchIndicesFrom pattern skip offset text) : offset + byteLen (text.take skip) ≤ index := by
  induction text generalizing skip offset with
  | nil => simp [matchIndicesFrom] at member
  | cons c rest ih =>
      unfold matchIndicesFrom at member
      split at member
      next found =>
        rw [found.1, List.take_zero, byteLen_nil]
        rcases List.mem_cons.mp member with rfl | there
        · exact Nat.le_refl _
        · have late := ih there
          omega
      · have late := ih member
        cases skip with
        | zero =>
            rw [List.take_zero, byteLen_nil]
            omega
        | succ skip =>
            rw [Nat.add_sub_cancel] at late
            rw [List.take_succ_cons, byteLen_cons]
            omega

theorem matchIndicesFrom_apart (pattern text : Text) (skip offset : Nat) :
    (matchIndicesFrom pattern skip offset text).Pairwise fun a b => a + byteLen pattern ≤ b := by
  induction text generalizing skip offset with
  | nil => exact List.Pairwise.nil
  | cons c rest ih =>
      unfold matchIndicesFrom
      split
      next found =>
        refine List.pairwise_cons.mpr ⟨?_, ih _ _⟩
        intro index member
        have late := matchIndicesFrom_late member
        cases pattern with
        | nil =>
            rw [byteLen_nil]
            omega
        | cons d pattern =>
            obtain ⟨back, whole⟩ := List.isPrefixOf_iff_prefix.mp found.2
            obtain ⟨rfl, rfl⟩ := List.cons.inj whole
            rw [List.length_cons, Nat.add_sub_cancel, List.append_eq, List.take_left] at late
            rw [byteLen_cons]
            omega
      · exact ih _ _

theorem matchIndices_apart (pattern text : Text) :
    (matchIndices pattern text).Pairwise fun a b => a + byteLen pattern ≤ b :=
  matchIndicesFrom_apart pattern text 0 0

section Weaving

def weave (put : Text → Text) : List (Text × Text) → Text → Text
  | [], tail => tail
  | (gap, span) :: rest, tail => gap ++ put span ++ weave put rest tail

def startsOf (put : Text → Text) : Nat → List (Text × Text) → List Nat
  | _, [] => []
  | offset, (gap, span) :: rest =>
      (offset + byteLen gap) :: startsOf put (offset + byteLen gap + byteLen (put span)) rest

end Weaving

end Text
