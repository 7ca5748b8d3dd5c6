import GrokPi.Shared.ByteText

set_option autoImplicit false

namespace GrokPi.Editor

open Text

section Clusters

def startsFrom : Nat → List Text → List Nat
  | _, [] => []
  | at', cluster :: rest => at' :: startsFrom (at' + byteLen cluster) rest

def BoundaryOf (clusters : List Text) (position : Nat) : Prop :=
  position = byteLen clusters.flatten ∨ position ∈ startsFrom 0 clusters

instance (clusters : List Text) (position : Nat) : Decidable (BoundaryOf clusters position) :=
  inferInstanceAs (Decidable (_ ∨ _))

theorem mem_startsFrom {clusters : List Text} {first position : Nat} :
    position ∈ startsFrom first clusters ↔
      ∃ front cluster back, clusters = front ++ cluster :: back ∧ position = first + byteLen front.flatten := by
  induction clusters generalizing first with
  | nil => simp [startsFrom]
  | cons cluster rest ih =>
      rw [startsFrom, List.mem_cons, ih]
      constructor
      · rintro (rfl | ⟨front, next, back, rfl, rfl⟩)
        · exact ⟨[], cluster, rest, rfl, rfl⟩
        · refine ⟨cluster :: front, next, back, rfl, ?_⟩
          rw [List.flatten_cons, byteLen_append]
          omega
      · rintro ⟨front, next, back, shape, rfl⟩
        cases front with
        | nil => exact .inl rfl
        | cons head front =>
            obtain ⟨rfl, rfl⟩ := List.cons.inj shape
            refine .inr ⟨front, next, back, rfl, ?_⟩
            rw [List.flatten_cons, byteLen_append]
            omega

theorem boundaryOf_iff {clusters : List Text} {position : Nat} :
    BoundaryOf clusters position ↔
      ∃ front back, clusters = front ++ back ∧ byteLen front.flatten = position := by
  unfold BoundaryOf
  rw [mem_startsFrom]
  constructor
  · rintro (rfl | ⟨front, cluster, back, rfl, rfl⟩)
    · exact ⟨clusters, [], by simp, rfl⟩
    · exact ⟨front, cluster :: back, rfl, by simp⟩
  · rintro ⟨front, back, rfl, rfl⟩
    cases back with
    | nil => exact .inl (by simp)
    | cons cluster back => exact .inr ⟨front, cluster, back, rfl, by simp⟩

end Clusters

/-- Extended grapheme clusters: one partition of each text, with the Unicode rules for line ends.
Which characters are alphanumeric is Unicode data too. -/
structure Segmentation where
  clusters : Text → List Text
  covers : ∀ text, (clusters text).flatten = text
  -- GB3: no break between a carriage return and a line feed.
  within_crlf : ∀ a b, ¬ BoundaryOf (clusters (a ++ '\r' :: '\n' :: b)) (byteLen a + 1)
  -- GB4: a break behind a line feed.
  after_lf : ∀ a b, BoundaryOf (clusters (a ++ '\n' :: b)) (byteLen a + 1)
  -- GB5: a break in front of a carriage return, and of a line feed on its own.
  before_cr : ∀ a b, BoundaryOf (clusters (a ++ '\r' :: b)) (byteLen a)
  before_lf : ∀ a b, a.getLast? ≠ some '\r' → BoundaryOf (clusters (a ++ '\n' :: b)) (byteLen a)
  isAlphanumeric : Char → Bool

variable (seg : Segmentation)

section Boundaries

def graphemeStarts (text : Text) : List Nat := startsFrom 0 (seg.clusters text)

def Boundary (text : Text) (position : Nat) : Prop := position = byteLen text ∨ position ∈ graphemeStarts seg text

instance (text : Text) (position : Nat) : Decidable (Boundary seg text position) :=
  inferInstanceAs (Decidable (_ ∨ _))

def floorGraphemeBoundary (text : Text) (byte : Nat) : Nat :=
  let byte := min byte (byteLen text)
  if byte = byteLen text then byte
  else ((graphemeStarts seg text).takeWhile (· ≤ byte)).getLast?.getD 0

def ceilGraphemeBoundary (text : Text) (byte : Nat) : Nat :=
  let byte := min byte (byteLen text)
  if byte = byteLen text then byte
  else ((graphemeStarts seg text).find? (byte ≤ ·)).getD (byteLen text)

-- Ties go left.
def normalizeExternalCursor (text : Text) (byte : Nat) : Nat :=
  let byte := min byte (byteLen text)
  let before := floorGraphemeBoundary seg text byte
  let after := ceilGraphemeBoundary seg text byte
  if byte - before ≤ after - byte then before else after

def previousGraphemeBoundary (text : Text) (byte : Nat) : Nat :=
  let byte := min byte (byteLen text)
  ((graphemeStarts seg text).filter (· < byte)).getLast?.getD 0

def nextGraphemeBoundary (text : Text) (byte : Nat) : Nat :=
  let byte := min byte (byteLen text)
  if byte = byteLen text then byte
  else ((graphemeStarts seg text).find? (byte < ·)).getD (byteLen text)

variable {text : Text} {position : Nat}

theorem boundary_iff : Boundary seg text position ↔ BoundaryOf (seg.clusters text) position := by
  unfold Boundary BoundaryOf graphemeStarts
  rw [seg.covers]

theorem boundary_cut :
    Boundary seg text position → ∃ a b, text = a ++ b ∧ byteLen a = position := by
  intro boundary
  obtain ⟨front, back, shape, length⟩ := boundaryOf_iff.mp ((boundary_iff seg).mp boundary)
  refine ⟨front.flatten, back.flatten, ?_, length⟩
  rw [← List.flatten_append, ← shape, seg.covers]

theorem boundary_le (boundary : Boundary seg text position) : position ≤ byteLen text := by
  obtain ⟨a, b, rfl, rfl⟩ := boundary_cut seg boundary
  rw [byteLen_append]
  exact Nat.le_add_right _ _

theorem boundary_isSome (boundary : Boundary seg text position) : (splitAtByte text position).isSome := by
  obtain ⟨a, b, rfl, rfl⟩ := boundary_cut seg boundary
  rw [splitAtByte_append]
  rfl

theorem boundary_end (text : Text) : Boundary seg text (byteLen text) := .inl rfl

theorem boundary_zero (text : Text) : Boundary seg text 0 :=
  (boundary_iff seg).mpr (boundaryOf_iff.mpr ⟨[], seg.clusters text, rfl, rfl⟩)

theorem start_boundary (member : position ∈ graphemeStarts seg text) : Boundary seg text position := .inr member

theorem floor_spec (text : Text) (byte : Nat) :
    Boundary seg text (floorGraphemeBoundary seg text byte) ∧
      floorGraphemeBoundary seg text byte ≤ min byte (byteLen text) := by
  unfold floorGraphemeBoundary
  dsimp only
  split
  next same =>
    rw [same]
    exact ⟨boundary_end seg text, le_refl _⟩
  · cases last : ((graphemeStarts seg text).takeWhile (· ≤ min byte (byteLen text))).getLast? with
    | none => exact ⟨boundary_zero seg text, Nat.zero_le _⟩
    | some start =>
        have member := List.mem_of_getLast? last
        have bound := List.mem_takeWhile_imp member
        exact ⟨start_boundary seg (List.takeWhile_subset _ member), of_decide_eq_true bound⟩

theorem ceil_spec (text : Text) (byte : Nat) :
    Boundary seg text (ceilGraphemeBoundary seg text byte) ∧
      min byte (byteLen text) ≤ ceilGraphemeBoundary seg text byte := by
  unfold ceilGraphemeBoundary
  dsimp only
  split
  next same =>
    rw [same]
    exact ⟨boundary_end seg text, le_refl _⟩
  · cases found : (graphemeStarts seg text).find? (min byte (byteLen text) ≤ ·) with
    | none => exact ⟨boundary_end seg text, Nat.min_le_right _ _⟩
    | some start =>
        have bound := List.find?_some found
        exact ⟨start_boundary seg (List.mem_of_find?_eq_some found), of_decide_eq_true bound⟩

theorem externalCursor_boundary (text : Text) (byte : Nat) :
    Boundary seg text (normalizeExternalCursor seg text byte) := by
  unfold normalizeExternalCursor
  dsimp only
  split
  · exact (floor_spec seg text _).1
  · exact (ceil_spec seg text _).1

theorem previous_spec (text : Text) (byte : Nat) :
    Boundary seg text (previousGraphemeBoundary seg text byte) ∧
      previousGraphemeBoundary seg text byte ≤ byte ∧
        (0 < byte → 0 < byteLen text → previousGraphemeBoundary seg text byte < byte) := by
  unfold previousGraphemeBoundary
  dsimp only
  cases last : ((graphemeStarts seg text).filter (· < min byte (byteLen text))).getLast? with
  | none => exact ⟨boundary_zero seg text, Nat.zero_le _, fun positive _ => positive⟩
  | some start =>
      obtain ⟨member, bound⟩ := List.mem_filter.mp (List.mem_of_getLast? last)
      have bound := of_decide_eq_true bound
      refine ⟨start_boundary seg member, ?_, fun _ _ => ?_⟩
      · change start ≤ byte
        omega
      · change start < byte
        omega

theorem next_spec (text : Text) (byte : Nat) :
    Boundary seg text (nextGraphemeBoundary seg text byte) ∧
      min byte (byteLen text) ≤ nextGraphemeBoundary seg text byte ∧
        (byte < byteLen text → byte < nextGraphemeBoundary seg text byte) := by
  unfold nextGraphemeBoundary
  dsimp only
  split
  next same =>
    rw [same]
    exact ⟨boundary_end seg text, le_refl _, fun inside => by omega⟩
  · cases found : (graphemeStarts seg text).find? (min byte (byteLen text) < ·) with
    | none =>
        refine ⟨boundary_end seg text, Nat.min_le_right _ _, fun inside => ?_⟩
        exact inside
    | some start =>
        have holds := List.find?_some found
        have bound : min byte (byteLen text) < start := of_decide_eq_true holds
        refine ⟨start_boundary seg (List.mem_of_find?_eq_some found), ?_, fun inside => ?_⟩
        · change min byte (byteLen text) ≤ start
          omega
        · change byte < start
          omega

theorem startsFrom_sorted (first : Nat) (clusters : List Text) : (startsFrom first clusters).Pairwise (· ≤ ·) := by
  induction clusters generalizing first with
  | nil => exact List.Pairwise.nil
  | cons cluster rest ih =>
      refine List.pairwise_cons.mpr ⟨?_, ih _⟩
      intro position member
      obtain ⟨front, _, _, -, rfl⟩ := mem_startsFrom.mp member
      omega

theorem mem_takeWhile_le {starts : List Nat} (sorted : starts.Pairwise (· ≤ ·)) {bound : Nat}
    (member : position ∈ starts) (below : position ≤ bound) : position ∈ starts.takeWhile (· ≤ bound) := by
  induction starts with
  | nil => cases member
  | cons start rest ih =>
      obtain ⟨first, later⟩ := List.pairwise_cons.mp sorted
      rcases List.mem_cons.mp member with rfl | member
      · rw [List.takeWhile_cons_of_pos (by simpa using below)]
        exact List.mem_cons_self
      · have start' := (first position member).trans below
        rw [List.takeWhile_cons_of_pos (by simpa using start')]
        exact List.mem_cons_of_mem _ (ih later member)

theorem le_floor (boundary : Boundary seg text position) {byte : Nat} (below : position ≤ byte) :
    position ≤ floorGraphemeBoundary seg text byte := by
  have within := boundary_le seg boundary
  unfold floorGraphemeBoundary
  dsimp only
  split
  · omega
  next inside =>
    have member : position ∈ graphemeStarts seg text := boundary.resolve_left (by omega)
    have sorted : (graphemeStarts seg text).Pairwise (· ≤ ·) := startsFrom_sorted 0 (seg.clusters text)
    have taken := mem_takeWhile_le sorted member (show position ≤ min byte (byteLen text) by omega)
    obtain ⟨front, last, shape⟩ := List.eq_nil_or_concat' _ |>.resolve_left (List.ne_nil_of_mem taken)
    have kept := sorted.sublist (List.takeWhile_sublist (fun start => decide (start ≤ min byte (byteLen text))))
    rw [shape] at taken kept ⊢
    rw [List.getLast?_concat, Option.getD_some]
    rcases List.mem_append.mp taken with early | final
    · exact (List.pairwise_append.mp kept).2.2 position early last List.mem_cons_self
    · exact (List.mem_singleton.mp final).le

theorem ceil_le (boundary : Boundary seg text position) {byte : Nat} (above : byte ≤ position) :
    ceilGraphemeBoundary seg text byte ≤ position := by
  have within := boundary_le seg boundary
  unfold ceilGraphemeBoundary
  dsimp only
  split
  · omega
  next inside =>
    cases found : (graphemeStarts seg text).find? (min byte (byteLen text) ≤ ·) with
    | none =>
        rcases boundary with rfl | member
        · exact le_refl _
        · have missed := List.find?_eq_none.mp found position member
          exact absurd (show min byte (byteLen text) ≤ position by omega) (by simpa using missed)
    | some start =>
        rcases boundary with rfl | member
        · exact boundary_le seg (start_boundary seg (List.mem_of_find?_eq_some found))
        · obtain ⟨-, front, back, shape, before⟩ := List.find?_eq_some_iff_append.mp found
          have sorted : (graphemeStarts seg text).Pairwise (· ≤ ·) := startsFrom_sorted 0 (seg.clusters text)
          rw [shape] at member sorted
          rcases List.mem_append.mp member with early | late
          · have missed := before position early
            simp only [Bool.not_eq_true', decide_eq_false_iff_not] at missed
            omega
          · rcases List.mem_cons.mp late with rfl | later
            · exact le_refl _
            · exact (List.pairwise_cons.mp (List.pairwise_append.mp sorted).2.1).1 position later

theorem floor_eq (boundary : Boundary seg text position) : floorGraphemeBoundary seg text position = position :=
  Nat.le_antisymm ((floor_spec seg text position).2.trans (Nat.min_le_left ..)) (le_floor seg boundary (le_refl _))

theorem ceil_eq (boundary : Boundary seg text position) : ceilGraphemeBoundary seg text position = position := by
  have above := (ceil_spec seg text position).2
  rw [Nat.min_eq_left (boundary_le seg boundary)] at above
  exact Nat.le_antisymm (ceil_le seg boundary (le_refl _)) above

theorem externalCursor_eq (boundary : Boundary seg text position) : normalizeExternalCursor seg text position = position := by
  unfold normalizeExternalCursor
  dsimp only
  rw [Nat.min_eq_left (boundary_le seg boundary), floor_eq seg boundary, ceil_eq seg boundary, ite_self]

end Boundaries

section CharacterClusters

def characterClusters : Text → List Text
  | [] => []
  | '\r' :: '\n' :: rest => ['\r', '\n'] :: characterClusters rest
  | c :: rest => [c] :: characterClusters rest

theorem characterClusters_covers (text : Text) : (characterClusters text).flatten = text := by
  induction text using characterClusters.induct with
  | case1 => rfl
  | case2 rest ih => rw [characterClusters, List.flatten_cons, ih]; rfl
  | case3 c rest plain ih =>
      rw [characterClusters, List.flatten_cons, ih]
      · rfl
      · exact plain

theorem characterClusters_append {a b : Text} (apart : a.getLast? = some '\r' → b.head? ≠ some '\n') :
    characterClusters (a ++ b) = characterClusters a ++ characterClusters b := by
  induction a using characterClusters.induct with
  | case1 => rfl
  | case2 rest ih =>
      have later : rest.getLast? = some '\r' → b.head? ≠ some '\n' := by
        intro last
        apply apart
        rw [List.getLast?_cons_cons, List.getLast?_cons, last]
        rfl
      rw [List.cons_append, List.cons_append, characterClusters, ih later, characterClusters, List.cons_append]
  | case3 c rest plain ih =>
      have later : rest.getLast? = some '\r' → b.head? ≠ some '\n' := by
        intro last
        apply apart
        rw [List.getLast?_cons, last]
        rfl
      have plain' : ∀ tail, c = '\r' → rest ++ b = '\n' :: tail → False := by
        intro tail isReturn shape
        cases rest with
        | nil => exact apart (by rw [isReturn]; rfl) (by rw [← List.nil_append b, shape]; rfl)
        | cons d rest =>
            obtain ⟨rfl, -⟩ := List.cons.inj shape
            exact plain rest isReturn rfl
      rw [List.cons_append, characterClusters, ih later, characterClusters, List.cons_append]
      · exact plain
      · exact plain'

theorem boundary_between {a b : Text} (apart : a.getLast? = some '\r' → b.head? ≠ some '\n') :
    BoundaryOf (characterClusters (a ++ b)) (byteLen a) := by
  rw [characterClusters_append apart]
  exact boundaryOf_iff.mpr ⟨_, _, rfl, by rw [characterClusters_covers]⟩

def characterSegmentation (isAlphanumeric : Char → Bool) : Segmentation :=
  { clusters := characterClusters
    covers := characterClusters_covers
    within_crlf := by
      intro a b boundary
      rw [characterClusters_append (by simp)] at boundary
      obtain ⟨front, back, shape, length⟩ := boundaryOf_iff.mp boundary
      have whole := congrArg byteLen (characterClusters_covers a)
      rcases List.append_eq_append_iff.mp shape with ⟨middle, longer, rest⟩ | ⟨middle, longer, rest⟩
      · cases middle with
        | nil =>
            rw [longer, List.append_nil] at length
            omega
        | cons cluster middle =>
            obtain ⟨rfl, -⟩ := List.cons.inj rest
            rw [longer, List.flatten_append, byteLen_append, List.flatten_cons, byteLen_append] at length
            have two : byteLen ['\r', '\n'] = 2 := rfl
            omega
      · rw [longer, List.flatten_append, byteLen_append] at whole
        omega
    after_lf := by
      intro a b
      have boundary := boundary_between (show (a ++ ['\n']).getLast? = some '\r' → b.head? ≠ some '\n' by simp)
      rw [List.append_assoc, byteLen_append] at boundary
      exact boundary
    before_cr := fun a b => boundary_between (by simp)
    before_lf := fun a b alone => boundary_between fun last => absurd last alone
    isAlphanumeric := isAlphanumeric }

end CharacterClusters

end GrokPi.Editor
