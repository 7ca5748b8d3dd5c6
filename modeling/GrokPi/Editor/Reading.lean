import GrokPi.Editor.Segmentation

set_option autoImplicit false

namespace GrokPi.Editor

open Text

section Appended

variable {x y : List Text} {position : Nat}

theorem boundaryOf_append :
    BoundaryOf (x ++ y) position ↔
      BoundaryOf x position ∨ ∃ later, position = byteLen x.flatten + later ∧ BoundaryOf y later := by
  rw [boundaryOf_iff, boundaryOf_iff]
  constructor
  · rintro ⟨front, back, shape, rfl⟩
    rcases List.append_eq_append_iff.mp shape with ⟨middle, longer, rest⟩ | ⟨middle, longer, rest⟩
    · refine .inr ⟨byteLen middle.flatten, ?_, boundaryOf_iff.mpr ⟨middle, back, rest, rfl⟩⟩
      rw [longer, List.flatten_append, byteLen_append]
    · exact .inl ⟨front, middle, longer, rfl⟩
  · rintro (⟨front, back, rfl, rfl⟩ | ⟨later, rfl, within⟩)
    · exact ⟨front, back ++ y, List.append_assoc .., rfl⟩
    · obtain ⟨front, back, rfl, rfl⟩ := boundaryOf_iff.mp within
      exact ⟨x ++ front, back, (List.append_assoc ..).symm, by rw [List.flatten_append, byteLen_append]⟩

theorem BoundaryOf.le (boundary : BoundaryOf x position) : position ≤ byteLen x.flatten := by
  obtain ⟨front, back, rfl, rfl⟩ := boundaryOf_iff.mp boundary
  rw [List.flatten_append, byteLen_append]
  exact Nat.le_add_right ..

theorem boundaryOf_cons {cluster : Text} :
    BoundaryOf (cluster :: x) position ↔
      position = 0 ∨ ∃ later, position = byteLen cluster + later ∧ BoundaryOf x later := by
  constructor
  · intro boundary
    obtain ⟨front, back, shape, rfl⟩ := boundaryOf_iff.mp boundary
    cases front with
    | nil => exact .inl rfl
    | cons first front =>
        obtain ⟨rfl, rest⟩ := List.cons.inj shape
        refine .inr ⟨byteLen front.flatten, ?_, boundaryOf_iff.mpr ⟨front, back, rest, rfl⟩⟩
        rw [List.flatten_cons, byteLen_append]
  · rintro (rfl | ⟨later, rfl, boundary⟩)
    · exact boundaryOf_iff.mpr ⟨[], _, rfl, rfl⟩
    · obtain ⟨front, back, rfl, rfl⟩ := boundaryOf_iff.mp boundary
      exact boundaryOf_iff.mpr ⟨cluster :: front, back, rfl, by rw [List.flatten_cons, byteLen_append]⟩

theorem boundaryOf_front (within : position ≤ byteLen x.flatten) : BoundaryOf (x ++ y) position ↔ BoundaryOf x position := by
  rw [boundaryOf_append]
  constructor
  · rintro (boundary | ⟨later, rfl, -⟩)
    · exact boundary
    · exact .inl (by omega)
  · exact .inl

theorem boundaryOf_behind (positive : 0 < position) :
    BoundaryOf (x ++ y) (byteLen x.flatten + position) ↔ BoundaryOf y position := by
  rw [boundaryOf_append]
  constructor
  · rintro (boundary | ⟨later, same, boundary⟩)
    · have bound := boundary.le
      omega
    · obtain rfl : position = later := by omega
      exact boundary
  · exact fun boundary => .inr ⟨position, rfl, boundary⟩

end Appended

/-- What the Unicode rules say about the context that decides on a break. -/
structure Segmentation.Local (seg : Segmentation) : Prop where
  nonempty : ∀ text, [] ∉ seg.clusters text
  -- No rule looks across a break.
  cut : ∀ a b, BoundaryOf (seg.clusters (a ++ b)) (byteLen a) →
    seg.clusters (a ++ b) = seg.clusters a ++ seg.clusters b
  -- A space joins what extends it (GB9, GB9a), and no rule joins what comes later because of it.
  space : ∀ text, text ≠ [] →
    seg.clusters (' ' :: text) = [' '] :: seg.clusters text ∨
      ∃ cluster rest, seg.clusters text = cluster :: rest ∧ seg.clusters (' ' :: text) = (' ' :: cluster) :: rest
  -- GB4, GB5: a break on both sides of a control character.
  tab : ∀ text, ∀ cluster ∈ seg.clusters text, '\t' ∈ cluster → cluster = ['\t']

variable (seg : Segmentation)

def Readable (text : Text) (position : Nat) : Prop :=
  ∃ a v, text = a ++ v ∧ byteLen a = position ∧
    ∀ later, 0 < later → (Boundary seg v later ↔ Boundary seg text (position + later))

variable {seg} (laws : seg.Local) {text : Text} {position stop : Nat}

theorem Readable.isSome (readable : Readable seg text position) : (splitAtByte text position).isSome := by
  obtain ⟨a, v, rfl, rfl, -⟩ := readable
  rw [splitAtByte_append]
  rfl

theorem Readable.le (readable : Readable seg text position) : position ≤ byteLen text := by
  obtain ⟨a, v, rfl, rfl, -⟩ := readable
  rw [byteLen_append]
  exact Nat.le_add_right ..

theorem Readable.tail (readable : Readable seg text position) (inside : position < byteLen text) :
    ∃ v, slice text position (byteLen text) = some v ∧ v ≠ [] := by
  obtain ⟨a, v, rfl, rfl, -⟩ := readable
  have whole := slice_middle a v []
  rw [List.append_nil, ← byteLen_append] at whole
  refine ⟨v, whole, ?_⟩
  rintro rfl
  simp at inside

include laws

theorem readable_of_boundary (boundary : Boundary seg text position) : Readable seg text position := by
  obtain ⟨a, v, rfl, rfl⟩ := boundary_cut seg boundary
  refine ⟨a, v, rfl, rfl, fun later positive => ?_⟩
  have behind := @boundaryOf_behind (seg.clusters a) (seg.clusters v) later positive
  rw [seg.covers, ← laws.cut a v ((boundary_iff seg).mp boundary)] at behind
  rw [boundary_iff, boundary_iff]
  exact behind.symm

theorem first_cluster {cluster : Text} {rest : List Text} (read : seg.clusters text = cluster :: rest) :
    ∃ later, text = cluster ++ later ∧ seg.clusters cluster = [cluster] ∧ seg.clusters later = rest := by
  have whole : text = cluster ++ rest.flatten := by rw [← List.flatten_cons, ← read, seg.covers]
  have boundary : BoundaryOf (seg.clusters (cluster ++ rest.flatten)) (byteLen cluster) := by
    rw [← whole, read]
    exact boundaryOf_iff.mpr ⟨[cluster], rest, rfl, by simp⟩
  have split := laws.cut _ _ boundary
  rw [← whole, read] at split
  cases own : seg.clusters cluster with
  | nil =>
      have empty : cluster = [] := by rw [← seg.covers cluster, own, List.flatten_nil]
      exact absurd (read ▸ List.mem_cons_self) (empty ▸ laws.nonempty text)
  | cons head tail =>
      rw [own] at split
      obtain ⟨rfl, later⟩ := List.cons.inj split
      have covered := seg.covers cluster
      rw [own, List.flatten_cons] at covered
      -- Nothing is left for a second cluster, and no cluster is empty.
      have bare : tail.flatten = [] := List.append_cancel_left (covered.trans (List.append_nil _).symm)
      have none : tail = [] := by
        cases tail with
        | nil => rfl
        | cons other tail =>
            have empty := (List.append_eq_nil_iff.mp bare).1
            have member : other ∈ seg.clusters cluster := by rw [own]; simp
            exact absurd member (empty ▸ laws.nonempty cluster)
      subst none
      exact ⟨rest.flatten, whole, rfl, later.symm⟩

theorem cluster_positive {cluster : Text} {rest : List Text} (read : seg.clusters text = cluster :: rest) :
    0 < byteLen cluster := by
  rw [Nat.pos_iff_ne_zero, Ne, byteLen_eq_zero]
  rintro rfl
  exact laws.nonempty text (read ▸ List.mem_cons_self)

theorem clusters_cons (filled : text ≠ []) : ∃ cluster rest, seg.clusters text = cluster :: rest ∧ cluster ≠ [] := by
  cases read : seg.clusters text with
  | nil =>
      have empty : text = [] := by rw [← seg.covers text, read, List.flatten_nil]
      exact absurd empty filled
  | cons cluster rest =>
      refine ⟨cluster, rest, rfl, fun empty => ?_⟩
      exact laws.nonempty text (by rw [read, empty]; exact List.mem_cons_self)

theorem tab_first (text : Text) : seg.clusters ('\t' :: text) = ['\t'] :: seg.clusters text := by
  obtain ⟨cluster, rest, read, filled⟩ := clusters_cons laws (List.cons_ne_nil '\t' text)
  obtain ⟨later, whole, -, behind⟩ := first_cluster laws read
  obtain ⟨d, cluster, rfl⟩ := List.exists_cons_of_ne_nil filled
  obtain ⟨rfl, same⟩ := List.cons.inj whole
  have member : ('\t' :: cluster) ∈ seg.clusters ('\t' :: text) := by rw [read]; exact List.mem_cons_self
  obtain ⟨-, rfl⟩ := List.cons.inj (laws.tab _ _ member List.mem_cons_self)
  rw [read, same, ← behind]
  rfl

theorem clusters_nil : seg.clusters [] = [] := by
  cases read : seg.clusters [] with
  | nil => rfl
  | cons cluster rest =>
      have covered := seg.covers []
      rw [read, List.flatten_cons, List.append_eq_nil_iff] at covered
      exact absurd (read ▸ List.mem_cons_self) (covered.1 ▸ laws.nonempty [])

theorem blank_clusters {c : Char} (blank : c = ' ' ∨ c = '\t') (text : Text) :
    seg.clusters (c :: text) = [c] :: seg.clusters text ∨
      c = ' ' ∧ ∃ cluster rest, seg.clusters text = cluster :: rest ∧ seg.clusters (c :: text) = (c :: cluster) :: rest := by
  -- A blank is a cluster of its own, or a space that the first cluster behind it joins.
  rcases blank with rfl | rfl
  · by_cases alone : text = []
    · subst alone
      obtain ⟨cluster, rest, read, filled⟩ := clusters_cons laws (List.cons_ne_nil ' ' [])
      obtain ⟨later, whole, -, behind⟩ := first_cluster laws read
      obtain ⟨d, cluster, rfl⟩ := List.exists_cons_of_ne_nil filled
      obtain ⟨rfl, same⟩ := List.cons.inj whole
      obtain ⟨rfl, rfl⟩ := List.append_eq_nil_iff.mp same.symm
      exact .inl (by rw [read, behind])
    · exact (laws.space text alone).imp_right fun joined => ⟨rfl, joined⟩
  · exact .inl (tab_first laws text)

omit laws in
theorem blank_size {c : Char} (blank : c = ' ' ∨ c = '\t') : c.utf8Size = 1 := by
  rcases blank with rfl | rfl
  · rfl
  · rfl

theorem Readable.blank (readable : Readable seg text position) {c : Char} (found : charAt text position = some c)
    (blank : c = ' ' ∨ c = '\t') : Readable seg text (position + 1) := by
  obtain ⟨a, v, rfl, rfl, same⟩ := readable
  rw [charAt_append] at found
  obtain ⟨w, rfl⟩ := List.head?_eq_some_iff.mp found
  have one := blank_size blank
  refine ⟨a ++ [c], w, by simp, by simp [one], fun later positive => ?_⟩
  -- The space may take the first cluster with it, but moves no break behind that.
  have shifted : Boundary seg w later ↔ Boundary seg (c :: w) (1 + later) := by
    rw [boundary_iff, boundary_iff]
    rcases blank_clusters laws blank w with split | ⟨-, cluster, rest, read, joined⟩
    · have behind := @boundaryOf_behind [[c]] (seg.clusters w) later positive
      rw [split]
      simpa [one] using behind.symm
    · have filled := cluster_positive laws read
      rw [read, joined, boundaryOf_cons, boundaryOf_cons, byteLen_cons, one]
      constructor
      · rintro (rfl | ⟨further, rfl, boundary⟩)
        · omega
        · exact .inr ⟨further, (Nat.add_assoc ..).symm, boundary⟩
      · rintro (start | ⟨further, same, boundary⟩)
        · omega
        · exact .inr ⟨further, by omega, boundary⟩
  rw [shifted, same (1 + later) (by omega), Nat.add_assoc]

theorem boundary_front {a b : Text} (split : Boundary seg (a ++ b) (byteLen a)) (within : position ≤ byteLen a) :
    Boundary seg (a ++ b) position ↔ Boundary seg a position := by
  rw [boundary_iff, boundary_iff, laws.cut a b ((boundary_iff seg).mp split)]
  exact boundaryOf_front (by rw [seg.covers]; exact within)

theorem line_boundary {line after : Text} (ends : after = [] ∨ ∃ later, after = '\n' :: later)
    (boundary : Boundary seg (line ++ after) position) (within : position ≤ byteLen line) :
    Boundary seg line position := by
  rcases ends with rfl | ⟨later, rfl⟩
  · rwa [List.append_nil] at boundary
  · -- A carriage return at the end is a cluster of its own in the line, but not in the text.
    by_cases returned : line.getLast? = some '\r'
    · obtain ⟨front, rfl⟩ := List.getLast?_eq_some_iff.mp returned
      have split := (boundary_iff seg).mpr (seg.before_cr front ('\n' :: later))
      have split' := (boundary_iff seg).mpr (seg.before_cr front [])
      rw [List.append_assoc] at boundary
      by_cases early : position ≤ byteLen front
      · exact (boundary_front laws split' early).mpr ((boundary_front laws split early).mp boundary)
      · have last : position = byteLen (front ++ ['\r']) := by
          rw [byteLen_append] at within ⊢
          have one : byteLen ['\r'] = 1 := rfl
          omega
        exact last ▸ boundary_end seg _
    · have split := (boundary_iff seg).mpr (seg.before_lf line later returned)
      exact (boundary_front laws split within).mp boundary

section FirstCluster

variable {v cluster : Text} {rest : List Text} (readable : Readable seg text position)
  (tail : slice text position (byteLen text) = some v) (read : seg.clusters v = cluster :: rest)

include readable tail read

omit laws read in
theorem Readable.tail_boundary {later : Nat} (positive : 0 < later) :
    Boundary seg v later ↔ Boundary seg text (position + later) := by
  obtain ⟨a, w, rfl, rfl, same⟩ := readable
  have whole := slice_middle a w []
  rw [List.append_nil, ← byteLen_append, tail] at whole
  obtain rfl := Option.some.inj whole
  exact same later positive

theorem Readable.next_boundary :
    Boundary seg text (position + byteLen cluster) ∧
      ∀ later, Boundary seg text later → position < later → position + byteLen cluster ≤ later := by
  have filled := cluster_positive laws read
  constructor
  · rw [← readable.tail_boundary tail filled, boundary_iff, read]
    exact boundaryOf_iff.mpr ⟨[cluster], rest, rfl, by simp⟩
  · intro later boundary behind
    obtain ⟨distance, rfl⟩ := Nat.exists_eq_add_of_lt behind
    have within : Boundary seg v (distance + 1) := by
      rw [readable.tail_boundary tail (Nat.succ_pos _)]
      exact boundary
    rw [boundary_iff, read, boundaryOf_cons] at within
    rcases within with zero | ⟨further, same, -⟩
    · omega
    · omega

theorem Readable.part (boundary : Boundary seg text stop) (behind : position + byteLen cluster ≤ stop) :
    ∃ part later, slice text position stop = some part ∧
      slice text (position + byteLen cluster) stop = some later ∧
        seg.clusters part = cluster :: seg.clusters later := by
  -- A part of the text up to a break begins with the same cluster.
  have filled := cluster_positive laws read
  obtain ⟨distance, rfl⟩ := Nat.exists_eq_add_of_le ((Nat.le_add_right ..).trans behind)
  have within := (readable.tail_boundary tail (by omega)).mpr boundary
  obtain ⟨part, w, rfl, rfl⟩ := boundary_cut seg within
  obtain ⟨a, b, rfl, rfl, length⟩ := slice_eq_some.mp tail
  have split := laws.cut part w ((boundary_iff seg).mp within)
  obtain ⟨head, others, own, -⟩ := clusters_cons laws (show part ≠ [] by rintro rfl; simp at behind; omega)
  rw [read, own] at split
  obtain ⟨rfl, -⟩ := List.cons.inj split
  obtain ⟨later, rfl, -, others⟩ := first_cluster laws own
  refine ⟨_, later, ?_, ?_, by rw [own, others]⟩
  · have middle := slice_middle a (cluster ++ later) (w ++ b)
    simpa using middle
  · have middle := slice_middle (a ++ cluster) later (w ++ b)
    simpa [Nat.add_assoc] using middle

end FirstCluster

omit laws

theorem characterClusters_nonempty (text : Text) : [] ∉ characterClusters text := by
  induction text using characterClusters.induct with
  | case1 => simp [characterClusters]
  | case2 rest ih => simpa [characterClusters] using ih
  | case3 c rest plain ih =>
      rw [characterClusters]
      · simpa using ih
      · exact plain

theorem characterClusters_tab (text : Text) : ∀ cluster ∈ characterClusters text, '\t' ∈ cluster → cluster = ['\t'] := by
  induction text using characterClusters.induct with
  | case1 => simp [characterClusters]
  | case2 rest ih =>
      intro cluster member holds
      rcases List.mem_cons.mp member with rfl | later
      · simp at holds
      · exact ih cluster later holds
  | case3 c rest plain ih =>
      intro cluster member holds
      rw [characterClusters] at member
      · rcases List.mem_cons.mp member with rfl | later
        · rw [List.mem_singleton.mp holds]
        · exact ih cluster later holds
      · exact plain

theorem characterSegmentation_local (isAlphanumeric : Char → Bool) : (characterSegmentation isAlphanumeric).Local where
  nonempty := characterClusters_nonempty
  cut := by
    intro a b boundary
    refine characterClusters_append fun last head => ?_
    obtain ⟨front, rfl⟩ := List.getLast?_eq_some_iff.mp last
    obtain ⟨later, rfl⟩ : ∃ later, b = '\n' :: later := by
      cases b with
      | nil => simp at head
      | cons d later => exact ⟨later, by rw [Option.some.inj head]⟩
    rw [List.append_assoc, byteLen_append] at boundary
    exact (characterSegmentation isAlphanumeric).within_crlf front later boundary
  space := fun text _ => .inl (by simp [characterSegmentation, characterClusters])
  tab := characterClusters_tab

end GrokPi.Editor
