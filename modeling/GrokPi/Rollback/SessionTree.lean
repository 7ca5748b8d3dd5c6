import GrokPi.Shared.Text

set_option autoImplicit false

namespace GrokPi.Rollback

structure SessionEntry where
  id : Text
  parentId : Option Text
  isCurrent : Bool
  isLeaf : Bool

def findEntry (entries : List SessionEntry) (id : Text) : Option SessionEntry :=
  entries.find? fun entry => entry.id = id

def SessionEntry.parentIn (entries : List SessionEntry) (entry : SessionEntry) : Option SessionEntry :=
  entry.parentId.bind (findEntry entries)

def walk (entries : List SessionEntry) : Nat → Option SessionEntry → List Text
  | fuel + 1, some current => current.id :: walk entries fuel (current.parentIn entries)
  | _, _ => []

def currentEntry (entries : List SessionEntry) : Option SessionEntry :=
  entries.find? fun entry => entry.isCurrent || entry.isLeaf

def getBranchEntryIds (entries : List SessionEntry) : List Text :=
  walk entries entries.length (currentEntry entries)

structure SessionTree where
  entries : List SessionEntry
  named : ∀ entry ∈ entries, entry.id ≠ []
  distinct : (entries.map (·.id)).Nodup
  acyclic : ∃ depth : Text → Nat, ∀ entry ∈ entries, ∀ parent ∈ entry.parentIn entries,
    depth parent.id < depth entry.id

namespace SessionTree

variable (tree : SessionTree)

def ParentOf (child parent : Text) : Prop :=
  ∃ entry ∈ findEntry tree.entries child, ∃ above ∈ entry.parentIn tree.entries, above.id = parent

def StrictDescendant (id ancestor : Text) : Prop := Relation.TransGen tree.ParentOf id ancestor

def AtOrBefore (id target : Text) : Prop := Relation.ReflTransGen tree.ParentOf target id

variable {tree}

theorem findEntry_id {id : Text} {entry : SessionEntry}
    (found : findEntry tree.entries id = some entry) : entry ∈ tree.entries ∧ entry.id = id :=
  ⟨List.mem_of_find?_eq_some found, by simpa using List.find?_some found⟩

theorem findEntry_self {entry : SessionEntry} (member : entry ∈ tree.entries) :
    findEntry tree.entries entry.id = some entry := by
  have found : (findEntry tree.entries entry.id).isSome := by
    rw [findEntry, List.find?_isSome]
    exact ⟨entry, member, by simp⟩
  obtain ⟨other, here⟩ := Option.isSome_iff_exists.mp found
  have ⟨listed, same⟩ := findEntry_id here
  rw [here, List.inj_on_of_nodup_map tree.distinct listed member same]

theorem parentIn_mem {entry parent : SessionEntry}
    (above : entry.parentIn tree.entries = some parent) : parent ∈ tree.entries := by
  obtain ⟨id, _, found⟩ := Option.bind_eq_some_iff.mp above
  exact (findEntry_id found).1

theorem parentOf_iff {entry : SessionEntry} (member : entry ∈ tree.entries) {parent : Text} :
    tree.ParentOf entry.id parent ↔ ∃ above, entry.parentIn tree.entries = some above ∧ above.id = parent := by
  simp [ParentOf, findEntry_self member]

theorem parentOf_unique {child first second : Text} (one : tree.ParentOf child first)
    (other : tree.ParentOf child second) : first = second := by
  obtain ⟨entry, found, above, parent, rfl⟩ := one
  obtain ⟨entry', found', above', parent', rfl⟩ := other
  rw [Option.mem_def] at found found' parent parent'
  rw [found] at found'
  cases found'
  rw [parent] at parent'
  cases parent'
  rfl

theorem strictDescendant_irrefl (id : Text) : ¬ tree.StrictDescendant id id := by
  obtain ⟨depth, decreasing⟩ := tree.acyclic
  have below : ∀ {child ancestor}, tree.StrictDescendant child ancestor →
      depth ancestor < depth child := by
    intro child ancestor descends
    have link : ∀ {child parent}, tree.ParentOf child parent → depth parent < depth child := by
      intro child parent ⟨entry, found, above, isParent, same⟩
      have ⟨member, named⟩ := findEntry_id found
      rw [← same, ← named]
      exact decreasing entry member above isParent
    induction descends with
    | single step => exact link step
    | tail _ step ih => exact (link step).trans ih
  exact fun cycle => (below cycle).false

theorem above_total {leaf first second : Text}
    (one : Relation.ReflTransGen tree.ParentOf leaf first)
    (other : Relation.ReflTransGen tree.ParentOf leaf second) :
    tree.StrictDescendant first second ∨ tree.AtOrBefore first second := by
  -- Of two ids above one id, one is above the other.
  have unique : Relator.RightUnique tree.ParentOf := fun _ _ _ => parentOf_unique
  have total := Relation.ReflTransGen.total_of_right_unique unique one other
  rcases total with forward | backward
  · rcases Relation.reflTransGen_iff_eq_or_transGen.mp forward with rfl | strict
    · exact Or.inr .refl
    · exact Or.inl strict
  · exact Or.inr backward

theorem not_both {id target : Text} (strict : tree.StrictDescendant id target) :
    ¬ tree.AtOrBefore id target :=
  fun above => strictDescendant_irrefl id (strict.trans_left above)

section Branch

def below (tree : SessionTree) (depth : Text → Nat) (entry : SessionEntry) : Nat :=
  (tree.entries.filter fun other => depth other.id < depth entry.id).length

theorem mem_walk (depth : Text → Nat)
    (decreasing : ∀ entry ∈ tree.entries, ∀ parent ∈ entry.parentIn tree.entries,
      depth parent.id < depth entry.id)
    (fuel : Nat) (entry : SessionEntry) (member : entry ∈ tree.entries)
    (enough : tree.below depth entry < fuel) (id : Text) :
    id ∈ walk tree.entries fuel (some entry) ↔ Relation.ReflTransGen tree.ParentOf entry.id id := by
  induction fuel generalizing entry id with
  | zero => omega
  | succ fuel ih =>
      rw [walk, Relation.ReflTransGen.cases_head_iff, List.mem_cons, eq_comm]
      apply or_congr_right
      cases above : entry.parentIn tree.entries with
      | none => simp [walk, parentOf_iff member, above]
      | some parent =>
          have listed := parentIn_mem above
          have closer := decreasing entry member parent above
          have fewer : tree.below depth parent < tree.below depth entry := by
            have within : tree.entries.filter (fun other => depth other.id < depth parent.id) =
                (tree.entries.filter fun other => depth other.id < depth entry.id).filter
                  fun other => depth other.id < depth parent.id := by
              rw [List.filter_filter]
              apply List.filter_congr
              intro other _
              simp only [← Bool.decide_and, decide_eq_decide]
              omega
            rw [below, within]
            apply List.length_filter_lt_length_iff_exists.mpr
            exact ⟨parent, by simpa using ⟨listed, closer⟩, by simp⟩
          rw [ih parent listed (by omega)]
          simp [parentOf_iff member, above]

theorem mem_getBranchEntryIds {leaf : SessionEntry} (current : currentEntry tree.entries = some leaf)
    (id : Text) :
    id ∈ getBranchEntryIds tree.entries ↔ Relation.ReflTransGen tree.ParentOf leaf.id id := by
  -- The walk has enough fuel for every tree.
  obtain ⟨depth, decreasing⟩ := tree.acyclic
  have member : leaf ∈ tree.entries := List.mem_of_find?_eq_some current
  rw [getBranchEntryIds, current]
  apply mem_walk depth decreasing _ leaf member
  apply List.length_filter_lt_length_iff_exists.mpr
  exact ⟨leaf, member, by simp⟩

theorem branch_split {target id : Text} (onBranch : target ∈ getBranchEntryIds tree.entries)
    (listed : id ∈ getBranchEntryIds tree.entries) :
    tree.StrictDescendant id target ∨ tree.AtOrBefore id target := by
  cases current : currentEntry tree.entries with
  | none => simp [getBranchEntryIds, current, walk] at listed
  | some leaf =>
      rw [mem_getBranchEntryIds current] at onBranch listed
      exact above_total listed onBranch

end Branch

end SessionTree

end GrokPi.Rollback
