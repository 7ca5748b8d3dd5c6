import GrokPi.Rollback.Capture
import GrokPi.Rollback.SessionTree
import GrokPi.Shared.Overwrites

set_option autoImplicit false

namespace GrokPi.Rollback

section Positions

variable {α : Type}

def FirstOf (p : α → Prop) (values : List α) (value : α) : Prop :=
  ∃ earlier later, values = earlier ++ value :: later ∧ p value ∧ ∀ other ∈ earlier, ¬ p other

def LastOf (p : α → Prop) (values : List α) (value : α) : Prop :=
  ∃ earlier later, values = earlier ++ value :: later ∧ p value ∧ ∀ other ∈ later, ¬ p other

theorem firstOf_iff (p : α → Prop) [DecidablePred p] (values : List α) (value : α) :
    FirstOf p values value ↔ (values.filter fun other => p other).head? = some value := by
  rw [List.head?_filter, List.find?_eq_some_iff_append]
  simp only [FirstOf, decide_eq_true_eq]
  constructor
  · intro ⟨earlier, later, split, holds, first⟩
    exact ⟨holds, earlier, later, split, by simpa using first⟩
  · intro ⟨holds, earlier, later, split, first⟩
    exact ⟨earlier, later, split, holds, by simpa using first⟩

theorem lastOf_iff (p : α → Prop) [DecidablePred p] (values : List α) (value : α) :
    LastOf p values value ↔ (values.filter fun other => p other).getLast? = some value := by
  rw [← List.head?_reverse, ← List.filter_reverse, List.head?_filter, List.find?_eq_some_iff_append]
  simp only [LastOf, decide_eq_true_eq]
  constructor
  · intro ⟨earlier, later, split, holds, last⟩
    exact ⟨holds, later.reverse, earlier.reverse, by simp [split], by simpa using last⟩
  · intro ⟨holds, later, earlier, split, last⟩
    refine ⟨earlier.reverse, later.reverse, ?_, holds, by simpa using last⟩
    rw [← List.reverse_reverse values, split]
    simp

variable {values : List α} {p : α → Prop}

theorem LastOf.mem {value : α} (last : LastOf p values value) : value ∈ values ∧ p value := by
  obtain ⟨earlier, later, rfl, holds, _⟩ := last
  exact ⟨by simp, holds⟩

theorem FirstOf.mem {value : α} (first : FirstOf p values value) : value ∈ values ∧ p value := by
  obtain ⟨earlier, later, rfl, holds, _⟩ := first
  exact ⟨by simp, holds⟩

theorem exists_lastOf (some' : ∃ value ∈ values, p value) : ∃ value, LastOf p values value := by
  classical
  obtain ⟨value, member, holds⟩ := some'
  have nonempty : values.filter (fun other => p other) ≠ [] :=
    List.ne_nil_of_mem (List.mem_filter.mpr ⟨member, by simpa using holds⟩)
  exact ⟨_, (lastOf_iff p values _).mpr (List.getLast?_eq_getLast_of_ne_nil nonempty)⟩

theorem exists_firstOf (some' : ∃ value ∈ values, p value) : ∃ value, FirstOf p values value := by
  classical
  obtain ⟨value, member, holds⟩ := some'
  have nonempty : values.filter (fun other => p other) ≠ [] :=
    List.ne_nil_of_mem (List.mem_filter.mpr ⟨member, by simpa using holds⟩)
  exact ⟨_, (firstOf_iff p values _).mpr (List.head?_eq_some_head nonempty)⟩

theorem FirstOf.unique {one other : α} (first : FirstOf p values one)
    (also' : FirstOf p values other) : one = other := by
  classical
  rw [firstOf_iff] at first also'
  exact Option.some_injective _ (first.symm.trans also')

end Positions

variable (tree : SessionTree) (target : Text) (mutations : List MutationRecord)

def Bound (place : Text → Prop) (path : Text) (m : MutationRecord) : Prop :=
  m.canonicalPath = path ∧
    ∃ id ∈ m.treeEntryId, id ∈ getBranchEntryIds tree.entries ∧ place id

def After (path : Text) : MutationRecord → Prop :=
  Bound tree (fun id => tree.StrictDescendant id target) path

def Kept (path : Text) : MutationRecord → Prop :=
  Bound tree (fun id => tree.AtOrBefore id target) path

def Elsewhere (path : Text) : MutationRecord → Prop := Bound tree (fun id => id ≠ target) path

def StateAt (path : Text) (state : StateRef) : Prop :=
  (∃ m, LastOf (Kept tree target path) mutations m ∧ m.after = state) ∨
    (∀ m ∈ mutations, ¬ Kept tree target path m) ∧
      ∃ m, FirstOf (After tree target path) mutations m ∧ m.before = state

def Blobs.content (blobs : Blobs) : StateRef → Option Buffer
  | .absent => none
  | .blob digest => blobs digest

structure Undoes (blobs : Blobs) (plan : RollbackPlan) (before after : Disk) : Prop where
  paths : ∀ path, path ∈ plan.paths.map (·.canonicalPath) ↔ ∃ m ∈ mutations, After tree target path m
  once : (plan.paths.map (·.canonicalPath)).Nodup
  restored : ∀ path, (∃ m ∈ mutations, After tree target path m) →
    ∀ state, StateAt tree target mutations path state → after path = blobs.content state
  untouched : ∀ path, (∀ m ∈ mutations, ¬ After tree target path m) → after path = before path

structure Undoable : Prop where
  /-- What an ancestor of the target changed is changed again after the target. -/
  changed : ∀ m ∈ mutations, ∀ path, Kept tree target path m → Elsewhere tree target path m →
    ∃ later ∈ mutations, After tree target path later
  /-- The branch leaves the target out and goes on where the target left the path. -/
  resumes : ∀ path, (∃ m ∈ mutations, After tree target path m) →
    ∀ last, LastOf (Kept tree target path) mutations last →
    ∀ first, FirstOf (Elsewhere tree target path) mutations first → first.before = last.after
  /-- No path is deleted at the end. -/
  present : ∀ path last, LastOf (Elsewhere tree target path) mutations last → last.after ≠ .absent

structure Stored (sha256 : Buffer → Digest) (blobs : Blobs) (disk : Disk) : Prop where
  named : ∀ digest data, blobs digest = some data → sha256 data = digest
  kept : ∀ m ∈ mutations, ∀ digest, m.before = .blob digest ∨ m.after = .blob digest →
    (blobs digest).isSome
  apart : ∀ path data digest stored, disk path = some data → blobs digest = some stored →
    sha256 data = sha256 stored → data = stored

section Selection

variable {tree} in
theorem branch_named {id : Text} (listed : id ∈ getBranchEntryIds tree.entries) : id ≠ [] := by
  cases current : currentEntry tree.entries with
  | none => simp [getBranchEntryIds, current, walk] at listed
  | some leaf =>
      rw [SessionTree.mem_getBranchEntryIds current] at listed
      rcases Relation.ReflTransGen.cases_tail listed with same | ⟨_, _, _, _, above, isParent, same⟩
      · rw [same]
        exact tree.named leaf (List.mem_of_find?_eq_some current)
      · rw [← same]
        exact tree.named above (SessionTree.parentIn_mem isParent)

theorem selected_iff (m : MutationRecord) :
    m ∈ afterTarget target (getBranchEntryIds tree.entries) mutations ↔
      m ∈ mutations ∧ Elsewhere tree target m.canonicalPath m := by
  simp only [afterTarget, List.mem_filter, Elsewhere, Bound, true_and]
  apply and_congr_right
  intro _
  cases bound : m.treeEntryId with
  | none => simp
  | some id =>
      by_cases listed : id ∈ getBranchEntryIds tree.entries
      · simp [listed, branch_named listed]
      · simp [listed]

theorem onPath_filter (path : Text) [DecidablePred (Elsewhere tree target path)] :
    (afterTarget target (getBranchEntryIds tree.entries) mutations).filter
        (fun m => m.canonicalPath = path) =
      mutations.filter fun m => Elsewhere tree target path m := by
  rw [afterTarget, List.filter_filter]
  apply List.filter_congr
  intro m member
  have selected := selected_iff tree target [m] m
  simp only [afterTarget, List.mem_filter, List.mem_singleton, true_and] at selected
  by_cases here : m.canonicalPath = path
  · subst here
    rw [Bool.eq_iff_iff]
    simpa using selected
  · simp [here, Elsewhere, Bound]

theorem lastBy_iff (path : Text) (m : MutationRecord) :
    InsertionMap.get (InsertionMap.lastBy (·.canonicalPath)
        (afterTarget target (getBranchEntryIds tree.entries) mutations)) path = some m ↔
      LastOf (Elsewhere tree target path) mutations m := by
  classical
  rw [InsertionMap.get_lastBy, onPath_filter, lastOf_iff]

theorem firstBy_iff (path : Text) (m : MutationRecord) :
    InsertionMap.get (InsertionMap.firstBy (·.canonicalPath)
        (afterTarget target (getBranchEntryIds tree.entries) mutations)) path = some m ↔
      FirstOf (Elsewhere tree target path) mutations m := by
  classical
  rw [InsertionMap.get_firstBy, onPath_filter, firstOf_iff]

end Selection

section CarryingOut

variable {sha256 : Buffer → Digest} {blobs : Blobs} {disk : Disk}

theorem restoreAll_append (faults : Nat → Faults) (blobs : Blobs) (index : Nat) (disk : Disk)
    (first second : List PlannedPath) {between : Disk}
    (done : restoreAll faults blobs index disk first = (between, none)) :
    restoreAll faults blobs index disk (first ++ second) =
      restoreAll faults blobs (index + first.length) between second := by
  induction first generalizing index disk with
  | nil =>
      cases done
      rfl
  | cons planned rest ih =>
      simp only [restoreAll, List.cons_append] at done ⊢
      cases step : restorePath (faults index) blobs disk planned with
      | error message => simp [step] at done
      | ok next =>
          simp only [step] at done ⊢
          rw [ih (index + 1) next done, List.length_cons]
          congr 1
          omega

theorem restoreAll_determined (stored : Stored mutations sha256 blobs disk) (index : Nat)
    (start : Disk) (path : Text) (same : start path = disk path) (first : MutationRecord)
    (member : first ∈ mutations) :
    restoreAll (fun _ => Faults.none) blobs index start
        ([determineAction sha256 path (disk path) first.before].filter (·.action != .noop)) =
      (Function.update start path (blobs.content first.before), none) := by
  cases before : first.before with
  | absent =>
      cases present : disk path with
      | none =>
          have kept : Function.update start path none = start := by
            rw [← present, ← same, Function.update_eq_self]
          simp [determineAction, parseBlobRef, restoreAll, Blobs.content, kept]
      | some data =>
          simp [determineAction, parseBlobRef, restoreAll, restorePath, Faults.none, Blobs.content]
  | blob digest =>
      obtain ⟨data, held⟩ := Option.isSome_iff_exists.mp (stored.kept first member digest (Or.inl before))
      by_cases already : (disk path).map sha256 = some digest
      · obtain ⟨current, present, hash⟩ := Option.map_eq_some_iff.mp already
        have equal : current = data :=
          stored.apart path current digest data present held
            (hash.trans (stored.named digest data held).symm)
        have kept : Function.update start path (some data) = start := by
          rw [← equal, ← present, ← same, Function.update_eq_self]
        simp [determineAction, parseBlobRef, already, restoreAll, Blobs.content, held, kept]
      · simp [determineAction, parseBlobRef, already, restoreAll, restorePath, Faults.none,
          Blobs.content, held]

theorem planPath_ok {path : Text} {first last : MutationRecord} {entries : List PlannedPath}
    (planned : planPath sha256 disk path first last = .ok entries) :
    (last.after = .absent ∧ ∃ noop : PlannedPath, noop.canonicalPath = path ∧ noop.action = .noop ∧
        entries = [noop, determineAction sha256 path (disk path) first.before]) ∨
      last.after ≠ .absent ∧ entries = [determineAction sha256 path (disk path) first.before] := by
  simp only [planPath] at planned
  cases after : last.after with
  | absent =>
      cases present : disk path with
      | none =>
          rw [after, present] at planned
          refine Or.inl ⟨rfl, _, ?_, ?_, (Except.ok.inj planned).symm⟩ <;> rfl
      | some data => simp [after, present, parseBlobRef] at planned
  | blob digest =>
      cases present : disk path with
      | none => simp [after, present, parseBlobRef] at planned
      | some data =>
          simp only [after, present, parseBlobRef] at planned
          split at planned
          · simp at planned
          · exact Or.inr ⟨by simp, (Except.ok.inj planned).symm⟩

@[simp] theorem determineAction_path (path : Text) (current : Option Buffer) (state : StateRef) :
    (determineAction sha256 path current state).canonicalPath = path := by
  simp only [determineAction]
  split <;> rfl

theorem restoreAll_groups (stored : Stored mutations sha256 blobs disk)
    (first : Text × MutationRecord → MutationRecord) (groups : InsertionMap Text MutationRecord)
    (known : ∀ group ∈ groups, first group ∈ mutations) (once : groups.keys.Nodup)
    (entries : Text × MutationRecord → List PlannedPath)
    (planned : ∀ group ∈ groups,
      planPath sha256 disk group.1 (first group) group.2 = .ok (entries group))
    (index : Nat) (start : Disk) (same : ∀ path ∈ groups.keys, start path = disk path) :
    restoreAll (fun _ => Faults.none) blobs index start
        ((groups.flatMap entries).filter (·.action != .noop)) =
      (Overwrites.assign start
        (groups.map fun group => (group.1, blobs.content (first group).before)), none) := by
  -- The paths of a plan one after the other, each planned on the disk before the first.
  induction groups generalizing index start with
  | nil => rfl
  | cons group rest ih =>
      have ⟨absent, later⟩ := List.nodup_cons.mp once
      have here := restoreAll_determined mutations stored index start group.1
        (same group.1 (by simp [InsertionMap.keys])) (first group) (known group (by simp))
      have active : (entries group).filter (·.action != .noop) =
          [determineAction sha256 group.1 (disk group.1) (first group).before].filter
            (·.action != .noop) := by
        rcases planPath_ok (planned group (by simp)) with ⟨_, noop, _, quiet, both⟩ | ⟨_, one⟩
        · simp [both, quiet]
        · rw [one]
      rw [List.flatMap_cons, List.filter_append, active, restoreAll_append _ _ _ _ _ _ here]
      rw [ih (fun other member => known other (by simp [member])) later
        (fun other member => planned other (by simp [member]))]
      · rfl
      · intro path member
        have different : path ≠ group.1 := by
          intro equal
          exact absent (equal ▸ member)
        rw [Function.update_of_ne different]
        apply same
        simp only [InsertionMap.keys, List.map_cons, List.mem_cons]
        exact Or.inr member

end CarryingOut

section Eligible

variable (sha256 : Buffer → Digest) (blobs : Blobs) (disk : Disk) (records : List JournalRecord)

def groupsOf (branchEntryIds : List Text) : InsertionMap Text MutationRecord :=
  InsertionMap.lastBy (·.canonicalPath) (afterTarget target branchEntryIds (getMutations records))

def firstFor (branchEntryIds : List Text) (group : Text × MutationRecord) : MutationRecord :=
  (InsertionMap.get (InsertionMap.firstBy (·.canonicalPath)
    (afterTarget target branchEntryIds (getMutations records))) group.1).getD group.2

def entriesFor (branchEntryIds : List Text) (group : Text × MutationRecord) : List PlannedPath :=
  (planPath sha256 disk group.1 (firstFor target records branchEntryIds group) group.2).toOption.getD []

theorem eligible_plan (branchEntryIds : List Text)
    (eligible : (computeRollbackPlan sha256 disk records target branchEntryIds).eligible = true) :
    target ∈ branchEntryIds ∧
      (computeRollbackPlan sha256 disk records target branchEntryIds).paths =
        (groupsOf target records branchEntryIds).flatMap
          (entriesFor target sha256 disk records branchEntryIds) ∧
      ∀ group ∈ groupsOf target records branchEntryIds,
        planPath sha256 disk group.1 (firstFor target records branchEntryIds group) group.2 =
          .ok (entriesFor target sha256 disk records branchEntryIds group) := by
  simp only [computeRollbackPlan] at eligible ⊢
  split at eligible
  next => simp at eligible
  next listed =>
    refine ⟨by simpa using listed, ?_, ?_⟩
    · rw [if_neg listed, List.flatMap_map]
      rfl
    · intro group member
      have noConflict := (Bool.and_eq_true_iff.mp eligible).1
      simp only [List.isEmpty_iff, List.filterMap_eq_nil_iff, List.forall_mem_map] at noConflict
      have here := noConflict group member
      simp only [entriesFor, firstFor] at here ⊢
      cases outcome : planPath sha256 disk group.1 ((InsertionMap.get (InsertionMap.firstBy
        (·.canonicalPath) (afterTarget target branchEntryIds (getMutations records))) group.1).getD
          group.2) group.2 with
      | error conflict => simp [outcome] at here
      | ok entries => rfl

end Eligible

section Captured

variable {sha256 : Buffer → Digest}

end Captured

section Main

structure Reading (blobs : Blobs) (disk : Disk) (plan : RollbackPlan) (after : Disk) : Prop where
  paths : ∀ path, path ∈ plan.paths.map (·.canonicalPath) ↔
    ∃ m ∈ mutations, Elsewhere tree target path m
  once : (plan.paths.map (·.canonicalPath)).Nodup ↔
    ∀ path last, LastOf (Elsewhere tree target path) mutations last → last.after ≠ .absent
  restored : ∀ path first, FirstOf (Elsewhere tree target path) mutations first →
    after path = blobs.content first.before
  untouched : ∀ path, (∀ m ∈ mutations, ¬ Elsewhere tree target path m) → after path = disk path

variable {tree target} in
theorem mem_groups {records : List JournalRecord} {group : Text × MutationRecord} :
    group ∈ groupsOf target records (getBranchEntryIds tree.entries) ↔
      LastOf (Elsewhere tree target group.1) (getMutations records) group.2 := by
  rw [← lastBy_iff, ← InsertionMap.mem_get (InsertionMap.lastBy_keys_nodup _ _)]
  rfl

theorem groups_once (records : List JournalRecord) :
    (groupsOf target records (getBranchEntryIds tree.entries)).keys.Nodup :=
  InsertionMap.lastBy_keys_nodup _ _

theorem mem_groups_keys (records : List JournalRecord) (path : Text) :
    path ∈ (groupsOf target records (getBranchEntryIds tree.entries)).keys ↔
      ∃ m ∈ getMutations records, Elsewhere tree target path m := by
  simp only [InsertionMap.keys, List.mem_map]
  constructor
  · rintro ⟨group, member, same⟩
    rw [mem_groups, same] at member
    exact ⟨group.2, member.mem⟩
  · intro some'
    obtain ⟨last, isLast⟩ := exists_lastOf some'
    exact ⟨(path, last), mem_groups.mpr isLast, rfl⟩

variable {tree target} in
theorem firstFor_eq {records : List JournalRecord} {path : Text} {m : MutationRecord}
    (isFirst : FirstOf (Elsewhere tree target path) (getMutations records) m) (last : MutationRecord) :
    firstFor target records (getBranchEntryIds tree.entries) (path, last) = m := by
  rw [firstFor, (firstBy_iff tree target (getMutations records) path m).mpr isFirst]
  rfl

theorem eligible_reading (sha256 : Buffer → Digest) (blobs : Blobs) (disk : Disk)
    (records : List JournalRecord) (stored : Stored (getMutations records) sha256 blobs disk)
    (leaf transactionId createdAt : Text)
    (eligible : (computeRollbackPlan sha256 disk records target
      (getBranchEntryIds tree.entries)).eligible = true) :
    let plan := computeRollbackPlan sha256 disk records target (getBranchEntryIds tree.entries)
    Reading tree target (getMutations records) blobs disk plan
      (executeRollback (fun _ => Faults.none) blobs disk plan target leaf transactionId
        createdAt).disk := by
  intro plan
  obtain ⟨listed, paths, planned⟩ := eligible_plan target sha256 disk records _ eligible
  generalize entriesOf : entriesFor target sha256 disk records (getBranchEntryIds tree.entries) =
    entries at paths planned
  have once := groups_once tree target records
  have pathsOf : ∀ group ∈ groupsOf target records (getBranchEntryIds tree.entries),
      ∀ path, path ∈ (entries group).map (·.canonicalPath) ↔ path = group.1 := by
    intro group member path
    rcases planPath_ok (planned group member) with ⟨_, noop, named, _, both⟩ | ⟨_, one⟩
    · simp [both, named]
    · simp [one]
  have keys := mem_groups_keys tree target records
  have outcome : (executeRollback (fun _ => Faults.none) blobs disk plan target leaf transactionId
      createdAt).disk = Overwrites.assign disk
        ((groupsOf target records (getBranchEntryIds tree.entries)).map fun group =>
          (group.1, blobs.content
            (firstFor target records (getBranchEntryIds tree.entries) group).before)) := by
    have known : ∀ group ∈ groupsOf target records (getBranchEntryIds tree.entries),
        firstFor target records (getBranchEntryIds tree.entries) group ∈ getMutations records := by
      intro group member
      have isLast := mem_groups.mp member
      obtain ⟨m, isFirst⟩ := exists_firstOf ⟨_, isLast.mem⟩
      rw [firstFor_eq isFirst group.2]
      exact isFirst.mem.1
    have run := restoreAll_groups (getMutations records) stored _ _ known once entries planned 0 disk
      (fun _ _ => rfl)
    simp only [executeRollback, RollbackPlan.activePaths, plan, paths, run]
  have written : ((groupsOf target records (getBranchEntryIds tree.entries)).map fun group =>
      (group.1, blobs.content (firstFor target records (getBranchEntryIds tree.entries) group).before)).map
        Prod.fst = (groupsOf target records (getBranchEntryIds tree.entries)).keys := by
    simp [InsertionMap.keys]
  constructor
  · intro path
    rw [← keys]
    simp only [plan, paths, List.map_flatMap, List.mem_flatMap]
    rw [InsertionMap.keys, List.mem_map]
    apply exists_congr
    intro group
    apply and_congr_right
    intro member
    rw [pathsOf group member, eq_comm]
  · simp only [plan, paths, List.map_flatMap]
    constructor
    · intro single path last isLast absent
      have member : (path, last) ∈ groupsOf target records (getBranchEntryIds tree.entries) :=
        mem_groups.mpr isLast
      have here := (List.nodup_flatMap.mp single).1 _ member
      rcases planPath_ok (planned _ member) with ⟨_, noop, named, _, both⟩ | ⟨present, _⟩
      · simp [both, named] at here
      · exact present absent
    · intro present
      have each : ∀ group ∈ groupsOf target records (getBranchEntryIds tree.entries),
          (entries group).map (·.canonicalPath) = [group.1] := by
        intro group member
        rcases planPath_ok (planned group member) with ⟨absent, _⟩ | ⟨_, one⟩
        · exact absurd absent (present group.1 group.2 (mem_groups.mp member))
        · simp [one]
      rw [List.flatMap_congr each, ← List.map_eq_flatMap]
      exact once
  · intro path m isFirst
    obtain ⟨last, isLast⟩ := exists_lastOf ⟨m, isFirst.mem⟩
    rw [outcome]
    apply Overwrites.assign_once disk (written ▸ once)
    apply List.mem_map.mpr
    exact ⟨(path, last), mem_groups.mpr isLast, by rw [firstFor_eq isFirst last]⟩
  · intro path none'
    rw [outcome, Overwrites.assign_untouched]
    rw [written, keys]
    rintro ⟨m, member, holds⟩
    exact none' m member holds

variable {tree target mutations} in
theorem after_elsewhere {path : Text} {m : MutationRecord} (after : After tree target path m) :
    Elsewhere tree target path m := by
  obtain ⟨here, id, bound, listed, strict⟩ := after
  refine ⟨here, id, bound, listed, ?_⟩
  intro same
  subst same
  exact SessionTree.strictDescendant_irrefl id strict

variable {tree target mutations} in
theorem elsewhere_split {path : Text} {m : MutationRecord}
    (onBranch : target ∈ getBranchEntryIds tree.entries) (elsewhere : Elsewhere tree target path m) :
    After tree target path m ∨ Kept tree target path m := by
  obtain ⟨here, id, bound, listed, _⟩ := elsewhere
  rcases SessionTree.branch_split onBranch listed with strict | above
  · exact Or.inl ⟨here, id, bound, listed, strict⟩
  · exact Or.inr ⟨here, id, bound, listed, above⟩

variable {mutations} in
theorem Stored.content_injective {sha256 : Buffer → Digest} {blobs : Blobs} {disk : Disk}
    (stored : Stored mutations sha256 blobs disk) {one other : MutationRecord}
    (first : one ∈ mutations) (second : other ∈ mutations)
    (same : blobs.content one.before = blobs.content other.after) : one.before = other.after := by
  have before := stored.kept one first
  have after := stored.kept other second
  cases left : one.before with
  | absent =>
      cases right : other.after with
      | absent => rfl
      | blob digest =>
          have held := after digest (Or.inr right)
          rw [left, right] at same
          simp only [Blobs.content] at same
          simp [← same] at held
  | blob digest =>
      obtain ⟨data, held⟩ := Option.isSome_iff_exists.mp (before digest (Or.inl left))
      rw [left] at same
      simp only [Blobs.content, held] at same
      cases right : other.after with
      | absent => simp [right] at same
      | blob digest' =>
          rw [right] at same
          rw [← stored.named digest data held, ← stored.named digest' data same.symm]

/-- An eligible plan undoes what came after the target exactly for undoable mutations. -/
theorem rollback_undoes_iff (sha256 : Buffer → Digest) (blobs : Blobs) (disk : Disk)
    (records : List JournalRecord) (stored : Stored (getMutations records) sha256 blobs disk)
    (leaf transactionId createdAt : Text)
    (eligible : (computeRollbackPlan sha256 disk records target
      (getBranchEntryIds tree.entries)).eligible = true) :
    let plan := computeRollbackPlan sha256 disk records target (getBranchEntryIds tree.entries)
    Undoes tree target (getMutations records) blobs plan disk
        (executeRollback (fun _ => Faults.none) blobs disk plan target leaf transactionId
          createdAt).disk ↔
      Undoable tree target (getMutations records) := by
  intro plan
  have onBranch := (eligible_plan target sha256 disk records _ eligible).1
  have reading := eligible_reading tree target sha256 blobs disk records stored leaf transactionId
    createdAt eligible
  have ⟨paths, once, restored, untouched⟩ := reading
  constructor
  · intro undoes
    constructor
    · intro m member path _ elsewhere
      exact (undoes.paths path).mp ((paths path).mpr ⟨m, member, elsewhere⟩)
    · intro path changed last isLast first isFirst
      have wanted := undoes.restored path changed last.after (Or.inl ⟨last, isLast, rfl⟩)
      exact stored.content_injective isFirst.mem.1 isLast.mem.1
        ((restored path first isFirst).symm.trans wanted)
    · exact once.mp undoes.once
  · intro undoable
    have same : ∀ path, (∃ m ∈ getMutations records, Elsewhere tree target path m) ↔
        ∃ m ∈ getMutations records, After tree target path m := by
      intro path
      constructor
      · intro ⟨m, member, elsewhere⟩
        rcases elsewhere_split onBranch elsewhere with after | kept
        · exact ⟨m, member, after⟩
        · exact undoable.changed m member path kept elsewhere
      · intro ⟨m, member, after⟩
        exact ⟨m, member, after_elsewhere after⟩
    constructor
    · exact fun path => (paths path).trans (same path)
    · exact once.mpr undoable.present
    · intro path changed state stateAt
      obtain ⟨first, isFirst⟩ := exists_firstOf ((same path).mpr changed)
      rw [restored path first isFirst]
      rcases stateAt with ⟨last, isLast, rfl⟩ | ⟨nothing, m, isFirstAfter, rfl⟩
      · rw [undoable.resumes path changed last isLast first isFirst]
      · -- Without a change up to the target, the branch begins after it.
        have begins : FirstOf (After tree target path) (getMutations records) first := by
          obtain ⟨earlier, later, split, holds, none'⟩ := isFirst
          refine ⟨earlier, later, split, ?_, fun other member after => none' other member
            (after_elsewhere after)⟩
          have member : first ∈ getMutations records := by simp [split]
          exact (elsewhere_split onBranch holds).resolve_right (nothing first member)
        rw [begins.unique isFirstAfter]
    · intro path unchanged
      apply untouched
      intro m member elsewhere
      obtain ⟨later, listed, after⟩ := (same path).mp ⟨m, member, elsewhere⟩
      exact unchanged later listed after

end Main

section Cases

def lineage : SessionTree :=
  { entries :=
      [{ id := ['a'], parentId := none, isCurrent := false, isLeaf := false },
        { id := ['b'], parentId := some ['a'], isCurrent := false, isLeaf := false },
        { id := ['c'], parentId := some ['b'], isCurrent := false, isLeaf := true }]
    named := by decide
    distinct := by decide
    acyclic := ⟨fun id => if id = ['a'] then 0 else if id = ['b'] then 1 else 2, by decide⟩ }

def painted : Blobs := fun digest =>
  if digest = paint [1] then some [1] else if digest = paint [2] then some [2] else none

def wrote (path entry : Text) (before after : StateRef) : MutationRecord :=
  { sequence := 1
    operationId := []
    piSessionId := []
    treeEntryId := some entry
    toolCallId := []
    tool := .write
    canonicalPath := path
    before
    after
    state := .reconciled
    toolReportedError := false
    preparedAt := [] }

theorem painted_named (digest : Digest) (data : Buffer) (held : painted digest = some data) :
    paint data = digest := by
  simp only [painted] at held
  split at held
  next same =>
    cases held
    exact same.symm
  next =>
    split at held
    next same =>
      cases held
      exact same.symm
    next => simp at held

theorem painted_apart (digest : Digest) (data stored : Buffer) (known : data = [1] ∨ data = [2])
    (held : painted digest = some stored) (same : paint data = paint stored) : data = stored := by
  have content : stored = [1] ∨ stored = [2] := by
    simp only [painted] at held
    split at held
    · exact Or.inl (Option.some_injective _ held.symm)
    · split at held
      · exact Or.inr (Option.some_injective _ held.symm)
      · simp at held
  rcases known with rfl | rfl <;> rcases content with rfl | rfl <;> first | rfl | (revert same; decide)

def secondEdit : MutationRecord := wrote ['f'] ['c'] (.blob (paint [1])) (.blob (paint [2]))

def edits : List JournalRecord :=
  [.mutation (wrote ['f'] ['b'] .absent (.blob (paint [1]))),
    .mutation (wrote ['g'] ['b'] .absent (.blob (paint [1]))), .mutation secondEdit]

def editedDisk : Disk := fun path =>
  if path = ['f'] then some [2] else if path = ['g'] then some [1] else none

theorem edits_elsewhere {m : MutationRecord} (member : m ∈ getMutations edits) {path : Text}
    (elsewhere : Elsewhere lineage ['b'] path m) : m = secondEdit := by
  obtain ⟨-, id, bound, -, other⟩ := elsewhere
  simp only [edits, getMutations, List.filterMap_cons, List.filterMap_nil, List.mem_cons,
    List.not_mem_nil, or_false] at member
  rcases member with rfl | rfl | rfl
  · cases bound
    exact absurd rfl other
  · cases bound
    exact absurd rfl other
  · rfl

theorem secondEdit_unkept (path : Text) : ¬ Kept lineage ['b'] path secondEdit := by
  have below : lineage.StrictDescendant ['c'] ['b'] := .single ⟨_, rfl, _, rfl, rfl⟩
  intro ⟨_, id, bound, _, above⟩
  cases bound
  exact SessionTree.not_both below above

theorem edits_stored : Stored (getMutations edits) paint painted editedDisk where
  named := painted_named
  kept m member digest referred := by
    simp only [edits, getMutations, List.filterMap_cons, List.filterMap_nil, List.mem_cons,
      List.not_mem_nil, or_false] at member
    rcases member with rfl | rfl | rfl <;> rcases referred with same | same <;> cases same <;> decide
  apart path data digest stored present held same := by
    have known : data = [1] ∨ data = [2] := by
      simp only [editedDisk] at present
      split at present
      · exact Or.inr (Option.some_injective _ present.symm)
      · split at present
        · exact Or.inl (Option.some_injective _ present.symm)
        · simp at present
    exact painted_apart digest data stored known held same

theorem edits_undoable : Undoable lineage ['b'] (getMutations edits) where
  changed m member path kept elsewhere := by
    obtain rfl := edits_elsewhere member elsewhere
    exact absurd kept (secondEdit_unkept path)
  resumes path _ last isLast first isFirst := by
    obtain rfl := edits_elsewhere isFirst.mem.1 isFirst.mem.2
    have here : ['f'] = path := isFirst.mem.2.1
    have member := isLast.mem.1
    have kept := isLast.mem.2
    simp only [edits, getMutations, List.filterMap_cons, List.filterMap_nil, List.mem_cons,
      List.not_mem_nil, or_false] at member
    rcases member with rfl | rfl | rfl
    · rfl
    · exact absurd (kept.1.trans here.symm) (by decide)
    · exact absurd kept (secondEdit_unkept path)
  present path last isLast := by
    obtain rfl := edits_elsewhere isLast.mem.1 isLast.mem.2
    simp [secondEdit, wrote]

theorem rollback_undoes_last_edit :
    Undoes lineage ['b'] (getMutations edits) painted
      (computeRollbackPlan paint editedDisk edits ['b'] (getBranchEntryIds lineage.entries)) editedDisk
      (executeRollback (fun _ => Faults.none) painted editedDisk
        (computeRollbackPlan paint editedDisk edits ['b'] (getBranchEntryIds lineage.entries))
        ['b'] ['c'] [] []).disk :=
  (rollback_undoes_iff lineage ['b'] paint painted editedDisk edits edits_stored ['c'] [] []
    (by decide)).mpr edits_undoable

structure Recorded (tree : SessionTree) (mutations : List MutationRecord) : Prop where
  bound : ∀ m ∈ mutations, ∃ id ∈ m.treeEntryId, id ∈ tree.entries.map (·.id)
  chained : ∀ path, (mutations.filter fun m => m.canonicalPath = path).IsChain
    fun one next => one.after = next.before

def ancestorJournal : List JournalRecord :=
  [.mutation (wrote ['f'] ['a'] .absent (.blob (paint [1]))),
    .mutation (wrote ['g'] ['c'] .absent (.blob (paint [2])))]

def ancestorDisk : Disk := fun path =>
  if path = ['f'] then some [1] else if path = ['g'] then some [2] else none

theorem ancestor_mutation_undone :
    ¬ ∀ (tree : SessionTree) (target : Text) (sha256 : Buffer → Digest) (blobs : Blobs) (disk : Disk)
        (records : List JournalRecord) (leaf transactionId createdAt : Text),
        Recorded tree (getMutations records) → Stored (getMutations records) sha256 blobs disk →
        (computeRollbackPlan sha256 disk records target
          (getBranchEntryIds tree.entries)).eligible = true →
        let plan := computeRollbackPlan sha256 disk records target (getBranchEntryIds tree.entries)
        Undoes tree target (getMutations records) blobs plan disk
          (executeRollback (fun _ => Faults.none) blobs disk plan target leaf transactionId
            createdAt).disk := by
  intro claim
  have undoes := claim lineage ['b'] paint painted ancestorDisk ancestorJournal ['c'] [] [] ?_ ?_
    (by decide)
  · obtain ⟨m, member, here, id, bound, _, strict⟩ := (undoes.paths ['f']).mp (by decide)
    have above : lineage.AtOrBefore ['a'] ['b'] := .single ⟨_, rfl, _, rfl, rfl⟩
    rcases List.mem_cons.mp member with rfl | member
    · cases bound
      exact SessionTree.not_both strict above
    · cases List.mem_singleton.mp member
      exact absurd here (by decide)
  · constructor
    · intro m member
      rcases List.mem_cons.mp member with rfl | member
      · exact ⟨_, rfl, by decide⟩
      · cases List.mem_singleton.mp member
        exact ⟨_, rfl, by decide⟩
    · intro path
      by_cases first : path = ['f']
      · subst first
        decide
      · by_cases second : path = ['g']
        · subst second
          decide
        · simp [ancestorJournal, getMutations, wrote, Ne.symm first, Ne.symm second]
  · constructor
    · exact painted_named
    · intro m member digest referred
      rcases List.mem_cons.mp member with rfl | member
      · rcases referred with same | same <;> cases same
        decide
      · cases List.mem_singleton.mp member
        rcases referred with same | same <;> cases same
        decide
    · intro path data digest stored present held same
      have known : data = [1] ∨ data = [2] := by
        simp only [ancestorDisk] at present
        split at present
        · exact Or.inl (Option.some_injective _ present.symm)
        · split at present
          · exact Or.inr (Option.some_injective _ present.symm)
          · simp at present
      exact painted_apart digest data stored known held same

end Cases

end GrokPi.Rollback
