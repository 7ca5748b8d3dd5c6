import GrokPi.HunkTracker.Actor

set_option autoImplicit false

namespace GrokPi.HunkTracker

section Matching

theorem preserveHunks_append (oldHunks : List Hunk) (claimed : List HunkId) (before later : List Hunk) :
    ∃ taken, preserveHunks oldHunks claimed (before ++ later) =
        preserveHunks oldHunks claimed before ++ preserveHunks oldHunks taken later ∧
      ∀ id, id ∈ taken ↔ id ∈ claimed ∨
        ∃ earlier ∈ before, (findMatchingOldHunk earlier oldHunks).map Hunk.id = some id := by
  induction before generalizing claimed with
  | nil => exact ⟨claimed, rfl, by simp⟩
  | cons earlier before ih =>
      cases matched : findMatchingOldHunk earlier oldHunks with
      | none =>
          obtain ⟨taken, split, members⟩ := ih claimed
          refine ⟨taken, by simp [preserveHunks, matched, split], ?_⟩
          intro id
          simp [members, matched]
      | some best =>
          by_cases claimedBest : best.id ∈ claimed
          · obtain ⟨taken, split, members⟩ := ih claimed
            refine ⟨taken, by simp [preserveHunks, matched, claimedBest, split], ?_⟩
            intro id
            simp only [members, List.mem_cons, exists_eq_or_imp, matched, Option.map_some,
              Option.some.injEq]
            grind
          · obtain ⟨taken, split, members⟩ := ih (best.id :: claimed)
            refine ⟨taken, by simp [preserveHunks, matched, claimedBest, split], ?_⟩
            intro id
            simp only [members, List.mem_cons, exists_eq_or_imp, matched, Option.map_some,
              Option.some.injEq]
            grind

theorem preserveHunks_texts (oldHunks : List Hunk) (claimed : List HunkId) (newHunks : List Hunk) :
    (preserveHunks oldHunks claimed newHunks).map Hunk.texts = newHunks.map Hunk.texts := by
  induction newHunks generalizing claimed with
  | nil => rfl
  | cons new rest ih =>
      simp only [preserveHunks]
      split
      · simp [ih]
      · split
        · simp [ih]
        · simp [ih, Hunk.texts]

def Unclaimed (oldHunks newHunks : List Hunk) (old : Hunk) : Prop :=
  ∀ earlier ∈ newHunks.takeWhile fun new => new.texts ≠ old.texts,
    (findMatchingOldHunk earlier oldHunks).map Hunk.id ≠ some old.id

instance (oldHunks newHunks : List Hunk) (old : Hunk) : Decidable (Unclaimed oldHunks newHunks old) :=
  inferInstanceAs (Decidable (∀ _ ∈ _, _))

/-- The source of the recomputation is that of the hunk, or an external one that yields to an agent. -/
def SourceStays (trigger source : HunkSource) : Prop :=
  trigger = source ∨ (trigger.isExternal = true ∧ source.isAgentEdit = true)

instance (trigger source : HunkSource) : Decidable (SourceStays trigger source) :=
  inferInstanceAs (Decidable (_ ∨ _))

theorem preservedSource_iff (trigger source : HunkSource) :
    preservedSource trigger source = source ↔ SourceStays trigger source := by
  unfold preservedSource SourceStays
  split
  next yields => simp_all
  next stays => simp_all

def HasKept (hunks : List Hunk) (old : Hunk) : Prop :=
  ∃ kept ∈ hunks, kept.id = old.id ∧ kept.texts = old.texts ∧ kept.source = old.source

theorem preserveHunks_keeps_iff {oldHunks newHunks : List Hunk} {path : Text} {trigger : HunkSource}
    {old : Hunk} (member : old ∈ oldHunks) (distinctOld : (oldHunks.map Hunk.texts).Nodup)
    (distinctNew : (newHunks.map Hunk.texts).Nodup) (oldPath : old.path = path)
    (fresh : ∀ new ∈ newHunks, new.id ≠ old.id ∧ new.path = path ∧ new.source = trigger)
    (contained : old.texts ∈ newHunks.map Hunk.texts) :
    HasKept (preserveHunks oldHunks [] newHunks) old ↔
      SourceStays trigger old.source ∧ Unclaimed oldHunks newHunks old := by
  -- The unchanged hunk of the new diff and what stands before it.
  have parts : (newHunks.takeWhile fun new => new.texts ≠ old.texts) ++
      (newHunks.dropWhile fun new => new.texts ≠ old.texts) = newHunks :=
    List.takeWhile_append_dropWhile
  cases rest : newHunks.dropWhile fun new => new.texts ≠ old.texts with
  | nil =>
      obtain ⟨new, within, same⟩ := List.mem_map.mp contained
      have all := List.dropWhile_eq_nil_iff.mp rest new within
      simp [same] at all
  | cons unchanged after =>
      have same : unchanged.texts = old.texts := by
        have stopped := List.head_dropWhile_not (fun new : Hunk => decide (new.texts ≠ old.texts))
          (show newHunks.dropWhile _ ≠ [] by rw [rest]; simp)
        simp only [rest, List.head_cons] at stopped
        simpa using stopped
      rw [rest] at parts
      have known := fresh unchanged (by rw [← parts]; simp)
      have matched := findMatchingOldHunk_texts member distinctOld (oldPath.trans known.2.1.symm) same.symm
      obtain ⟨taken, split, members⟩ := preserveHunks_append oldHunks []
        (newHunks.takeWhile fun new => new.texts ≠ old.texts) (unchanged :: after)
      rw [parts] at split
      have unclaimed : Unclaimed oldHunks newHunks old ↔ old.id ∉ taken := by
        simp [Unclaimed, members]
      have distinct : ((preserveHunks oldHunks [] newHunks).map Hunk.texts).Nodup := by
        rw [preserveHunks_texts]
        exact distinctNew
      rw [unclaimed]
      by_cases claimed : old.id ∈ taken
      · simp only [preserveHunks, matched, claimed, if_true] at split
        constructor
        · intro ⟨kept, within, id, texts, _⟩
          have only := List.inj_on_of_nodup_map distinct within
            (show unchanged ∈ _ by rw [split]; simp) (texts.trans same.symm)
          exact absurd (only ▸ id) known.1
        · intro both
          exact absurd claimed both.2
      · simp only [preserveHunks, matched, claimed, if_false] at split
        rw [known.2.2] at split
        have renamed : { unchanged with
            id := old.id
            source := preservedSource trigger old.source } ∈ preserveHunks oldHunks [] newHunks := by
          rw [split]
          exact List.mem_append_right _ List.mem_cons_self
        rw [← preservedSource_iff]
        constructor
        · intro ⟨kept, within, _, texts, source⟩
          have only := List.inj_on_of_nodup_map distinct within renamed (texts.trans same.symm)
          exact ⟨by rwa [only] at source, claimed⟩
        · intro both
          exact ⟨_, renamed, rfl, same, both.1⟩

end Matching

section Actions

variable {env : Env} {actor after : Actor} {path : Text} {state : FileHunkState} {hunk : Hunk}
  {action : HunkAction}

def Actor.actOnHunk (actor : Actor) (env : Env) (path : Text) (hunk : Hunk) :
    HunkAction → Except HunkActionError Unit × Actor
  | .accept => (.ok (), actor.acceptHunk env path hunk)
  | .reject => actor.rejectHunk env path hunk

def contentsAfter (state : FileHunkState) (hunk : Hunk) :
    HunkAction → Option (FileContentState × FileContentState)
  | .accept =>
      if state.baseline = .missing then none
      else some (state.baseline.mapFull (acceptPatch hunk), state.currentContent)
  | .reject =>
      match rejectAction state hunk with
      | .revertChange patched => some (state.baseline, .full patched)
      | _ => none

def survivors (state : FileHunkState) (hunk : Hunk) : List Hunk := dropHunks state.hunks [hunk.id]

-- The source of the first hunk that is left.
def triggerSource (state : FileHunkState) (hunk : Hunk) : HunkSource :=
  ((survivors state hunk).head?.map Hunk.source).getD .external

def recomputedDiff (env : Env) (actor : Actor) (path : Text) (state : FileHunkState) (hunk : Hunk)
    (action : HunkAction) : Option (List Hunk) :=
  (contentsAfter state hunk action).map fun contents =>
    diffHunks env.diff actor.nextId path contents.1 contents.2 (triggerSource state hunk)

theorem acceptHunk_hunks (env : Env) (hunk : Hunk) (found : actor.fileStates.lookup path = some state) :
    ((actor.acceptHunk env path hunk).fileStates.lookup path).map FileHunkState.hunks =
      some (((recomputedDiff env actor path state hunk .accept).map
        (preserveHunks (survivors state hunk) [])).getD (survivors state hunk)) := by
  simp only [Actor.acceptHunk, found, recomputedDiff, contentsAfter]
  split
  next created => simp [Actor.sendEvents_lookup, survivors]
  next existing =>
    rw [Actor.recomputeRemaining_lookup (Actor.sendEvents_lookup ..)]
    rfl

theorem rejectHunk_hunks (found : actor.fileStates.lookup path = some state)
    (rejected : actor.rejectHunk env path hunk = (.ok (), after)) :
    (∃ newHunks, recomputedDiff env actor path state hunk .reject = some newHunks ∧
      (after.fileStates.lookup path).map FileHunkState.hunks =
        some (preserveHunks (survivors state hunk) [] newHunks)) ∨
    (recomputedDiff env actor path state hunk .reject = none ∧
      ((after.fileStates.lookup path).map FileHunkState.hunks = some (survivors state hunk) ∨
        (after.fileStates.lookup path).map FileHunkState.hunks = some state.hunks)) := by
  simp only [Actor.rejectHunk, found] at rejected
  simp only [recomputedDiff, contentsAfter]
  cases plan : rejectAction state hunk with
  | restoreDeleted baseline =>
      simp only [plan] at rejected
      split at rejected
      next written =>
        rw [← (Prod.mk.inj rejected).2, Actor.sendEvents_lookup]
        exact Or.inr ⟨rfl, Or.inl rfl⟩
      · cases (Prod.mk.inj rejected).1
  | deleteCreated =>
      simp only [plan] at rejected
      split at rejected
      next removed =>
        rw [← (Prod.mk.inj rejected).2, Actor.sendEvents_lookup]
        exact Or.inr ⟨rfl, Or.inl rfl⟩
      · cases (Prod.mk.inj rejected).1
  | revertChange patched =>
      simp only [plan] at rejected
      split at rejected
      next written =>
        rw [← (Prod.mk.inj rejected).2, Actor.recomputeRemaining_lookup (Actor.sendEvents_lookup ..)]
        exact Or.inl ⟨_, rfl, rfl⟩
      · cases (Prod.mk.inj rejected).1
  | noOp =>
      simp only [plan] at rejected
      rw [← (Prod.mk.inj rejected).2, found]
      exact Or.inr ⟨rfl, Or.inr rfl⟩

theorem actOnHunk_hunks (found : actor.fileStates.lookup path = some state)
    (acted : actor.actOnHunk env path hunk action = (.ok (), after)) :
    (∃ newHunks, recomputedDiff env actor path state hunk action = some newHunks ∧
      (after.fileStates.lookup path).map FileHunkState.hunks =
        some (preserveHunks (survivors state hunk) [] newHunks)) ∨
    (recomputedDiff env actor path state hunk action = none ∧
      ((after.fileStates.lookup path).map FileHunkState.hunks = some (survivors state hunk) ∨
        (after.fileStates.lookup path).map FileHunkState.hunks = some state.hunks)) := by
  cases action with
  | reject => exact rejectHunk_hunks found acted
  | accept =>
      have hunks := acceptHunk_hunks env hunk found
      rw [(Prod.mk.inj acted).2] at hunks
      cases diffed : recomputedDiff env actor path state hunk .accept with
      | none => exact Or.inr ⟨rfl, Or.inl (by simpa [diffed] using hunks)⟩
      | some newHunks => exact Or.inl ⟨newHunks, rfl, by simpa [diffed] using hunks⟩

def KeepsAttribution (after : Actor) (path : Text) (others : List Hunk) : Prop :=
  ∃ hunks, (after.fileStates.lookup path).map FileHunkState.hunks = some hunks ∧
    ∀ other ∈ others, HasKept hunks other

structure OwnHunks (actor : Actor) (path : Text) (hunks : List Hunk) : Prop where
  path : ∀ hunk ∈ hunks, hunk.path = path
  known : ∀ hunk ∈ hunks, hunk.id < actor.nextId
  distinct : (hunks.map Hunk.texts).Nodup

structure Unchanged (newHunks others : List Hunk) : Prop where
  contained : ∀ other ∈ others, other.texts ∈ newHunks.map Hunk.texts
  distinct : (newHunks.map Hunk.texts).Nodup

theorem action_keeps_attribution (found : actor.fileStates.lookup path = some state)
    (own : OwnHunks actor path state.hunks)
    (acted : actor.actOnHunk env path hunk action = (.ok (), after))
    (unchanged : ∀ newHunks, recomputedDiff env actor path state hunk action = some newHunks →
      Unchanged newHunks (survivors state hunk)) :
    KeepsAttribution after path (survivors state hunk) ↔
      ∀ newHunks, recomputedDiff env actor path state hunk action = some newHunks →
        ∀ other ∈ survivors state hunk,
          SourceStays (triggerSource state hunk) other.source ∧
            Unclaimed (survivors state hunk) newHunks other := by
  have within : (survivors state hunk).Sublist state.hunks := List.filter_sublist
  rcases actOnHunk_hunks found acted with ⟨newHunks, diffed, hunks⟩ | ⟨undiffed, hunks⟩
  · have keeps : ∀ other ∈ survivors state hunk,
        (HasKept (preserveHunks (survivors state hunk) [] newHunks) other ↔
          SourceStays (triggerSource state hunk) other.source ∧
            Unclaimed (survivors state hunk) newHunks other) := by
      intro other member
      apply preserveHunks_keeps_iff member (own.distinct.sublist (within.map Hunk.texts))
        (unchanged newHunks diffed).distinct (own.path other (within.subset member))
      · intro new newMember
        obtain ⟨contents, -, rfl⟩ := Option.map_eq_some_iff.mp diffed
        obtain ⟨fresh, newPath, source⟩ := diffHunks_mem newMember
        have known := own.known other (within.subset member)
        exact ⟨(Nat.lt_of_lt_of_le known fresh).ne', newPath, source⟩
      · exact (unchanged newHunks diffed).contained other member
    simp only [KeepsAttribution, hunks, diffed, Option.some.injEq, exists_eq_left', forall_eq']
    exact forall₂_congr keeps
  · -- Nothing was recomputed, and the survivors are the same hunks.
    have same : KeepsAttribution after path (survivors state hunk) := by
      rcases hunks with dropped | untouched
      · exact ⟨_, dropped, fun other member => ⟨other, member, rfl, rfl, rfl⟩⟩
      · exact ⟨_, untouched, fun other member => ⟨other, within.subset member, rfl, rfl, rfl⟩⟩
    simp [same, undiffed]

section ThreeHunks

def lineHunk (id : HunkId) (line : Nat) (old new : Text) (source : HunkSource) : Hunk :=
  { id := id
    path := ['f']
    lineInfo :=
      { oldStart := line
        oldCount := 1
        newStart := line
        newCount := 1 }
    source := source
    oldText := some old
    newText := new }

def firstHunk (source : HunkSource) : Hunk := lineHunk 0 1 "a\n".toList "A\n".toList source

-- Three of five lines changed, by three authors.
def threeHunks (first second third : HunkSource) : FileHunkState :=
  { baseline := .full "a\nb\nc\nd\ne\n".toList
    currentContent := .full "A\nb\nC\nd\nE\n".toList
    hunks :=
      [firstHunk first, lineHunk 1 3 "c\n".toList "C\n".toList second,
        lineHunk 2 5 "e\n".toList "E\n".toList third]
    isAgentFile := true
    baselineAccepted := false }

def tracking (state : FileHunkState) : Actor :=
  { (Actor.new [] .agentOnly).setState ['f'] state with nextId := 3 }

theorem tracking_lookup (state : FileHunkState) : (tracking state).fileStates.lookup ['f'] = some state :=
  Actor.setState_lookup ..

-- What is diffed after accepting the first.
def remainingTwo (source : HunkSource) : List Hunk :=
  [lineHunk 3 3 "c\n".toList "C\n".toList source, lineHunk 4 5 "e\n".toList "E\n".toList source]

theorem agent_edit_stays :
    KeepsAttribution
      ((tracking (threeHunks (.agentEdit 0) .external (.agentEdit 1))).actOnHunk (Env.blank .plain) ['f']
        (firstHunk (.agentEdit 0)) .accept).2 ['f']
      (survivors (threeHunks (.agentEdit 0) .external (.agentEdit 1)) (firstHunk (.agentEdit 0))) := by
  have diffed : recomputedDiff (Env.blank .plain) (tracking (threeHunks (.agentEdit 0) .external (.agentEdit 1)))
      ['f'] (threeHunks (.agentEdit 0) .external (.agentEdit 1)) (firstHunk (.agentEdit 0)) .accept =
      some (remainingTwo .external) := by
    decide +kernel
  have own : OwnHunks (tracking (threeHunks (.agentEdit 0) .external (.agentEdit 1))) ['f']
      (threeHunks (.agentEdit 0) .external (.agentEdit 1)).hunks :=
    ⟨by decide +kernel, by decide +kernel, by decide +kernel⟩
  have acted : (tracking (threeHunks (.agentEdit 0) .external (.agentEdit 1))).actOnHunk (Env.blank .plain) ['f']
      (firstHunk (.agentEdit 0)) .accept = (.ok (), _) := rfl
  apply (action_keeps_attribution (tracking_lookup _) own acted ?_).mpr
  · intro newHunks same
    rw [← Option.some.inj (diffed.symm.trans same)]
    decide +kernel
  · intro newHunks same
    rw [← Option.some.inj (diffed.symm.trans same)]
    exact ⟨by decide +kernel, by decide +kernel⟩

theorem external_reattributed :
    recomputedDiff (Env.blank .plain) (tracking (threeHunks .external (.agentEdit 0) .external)) ['f']
      (threeHunks .external (.agentEdit 0) .external) (firstHunk .external) .accept =
        some (remainingTwo (.agentEdit 0)) ∧
    Unchanged (remainingTwo (.agentEdit 0))
      (survivors (threeHunks .external (.agentEdit 0) .external) (firstHunk .external)) ∧
    ¬ KeepsAttribution
      ((tracking (threeHunks .external (.agentEdit 0) .external)).actOnHunk (Env.blank .plain) ['f']
        (firstHunk .external) .accept).2 ['f']
      (survivors (threeHunks .external (.agentEdit 0) .external) (firstHunk .external)) := by
  refine ⟨by decide +kernel, ⟨by decide +kernel, by decide +kernel⟩, ?_⟩
  intro ⟨hunks, found, keeps⟩
  have left : ((((tracking (threeHunks .external (.agentEdit 0) .external)).actOnHunk (Env.blank .plain) ['f']
      (firstHunk .external) .accept).2).fileStates.lookup ['f']).map FileHunkState.hunks =
      some [lineHunk 1 3 "c\n".toList "C\n".toList (.agentEdit 0),
        lineHunk 2 5 "e\n".toList "E\n".toList (.agentEdit 0)] := by
    decide +kernel
  obtain ⟨kept, member, -, -, source⟩ := keeps (lineHunk 2 5 "e\n".toList "E\n".toList .external)
    (by decide +kernel)
  rw [← Option.some.inj (left.symm.trans found)] at member
  rcases List.mem_pair.mp member with rfl | rfl
  all_goals cases source

end ThreeHunks

end Actions

end GrokPi.HunkTracker
