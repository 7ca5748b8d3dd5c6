import GrokPi.HunkTracker.Attribution
import GrokPi.HunkTracker.TurnIndex

set_option autoImplicit false

namespace GrokPi.HunkTracker

section Replay

def replayEvent (present : Finset HunkId) : HunkEvent → Option (Finset HunkId)
  | .hunkAdded _ hunk | .hunkContentChanged _ hunk _ _ _ => some (insert hunk.id present)
  | .hunkRemoved _ id _ => some (present.erase id)
  | .hunkMoved _ id _ => if id ∈ present then some present else none
  | .fileAdded .. | .fileRemoved _ | .baselineUpdated _ => some present

def replay (present : Finset HunkId) : List HunkEvent → Option (Finset HunkId)
  | [] => some present
  | event :: rest => (replayEvent present event).bind (replay · rest)

theorem replay_append (present : Finset HunkId) (first second : List HunkEvent) :
    replay present (first ++ second) = (replay present first).bind (replay · second) := by
  induction first generalizing present with
  | nil => rfl
  | cons event rest ih =>
      simp only [List.cons_append, replay]
      cases replayEvent present event with
      | none => rfl
      | some next => exact ih next

theorem replay_removed (present : Finset HunkId) (path : Text) (reason : HunkRemovalReason)
    (hunks : List Hunk) :
    replay present (hunkRemovedEvents path reason hunks) =
      some (present \ (hunks.map Hunk.id).toFinset) := by
  unfold hunkRemovedEvents
  induction hunks generalizing present with
  | nil => simp [replay]
  | cons hunk rest ih =>
      simp only [List.map_cons, replay, replayEvent, Option.bind_some, ih, Option.some.injEq]
      ext id
      simp only [Finset.mem_sdiff, Finset.mem_erase, List.mem_toFinset, List.toFinset_cons,
        Finset.mem_insert]
      tauto

end Replay

section Events

variable {path : Text} {oldHunks : List Hunk} {trigger : HunkSource}

def Related (newHunks : List Hunk) (old : Hunk) : Prop :=
  ∃ new ∈ newHunks, hunksOverlap old new = true ∨ hunksMatchContent old new = true

def Novel (oldHunks : List Hunk) (new : Hunk) : Prop :=
  ∀ old ∈ oldHunks, hunksMatchContent old new = false

instance (oldHunks : List Hunk) (new : Hunk) : Decidable (Novel oldHunks new) :=
  inferInstanceAs (Decidable (∀ _ ∈ _, _))

instance (newHunks : List Hunk) (old : Hunk) : Decidable (Related newHunks old) :=
  inferInstanceAs (Decidable (∃ _ ∈ _, _))

theorem replay_newHunkEvents {present : Finset HunkId} {new : Hunk}
    (known : ∀ old ∈ oldHunks, hunksMatchContent old new = true → old.id ∈ present) :
    replay present (newHunkEvents path oldHunks trigger new) =
      some (if Novel oldHunks new then insert new.id present else present) := by
  -- A novel hunk is announced; any other is at most moved.
  unfold newHunkEvents
  cases found : oldHunks.find? (hunksMatchContent · new) with
  | some old =>
      have same := List.find?_some found
      have member := List.mem_of_find?_eq_some found
      have repeated : ¬ Novel oldHunks new := fun novel => by simp [novel old member] at same
      simp only [repeated, if_false]
      split
      · simp [replay, replayEvent, known old member same]
      · rfl
  | none =>
      have novel : Novel oldHunks new := by
        intro old member
        simpa using List.find?_eq_none.mp found old member
      simp only [novel, if_true]
      split <;> rfl

theorem replay_newHunks {present : Finset HunkId} {newHunks : List Hunk}
    (known : ∀ old ∈ oldHunks, ∀ new ∈ newHunks, hunksMatchContent old new = true → old.id ∈ present) :
    replay present (newHunks.flatMap (newHunkEvents path oldHunks trigger)) =
      some (present ∪ ((newHunks.filter (Novel oldHunks ·)).map Hunk.id).toFinset) := by
  -- The new hunks that are announced join what the subscriber knows.
  induction newHunks generalizing present with
  | nil => simp [replay]
  | cons new rest ih =>
      have here := @replay_newHunkEvents path oldHunks trigger present new
        fun old member => known old member new List.mem_cons_self
      rw [List.flatMap_cons, replay_append, here, Option.bind_some, ih ?_]
      · by_cases novel : Novel oldHunks new
        · simp [novel, Finset.insert_union, Finset.union_insert]
        · simp [novel]
      · intro old member later within same
        have before := known old member later (List.mem_cons_of_mem _ within) same
        split
        · exact Finset.mem_insert_of_mem before
        · exact before

theorem any_related (newHunks : List Hunk) (old : Hunk) :
    (newHunks.any fun new => hunksOverlap old new || hunksMatchContent old new) =
      decide (Related newHunks old) := by
  rw [Bool.eq_iff_iff, decide_eq_true_iff]
  simp [Related]

theorem replay_hunkDiffEvents {newHunks : List Hunk} (distinct : (oldHunks.map Hunk.id).Nodup) :
    replay (oldHunks.map Hunk.id).toFinset (hunkDiffEvents path oldHunks newHunks trigger) =
      some (((oldHunks.filter (Related newHunks ·)).map Hunk.id).toFinset ∪
        ((newHunks.filter (Novel oldHunks ·)).map Hunk.id).toFinset) := by
  -- After the events of one recomputation: what stays related, and what is novel.
  have staying : (oldHunks.map Hunk.id).toFinset \
        ((oldHunks.filter fun old => !decide (Related newHunks old)).map Hunk.id).toFinset =
      ((oldHunks.filter (Related newHunks ·)).map Hunk.id).toFinset := by
    ext id
    simp only [Finset.mem_sdiff, List.mem_toFinset, List.mem_map, List.mem_filter, not_exists, not_and,
      Bool.not_eq_true', decide_eq_false_iff_not, decide_eq_true_eq]
    constructor
    · rintro ⟨⟨old, member, rfl⟩, kept⟩
      exact ⟨old, ⟨member, by_contra fun unrelated => kept old ⟨member, unrelated⟩ rfl⟩, rfl⟩
    · rintro ⟨old, ⟨member, related⟩, rfl⟩
      refine ⟨⟨old, member, rfl⟩, ?_⟩
      rintro other ⟨among, gone⟩ same
      obtain rfl : other = old := List.inj_on_of_nodup_map distinct among member same
      exact gone related
  simp only [hunkDiffEvents, any_related]
  rw [replay_append, replay_removed, Option.bind_some, staying]
  apply replay_newHunks
  intro old member new within same
  simp only [List.mem_toFinset, List.mem_map, List.mem_filter, decide_eq_true_eq]
  exact ⟨old, ⟨member, new, within, Or.inr same⟩, rfl⟩

end Events

section Heirs

variable {oldHunks newHunks : List Hunk}

def Hunk.shape (hunk : Hunk) : Text × HunkLineInfo × Option Text × Text :=
  (hunk.path, hunk.lineInfo, hunk.oldText, hunk.newText)

theorem hunksMatchContent_shape {old new other : Hunk} (same : new.shape = other.shape) :
    hunksMatchContent old new = hunksMatchContent old other := by
  simp only [Hunk.shape, Prod.mk.injEq] at same
  simp [hunksMatchContent, same]

theorem hunksOverlap_shape {old new other : Hunk} (same : new.shape = other.shape) :
    hunksOverlap old new = hunksOverlap old other := by
  simp only [Hunk.shape, Prod.mk.injEq] at same
  simp [hunksOverlap, same]

theorem Novel.shape {new other : Hunk} (same : new.shape = other.shape) :
    Novel oldHunks new ↔ Novel oldHunks other := by
  simp only [Novel, hunksMatchContent_shape same]

def Taken (oldHunks before : List Hunk) (best : Hunk) : Prop :=
  ∃ earlier ∈ before, findMatchingOldHunk earlier oldHunks = some best

def Inherits (oldHunks before : List Hunk) (new heir : Hunk) : Prop :=
  heir.shape = new.shape ∧
    (heir.id = new.id ∧ (∀ best, findMatchingOldHunk new oldHunks = some best →
        Taken oldHunks before best) ∨
      ∃ best, findMatchingOldHunk new oldHunks = some best ∧ heir.id = best.id ∧
        ¬ Taken oldHunks before best)

theorem preserveHunks_at (distinct : (oldHunks.map Hunk.id).Nodup) (before later : List Hunk)
    (new : Hunk) :
    ∃ heir, (preserveHunks oldHunks [] (before ++ new :: later))[before.length]? = some heir ∧
      Inherits oldHunks before new heir := by
  obtain ⟨taken, split, members⟩ := preserveHunks_append oldHunks [] before (new :: later)
  have claims : ∀ best, findMatchingOldHunk new oldHunks = some best →
      (best.id ∈ taken ↔ Taken oldHunks before best) := by
    intro best matched
    rw [members]
    simp only [List.not_mem_nil, false_or, Taken, Option.map_eq_some_iff]
    constructor
    · rintro ⟨earlier, member, other, found, same⟩
      obtain rfl := List.inj_on_of_nodup_map distinct (findMatchingOldHunk_mem found)
        (findMatchingOldHunk_mem matched) same
      exact ⟨earlier, member, found⟩
    · rintro ⟨earlier, member, found⟩
      exact ⟨earlier, member, best, found, rfl⟩
  have position : (preserveHunks oldHunks [] (before ++ new :: later))[before.length]? =
      (preserveHunks oldHunks taken (new :: later))[0]? := by
    rw [split, List.getElem?_append_right (by rw [preserveHunks_length]), preserveHunks_length,
      Nat.sub_self]
  rw [position]
  cases matched : findMatchingOldHunk new oldHunks with
  | none =>
      refine ⟨new, by simp [preserveHunks, matched], rfl, Or.inl ⟨rfl, ?_⟩⟩
      simp [matched]
  | some best =>
      by_cases claimed : best.id ∈ taken
      · refine ⟨new, by simp [preserveHunks, matched, claimed], rfl, Or.inl ⟨rfl, ?_⟩⟩
        intro other found
        obtain rfl := Option.some.inj (matched.symm.trans found)
        exact (claims best matched).mp claimed
      · exact ⟨{ new with id := best.id, source := preservedSource new.source best.source },
          by simp [preserveHunks, matched, claimed], rfl,
          Or.inr ⟨best, matched, rfl, fun within => claimed ((claims best matched).mpr within)⟩⟩

theorem preserveHunks_origin (distinct : (oldHunks.map Hunk.id).Nodup) {heir : Hunk}
    (member : heir ∈ preserveHunks oldHunks [] newHunks) :
    ∃ before new later, newHunks = before ++ new :: later ∧ Inherits oldHunks before new heir := by
  obtain ⟨index, within, rfl⟩ := List.getElem_of_mem member
  have inside : index < newHunks.length := by rwa [preserveHunks_length] at within
  have split : newHunks = newHunks.take index ++ newHunks[index] :: newHunks.drop (index + 1) := by
    rw [← List.drop_eq_getElem_cons inside, List.take_append_drop]
  obtain ⟨heir, at_index, inherits⟩ :=
    preserveHunks_at distinct (newHunks.take index) (newHunks.drop (index + 1)) newHunks[index]
  rw [← split, List.length_take_of_le (Nat.le_of_lt inside), List.getElem?_eq_getElem within] at at_index
  obtain rfl := Option.some.inj at_index
  exact ⟨_, _, _, split, inherits⟩

theorem preserveHunks_heir (distinct : (oldHunks.map Hunk.id).Nodup) {before later : List Hunk}
    {new : Hunk} (split : newHunks = before ++ new :: later) :
    ∃ heir ∈ preserveHunks oldHunks [] newHunks, Inherits oldHunks before new heir := by
  obtain ⟨heir, at_index, inherits⟩ := preserveHunks_at distinct before later new
  exact ⟨heir, split ▸ List.mem_of_getElem? at_index, inherits⟩

/-- No two old hunks become one, and no later hunk with the same best match repeats an old one. -/
structure OneToOne (oldHunks newHunks : List Hunk) : Prop where
  continued : ∀ old ∈ oldHunks, Related newHunks old →
    ∃ new ∈ newHunks, findMatchingOldHunk new oldHunks = some old
  unrepeated : newHunks.Pairwise fun earlier later =>
    ∀ old ∈ oldHunks, findMatchingOldHunk earlier oldHunks = some old →
      findMatchingOldHunk later oldHunks = some old → Novel oldHunks later

instance (oldHunks newHunks : List Hunk) : Decidable (OneToOne oldHunks newHunks) :=
  decidable_of_iff
    ((∀ old ∈ oldHunks, Related newHunks old →
        ∃ new ∈ newHunks, findMatchingOldHunk new oldHunks = some old) ∧
      newHunks.Pairwise fun earlier later =>
        ∀ old ∈ oldHunks, findMatchingOldHunk earlier oldHunks = some old →
          findMatchingOldHunk later oldHunks = some old → Novel oldHunks later)
    ⟨fun both => ⟨both.1, both.2⟩, fun both => ⟨both.continued, both.unrepeated⟩⟩

theorem novel_of_unmatched {new : Hunk} (none : findMatchingOldHunk new oldHunks = none) :
    Novel oldHunks new := by
  intro old member
  by_contra same
  have matching : old ∈ oldHunks.filter (hunksMatchContent · new) :=
    List.mem_filter.mpr ⟨member, by simpa using same⟩
  obtain ⟨first, rest, split⟩ := List.exists_cons_of_ne_nil (List.ne_nil_of_mem matching)
  simp [findMatchingOldHunk, split, minByKey] at none

theorem related_of_matched {new best : Hunk} (member : new ∈ newHunks)
    (found : findMatchingOldHunk new oldHunks = some best) : Related newHunks best := by
  refine ⟨new, member, ?_⟩
  simp only [findMatchingOldHunk] at found
  split at found
  · exact Or.inr (List.mem_filter.mp (minByKey_mem found)).2
  · exact Or.inl (List.mem_filter.mp (maxByKey_mem found)).2

theorem Related.shape {heirs : List Hunk} (same : heirs.map Hunk.shape = newHunks.map Hunk.shape)
    (old : Hunk) : Related heirs old ↔ Related newHunks old := by
  have half : ∀ {first second : List Hunk}, first.map Hunk.shape = second.map Hunk.shape →
      Related first old → Related second old := by
    rintro first second same ⟨new, member, relates⟩
    have shaped : new.shape ∈ second.map Hunk.shape := same ▸ List.mem_map_of_mem member
    obtain ⟨other, within, like⟩ := List.mem_map.mp shaped
    refine ⟨other, within, ?_⟩
    rwa [hunksOverlap_shape like, hunksMatchContent_shape like]
  exact ⟨half same, half same.symm⟩

theorem preserveHunks_shape (claimed : List HunkId) :
    (preserveHunks oldHunks claimed newHunks).map Hunk.shape = newHunks.map Hunk.shape := by
  induction newHunks generalizing claimed with
  | nil => rfl
  | cons new rest ih =>
      simp only [preserveHunks]
      split
      · simp [ih]
      · split
        · simp [ih]
        · simp [ih, Hunk.shape]

section Exact

variable (distinct : (oldHunks.map Hunk.id).Nodup) (numbered : (newHunks.map Hunk.id).Nodup)
variable (fresh : ∀ id ∈ newHunks.map Hunk.id, id ∉ oldHunks.map Hunk.id)

include distinct fresh

theorem old_id_kept_iff {old : Hunk} (member : old ∈ oldHunks) :
    old.id ∈ (preserveHunks oldHunks [] newHunks).map Hunk.id ↔
      ∃ new ∈ newHunks, findMatchingOldHunk new oldHunks = some old := by
  constructor
  · intro kept
    obtain ⟨heir, within, same⟩ := List.mem_map.mp kept
    obtain ⟨before, new, later, split, _, ⟨own, _⟩ | ⟨best, found, inherited, _⟩⟩ :=
      preserveHunks_origin distinct within
    · have among : new ∈ newHunks := by simp [split]
      exact absurd (List.mem_map_of_mem member)
        (fresh old.id (same ▸ own ▸ List.mem_map_of_mem among))
    · obtain rfl := List.inj_on_of_nodup_map distinct (findMatchingOldHunk_mem found) member
        (inherited.symm.trans same)
      exact ⟨new, by simp [split], found⟩
  · rintro ⟨new, among, found⟩
    have here : (newHunks.find? fun new => findMatchingOldHunk new oldHunks = some old).isSome := by
      rw [List.find?_isSome]
      exact ⟨new, among, by simpa using found⟩
    obtain ⟨first, is_first⟩ := Option.isSome_iff_exists.mp here
    obtain ⟨matches_first, before, later, split, none_before⟩ := List.find?_eq_some_iff_append.mp is_first
    obtain ⟨heir, within, _, ⟨_, taken⟩ | ⟨best, matched, inherited, _⟩⟩ :=
      preserveHunks_heir distinct split
    · obtain ⟨earlier, member_before, same⟩ := taken old (by simpa using matches_first)
      exact absurd same (by simpa using none_before earlier member_before)
    · obtain rfl : old = best := by
        have same : findMatchingOldHunk first oldHunks = some old := by simpa using matches_first
        exact Option.some.inj (same.symm.trans matched)
      exact inherited ▸ List.mem_map_of_mem within

include numbered

theorem new_id_announced_iff :
    (∀ heir ∈ preserveHunks oldHunks [] newHunks,
        heir.id ∈ ((oldHunks.filter (Related newHunks ·)).map Hunk.id).toFinset ∪
          (((preserveHunks oldHunks [] newHunks).filter (Novel oldHunks ·)).map Hunk.id).toFinset) ↔
      newHunks.Pairwise fun earlier later =>
        ∀ old ∈ oldHunks, findMatchingOldHunk earlier oldHunks = some old →
          findMatchingOldHunk later oldHunks = some old → Novel oldHunks later := by
  have heirs_distinct : ((preserveHunks oldHunks [] newHunks).map Hunk.id).Nodup :=
    preserveHunks_nodup numbered fresh
  constructor
  · intro announced
    rw [List.pairwise_iff_getElem]
    intro first second firstWithin secondWithin ordered old member firstFound secondFound
    have split : newHunks =
        newHunks.take second ++ newHunks[second] :: newHunks.drop (second + 1) := by
      rw [← List.drop_eq_getElem_cons secondWithin, List.take_append_drop]
    have before : newHunks[first] ∈ newHunks.take second := by
      rw [List.mem_take_iff_getElem]
      exact ⟨first, by omega, rfl⟩
    obtain ⟨heir, within, shape, ⟨own, _⟩ | ⟨best, found, _, untaken⟩⟩ :=
      preserveHunks_heir distinct split
    · have present := announced heir within
      simp only [Finset.mem_union, List.mem_toFinset, List.mem_map, List.mem_filter,
        decide_eq_true_eq] at present
      rcases present with ⟨other, ⟨among, _⟩, same⟩ | ⟨other, ⟨among, novel⟩, same⟩
      · have new_id : heir.id ∈ newHunks.map Hunk.id :=
          own ▸ List.mem_map_of_mem (List.getElem_mem secondWithin)
        exact absurd (same ▸ List.mem_map_of_mem among) (fresh heir.id new_id)
      · obtain rfl := List.inj_on_of_nodup_map heirs_distinct among within same
        exact (Novel.shape shape).mp novel
    · obtain rfl := Option.some.inj (found.symm.trans secondFound)
      exact absurd ⟨_, before, firstFound⟩ untaken
  · intro unrepeated heir within
    obtain ⟨before, new, later, split, shape, ⟨own, taken⟩ | ⟨best, found, inherited, _⟩⟩ :=
      preserveHunks_origin distinct within
    · -- The hunk kept its own identifier, so it must be novel.
      have novel : Novel oldHunks new := by
        cases found : findMatchingOldHunk new oldHunks with
        | none => exact novel_of_unmatched found
        | some best =>
            obtain ⟨earlier, member, same⟩ := taken best found
            rw [split, List.pairwise_append] at unrepeated
            exact unrepeated.2.2 earlier member new List.mem_cons_self best
              (findMatchingOldHunk_mem found) same found
      refine Finset.mem_union_right _ (List.mem_toFinset.mpr (List.mem_map_of_mem ?_))
      exact List.mem_filter.mpr ⟨within, by simpa using (Novel.shape shape).mpr novel⟩
    · refine Finset.mem_union_left _ (List.mem_toFinset.mpr ?_)
      rw [inherited]
      refine List.mem_map_of_mem (List.mem_filter.mpr ⟨findMatchingOldHunk_mem found, ?_⟩)
      have among : new ∈ newHunks := by simp [split]
      simpa using related_of_matched among found

theorem replay_recompute_iff {path : Text} {trigger : HunkSource} :
    replay (oldHunks.map Hunk.id).toFinset
        (hunkDiffEvents path oldHunks (preserveHunks oldHunks [] newHunks) trigger) =
      some ((preserveHunks oldHunks [] newHunks).map Hunk.id).toFinset ↔
    OneToOne oldHunks newHunks := by
  have related : ∀ old, Related (preserveHunks oldHunks [] newHunks) old ↔ Related newHunks old :=
    Related.shape (preserveHunks_shape [])
  rw [replay_hunkDiffEvents distinct, Option.some.injEq]
  simp only [related]
  rw [Finset.Subset.antisymm_iff]
  have kept := fun old member => @old_id_kept_iff oldHunks newHunks distinct fresh old member
  have announced := new_id_announced_iff distinct numbered fresh
  constructor
  · rintro ⟨below, above⟩
    refine ⟨?_, announced.mp ?_⟩
    · intro old member relates
      refine (kept old member).mp (List.mem_toFinset.mp (below (Finset.mem_union_left _ ?_)))
      exact List.mem_toFinset.mpr (List.mem_map_of_mem (List.mem_filter.mpr
        ⟨member, by simpa using relates⟩))
    · intro heir within
      exact above (List.mem_toFinset.mpr (List.mem_map_of_mem within))
  · intro exact_match
    constructor
    · intro id present
      rcases Finset.mem_union.mp present with stays | novel
      · obtain ⟨old, among, rfl⟩ := List.mem_map.mp (List.mem_toFinset.mp stays)
        obtain ⟨member, relates⟩ := List.mem_filter.mp among
        exact List.mem_toFinset.mpr ((kept old member).mpr
          (exact_match.continued old member (by simpa using relates)))
      · obtain ⟨heir, among, rfl⟩ := List.mem_map.mp (List.mem_toFinset.mp novel)
        exact List.mem_toFinset.mpr (List.mem_map_of_mem (List.mem_filter.mp among).1)
    · intro id present
      obtain ⟨heir, within, rfl⟩ := List.mem_map.mp (List.mem_toFinset.mp present)
      exact announced.mpr exact_match.unrepeated heir within

end Exact

end Heirs

section Runs

structure Recomputation where
  diff : LineDiff
  newCurrent : Option FileContentState
  source : HunkSource

structure Subscription where
  actor : Actor
  present : Option (Finset HunkId)

def Subscription.step (path : Text) (subscription : Subscription) (call : Recomputation) : Subscription :=
  let actor := subscription.actor.recomputeHunks call.diff path call.newCurrent call.source
  { actor := actor
    present := subscription.present.bind
      (replay · (actor.events.drop subscription.actor.events.length)) }

def Subscription.Agrees (path : Text) (subscription : Subscription) : Prop :=
  ∃ state, subscription.actor.fileStates.lookup path = some state ∧
    subscription.present = some (state.hunks.map Hunk.id).toFinset

def Subscription.OneToOne (path : Text) (subscription : Subscription) (call : Recomputation) : Prop :=
  ∀ state ∈ subscription.actor.fileStates.lookup path,
    HunkTracker.OneToOne state.hunks (diffHunks call.diff subscription.actor.nextId path state.baseline
      (call.newCurrent.getD .missing) call.source)

def Subscription.InStep (path : Text) (subscription : Subscription) : Prop :=
  ∃ state, subscription.actor.fileStates.lookup path = some state ∧
    subscription.present = some (state.hunks.map Hunk.id).toFinset ∧
    (state.hunks.map Hunk.id).Nodup ∧
    ∀ id ∈ state.hunks.map Hunk.id, id < subscription.actor.nextId

variable {path : Text} {subscription : Subscription}

theorem diffHunks_fresh {diff : LineDiff} {nextId : HunkId} {baseline current : FileContentState}
    {source : HunkSource} {oldHunks : List Hunk} (below : ∀ id ∈ oldHunks.map Hunk.id, id < nextId) :
    ∀ id ∈ (diffHunks diff nextId path baseline current source).map Hunk.id,
      id ∉ oldHunks.map Hunk.id := by
  intro id new old
  rw [diffHunks_ids, List.mem_range'_1] at new
  exact absurd (below id old) (Nat.not_lt.mpr new.1)

theorem step_state (call : Recomputation) {state : FileHunkState}
    (found : subscription.actor.fileStates.lookup path = some state)
    (present : subscription.present = some (state.hunks.map Hunk.id).toFinset) :
    let newHunks := diffHunks call.diff subscription.actor.nextId path state.baseline
      (call.newCurrent.getD .missing) call.source
    let heirs := preserveHunks state.hunks [] newHunks
    (∃ next, (subscription.step path call).actor.fileStates.lookup path = some next ∧
        next.hunks = heirs) ∧
      (subscription.step path call).present =
        replay (state.hunks.map Hunk.id).toFinset (hunkDiffEvents path state.hunks heirs call.source) ∧
      (subscription.step path call).actor.nextId = subscription.actor.nextId + newHunks.length := by
  refine ⟨⟨_, Actor.recomputeHunks_lookup found _ _ _, rfl⟩, ?_, ?_⟩
  · simp only [Subscription.step, present, Option.bind_some, Actor.recomputeHunks, found,
      List.drop_left]
  · simp only [Subscription.step, Actor.recomputeHunks, found]

theorem step_agrees_iff (inStep : subscription.InStep path) (call : Recomputation) :
    subscription.OneToOne path call ↔ (subscription.step path call).Agrees path := by
  obtain ⟨state, found, present, distinct, below⟩ := inStep
  obtain ⟨⟨next, after, hunks⟩, replayed, _⟩ := step_state call found present
  have numbered : ((diffHunks call.diff subscription.actor.nextId path state.baseline
      (call.newCurrent.getD .missing) call.source).map Hunk.id).Nodup := by
    rw [diffHunks_ids]
    exact List.nodup_range'
  have exact_match := @replay_recompute_iff state.hunks _ distinct numbered (diffHunks_fresh below) path
    call.source
  unfold Subscription.OneToOne Subscription.Agrees
  simp only [found, Option.mem_some_iff, forall_eq', after, Option.some.injEq, exists_eq_left', hunks,
    replayed]
  exact exact_match.symm

theorem step_inStep (inStep : subscription.InStep path) (call : Recomputation)
    (agrees : (subscription.step path call).Agrees path) : (subscription.step path call).InStep path := by
  obtain ⟨state, found, present, distinct, below⟩ := inStep
  obtain ⟨⟨next, after, hunks⟩, _, nextId⟩ := step_state call found present
  obtain ⟨last, is_last, knows⟩ := agrees
  obtain rfl := Option.some.inj (after.symm.trans is_last)
  refine ⟨next, after, knows, ?_, ?_⟩
  · rw [hunks]
    exact preserveHunks_nodup (by rw [diffHunks_ids]; exact List.nodup_range') (diffHunks_fresh below)
  · intro id member
    rw [hunks] at member
    rw [nextId]
    rcases preserveHunks_ids member with new | ⟨old, _⟩
    · rw [diffHunks_ids, List.mem_range'_1] at new
      exact new.2
    · exact Nat.lt_add_right _ (below id old)

/-- From no hunks on, the events tell the hunks of the file after every recomputation exactly when
every diff matches the hunks before it one to one. -/
theorem events_reconstruct_hunks {actor : Actor} {state : FileHunkState}
    (found : actor.fileStates.lookup path = some state) (empty : state.hunks = [])
    (calls : List Recomputation) :
    Runs.Along (Subscription.step path) (fun subscription call => subscription.OneToOne path call)
        { actor := actor, present := some ∅ } calls ↔
      Runs.Along (Subscription.step path)
        (fun subscription call => (subscription.step path call).Agrees path)
        { actor := actor, present := some ∅ } calls := by
  have start : Subscription.InStep path { actor := actor, present := some ∅ } :=
    ⟨state, found, by simp [empty], by simp [empty], by simp [empty]⟩
  exact @Runs.along_iff_always _ _ (Subscription.step path) _ _ (Subscription.InStep path)
    (fun _ call inStep => step_agrees_iff inStep call)
    (fun _ call inStep agrees => step_inStep inStep call agrees) _ calls start

end Runs

section Example

instance (path : Text) (subscription : Subscription) (call : Recomputation) :
    Decidable (subscription.OneToOne path call) :=
  inferInstanceAs (Decidable (∀ state ∈ subscription.actor.fileStates.lookup path, _))

instance (path : Text) (subscription : Subscription) : Decidable (subscription.Agrees path) :=
  inferInstanceAs (Decidable (∃ state ∈ subscription.actor.fileStates.lookup path, _))

def linesText (lines : List String) : Text := Text.unlines (lines.map String.toList)

def fiveLines : FileHunkState :=
  { baseline := .full (linesText ["1", "2", "3", "4", "5"])
    currentContent := .full (linesText ["1", "2", "3", "4", "5"])
    hunks := []
    isAgentFile := true
    baselineAccepted := false }

def fiveLineActor : Actor := (Actor.new "/w".toList .agentOnly).setState "/w/f".toList fiveLines

def agentWrites (lines : List String) (promptIndex : Nat) : Recomputation :=
  { diff := .plain
    newCurrent := some (.full (linesText lines))
    source := .agentEdit promptIndex }

theorem events_reconstruct_hunks_apart :
    Runs.Along (Subscription.step "/w/f".toList)
      (fun subscription call => (subscription.step "/w/f".toList call).Agrees "/w/f".toList)
      { actor := fiveLineActor, present := some ∅ }
      [agentWrites ["1", "x", "3", "y", "5"] 0, agentWrites ["1", "x", "3", "z", "5"] 1] :=
  (events_reconstruct_hunks (Actor.setState_lookup _ _ fiveLines) rfl _).mp (by decide +kernel)

theorem merged_hunk_stays_known :
    ¬ ((Runs.run (Subscription.step "/w/f".toList) { actor := fiveLineActor, present := some ∅ }
      [agentWrites ["1", "x", "3", "y", "5"] 0, agentWrites ["1", "x", "w", "y", "5"] 1]).Agrees
        "/w/f".toList) := by
  decide +kernel

end Example

end GrokPi.HunkTracker
