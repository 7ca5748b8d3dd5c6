import GrokPi.HunkTracker.Mutations
import GrokPi.Shared.Runs
import GrokPi.Shared.SecondaryIndex

set_option autoImplicit false

namespace GrokPi.HunkTracker

section Invariant

def TurnIndexExact (actor : Actor) : Prop :=
  ∀ promptIndex id, id ∈ actor.turnIndex promptIndex ↔
    ∃ path state, actor.fileStates.lookup path = some state ∧
      ∃ hunk ∈ state.hunks, hunk.id = id ∧ hunk.source = .agentEdit promptIndex

def Actor.store (actor : Actor) (path : Text) : List Hunk :=
  ((actor.fileStates.lookup path).map FileHunkState.hunks).getD []

def Hunk.promptIndex (hunk : Hunk) : Option Nat := hunk.source.promptIndex

theorem Actor.mem_store {actor : Actor} {path : Text} {hunk : Hunk} :
    hunk ∈ actor.store path ↔ ∃ state, actor.fileStates.lookup path = some state ∧ hunk ∈ state.hunks := by
  unfold Actor.store
  cases actor.fileStates.lookup path <;> simp

theorem Hunk.promptIndex_iff (hunk : Hunk) (promptIndex : Nat) :
    hunk.promptIndex = some promptIndex ↔ hunk.source = .agentEdit promptIndex := by
  unfold Hunk.promptIndex HunkSource.promptIndex
  cases hunk.source <;> simp

theorem turnIndexExact_iff (actor : Actor) :
    TurnIndexExact actor ↔
      SecondaryIndex.Exact Hunk.id Hunk.promptIndex actor.store actor.turnIndex := by
  simp only [TurnIndexExact, SecondaryIndex.Exact, Actor.mem_store, Hunk.promptIndex_iff]
  apply forall_congr'
  intro promptIndex
  apply forall_congr'
  intro id
  apply iff_congr Iff.rfl
  constructor
  · intro ⟨path, state, found, hunk, member, entry⟩
    exact ⟨path, hunk, ⟨state, found, member⟩, entry⟩
  · intro ⟨path, hunk, ⟨state, found, member⟩, entry⟩
    exact ⟨path, state, found, hunk, member, entry⟩

theorem removeFromTurnIndex_eq :
    removeFromTurnIndex = SecondaryIndex.remove Hunk.id Hunk.promptIndex := by
  funext index hunk
  unfold removeFromTurnIndex SecondaryIndex.remove Hunk.promptIndex
  cases hunk.source.promptIndex <;> rfl

theorem insertIntoTurnIndex_eq :
    insertIntoTurnIndex = SecondaryIndex.insert Hunk.id Hunk.promptIndex := by
  funext index hunk
  unfold insertIntoTurnIndex SecondaryIndex.insert Hunk.promptIndex
  cases hunk.source.promptIndex <;> rfl

structure Indexed (actor : Actor) : Prop where
  exact : SecondaryIndex.Exact Hunk.id Hunk.promptIndex actor.store actor.turnIndex
  distinct : SecondaryIndex.Distinct Hunk.id actor.store
  known : ∀ path, ∀ hunk ∈ actor.store path, hunk.id < actor.nextId

def FileHunkState.Patchable (state : FileHunkState) : Prop :=
  state.hunks = [] ∨
    match state.baseline, state.currentContent with
    | .full _, .full _ => True
    | .full _, .missing => True
    | .missing, .full _ => state.hunks.length ≤ 1
    | _, _ => False

def PatchableAt (actor : Actor) (path : Text) : Prop :=
  ∀ state, actor.fileStates.lookup path = some state → state.Patchable

structure CoherentBut (path : Text) (actor : Actor) : Prop where
  indexed : Indexed actor
  others : ∀ other, other ≠ path → PatchableAt actor other

structure Coherent (actor : Actor) : Prop where
  indexed : Indexed actor
  patchable : ∀ path, PatchableAt actor path

variable {actor : Actor} {path : Text} {state : FileHunkState}

theorem Coherent.congr {after : Actor} (coherent : Coherent actor) (states : after.fileStates = actor.fileStates)
    (index : after.turnIndex = actor.turnIndex) (ids : after.nextId = actor.nextId) : Coherent after := by
  -- The invariant reads the files, the index and the next identifier only.
  have store : after.store = actor.store := by
    funext path
    rw [Actor.store, states, Actor.store]
  refine ⟨⟨?_, ?_, ?_⟩, ?_⟩
  · rw [store, index]
    exact coherent.indexed.exact
  · rw [store]
    exact coherent.indexed.distinct
  · rw [store, ids]
    exact coherent.indexed.known
  · intro path
    rw [PatchableAt, states]
    exact coherent.patchable path

theorem Coherent.sendEvents (coherent : Coherent actor) (events : List HunkEvent) :
    Coherent (actor.sendEvents events) := coherent.congr rfl rfl rfl

theorem CoherentBut.sendEvents (coherent : CoherentBut path actor) (events : List HunkEvent) :
    CoherentBut path (actor.sendEvents events) :=
  ⟨⟨coherent.indexed.exact, coherent.indexed.distinct, coherent.indexed.known⟩, coherent.others⟩

theorem Coherent.but (coherent : Coherent actor) (path : Text) : CoherentBut path actor :=
  ⟨coherent.indexed, fun other _ => coherent.patchable other⟩

theorem CoherentBut.finish (coherent : CoherentBut path actor) (here : PatchableAt actor path) :
    Coherent actor := by
  refine ⟨coherent.indexed, ?_⟩
  intro other
  by_cases same : other = path
  · exact same ▸ here
  · exact coherent.others other same

theorem Actor.setState_lookup_ne {other : Text} (different : other ≠ path) :
    (actor.setState path state).fileStates.lookup other = actor.fileStates.lookup other :=
  AList.lookup_insert_ne different

theorem Actor.setState_store :
    (actor.setState path state).store = Function.update actor.store path state.hunks := by
  funext other
  by_cases same : other = path
  · subst same
    simp [Actor.store]
  · simp [Actor.store, Actor.setState_lookup_ne same, same]

theorem patchableAt_setState (patchable : state.Patchable) : PatchableAt (actor.setState path state) path := by
  intro found same
  rw [Actor.setState_lookup] at same
  exact Option.some.inj same ▸ patchable

theorem Actor.store_eq (found : actor.fileStates.lookup path = some state) : actor.store path = state.hunks := by
  simp [Actor.store, found]

structure Counted (actor : Actor) (hunks : List Hunk) (counted : Actor) : Prop where
  states : counted.fileStates = actor.fileStates
  index : counted.turnIndex = hunks.foldl removeFromTurnIndex actor.turnIndex
  ids : counted.nextId = actor.nextId

theorem Coherent.drop {hunks : List Hunk} {next : FileHunkState} {counted : Actor} (coherent : Coherent actor)
    (gone : Counted actor hunks counted) (within : hunks ⊆ actor.store path)
    (left : next.hunks = dropHunks (actor.store path) (hunks.map Hunk.id)) :
    CoherentBut path (counted.setState path next) := by
  have store : (counted.setState path next).store =
      Function.update actor.store path (dropHunks (actor.store path) (hunks.map Hunk.id)) := by
    have same : counted.store = actor.store := by
      funext other
      rw [Actor.store, gone.states, Actor.store]
    rw [Actor.setState_store, left, same]
  have sub : (dropHunks (actor.store path) (hunks.map Hunk.id)).Sublist (actor.store path) :=
    List.filter_sublist
  refine ⟨⟨?_, ?_, ?_⟩, ?_⟩
  · rw [store]
    change SecondaryIndex.Exact _ _ _ counted.turnIndex
    rw [gone.index, removeFromTurnIndex_eq]
    apply coherent.indexed.exact.drop coherent.indexed.distinct within
    intro hunk
    simp [dropHunks]
  · rw [store]
    exact coherent.indexed.distinct.shrink sub
  · intro other hunk member
    rw [store] at member
    change _ < counted.nextId
    rw [gone.ids]
    by_cases same : other = path
    · subst same
      rw [Function.update_self] at member
      exact coherent.indexed.known other hunk (sub.subset member)
    · rw [Function.update_of_ne same] at member
      exact coherent.indexed.known other hunk member
  · intro other different
    unfold PatchableAt
    rw [Actor.setState_lookup_ne different, gone.states]
    exact coherent.patchable other

theorem dropHunks_nil (hunks : List Hunk) : dropHunks hunks [] = hunks := by
  simp [dropHunks]

theorem Coherent.setState (coherent : Coherent actor) {next : FileHunkState}
    (same : next.hunks = actor.store path) : CoherentBut path (actor.setState path next) :=
  coherent.drop ⟨rfl, rfl, rfl⟩ (List.nil_subset _) (same.trans (dropHunks_nil _).symm)

end Invariant

section Recompute

theorem preserveHunks_length (oldHunks : List Hunk) (claimed : List HunkId) (newHunks : List Hunk) :
    (preserveHunks oldHunks claimed newHunks).length = newHunks.length := by
  induction newHunks generalizing claimed with
  | nil => rfl
  | cons new rest ih => grind [preserveHunks]

theorem preserveHunks_ids {oldHunks : List Hunk} {claimed : List HunkId} {newHunks : List Hunk} {id : HunkId}
    (member : id ∈ (preserveHunks oldHunks claimed newHunks).map Hunk.id) :
    id ∈ newHunks.map Hunk.id ∨ (id ∈ oldHunks.map Hunk.id ∧ id ∉ claimed) := by
  -- Every identifier is new or that of an old hunk nobody claimed before.
  induction newHunks generalizing claimed with
  | nil => cases member
  | cons new rest ih =>
      unfold preserveHunks at member
      cases matched : findMatchingOldHunk new oldHunks with
      | none =>
          simp only [matched, List.map_cons, List.mem_cons] at member ⊢
          rcases member with first | later
          · exact Or.inl (Or.inl first)
          · exact (ih later).imp_left Or.inr
      | some best =>
          have old : best.id ∈ oldHunks.map Hunk.id := List.mem_map_of_mem (findMatchingOldHunk_mem matched)
          by_cases taken : best.id ∈ claimed
          · simp only [matched, taken, if_true, List.map_cons, List.mem_cons] at member ⊢
            rcases member with first | later
            · exact Or.inl (Or.inl first)
            · exact (ih later).imp_left Or.inr
          · simp only [matched, taken, if_false, List.map_cons, List.mem_cons] at member ⊢
            rcases member with first | later
            · exact Or.inr (first ▸ ⟨old, taken⟩)
            · refine (ih later).imp Or.inr fun both => ⟨both.1, fun within => both.2 ?_⟩
              exact List.mem_cons_of_mem _ within

theorem preserveHunks_nodup {oldHunks : List Hunk} {claimed : List HunkId} {newHunks : List Hunk}
    (nodup : (newHunks.map Hunk.id).Nodup) (fresh : ∀ id ∈ newHunks.map Hunk.id, id ∉ oldHunks.map Hunk.id) :
    ((preserveHunks oldHunks claimed newHunks).map Hunk.id).Nodup := by
  induction newHunks generalizing claimed with
  | nil => exact List.nodup_nil
  | cons new rest ih =>
      simp only [List.map_cons, List.nodup_cons, List.mem_cons, forall_eq_or_imp] at nodup fresh
      have keepsNew : ∀ claimed, new.id ∉ (preserveHunks oldHunks claimed rest).map Hunk.id := by
        intro claimed member
        rcases preserveHunks_ids member with later | old
        · exact nodup.1 later
        · exact fresh.1 old.1
      unfold preserveHunks
      cases matched : findMatchingOldHunk new oldHunks with
      | none => exact List.nodup_cons.mpr ⟨keepsNew claimed, ih nodup.2 fresh.2⟩
      | some best =>
          have old : best.id ∈ oldHunks.map Hunk.id := List.mem_map_of_mem (findMatchingOldHunk_mem matched)
          by_cases taken : best.id ∈ claimed
          · simp only [taken, if_true]
            exact List.nodup_cons.mpr ⟨keepsNew claimed, ih nodup.2 fresh.2⟩
          · simp only [taken, if_false]
            refine List.nodup_cons.mpr ⟨?_, ih nodup.2 fresh.2⟩
            intro member
            rcases preserveHunks_ids member with later | claimedNow
            · exact fresh.2 _ later old
            · exact claimedNow.2 List.mem_cons_self

variable {actor : Actor} {path : Text}

theorem Actor.recomputeHunks_lookup_ne {other : Text} (different : other ≠ path) (diff : LineDiff)
    (newCurrent : Option FileContentState) (source : HunkSource) :
    (actor.recomputeHunks diff path newCurrent source).fileStates.lookup other =
      actor.fileStates.lookup other := by
  unfold Actor.recomputeHunks
  cases actor.fileStates.lookup path with
  | none => rfl
  | some state => exact AList.lookup_insert_ne different

theorem recomputeHunks_spec {state : FileHunkState} (found : actor.fileStates.lookup path = some state)
    (diff : LineDiff) (newCurrent : Option FileContentState) (source : HunkSource) :
    (actor.recomputeHunks diff path newCurrent source).store =
        Function.update actor.store path (preserveHunks (actor.store path) []
          (diffHunks diff actor.nextId path state.baseline (newCurrent.getD .missing) source)) ∧
      (actor.recomputeHunks diff path newCurrent source).turnIndex =
        (preserveHunks (actor.store path) []
          (diffHunks diff actor.nextId path state.baseline (newCurrent.getD .missing) source)).foldl
          insertIntoTurnIndex ((actor.store path).foldl removeFromTurnIndex actor.turnIndex) ∧
      (actor.recomputeHunks diff path newCurrent source).nextId = actor.nextId +
        (diffHunks diff actor.nextId path state.baseline (newCurrent.getD .missing) source).length := by
  rw [Actor.store_eq found]
  unfold Actor.recomputeHunks
  rw [found]
  exact ⟨Actor.setState_store, rfl, rfl⟩

theorem Indexed.recomputeHunks (indexed : Indexed actor) (diff : LineDiff)
    (newCurrent : Option FileContentState) (source : HunkSource) :
    Indexed (actor.recomputeHunks diff path newCurrent source) := by
  cases found : actor.fileStates.lookup path with
  | none => simpa only [Actor.recomputeHunks, found] using indexed
  | some state =>
      have spec := recomputeHunks_spec found diff newCurrent source
      -- What the diff brings is numbered from the next identifier on.
      have fresh : ∀ id ∈ (diffHunks diff actor.nextId path state.baseline (newCurrent.getD .missing) source).map
          Hunk.id, actor.nextId ≤ id ∧
            id < (actor.recomputeHunks diff path newCurrent source).nextId := by
        intro id member
        rwa [diffHunks_ids, List.mem_range'_1, ← spec.2.2] at member
      have old : ∀ other, ∀ hunk ∈ actor.store other, hunk.id < actor.nextId := indexed.known
      have ids : ∀ hunk ∈ preserveHunks (actor.store path) []
          (diffHunks diff actor.nextId path state.baseline (newCurrent.getD .missing) source),
          (∃ before ∈ actor.store path, before.id = hunk.id) ∨
            (actor.nextId ≤ hunk.id ∧ hunk.id < (actor.recomputeHunks diff path newCurrent source).nextId) := by
        intro hunk member
        rcases preserveHunks_ids (List.mem_map_of_mem member) with new | kept
        · exact Or.inr (fresh hunk.id new)
        · exact Or.inl (List.mem_map.mp kept.1)
      refine ⟨?_, ?_, ?_⟩
      · rw [spec.1, spec.2.1, removeFromTurnIndex_eq, insertIntoTurnIndex_eq]
        exact indexed.exact.replace indexed.distinct path _
      · rw [spec.1]
        apply indexed.distinct.replace
        · apply preserveHunks_nodup
          · rw [diffHunks_ids]
            exact List.nodup_range'
          · intro id new kept
            obtain ⟨before, member, rfl⟩ := List.mem_map.mp kept
            exact absurd (old path before member) (Nat.not_lt.mpr (fresh _ new).1)
        · intro hunk member
          apply (ids hunk member).imp_right
          intro new other before memberBefore same
          exact absurd (old other before memberBefore) (Nat.not_lt.mpr (same ▸ new.1))
      · intro other hunk member
        rw [spec.1] at member
        have grows : actor.nextId ≤ (actor.recomputeHunks diff path newCurrent source).nextId := by
          rw [spec.2.2]
          exact Nat.le_add_right _ _
        by_cases same : other = path
        · subst same
          rw [Function.update_self] at member
          rcases ids hunk member with ⟨before, memberBefore, sameId⟩ | new
          · exact sameId ▸ Nat.lt_of_lt_of_le (old other before memberBefore) grows
          · exact new.2
        · rw [Function.update_of_ne same] at member
          exact Nat.lt_of_lt_of_le (old other hunk member) grows

theorem patchable_preserved (diff : LineDiff) (nextId : HunkId) (path : Text) (state : FileHunkState)
    (current : FileContentState) (source : HunkSource) :
    FileHunkState.Patchable
      { state with
        currentContent := current
        hunks := preserveHunks state.hunks [] (diffHunks diff nextId path state.baseline current source) } := by
  unfold FileHunkState.Patchable diffHunks
  split
  next old new full => exact Or.inr (by simp [full])
  next old full => exact Or.inr (by simp [full])
  next new missing =>
    right
    simp only [missing, preserveHunks_length]
    split <;> simp
  · exact Or.inl rfl

theorem CoherentBut.recomputeHunks (coherent : CoherentBut path actor) (diff : LineDiff)
    (newCurrent : Option FileContentState) (source : HunkSource) :
    Coherent (actor.recomputeHunks diff path newCurrent source) := by
  refine ⟨coherent.indexed.recomputeHunks diff newCurrent source, ?_⟩
  intro other
  by_cases same : other = path
  · subst same
    intro state found
    cases before : actor.fileStates.lookup other with
    | none =>
        rw [Actor.recomputeHunks, before] at found
        rw [before] at found
        cases found
    | some old =>
        rw [Actor.recomputeHunks_lookup before] at found
        rw [← Option.some.inj found]
        exact patchable_preserved ..
  · unfold PatchableAt
    rw [Actor.recomputeHunks_lookup_ne same]
    exact coherent.others other same

end Recompute

section Files

variable {actor : Actor} {path : Text} {state : FileHunkState}

theorem Coherent.addFile (coherent : Coherent actor) (untracked : actor.fileStates.lookup path = none)
    (baseline current : FileContentState) (isAgentFile : Bool) :
    Coherent (actor.addFile path baseline current isAgentFile) := by
  have empty : actor.store path = [] := by simp [Actor.store, untracked]
  unfold Actor.addFile
  apply Coherent.sendEvents
  apply CoherentBut.finish (coherent.setState empty.symm)
  exact patchableAt_setState (Or.inl rfl)

def hasAgentEdits (hunks : List Hunk) : Bool := hunks.any (·.source.isAgentEdit)

theorem removeAll_external {hunks : List Hunk} (external : hasAgentEdits hunks = false) (index : TurnIndex) :
    hunks.foldl removeFromTurnIndex index = index := by
  induction hunks generalizing index with
  | nil => rfl
  | cons hunk rest ih =>
      simp only [hasAgentEdits, List.any_cons, Bool.or_eq_false_iff] at external
      have same : removeFromTurnIndex index hunk = index := by
        unfold removeFromTurnIndex HunkSource.promptIndex
        cases shape : hunk.source <;> simp_all [HunkSource.isAgentEdit]
      rw [List.foldl_cons, same]
      exact ih external.2 index

theorem Coherent.clear {next : FileHunkState} (coherent : Coherent actor)
    (external : hasAgentEdits (actor.store path) = false) (none' : next.hunks = []) :
    Coherent (actor.setState path next) := by
  apply CoherentBut.finish (coherent.drop ⟨rfl, (removeAll_external external _).symm, rfl⟩ (List.Subset.refl _)
    (none'.trans (dropHunks_self _).symm))
  exact patchableAt_setState (Or.inl none')

def Actor.SafeWrite (actor : Actor) (path content : Text) : Prop :=
  (classifyString content).isDiffable = true ∨ hasAgentEdits (actor.store path) = false

theorem Coherent.recordAgentWrite (coherent : Coherent actor) (env : Env) {content : Text}
    (safe : actor.SafeWrite path content) (promptIndex : Nat) (previousContent : Option Text) :
    Coherent (actor.recordAgentWrite env path content promptIndex previousContent) := by
  unfold Actor.recordAgentWrite
  by_cases diffable : (classifyString content).isDiffable = true
  · simp only [diffable, if_true]
    cases found : actor.fileStates.lookup path with
    | none => exact ((coherent.addFile found ..).but path).recomputeHunks ..
    | some state =>
        apply CoherentBut.recomputeHunks
        apply coherent.setState
        exact (Actor.store_eq found).symm
  · simp only [diffable]
    cases found : actor.fileStates.lookup path with
    | none => exact coherent.addFile found ..
    | some state => exact coherent.clear (safe.resolve_left diffable) rfl

def Actor.SafeChange (actor : Actor) (env : Env) (path : Text) (preloadedBaseline : Option FileContentState) :
    Prop :=
  ∀ state, actor.fileStates.lookup path = some state → state.baselineAccepted = true →
    actor.contentMatchesHead path (env.readFile path) (preloadedBaseline.getD (env.readBaseline path)) = true →
    hasAgentEdits state.hunks = false

theorem Coherent.processFileChange (coherent : Coherent actor) {env : Env}
    {preloadedBaseline : Option FileContentState} (safe : actor.SafeChange env path preloadedBaseline) :
    Coherent (actor.processFileChange env path preloadedBaseline) := by
  unfold Actor.processFileChange
  cases found : actor.fileStates.lookup path with
  | none =>
      simp only
      split
      · exact coherent
      · split
        · exact coherent
        · split
          · exact ((coherent.addFile found ..).but path).recomputeHunks ..
          · split
            · exact ((coherent.addFile found ..).but path).recomputeHunks ..
            · exact coherent.addFile found ..
  | some state =>
      simp only
      split
      next restored =>
        apply coherent.clear _ rfl
        rw [Actor.store_eq found]
        exact safe state found restored.1 restored.2
      · exact (coherent.but path).recomputeHunks ..

def Actor.SafeChanges (env : Env) : (Text → Option FileContentState) → List Text → Actor → Prop
  | _, [], _ => True
  | baselines, path :: rest, actor =>
      actor.SafeChange env path (baselines path) ∧
        Actor.SafeChanges env (Function.update baselines path none) rest
          (actor.processFileChange env path (baselines path))

theorem Coherent.processFileChanges {env : Env} {baselines : Text → Option FileContentState}
    {paths : List Text} (coherent : Coherent actor) (safe : Actor.SafeChanges env baselines paths actor) :
    Coherent (Actor.processFileChanges env baselines paths actor) := by
  induction paths generalizing baselines actor with
  | nil => exact coherent
  | cons path rest ih => exact ih (coherent.processFileChange safe.1) safe.2

def Actor.SafeDeletion (actor : Actor) (env : Env) (path : Text) : Prop :=
  env.exists' path = true → actor.SafeChange env path none

theorem Coherent.handleFileDeleted (coherent : Coherent actor) {env : Env}
    (safe : actor.SafeDeletion env path) : Coherent (actor.handleFileDeleted env path) := by
  unfold Actor.handleFileDeleted
  split
  · split
    next present => exact coherent.processFileChange (safe present)
    · exact (coherent.but path).recomputeHunks ..
  next untracked =>
    have missing : actor.fileStates.lookup path = none := by
      simpa [Actor.tracks] using untracked
    split
    · exact coherent
    · split
      · exact coherent
      · split
        · exact coherent
        · exact ((coherent.addFile missing ..).but path).recomputeHunks ..

end Files

section Baselines

variable {actor : Actor} {path : Text} {state : FileHunkState}

theorem Coherent.dropFile (coherent : Coherent actor) (path : Text) : Coherent (actor.dropFile path) := by
  unfold Actor.dropFile
  cases found : actor.fileStates.lookup path with
  | none => exact coherent
  | some state =>
      have store : ∀ after : Actor, after.fileStates = actor.fileStates.erase path →
          after.store = Function.update actor.store path [] := by
        intro after states
        funext other
        by_cases same : other = path
        · subst same
          simp [Actor.store, states, AList.lookup_erase]
        · rw [Function.update_of_ne same, Actor.store, Actor.store, states, AList.lookup_erase_ne same]
      apply Coherent.sendEvents
      refine ⟨⟨?_, ?_, ?_⟩, ?_⟩
      · rw [store _ rfl]
        change SecondaryIndex.Exact _ _ _ (state.hunks.foldl removeFromTurnIndex actor.turnIndex)
        rw [← Actor.store_eq found, removeFromTurnIndex_eq]
        exact coherent.indexed.exact.clear coherent.indexed.distinct path
      · rw [store _ rfl]
        exact coherent.indexed.distinct.shrink (List.nil_sublist _)
      · intro other hunk member
        rw [store _ rfl] at member
        by_cases same : other = path
        · simp [same] at member
        · rw [Function.update_of_ne same] at member
          exact coherent.indexed.known other hunk member
      · intro other later present
        change (actor.fileStates.erase path).lookup other = some later at present
        by_cases same : other = path
        · rw [same, AList.lookup_erase] at present
          cases present
        · rw [AList.lookup_erase_ne same] at present
          exact coherent.patchable other later present

theorem Coherent.supersede {next : FileHunkState} (coherent : Coherent actor)
    (found : actor.fileStates.lookup path = some state) (none' : next.hunks = []) :
    Coherent ((actor.setState path next).supersede path state.hunks) := by
  have within : state.hunks ⊆ actor.store path := by
    rw [Actor.store_eq found]
    exact List.Subset.refl _
  have left : next.hunks = dropHunks (actor.store path) (state.hunks.map Hunk.id) := by
    rw [Actor.store_eq found, dropHunks_self, none']
  have gone : Counted actor state.hunks
      { actor with turnIndex := state.hunks.foldl removeFromTurnIndex actor.turnIndex } := ⟨rfl, rfl, rfl⟩
  have cleared := coherent.drop gone within left
  exact (cleared.finish (patchableAt_setState (Or.inl none'))).congr rfl rfl rfl

theorem Coherent.resetBaseline (coherent : Coherent actor) (path : Text) :
    Coherent (actor.resetBaseline path) := by
  unfold Actor.resetBaseline
  cases found : actor.fileStates.lookup path with
  | none => exact coherent
  | some state => exact (coherent.supersede found rfl).sendEvents _

theorem Coherent.refreshPath (coherent : Coherent actor) (env : Env) (path : Text)
    (baseline current : FileContentState) : Coherent (actor.refreshPath env path baseline current) := by
  unfold Actor.refreshPath
  cases found : actor.fileStates.lookup path with
  | none => exact coherent
  | some state =>
      simp only
      split
      · split
        · exact (coherent.supersede found rfl).sendEvents _
        · exact coherent.dropFile path
      · apply Coherent.sendEvents
        apply CoherentBut.recomputeHunks
        apply coherent.setState
        exact (Actor.store_eq found).symm

theorem Coherent.foldl {Item : Type} {act : Actor → Item → Actor}
    (preserved : ∀ current item, Coherent current → Coherent (act current item)) (items : List Item)
    (coherent : Coherent actor) : Coherent (items.foldl act actor) :=
  Runs.run_invariant act preserved actor items coherent

theorem Coherent.refreshPaths (coherent : Coherent actor) (env : Env) (paths : List Text) :
    Coherent (actor.refreshPaths env paths) :=
  Coherent.foldl (fun _ path before => before.refreshPath env path _ _) paths coherent

def Unaccepted (actor : Actor) (path : Text) : Prop :=
  ∀ state, actor.fileStates.lookup path = some state → state.baselineAccepted = false

theorem unaccepted_setState {next : FileHunkState} (given : next.baselineAccepted = false) :
    ∀ other, Unaccepted actor other → Unaccepted (actor.setState path next) other := by
  intro other unaccepted found same
  by_cases here : other = path
  · rw [here, Actor.setState_lookup] at same
    exact Option.some.inj same ▸ given
  · rw [Actor.setState_lookup_ne here] at same
    exact unaccepted found same

theorem unaccepted_recomputeHunks {diff : LineDiff} {newCurrent : Option FileContentState}
    {source : HunkSource} :
    ∀ other, Unaccepted actor other → Unaccepted (actor.recomputeHunks diff path newCurrent source) other := by
  intro other unaccepted found same
  by_cases here : other = path
  · subst here
    cases before : actor.fileStates.lookup other with
    | none =>
        rw [Actor.recomputeHunks, before] at same
        rw [before] at same
        cases same
    | some old =>
        rw [Actor.recomputeHunks_lookup before] at same
        rw [← Option.some.inj same]
        exact unaccepted old before
  · rw [Actor.recomputeHunks_lookup_ne here] at same
    exact unaccepted found same

theorem unaccepted_processFileChange {env : Env} {preloadedBaseline : Option FileContentState} :
    ∀ other, Unaccepted actor other →
      Unaccepted (actor.processFileChange env path preloadedBaseline) other := by
  intro other unaccepted
  have added : ∀ baseline current, Unaccepted (actor.addFile path baseline current false) other :=
    fun baseline current => unaccepted_setState rfl other unaccepted
  unfold Actor.processFileChange
  cases found : actor.fileStates.lookup path with
  | none =>
      simp only
      split
      · exact unaccepted
      · split
        · exact unaccepted
        · split
          · exact unaccepted_recomputeHunks other (added _ _)
          · split
            · exact unaccepted_recomputeHunks other (added _ _)
            · exact added _ _
  | some state =>
      simp only
      split
      · exact unaccepted_setState rfl other unaccepted
      · exact unaccepted_recomputeHunks other unaccepted

theorem coherent_trackAll {env : Env} {paths : List Text} (coherent : Coherent actor)
    (unaccepted : ∀ path ∈ paths, Unaccepted actor path) :
    Coherent (paths.foldl (fun current path => current.handleFileChange env path) actor) := by
  induction paths generalizing actor with
  | nil => exact coherent
  | cons path rest ih =>
      simp only [List.mem_cons, forall_eq_or_imp] at unaccepted
      apply ih
      · apply coherent.processFileChange
        intro state found accepted
        simp [unaccepted.1 state found] at accepted
      · intro other member
        exact unaccepted_processFileChange other (unaccepted.2 other member)

theorem Coherent.refreshGitDirtyCache (coherent : Coherent actor) (env : Env) :
    Coherent (actor.refreshGitDirtyCache env) := by
  unfold Actor.refreshGitDirtyCache
  cases env.gitStatus with
  | none => exact coherent
  | some status =>
      obtain ⟨dirty, staged⟩ := status
      have cached : Coherent { actor with
          gitDirtyCache := dirty
          gitStagedCache := staged } := coherent.congr rfl rfl rfl
      simp only
      split
      · rw [← List.foldl_map]
        apply coherent_trackAll cached
        intro path member state found
        obtain ⟨relative, within, rfl⟩ := List.mem_map.mp member
        have untracked := List.of_mem_filter within
        change actor.fileStates.lookup _ = some state at found
        simp [Actor.tracks, found] at untracked
      · exact cached

theorem Coherent.refreshAllBaselinesExcept (coherent : Coherent actor) (env : Env) (skip : List Text) :
    Coherent (actor.refreshAllBaselinesExcept env skip) := by
  unfold Actor.refreshAllBaselinesExcept
  split
  · exact coherent
  · split
    · exact coherent
    · apply Coherent.refreshPaths
      have synced : Coherent { actor with
          repoSyncState := env.repoSyncState.getD actor.repoSyncState } := coherent.congr rfl rfl rfl
      unfold Actor.refreshScan
      split
      · exact synced.refreshGitDirtyCache env
      · split
        · exact synced.congr rfl rfl rfl
        · exact synced.refreshGitDirtyCache env

theorem Coherent.setMode (coherent : Coherent actor) (env : Env) (mode : TrackingMode) :
    Coherent (actor.setMode env mode) := by
  have switched : Coherent { actor with mode := mode } := coherent.congr rfl rfl rfl
  unfold Actor.setMode
  simp only
  split
  · exact switched.refreshGitDirtyCache env
  · exact Coherent.foldl (fun _ path before => before.dropFile path) _ switched
  · exact switched

end Baselines

section Actions

variable {actor counted : Actor} {env : Env} {path : Text} {state : FileHunkState} {hunks : List Hunk}

theorem acceptHunk_eq_batch (env : Env) (hunk : Hunk) :
    actor.acceptHunk env path hunk = actor.acceptHunksBatch env path [hunk] := by
  unfold Actor.acceptHunk Actor.acceptHunksBatch
  cases actor.fileStates.lookup path with
  | none => rfl
  | some state => simp [sortFromEnd, hunkRemovedEvents]

theorem rejectHunk_eq_batch (env : Env) (hunk : Hunk) :
    actor.rejectHunk env path hunk = actor.rejectHunksBatch env path [hunk] := by
  unfold Actor.rejectHunk Actor.rejectHunksBatch rejectAction
  cases actor.fileStates.lookup path with
  | none => rfl
  | some state =>
      cases shape : state.currentContent <;> cases before : state.baseline <;>
        simp [sortFromEnd, hunkRemovedEvents, shape, before]

def rejectSucceeds (env : Env) (path : Text) (state : FileHunkState) : Bool :=
  match state.currentContent, state.baseline with
  | .missing, .full _ => env.write path
  | .full _, .missing => env.remove path
  | .full _, _ => env.write path
  | _, _ => true

def Actor.actionSucceeds (actor : Actor) (env : Env) (action : HunkAction) (path : Text) : Bool :=
  match action with
  | .accept => true
  | .reject => ((actor.fileStates.lookup path).map (rejectSucceeds env path)).getD true

theorem Coherent.acceptHunksBatch (coherent : Coherent actor) (gone : Counted actor hunks counted)
    (found : actor.fileStates.lookup path = some state) (some' : hunks ≠ []) (within : hunks ⊆ state.hunks) :
    Coherent (counted.acceptHunksBatch env path hunks) := by
  unfold Actor.acceptHunksBatch
  rw [if_neg some', gone.states, found]
  simp only
  have inStore : hunks ⊆ actor.store path := by rwa [Actor.store_eq found]
  have left : dropHunks state.hunks (hunks.map Hunk.id) =
      dropHunks (actor.store path) (hunks.map Hunk.id) := by rw [Actor.store_eq found]
  split
  next created =>
    apply Coherent.sendEvents
    apply CoherentBut.finish (coherent.drop gone inStore left)
    apply patchableAt_setState
    have patchable := (coherent.patchable path state found).resolve_left
      fun none' => some' (List.subset_nil.mp (none' ▸ within))
    right
    cases shape : state.currentContent <;> simp_all
  · apply CoherentBut.recomputeHunks
    exact (coherent.drop gone inStore left).sendEvents _

theorem Coherent.ofCounted (coherent : Coherent actor) (gone : Counted actor hunks counted)
    (external : hasAgentEdits hunks = false) : Coherent counted :=
  coherent.congr gone.states (gone.index.trans (removeAll_external external _)) gone.ids

theorem dropHunks_short {few : List Hunk} (short : few.length ≤ 1) (some' : hunks ≠ []) (within : hunks ⊆ few) :
    dropHunks few (hunks.map Hunk.id) = [] := by
  obtain ⟨hunk, rest, rfl⟩ := List.exists_cons_of_ne_nil some'
  have one : few = [hunk] := by
    have member := within List.mem_cons_self
    obtain ⟨only, rfl⟩ := List.length_eq_one_iff.mp
      (Nat.le_antisymm short (List.length_pos_of_mem member))
    rw [List.mem_singleton.mp member]
  simp [one, dropHunks]

theorem Coherent.rejectHunksBatch (coherent : Coherent actor) (gone : Counted actor hunks counted)
    (found : actor.fileStates.lookup path = some state) (some' : hunks ≠ []) (within : hunks ⊆ state.hunks)
    (safe : rejectSucceeds env path state = true ∨ hasAgentEdits hunks = false) :
    Coherent (counted.rejectHunksBatch env path hunks).2 := by
  have inStore : hunks ⊆ actor.store path := by rwa [Actor.store_eq found]
  have left : dropHunks state.hunks (hunks.map Hunk.id) =
      dropHunks (actor.store path) (hunks.map Hunk.id) := by rw [Actor.store_eq found]
  have patchable := (coherent.patchable path state found).resolve_left
    fun none' => some' (List.subset_nil.mp (none' ▸ within))
  -- A failing write or deletion leaves the counted actor behind.
  have failed : rejectSucceeds env path state = false → Coherent counted := by
    intro fails
    exact coherent.ofCounted gone (safe.resolve_left (by simp [fails]))
  unfold Actor.rejectHunksBatch
  rw [if_neg some', gone.states, found]
  simp only
  cases new : state.currentContent with
  | missing =>
      cases old : state.baseline with
      | full baseline =>
          simp only
          split
          · apply Coherent.sendEvents
            apply CoherentBut.finish (coherent.drop gone inStore left)
            exact patchableAt_setState (Or.inr (by simp))
          next unwritten => exact failed (by simpa [rejectSucceeds, new, old] using unwritten)
      | _ => simp [new, old] at patchable
  | full current =>
      cases old : state.baseline with
      | missing =>
          simp only
          split
          · apply Coherent.sendEvents
            apply CoherentBut.finish (coherent.drop gone inStore left)
            apply patchableAt_setState
            simp only [new, old] at patchable
            exact Or.inl (dropHunks_short patchable some' within)
          next unremoved => exact failed (by simpa [rejectSucceeds, new, old] using unremoved)
      | full baseline =>
          simp only
          split
          · apply CoherentBut.recomputeHunks
            exact (coherent.drop gone inStore left).sendEvents _
          next unwritten => exact failed (by simpa [rejectSucceeds, new, old] using unwritten)
      | _ => simp [new, old] at patchable
  | _ => simp [new] at patchable

theorem Coherent.actOnBatch (coherent : Coherent actor) (action : HunkAction)
    (found : actor.fileStates.lookup path = some state) (some' : hunks ≠ []) (within : hunks ⊆ state.hunks)
    (safe : actor.actionSucceeds env action path = true ∨ hasAgentEdits hunks = false) :
    Coherent (actor.actOnBatch env action path hunks).2 := by
  have spec := countHunks_spec action hunks actor
  have gone : Counted actor hunks (hunks.foldl (fun actor hunk => actor.countHunk action hunk) actor) :=
    ⟨spec.1, spec.2.1, spec.2.2⟩
  cases action with
  | accept => exact coherent.acceptHunksBatch gone found some' within
  | reject =>
      apply coherent.rejectHunksBatch gone found some' within
      simpa [Actor.actionSucceeds, found] using safe

theorem actOnBatch_lookup_ne {other : Text} (action : HunkAction) (different : other ≠ path) :
    (actor.actOnBatch env action path hunks).2.fileStates.lookup other = actor.fileStates.lookup other := by
  have states := (countHunks_spec action hunks actor).1
  have set : ∀ (counted : Actor) (next : FileHunkState) (events : List HunkEvent),
      ((counted.setState path next).sendEvents events).fileStates.lookup other =
        counted.fileStates.lookup other := fun _ _ _ => Actor.setState_lookup_ne different
  cases action with
  | accept =>
      simp only [Actor.actOnBatch, Actor.acceptHunksBatch, states]
      split
      · rw [states]
      · cases found : actor.fileStates.lookup path with
        | none => simp only [states]
        | some state =>
            simp only
            split
            · rw [set, states]
            · rw [Actor.recomputeRemaining, Actor.recomputeHunks_lookup_ne different, set, states]
  | reject =>
      simp only [Actor.actOnBatch, Actor.rejectHunksBatch, states]
      split
      · rw [states]
      · cases found : actor.fileStates.lookup path with
        | none => simp only [states]
        | some state =>
            simp only
            split
            · split
              · rw [set, states]
              · rw [states]
            · split
              · rw [set, states]
              · rw [states]
            · split
              · rw [Actor.recomputeRemaining, Actor.recomputeHunks_lookup_ne different, set, states]
              · rw [states]
            · rw [states]

variable {action : HunkAction}

theorem actOnBatch_error (some' : hunks ≠ []) (fails : actor.actionSucceeds env action path = false) :
    ∃ error, (actor.actOnBatch env action path hunks).1 = .error error := by
  have states := (countHunks_spec action hunks actor).1
  cases action with
  | accept => cases fails
  | reject =>
      cases found : actor.fileStates.lookup path with
      | none => simp [Actor.actionSucceeds, found] at fails
      | some state =>
          simp only [Actor.actionSucceeds, found, Option.map_some, Option.getD_some] at fails
          simp only [Actor.actOnBatch, Actor.rejectHunksBatch, states, if_neg some', found]
          cases new : state.currentContent <;> cases old : state.baseline <;>
            simp_all [rejectSucceeds]

def Actor.SafeBatch (actor : Actor) (env : Env) (action : HunkAction) : List (Text × List Hunk) → Prop
  | [] => True
  | (path, hunks) :: rest =>
      if actor.actionSucceeds env action path then actor.SafeBatch env action rest
      else hasAgentEdits hunks = false

instance safeBatch_decidable (actor : Actor) (env : Env) (action : HunkAction) :
    ∀ files, Decidable (actor.SafeBatch env action files)
  | [] => inferInstanceAs (Decidable True)
  | (path, hunks) :: rest =>
      have := safeBatch_decidable actor env action rest
      inferInstanceAs (Decidable (if actor.actionSucceeds env action path then actor.SafeBatch env action rest
        else hasAgentEdits hunks = false))

theorem SafeBatch.congr {after : Actor} {files : List (Text × List Hunk)}
    (same : ∀ path ∈ files.map Prod.fst, after.fileStates.lookup path = actor.fileStates.lookup path)
    (safe : actor.SafeBatch env action files) : after.SafeBatch env action files := by
  induction files with
  | nil => trivial
  | cons file rest ih =>
      simp only [List.map_cons, List.mem_cons, forall_eq_or_imp] at same
      have succeeds : after.actionSucceeds env action file.1 = actor.actionSucceeds env action file.1 := by
        unfold Actor.actionSucceeds
        rw [same.1]
      unfold Actor.SafeBatch at safe ⊢
      rw [succeeds]
      split
      next goes => exact ih same.2 (by simpa [goes] using safe)
      next fails => simpa [fails] using safe

theorem Coherent.applyActionBatch {files : List (Text × List Hunk)}
    (coherent : Coherent actor) (apart : (files.map Prod.fst).Nodup)
    (stored : ∀ file ∈ files, file.2 ≠ [] ∧ file.2 ⊆ actor.store file.1)
    (safe : actor.SafeBatch env action files) : Coherent (actor.applyActionBatch env action files).2 := by
  induction files generalizing actor with
  | nil => exact coherent
  | cons file rest ih =>
      obtain ⟨path, hunks⟩ := file
      simp only [List.map_cons, List.nodup_cons, List.mem_cons, forall_eq_or_imp] at apart stored
      obtain ⟨⟨some', within⟩, others⟩ := stored
      obtain ⟨hunk, member⟩ := List.exists_mem_of_ne_nil hunks some'
      obtain ⟨state, found, -⟩ := Actor.mem_store.mp (within member)
      rw [Actor.store_eq found] at within
      simp only [Actor.SafeBatch] at safe
      have acted : Coherent (actor.actOnBatch env action path hunks).2 := by
        apply coherent.actOnBatch action found some' within
        by_cases succeeds : actor.actionSucceeds env action path = true
        · exact Or.inl succeeds
        · exact Or.inr (by simpa [succeeds] using safe)
      unfold Actor.applyActionBatch
      cases result : actor.actOnBatch env action path hunks with
      | mk outcome after =>
          rw [result] at acted
          cases outcome with
          | error error => exact acted
          | ok done =>
              have succeeds : actor.actionSucceeds env action path = true := by
                by_contra fails
                obtain ⟨error, same⟩ := actOnBatch_error some' (Bool.eq_false_iff.mpr fails)
                rw [result] at same
                cases same
              have frame : ∀ other ∈ rest.map Prod.fst,
                  after.fileStates.lookup other = actor.fileStates.lookup other := by
                intro other listed
                have different : other ≠ path := fun same => apart.1 (same ▸ listed)
                have untouched : (actor.actOnBatch env action path hunks).2.fileStates.lookup other =
                    actor.fileStates.lookup other := actOnBatch_lookup_ne action different
                rwa [result] at untouched
              apply ih acted apart.2
              · intro other listed
                refine ⟨(others other listed).1, ?_⟩
                rw [Actor.store, frame other.1 (List.mem_map_of_mem listed)]
                exact (others other listed).2
              · rw [if_pos succeeds] at safe
                exact SafeBatch.congr frame safe

theorem findHunk_some {id : HunkId} {hunk : Hunk} (found : actor.findHunk env id = some (path, hunk)) :
    hunk ∈ actor.store path := by
  obtain ⟨here, -, within⟩ := List.exists_of_findSome?_eq_some found
  cases present : actor.fileStates.lookup here with
  | none => simp [present] at within
  | some state =>
      simp only [present, Option.bind_some, Option.map_eq_some_iff, Prod.mk.injEq] at within
      obtain ⟨candidate, matched, samePath, sameHunk⟩ := within
      rw [← samePath, ← sameHunk, Actor.store_eq present]
      exact List.mem_of_find?_eq_some matched

theorem Coherent.applyHunkAction {id : HunkId} (coherent : Coherent actor)
    (safe : ∀ path hunk, actor.findHunk env id = some (path, hunk) →
      actor.SafeBatch env action [(path, [hunk])]) :
    Coherent (actor.applyHunkAction env id action).2 := by
  unfold Actor.applyHunkAction
  cases found : actor.findHunk env id with
  | none => exact coherent
  | some at' =>
      obtain ⟨path, hunk⟩ := at'
      obtain ⟨state, present, member⟩ := Actor.mem_store.mp (findHunk_some found)
      have one := safe path hunk found
      have acted : Coherent (actor.actOnBatch env action path [hunk]).2 := by
        apply coherent.actOnBatch action present (by simp) (by simpa using member)
        by_cases succeeds : actor.actionSucceeds env action path = true
        · exact Or.inl succeeds
        · exact Or.inr (by simpa [Actor.SafeBatch, succeeds] using one)
      cases action with
      | accept => simpa only [Actor.actOnBatch, List.foldl, acceptHunk_eq_batch] using acted
      | reject => simpa only [Actor.actOnBatch, List.foldl, rejectHunk_eq_batch] using acted

theorem Coherent.applyFileAction (coherent : Coherent actor)
    (safe : actor.SafeBatch env action [(path, actor.store path)]) :
    Coherent (actor.applyFileAction env path action).2 := by
  unfold Actor.applyFileAction
  cases found : actor.fileStates.lookup path with
  | none => exact coherent
  | some state =>
      simp only
      split
      · exact coherent
      next some' =>
        rw [Actor.store_eq found] at safe
        apply coherent.applyActionBatch (by simp) _ safe
        intro file member
        rw [List.mem_singleton.mp member, Actor.store_eq found]
        exact ⟨some', List.Subset.refl _⟩

theorem Coherent.actOnFiles {keep : Hunk → Bool} (coherent : Coherent actor)
    (safe : actor.SafeBatch env action (actor.filesWithHunks env keep)) :
    Coherent (actor.applyActionBatch env action (actor.filesWithHunks env keep)).2 := by
  have entries : ∀ path file, ((actor.fileStates.lookup path).bind fun state =>
      if state.hunks.filter keep = [] then none else some (path, state.hunks.filter keep)) = some file →
        file.1 = path ∧ file.2 ≠ [] ∧ file.2 ⊆ actor.store path := by
    intro path file selected
    cases present : actor.fileStates.lookup path with
    | none => simp [present] at selected
    | some state =>
        simp only [present, Option.bind_some, Option.ite_none_left_eq_some, Option.some.injEq] at selected
        rw [← selected.2, Actor.store_eq present]
        exact ⟨rfl, selected.1, List.filter_subset_self _⟩
  apply coherent.applyActionBatch _ _ safe
  · have nodup : (env.order actor.fileStates.keys).Nodup :=
      (env.orderPerm _).nodup_iff.mpr actor.fileStates.keys_nodup
    rw [Actor.filesWithHunks, List.map_filterMap]
    apply nodup.filterMap
    intro path other shared first second
    obtain ⟨file, selected, rfl⟩ := Option.map_eq_some_iff.mp first
    obtain ⟨file', selected', same⟩ := Option.map_eq_some_iff.mp second
    rw [← (entries path file selected).1, ← (entries other file' selected').1, same]
  · intro file member
    obtain ⟨path, -, selected⟩ := List.mem_filterMap.mp member
    obtain ⟨same, some', within⟩ := entries path file selected
    exact ⟨some', same ▸ within⟩

end Actions

section Runs

def Actor.Safe (actor : Actor) (event : Env × Command) : Prop :=
  match event with
  | (_, .recordAgentWrite path content _ _) => actor.SafeWrite path content
  | (env, .handleFileChange path) => actor.SafeChange env path none
  | (env, .handleFileChangesBatch paths) =>
      Actor.SafeChanges env (actor.loadBaselines env paths) paths actor
  | (env, .handleFileDeleted path) => actor.SafeDeletion env path
  | (env, .hunkAction id action) =>
      ∀ path hunk, actor.findHunk env id = some (path, hunk) → actor.SafeBatch env action [(path, [hunk])]
  | (env, .fileAction path action) => actor.SafeBatch env action [(path, actor.store path)]
  | (env, .turnAction promptIndex action) =>
      actor.SafeBatch env action
        (actor.filesWithHunks env fun hunk => hunk.source.promptIndex == some promptIndex)
  | (env, .allAction action) => actor.SafeBatch env action (actor.filesWithHunks env fun _ => true)
  | _ => True

theorem Coherent.step {actor : Actor} (coherent : Coherent actor) (event : Env × Command)
    (safe : actor.Safe event) : Coherent (actor.step event) := by
  obtain ⟨env, command⟩ := event
  cases command with
  | recordAgentWrite path content promptIndex previousContent =>
      exact coherent.recordAgentWrite env safe promptIndex previousContent
  | handleFileChange path => exact coherent.processFileChange safe
  | handleFileChangesBatch paths =>
      change Coherent (actor.handleFileChangesBatch env paths)
      unfold Actor.handleFileChangesBatch
      split
      · exact coherent
      · exact coherent.processFileChanges safe
  | handleFileDeleted path => exact coherent.handleFileDeleted safe
  | hunkAction id action => exact coherent.applyHunkAction safe
  | fileAction path action => exact coherent.applyFileAction safe
  | turnAction promptIndex action => exact coherent.actOnFiles safe
  | allAction action => exact coherent.actOnFiles safe
  | resetBaseline path => exact coherent.resetBaseline path
  | refreshAllBaselines skip => exact coherent.refreshAllBaselinesExcept env skip
  | refreshGitDirtyCache => exact coherent.refreshGitDirtyCache env
  | setMode mode => exact coherent.setMode env mode

theorem coherent_new (workingDir : Text) (mode : TrackingMode) : Coherent (Actor.new workingDir mode) := by
  have store : (Actor.new workingDir mode).store = fun _ => [] := rfl
  refine ⟨⟨?_, ?_, ?_⟩, ?_⟩
  · intro promptIndex id
    constructor
    · intro member
      exact absurd member (Finset.notMem_empty id)
    · intro ⟨path, hunk, member, _⟩
      exact absurd member List.not_mem_nil
  · rw [store]
    exact ⟨fun _ => List.nodup_nil, fun _ _ _ member => absurd member List.not_mem_nil⟩
  · intro path hunk member
    rw [store] at member
    cases member
  · intro path state found
    cases found

theorem turn_index_exact (workingDir : Text) (mode : TrackingMode) (events : List (Env × Command))
    (safe : Runs.Along Actor.step Actor.Safe (Actor.new workingDir mode) events) :
    TurnIndexExact (Runs.run Actor.step (Actor.new workingDir mode) events) := by
  have preserved : ∀ current event, Coherent current → Actor.Safe current event →
      Coherent (Actor.step current event) := fun _ event before guarded => before.step event guarded
  have coherent := Runs.along_invariant Actor.step preserved _ events (coherent_new workingDir mode) safe
  exact (turnIndexExact_iff _).mpr coherent.indexed.exact

theorem turn_index_exact_rejected :
    TurnIndexExact (Runs.run Actor.step (Actor.new [] .agentOnly)
      [(Env.blank .plain, .recordAgentWrite ['f'] "b\n".toList 0 (some "a\n".toList)),
        (Env.blank .plain, .recordAgentWrite ['f'] "b\nc\n".toList 1 none),
        (Env.blank .plain, .allAction .reject)]) := by
  apply turn_index_exact
  refine ⟨Or.inl (by decide +kernel), Or.inl (by decide +kernel), ?_, trivial⟩
  change Actor.SafeBatch _ _ _ _
  decide +kernel

theorem binary_write_stale :
    ¬ TurnIndexExact (Runs.run Actor.step (Actor.new [] .agentOnly)
      [(Env.blank .plain, .recordAgentWrite ['f'] "b\n".toList 0 (some "a\n".toList)),
        (Env.blank .plain, .recordAgentWrite ['f'] [Char.ofNat 0] 1 none)]) := by
  intro exact'
  obtain ⟨path, state, found, hunk, member, -⟩ := (exact' 0 0).mp (by decide +kernel)
  have cleared : ∀ file ∈ (Runs.run Actor.step (Actor.new [] .agentOnly)
      [(Env.blank .plain, .recordAgentWrite ['f'] "b\n".toList 0 (some "a\n".toList)),
        (Env.blank .plain, .recordAgentWrite ['f'] [Char.ofNat 0] 1 none)]).fileStates.entries,
      file.2.hunks = [] := by
    decide +kernel
  rw [cleared _ (AList.mem_lookup_iff.mp found)] at member
  cases member

end Runs

end GrokPi.HunkTracker
