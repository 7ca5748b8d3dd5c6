import GrokPi.Adapter.SessionPreorder

set_option autoImplicit false

namespace GrokPi.SessionLog

structure ReplayCache where
  sessionId : Text
  entries : List Json
  byId : InsertionMap Text Nat
  lastEntryId : Option Text
  leafId : Option Text
  leafKnown : Bool

section EditorText

def fullTextContent : Option Json → Option Text
  | some (.string text) => some text
  | some (.array parts) =>
      some ((parts.filter fun part => (part.get "type".toList).bind Json.asText = some "text".toList).filterMap
        fun part => string part ["text".toList]).flatten
  | _ => none

def sessionEntryEditorText (entry : Json) : Option Text :=
  let type := string entry ["type".toList]
  if type = some "message".toList then
    let message := (entry.get "message".toList).getD entry
    if string message ["role".toList] = some "user".toList then fullTextContent (message.get "content".toList)
    else none
  else if type = some "custom_message".toList then fullTextContent (entry.get "content".toList)
  else none

end EditorText

section Replayable

def evalToolUiBridgeType : Text := "pi-grok-eval-tool/v1".toList

def evalToolBridgeEntry (entry : Json) : Bool :=
  string entry ["type".toList] = some "custom".toList &&
    string entry ["customType".toList] = some evalToolUiBridgeType

def replayableEntry (entry : Json) : Bool :=
  if evalToolBridgeEntry entry then true
  else
    let type := (string entry ["type".toList]).getD []
    if type ∈ ["message".toList, "compaction".toList, "branch_summary".toList] then true
    else if type = "custom_message".toList then (entry.get "display".toList).bind Json.asBool ≠ some false
    else false

end Replayable

def leafOf (value : Json) : Option Json := (value.get "leafId".toList).or (value.get "leaf_id".toList)

def entriesOf (value : Json) : Option (List Json) := ((value.get "entries".toList).getD value).asItems

namespace ReplayCache

def sinceId (cache : ReplayCache) : Option Text := cache.lastEntryId

def setLeaf (cache : ReplayCache) (leaf : Json) : ReplayCache :=
  { cache with
    leafKnown := true
    leafId := leaf.asText }

def record (incremental : Bool) (cache : ReplayCache) (entry : Json) : ReplayCache :=
  let index := cache.entries.length
  match idOf entry with
  | none => { cache with entries := cache.entries ++ [entry] }
  | some id =>
      if incremental && cache.byId.has id then cache
      else
        { cache with
          entries := cache.entries ++ [entry]
          lastEntryId := some id
          byId := cache.byId.set id index }

def applyPayload (cache : ReplayCache) (value : Json) (incremental : Bool) : ReplayCache :=
  let cache :=
    match leafOf value with
    | some leaf => cache.setLeaf leaf
    | none => cache
  match entriesOf value with
  | none => cache
  | some entries => entries.foldl (record incremental) cache

def cleared (sessionId : Text) : ReplayCache :=
  { sessionId := sessionId
    entries := []
    byId := []
    lastEntryId := none
    leafId := none
    leafKnown := false }

def reset (_ : ReplayCache) (sessionId : Text) (value : Json) : ReplayCache :=
  (cleared sessionId).applyPayload value false

def append (cache : ReplayCache) (value : Json) : ReplayCache := cache.applyPayload value true

def climb (cache : ReplayCache) : Nat → List Text → List Json → Option Text → List Json
  | _, _, path, none => path.reverse
  | 0, _, _, some _ => []
  | fuel + 1, seen, path, some id =>
      if id ∈ seen then []
      else
        match (cache.byId.get id).bind (cache.entries[·]?) with
        | none => []
        | some entry => climb cache fuel (id :: seen) (path ++ [entry]) (parentLink entry)

-- No id is met twice, so the chain is shorter than the log.
def activeBranchEntries (cache : ReplayCache) : List Json :=
  if ¬ cache.leafKnown then cache.entries
  else
    match cache.leafId with
    | none => []
    | some leaf => cache.climb (cache.entries.length + 1) [] [] (some leaf)

/-- `parse` stands for `parse_replay_values`. -/
def replayEntries {Item : Type} (parse : List Json → List Item) (cache : ReplayCache) : List Item :=
  parse (cache.activeBranchEntries.filter replayableEntry)

def editorText (cache : ReplayCache) (id : Text) : Option Text :=
  ((cache.byId.get id).bind (cache.entries[·]?)).bind sessionEntryEditorText

def sessionTree (display : Json → Text → ToolCalls → Display) (cache : ReplayCache) : SessionTree :=
  buildSessionTree display cache.entries cache.leafId

end ReplayCache

section Feeding

open ReplayCache

inductive Fed (sessionId : Text) : List Json → Json → ReplayCache → Prop
  | reset (before : ReplayCache) {value leaf : Json} {entries : List Json} (listed : entriesOf value = some entries)
      (carried : leafOf value = some leaf) : Fed sessionId entries leaf (before.reset sessionId value)
  | append {log : List Json} {earlier : Json} {cache : ReplayCache} (fed : Fed sessionId log earlier cache)
      {value leaf : Json} {resent fresh : List Json} (listed : entriesOf value = some (resent ++ fresh))
      (carried : leafOf value = some leaf) (known : ∀ entry ∈ resent, ∃ id ∈ idOf entry, id ∈ ids log) :
      Fed sessionId (log ++ fresh) leaf (cache.append value)

structure Retains (log : List Json) (cache : ReplayCache) : Prop where
  entries : cache.entries = log
  known : ∀ id, cache.byId.has id = true ↔ id ∈ ids log
  found : ∀ id, (cache.byId.get id).bind (log[·]?) = log.find? fun entry => idOf entry = some id

theorem ids_append (first second : List Json) : ids (first ++ second) = ids first ++ ids second :=
  List.filterMap_append

theorem mem_ids_iff {log : List Json} {id : Text} : id ∈ ids log ↔ ∃ entry ∈ log, idOf entry = some id :=
  List.mem_filterMap

variable {entry : Json}

theorem ids_single {id : Text} (named : idOf entry = some id) : ids [entry] = [id] := by
  rw [ids, List.filterMap_cons_some named]
  rfl

theorem ids_unnamed (unnamed : idOf entry = none) : ids [entry] = [] := by
  rw [ids, List.filterMap_cons_none unnamed]
  rfl

theorem retains_cleared (sessionId : Text) : Retains [] (cleared sessionId) := by
  refine ⟨rfl, ?_, fun _ => rfl⟩
  intro id
  simp [cleared, InsertionMap.has, InsertionMap.get, ids]

theorem Retains.setLeaf {log : List Json} {cache : ReplayCache} (retains : Retains log cache) (leaf : Json) :
    Retains log (cache.setLeaf leaf) :=
  ⟨retains.entries, retains.known, retains.found⟩

theorem record_setLeaf (incremental : Bool) (cache : ReplayCache) (leaf entry : Json) :
    (cache.setLeaf leaf).record incremental entry = (cache.record incremental entry).setLeaf leaf := by
  simp only [record, ReplayCache.setLeaf]
  cases idOf entry with
  | none => rfl
  | some id =>
      by_cases known : (incremental && cache.byId.has id) = true
      · simp only [known, if_true]
      · simp only [known, Bool.false_eq_true, if_false]

theorem records_setLeaf (incremental : Bool) (cache : ReplayCache) (leaf : Json) (entries : List Json) :
    entries.foldl (record incremental) (cache.setLeaf leaf) =
      (entries.foldl (record incremental) cache).setLeaf leaf := by
  induction entries generalizing cache with
  | nil => rfl
  | cons entry rest ih => rw [List.foldl_cons, record_setLeaf, ih, List.foldl_cons]

variable {log : List Json} {cache : ReplayCache}

theorem record_known (retains : Retains log cache) {id : Text} (named : idOf entry = some id)
    (present : id ∈ ids log) : cache.record true entry = cache := by
  simp [record, named, (retains.known id).mpr present]

theorem record_new (retains : Retains log cache) (absent : ∀ id ∈ idOf entry, id ∉ ids log)
    (incremental : Bool) : cache.record incremental entry = cache.record false entry := by
  cases named : idOf entry with
  | none => simp [record, named]
  | some id =>
      have unknown : ¬ cache.byId.has id = true := by
        rw [retains.known]
        exact absent id named
      simp [record, named, unknown]

theorem Retains.record (retains : Retains log cache) (absent : ∀ id ∈ idOf entry, id ∉ ids log) :
    Retains (log ++ [entry]) (cache.record false entry) := by
  have unlisted : ∀ id, idOf entry = some id → log.find? (fun entry => idOf entry = some id) = none := by
    intro id named
    rw [List.find?_eq_none]
    intro other member same
    exact absent id named (mem_ids_iff.mpr ⟨other, member, of_decide_eq_true same⟩)
  have inside : ∀ id index, cache.byId.get id = some index → index < log.length := by
    intro id index held
    have known : id ∈ ids log := by
      rw [← retains.known, InsertionMap.has, held]
      rfl
    obtain ⟨other, member, named⟩ := mem_ids_iff.mp known
    have found := retains.found id
    rw [held, Option.bind_some] at found
    by_contra beyond
    rw [List.getElem?_eq_none (by omega)] at found
    exact List.find?_eq_none.mp found.symm other member (decide_eq_true named)
  have grown : ∀ id, (cache.byId.get id).bind ((log ++ [entry])[·]?) = (cache.byId.get id).bind (log[·]?) := by
    intro id
    cases held : cache.byId.get id with
    | none => rfl
    | some index => exact List.getElem?_append_left (inside id index held)
  cases named : idOf entry with
  | none =>
      have same : (cache.record false entry).byId = cache.byId := by
        simp [ReplayCache.record, named]
      refine ⟨?_, ?_, ?_⟩
      · simp [ReplayCache.record, named, retains.entries]
      · intro id
        rw [same, retains.known, ids_append, ids_unnamed named, List.append_nil]
      · intro id
        rw [same, grown, retains.found, List.find?_append]
        simp [named]
  | some own =>
      have set : (cache.record false entry).byId = cache.byId.set own log.length := by
        simp [ReplayCache.record, named, retains.entries]
      refine ⟨?_, ?_, ?_⟩
      · simp [ReplayCache.record, named, retains.entries]
      · intro id
        rw [set, InsertionMap.has, InsertionMap.get_set, ids_append, ids_single named, List.mem_append,
          List.mem_singleton, ← retains.known, InsertionMap.has]
        by_cases same : id = own
        · simp [same]
        · simp [same]
      · intro id
        rw [set, InsertionMap.get_set, List.find?_append]
        by_cases same : id = own
        · subst same
          rw [if_pos rfl, Option.bind_some, unlisted id named]
          simp [named]
        · rw [if_neg same, grown, retains.found]
          simp [named, Ne.symm same]

theorem records_new (retains : Retains log cache) {entries : List Json} (distinct : (ids (log ++ entries)).Nodup)
    (incremental : Bool) :
    entries.foldl (record incremental) cache = entries.foldl (record false) cache ∧
      Retains (log ++ entries) (entries.foldl (record false) cache) := by
  induction entries generalizing log cache with
  | nil =>
      rw [List.append_nil]
      exact ⟨rfl, retains⟩
  | cons entry rest ih =>
      rw [List.append_cons] at distinct ⊢
      have absent : ∀ id ∈ idOf entry, id ∉ ids log := by
        intro id named listed
        rw [ids_append, ids_append, ids_single named] at distinct
        have apart := (List.nodup_append.mp (List.nodup_append.mp distinct).1).2.2
        exact apart id listed id List.mem_cons_self rfl
      rw [List.foldl_cons, List.foldl_cons, record_new retains absent]
      exact ih (retains.record absent) distinct

theorem records_known (retains : Retains log cache) {resent : List Json}
    (known : ∀ entry ∈ resent, ∃ id ∈ idOf entry, id ∈ ids log) : resent.foldl (record true) cache = cache := by
  induction resent with
  | nil => rfl
  | cons entry rest ih =>
      obtain ⟨id, named, present⟩ := known entry List.mem_cons_self
      rw [List.foldl_cons, record_known retains named present]
      exact ih fun entry member => known entry (List.mem_cons_of_mem _ member)

variable {sessionId : Text} {leaf : Json}

theorem applyPayload_eq {value : Json} {entries : List Json} (listed : entriesOf value = some entries)
    (carried : leafOf value = some leaf) (incremental : Bool) :
    cache.applyPayload value incremental = (entries.foldl (record incremental) cache).setLeaf leaf := by
  rw [applyPayload, listed, carried]
  exact records_setLeaf incremental cache leaf entries

theorem Fed.eq_whole (fed : Fed sessionId log leaf cache) (distinct : (ids log).Nodup) :
    cache = (log.foldl (record false) (cleared sessionId)).setLeaf leaf ∧ Retains log cache := by
  induction fed with
  | @reset before value leaf entries listed carried =>
      have retains := (@records_new _ _ (retains_cleared sessionId) entries distinct false).2
      rw [ReplayCache.reset, applyPayload_eq listed carried]
      exact ⟨rfl, retains.setLeaf _⟩
  | @append log earlier cache fed value leaf resent fresh listed carried known ih =>
      -- What is sent again is skipped, so only the fresh entries are recorded.
      have old : (ids log).Nodup := by
        rw [ids_append] at distinct
        exact (List.nodup_append.mp distinct).1
      obtain ⟨whole, retains⟩ := ih old
      have ⟨taken, retains'⟩ := records_new retains distinct true
      rw [ReplayCache.append, applyPayload_eq listed carried, List.foldl_append, records_known retains known, taken]
      refine ⟨?_, retains'.setLeaf _⟩
      rw [whole, records_setLeaf, List.foldl_append]
      rfl

end Feeding

section Incremental

open ReplayCache

structure SameReplay {Item : Type} (parse : List Json → List Item) (display : Json → Text → ToolCalls → Display)
    (cache other : ReplayCache) : Prop where
  replayEntries : cache.replayEntries parse = other.replayEntries parse
  editorText : ∀ id, cache.editorText id = other.editorText id
  sessionTree : cache.sessionTree display = other.sessionTree display
  sinceId : cache.sinceId = other.sinceId

theorem incremental_replay {Item : Type} (parse : List Json → List Item)
    (display : Json → Text → ToolCalls → Display) {sessionId : Text} {log : List Json} {leaf : Json}
    {cache : ReplayCache} (fed : Fed sessionId log leaf cache) (distinct : (ids log).Nodup) (before : ReplayCache)
    {whole : Json} (listed : entriesOf whole = some log) (carried : leafOf whole = some leaf) :
    SameReplay parse display cache (before.reset sessionId whole) := by
  have incremental := (fed.eq_whole distinct).1
  have full := ((Fed.reset before listed carried : Fed sessionId _ _ _).eq_whole distinct).1
  rw [incremental, full]
  exact ⟨rfl, fun _ => rfl, rfl, rfl⟩

def payload (entries : List Json) (leaf : Text) : Json :=
  .object [("entries".toList, .array entries), ("leafId".toList, .string leaf)]

theorem two_turns_replayed :
    (ids twoTurns).Nodup ∧
      SameReplay (id : List Json → List Json) otherDisplay
        (((cleared []).reset [] (payload (twoTurns.take 1) "a".toList)).append (payload twoTurns "b".toList))
        ((cleared []).reset [] (payload twoTurns "b".toList)) := by
  have first : Fed [] (twoTurns.take 1) (.string "a".toList)
      ((cleared []).reset [] (payload (twoTurns.take 1) "a".toList)) := .reset (cleared []) rfl rfl
  have second : Fed [] twoTurns (.string "b".toList)
      (((cleared []).reset [] (payload (twoTurns.take 1) "a".toList)).append (payload twoTurns "b".toList)) :=
    @Fed.append _ _ _ _ first _ _ (twoTurns.take 1) (twoTurns.drop 1) rfl rfl (by decide)
  exact ⟨twoTurns_distinct, incremental_replay id otherDisplay second twoTurns_distinct (cleared []) rfl rfl⟩

end Incremental

section Branch

open ReplayCache

def Dangling (log : List Json) (id : Text) : Prop := ∃ link, linkOf log id = some link ∧ (link = id ∨ link ∉ ids log)

/-- The branch that is replayed holds the entries marked in the tree, from the root to the leaf. -/
structure BranchAgrees (log active : List Json) (rows : List TreeRow) : Prop where
  logged : ∀ entry ∈ active, entry ∈ log
  selected : active.map idOf = (rows.filter TreeRow.onActivePath).map fun row => some row.id
  descending : (active.map idOf).Pairwise fun high low =>
    ∃ above ∈ high, ∃ below ∈ low, ∃ n, Forest.Climbs (resolvedParent log) below (n + 1) above

variable {log : List Json} {cache : ReplayCache} {id : Text} {chain : List Text} {fuel : Nat} {seen : List Text}
  {path : List Json}

theorem resolvedParent_root (ends : linkOf log id = none) : resolvedParent log id = none := by
  rw [resolvedParent, ends]
  rfl

theorem resolvedParent_link {link : Text} (held : linkOf log id = some link) (other : link ≠ id) (known : link ∈ ids log) :
    resolvedParent log id = some link := by
  rw [resolvedParent, held]
  simp [Option.filter, other, known]

theorem resolvedParent_dangling (dangling : Dangling log id) : resolvedParent log id = none := by
  obtain ⟨link, held, loose⟩ := dangling
  rw [resolvedParent, held]
  rcases loose with self | missing
  · simp [Option.filter, self]
  · simp [Option.filter, missing]

theorem entry_found (known : id ∈ ids log) :
    ∃ entry ∈ log, (log.find? fun entry => idOf entry = some id) = some entry ∧ idOf entry = some id := by
  obtain ⟨other, member, named⟩ := mem_ids_iff.mp known
  cases found : log.find? fun entry => idOf entry = some id with
  | none => exact absurd (decide_eq_true named) (List.find?_eq_none.mp found other member)
  | some entry =>
      exact ⟨entry, List.mem_of_find?_eq_some found, rfl, of_decide_eq_true (List.find?_some found :)⟩

theorem climb_step (retains : Retains log cache) (fresh : id ∉ seen) (known : id ∈ ids log) :
    ∃ entry ∈ log, idOf entry = some id ∧
      cache.climb (fuel + 1) seen path (some id) =
        cache.climb fuel (id :: seen) (path ++ [entry]) (linkOf log id) := by
  obtain ⟨entry, member, found, named⟩ := entry_found known
  refine ⟨entry, member, named, ?_⟩
  have held : (cache.byId.get id).bind (cache.entries[·]?) = some entry := by
    rw [retains.entries, retains.found, found]
  rw [climb, if_neg fresh, held, linkOf, found]
  rfl

theorem climb_sound (retains : Retains log cache) (some' : cache.climb fuel seen path (some id) ≠ []) :
    id ∉ seen ∧ id ∈ ids log ∧
      ∃ chain, Forest.Lineage (resolvedParent log) id chain ∧ ∀ top ∈ chain, ¬ Dangling log top := by
  induction fuel generalizing seen path id with
  | zero => exact absurd rfl some'
  | succ fuel ih =>
      have fresh : id ∉ seen := by
        intro met
        rw [climb, if_pos met] at some'
        exact some' rfl
      have known : id ∈ ids log := by
        by_contra missing
        have nothing : (cache.byId.get id).bind (cache.entries[·]?) = none := by
          rw [retains.entries, retains.found, List.find?_eq_none]
          intro entry member named
          exact missing (mem_ids_iff.mpr ⟨entry, member, of_decide_eq_true named⟩)
        rw [climb, if_neg fresh, nothing] at some'
        exact some' rfl
      refine ⟨fresh, known, ?_⟩
      obtain ⟨entry, _, _, step⟩ := @climb_step log cache id fuel seen path retains fresh known
      rw [step] at some'
      cases held : linkOf log id with
      | none =>
          refine ⟨[id], .root (resolvedParent_root held), ?_⟩
          intro top member
          rw [List.mem_singleton.mp member]
          rintro ⟨link, held', _⟩
          rw [held] at held'
          cases held'
      | some link =>
          rw [held] at some'
          obtain ⟨new, present, chain, lineage, tight⟩ := ih some'
          -- The climb would have met the entry again.
          have other : link ≠ id := fun same => new (same ▸ List.mem_cons_self)
          refine ⟨id :: chain, .up (resolvedParent_link held other present) lineage, ?_⟩
          intro top member
          rcases List.mem_cons.mp member with rfl | above
          · rintro ⟨link', held', loose⟩
            obtain rfl := Option.some.inj (held.symm.trans held')
            exact loose.elim other (absurd present)
          · exact tight top above

theorem climb_complete (retains : Retains log cache) (lineage : Forest.Lineage (resolvedParent log) id chain)
    (tight : ∀ top ∈ chain, ¬ Dangling log top) (known : id ∈ ids log) (enough : chain.length ≤ fuel)
    (fresh : ∀ top ∈ chain, top ∉ seen) :
    ∃ entries : List Json, entries.map idOf = chain.map some ∧ (∀ entry ∈ entries, entry ∈ log) ∧
      cache.climb fuel seen path (some id) = (path ++ entries).reverse := by
  induction lineage generalizing fuel seen path with
  | @root id end' =>
      obtain ⟨fuel, rfl⟩ : ∃ more, fuel = more + 1 := ⟨fuel - 1, by simp at enough; omega⟩
      obtain ⟨entry, member, named, step⟩ :=
        @climb_step log cache id fuel seen path retains (fresh id List.mem_cons_self) known
      have held : linkOf log id = none := by
        cases held : linkOf log id with
        | none => rfl
        | some link =>
            have loose : Dangling log id := by
              by_contra tight
              simp only [Dangling, not_exists, not_and, not_or, not_not] at tight
              have ⟨other, present⟩ := tight link held
              rw [resolvedParent_link held other present] at end'
              cases end'
            exact absurd loose (tight id List.mem_cons_self)
      rw [held] at step
      refine ⟨[entry], by simp [named], by simpa using member, ?_⟩
      rw [step, climb]
  | @up id above chain link rest ih =>
      obtain ⟨fuel, rfl⟩ : ∃ more, fuel = more + 1 := ⟨fuel - 1, by simp at enough; omega⟩
      obtain ⟨entry, member, named, step⟩ :=
        @climb_step log cache id fuel seen path retains (fresh id List.mem_cons_self) known
      have held : linkOf log id = some above := (Option.filter_eq_some_iff.mp link).1
      have once := (Forest.Lineage.up link rest).nodup
      -- No entry stands twice in a lineage.
      have higher : ∀ top ∈ chain, top ∉ id :: seen := by
        intro top among again
        rcases List.mem_cons.mp again with rfl | met
        · exact (List.nodup_cons.mp once).1 among
        · exact fresh top (List.mem_cons_of_mem _ among) met
      obtain ⟨entries, names, logged, climbed⟩ :=
        @ih fuel (id :: seen) (path ++ [entry]) (fun top among => tight top (List.mem_cons_of_mem _ among))
          (resolvedParent_mem link) (by simp at enough; omega) higher
      refine ⟨entry :: entries, by simp [named, names], ?_, ?_⟩
      · intro other within
        rcases List.mem_cons.mp within with rfl | later
        · exact member
        · exact logged other later
      · rw [step, held, climbed, List.append_assoc]
        rfl

variable {sessionId : Text} {leaf : Json} {leafId : Text} (display : Json → Text → ToolCalls → Display)

theorem setLeaf_fed (fed : Fed sessionId log leaf cache) (distinct : (ids log).Nodup)
    (carried : leaf.asText = some leafId) :
    cache.entries = log ∧ cache.leafKnown = true ∧ cache.leafId = some leafId := by
  have ⟨whole, retains⟩ := fed.eq_whole distinct
  refine ⟨retains.entries, ?_, ?_⟩
  · rw [whole]
    rfl
  · rw [whole]
    exact carried

/-- The rows marked in the tree are the lineage of the leaf, from its root down. -/
theorem marked_lineage (distinct : (ids log).Nodup) (known : leafId ∈ ids log)
    (lineage : Forest.Lineage (resolvedParent log) leafId chain) :
    ((buildSessionTree display log (some leafId)).rows.filter TreeRow.onActivePath).map TreeRow.id = chain.reverse := by
  have order := rows_preorder display (some leafId) distinct
  have listed := @Forest.Preorder.lineage _ _ (logForest log distinct) _ order _ _ lineage known
  rw [← rows_ids, List.filter_map] at listed
  rw [← listed]
  refine congrArg _ (List.filter_congr ?_)
  intro row member
  rw [Bool.eq_iff_iff, row_active display (some leafId) distinct member]
  refine Iff.trans ?_ (Iff.trans (@Forest.Lineage.mem_iff _ _ _ row.id _ lineage).symm (by simp))
  constructor
  · rintro ⟨leaf, given, _, climbs⟩
    obtain rfl := Option.some.inj given
    exact climbs
  · intro climbs
    exact ⟨leafId, rfl, known, climbs⟩

theorem unmarked_cycle (distinct : (ids log).Nodup) (endless : ∀ depth, ¬ Forest.Deep (resolvedParent log) leafId depth) :
    (buildSessionTree display log (some leafId)).rows.filter TreeRow.onActivePath = [] := by
  rw [List.filter_eq_nil_iff]
  intro row member marked
  obtain ⟨leaf, given, _, n, climbs⟩ := (row_active display (some leafId) distinct member).mp marked
  obtain rfl := Option.some.inj given
  exact endless _ (Forest.Deep.of_climb climbs (row_depth display (some leafId) distinct member))

theorem active_branch_agrees_iff (fed : Fed sessionId log leaf cache) (distinct : (ids log).Nodup)
    (carried : leaf.asText = some leafId) (known : leafId ∈ ids log) :
    BranchAgrees log cache.activeBranchEntries (cache.sessionTree display).rows ↔
      ∀ n top, Forest.Climbs (resolvedParent log) leafId n top → ¬ Dangling log top := by
  have retains := (fed.eq_whole distinct).2
  obtain ⟨entries, leafKnown, held⟩ := setLeaf_fed fed distinct carried
  have active : cache.activeBranchEntries = cache.climb (log.length + 1) [] [] (some leafId) := by
    rw [activeBranchEntries, leafKnown, held, entries]
    rfl
  have tree : cache.sessionTree display = buildSessionTree display log (some leafId) := by
    rw [sessionTree, entries, held]
  rw [active, tree]
  constructor
  · rintro ⟨_, selected, _⟩ n top climbs dangling
    -- The tree marks the leaf, whose chain ends here; the replay gives up.
    have deep : Forest.Deep (resolvedParent log) leafId n := ⟨top, climbs, resolvedParent_dangling dangling⟩
    obtain ⟨chain, lineage⟩ := Forest.Lineage.of_deep deep
    have marked := marked_lineage display distinct known lineage
    have within : leafId ∈ chain := lineage.mem_iff.mpr ⟨0, .here _⟩
    have some' : cache.climb (log.length + 1) [] [] (some leafId) ≠ [] := by
      intro nothing
      rw [nothing, List.map_nil] at selected
      rw [List.map_eq_nil_iff.mp selected.symm, List.map_nil, eq_comm, List.reverse_eq_nil_iff] at marked
      rw [marked] at within
      cases within
    obtain ⟨_, _, chain', lineage', tight⟩ := climb_sound retains some'
    exact tight top (lineage'.mem_iff.mpr ⟨n, climbs⟩) dangling
  · intro tight
    by_cases deep : ∃ depth, Forest.Deep (resolvedParent log) leafId depth
    · obtain ⟨depth, deep⟩ := deep
      obtain ⟨chain, lineage⟩ := Forest.Lineage.of_deep deep
      have inside : ∀ top ∈ chain, top ∈ ids log := by
        intro top member
        obtain ⟨n, climbs⟩ := lineage.mem_iff.mp member
        exact climbs.mem (logForest log distinct) known
      have short : chain.length ≤ log.length :=
        (lineage.nodup.subperm inside).length_le.trans (List.length_filterMap_le _ _)
      obtain ⟨entries', names, logged, climbed⟩ := @climb_complete log cache leafId chain (log.length + 1) [] []
        retains lineage (fun top member => (lineage.mem_iff.mp member).elim fun n climbs => tight n top climbs) known
        (by omega) (fun _ _ met => by cases met)
      have branch : (cache.climb (log.length + 1) [] [] (some leafId)).map idOf = chain.reverse.map some := by
        rw [climbed, List.nil_append, List.map_reverse, names, List.map_reverse]
      refine ⟨?_, ?_, ?_⟩
      · intro entry member
        rw [climbed, List.nil_append, List.mem_reverse] at member
        exact logged entry member
      · rw [branch, ← marked_lineage display distinct known lineage, List.map_map]
        rfl
      · rw [branch, List.pairwise_map, List.pairwise_reverse]
        refine lineage.ascending.imp ?_
        rintro low high ⟨n, climbs⟩
        exact ⟨high, rfl, low, rfl, n, climbs⟩
    · -- On a cycle both are empty.
      have nothing : cache.climb (log.length + 1) [] [] (some leafId) = [] := by
        by_contra some'
        obtain ⟨_, _, chain, lineage, _⟩ := climb_sound retains some'
        exact deep ⟨_, lineage.deep⟩
      have unmarked := @unmarked_cycle log leafId display distinct fun depth chain => deep ⟨depth, chain⟩
      rw [nothing]
      refine ⟨?_, ?_, List.Pairwise.nil⟩
      · intro entry member
        cases member
      · rw [unmarked]
        rfl

theorem two_turns_agree :
    BranchAgrees twoTurns ((cleared []).reset [] (payload twoTurns "b".toList)).activeBranchEntries
      (((cleared []).reset [] (payload twoTurns "b".toList)).sessionTree otherDisplay).rows := by
  have fed : Fed [] twoTurns (.string "b".toList) ((cleared []).reset [] (payload twoTurns "b".toList)) :=
    .reset (cleared []) rfl rfl
  refine (active_branch_agrees_iff otherDisplay fed twoTurns_distinct rfl (by decide)).mpr ?_
  have links : ∀ id ∈ ids twoTurns, ¬ Dangling twoTurns id := by
    rintro id member ⟨link, held, loose⟩
    rw [twoTurns_ids] at member
    rcases List.mem_cons.mp member with rfl | member
    · have none' : linkOf twoTurns "a".toList = none := by decide
      rw [none'] at held
      cases held
    · obtain rfl := List.mem_singleton.mp member
      have up : linkOf twoTurns "b".toList = some "a".toList := by decide
      obtain rfl := Option.some.inj (up.symm.trans held)
      revert loose
      decide
  intro n top climbs
  exact links top (climbs.mem (logForest twoTurns twoTurns_distinct) (by decide))

def orphan : List Json := [.object [("id".toList, .string "a".toList), ("parentId".toList, .string "gone".toList)]]

theorem orphan_branch_empty :
    ¬ ∀ (log : List Json) (leafId : Text), (ids log).Nodup → leafId ∈ ids log →
      BranchAgrees log ((cleared []).reset [] (payload log leafId)).activeBranchEntries
        (((cleared []).reset [] (payload log leafId)).sessionTree otherDisplay).rows := by
  intro agrees
  have ⟨_, selected, _⟩ := agrees orphan "a".toList (by decide) (by decide)
  have nothing : ((cleared []).reset [] (payload orphan "a".toList)).activeBranchEntries = [] := by decide
  have marked : ((((cleared []).reset [] (payload orphan "a".toList)).sessionTree otherDisplay).rows.filter
      TreeRow.onActivePath).length = 1 := by decide
  rw [nothing, List.map_nil] at selected
  rw [List.map_eq_nil_iff.mp selected.symm] at marked
  cases marked

end Branch

end GrokPi.SessionLog
