import GrokPi.Adapter.SessionTree

set_option autoImplicit false

namespace GrokPi.SessionLog

def ids (entries : List Json) : List Text := entries.filterMap idOf

def linkOf (entries : List Json) (id : Text) : Option Text :=
  (entries.find? fun entry => idOf entry = some id).bind parentLink

def resolvedParent (entries : List Json) (id : Text) : Option Text :=
  (linkOf entries id).filter fun parent => parent ≠ id ∧ parent ∈ ids entries

theorem resolvedParent_mem {entries : List Json} {id above : Text} (link : resolvedParent entries id = some above) :
    above ∈ ids entries := by
  have ⟨_, resolved⟩ := Option.filter_eq_some_iff.mp link
  exact (of_decide_eq_true resolved).2

def logForest (entries : List Json) (distinct : (ids entries).Nodup) : Forest Text :=
  { nodes := ids entries
    parent := resolvedParent entries
    distinct := distinct
    closed := fun _ _ _ link => resolvedParent_mem link }

section Indices

variable {nodes : List FlatEntry}

theorem indexById_sound {id : Text} {index : Nat} (found : indexById nodes id = some index) :
    (nodes.map FlatEntry.id)[index]? = some id := by
  rw [indexById, InsertionMap.get_lastBy, Option.map_eq_some_iff] at found
  obtain ⟨⟨node, at'⟩, last, rfl⟩ := found
  have ⟨member, same⟩ := List.mem_filter.mp (List.mem_of_getLast? last)
  have here := List.mem_zipIdx_iff_getElem?.mp member
  rw [List.getElem?_map, here]
  exact congrArg some (of_decide_eq_true same)

theorem indexById_iff (distinct : (nodes.map FlatEntry.id).Nodup) {id : Text} {index : Nat} :
    indexById nodes id = some index ↔ (nodes.map FlatEntry.id)[index]? = some id := by
  constructor
  · exact indexById_sound
  · intro here
    cases found : indexById nodes id with
    | some other =>
        have there := indexById_sound found
        have ⟨inside, _⟩ := List.getElem?_eq_some_iff.mp here
        rw [(List.getElem?_inj inside distinct).mp (here.trans there.symm)]
    | none =>
        rw [List.getElem?_map, Option.map_eq_some_iff] at here
        obtain ⟨node, here, named⟩ := here
        have member : (node, index) ∈ nodes.zipIdx := List.mem_zipIdx_iff_getElem?.mpr here
        rw [indexById, InsertionMap.get_lastBy, Option.map_eq_none_iff, List.getLast?_eq_none_iff] at found
        -- The node is among those of that id, so a last one is found.
        have kept : (node, index) ∈ nodes.zipIdx.filter fun value => value.1.id = id :=
          List.mem_filter.mpr ⟨member, decide_eq_true named⟩
        rw [found] at kept
        cases kept

theorem parentAt_eq {index : Nat} {node : FlatEntry} (here : nodes[index]? = some node) :
    parentAt nodes index = (node.parent.filter (· ≠ node.id)).bind (indexById nodes) := by
  rw [parentAt, parentOf, List.getElem?_map, here]
  rfl

theorem parentAt_lt {index above : Nat} (link : parentAt nodes index = some above) : above < nodes.length := by
  cases here : nodes[index]? with
  | none =>
      rw [parentAt, parentOf, List.getElem?_map, here] at link
      cases link
  | some node =>
      rw [parentAt_eq here] at link
      obtain ⟨parent, _, found⟩ := Option.bind_eq_some_iff.mp link
      have ⟨inside, _⟩ := List.getElem?_eq_some_iff.mp (indexById_sound found)
      simpa using inside

theorem parentOf_at {index : Nat} (inside : index < nodes.length) :
    (parentOf nodes)[index]? = some (parentAt nodes index) := by
  have long : index < (parentOf nodes).length := by simpa [parentOf] using inside
  rw [parentAt, List.getElem?_eq_getElem long]
  rfl

def indexForest (nodes : List FlatEntry) : Forest Nat :=
  { nodes := List.range nodes.length
    parent := parentAt nodes
    distinct := List.nodup_range
    closed := fun _ _ _ link => List.mem_range.mpr (parentAt_lt link) }

theorem indexForest_children (index : Nat) : (indexForest nodes).children index = children nodes index := by
  refine List.filter_congr ?_
  intro child member
  rw [parentOf_at (List.mem_range.mp member), decide_eq_decide]
  simp [indexForest]

theorem indexForest_roots : (indexForest nodes).roots = roots nodes := by
  refine List.filter_congr ?_
  intro index member
  rw [parentOf_at (List.mem_range.mp member), decide_eq_decide]
  simp [indexForest]

end Indices

section Traversal

variable {nodes : List FlatEntry}

theorem push_eq (depth : Nat) (items : List Nat) (stack : List (Nat × Nat)) :
    push depth items stack = items.map (·, depth) ++ stack := by
  induction items with
  | nil => rfl
  | cons item rest ih =>
      rw [push, List.reverse_cons, List.foldl_append, ← push, ih]
      rfl

theorem drain_eq_visit (fuel : Nat) (stack : List (Nat × Nat)) :
    drain nodes fuel stack = Forest.visit (indexForest nodes).children fuel stack := by
  induction fuel generalizing stack with
  | zero => rfl
  | succ fuel ih =>
      cases stack with
      | nil => rfl
      | cons top rest =>
          obtain ⟨index, depth⟩ := top
          rw [drain, Forest.visit, push_eq, ih, indexForest_children]

theorem traversal_preorder (nodes : List FlatEntry) :
    (traversal nodes).2 = [] ∧
      Forest.Preorder (indexForest nodes).children 0 (indexForest nodes).roots (traversal nodes).1 := by
  -- The stack runs empty, whatever the links; the nodes listed are those whose chain of parents ends.
  obtain ⟨listed, order⟩ := Forest.exists_preorder (@Forest.roots_deep _ (indexForest nodes))
  have inside : (listed.map Prod.fst).Subperm (List.range nodes.length) := by
    refine order.roots_nodup.subperm ?_
    intro index member
    obtain ⟨⟨_, depth⟩, within, rfl⟩ := List.mem_map.mp member
    exact (order.from_roots.mp within).1
  -- No node is listed twice, so the fuel is enough.
  have few : listed.length ≤ nodes.length := by
    simpa using inside.length_le
  have whole : traversal nodes = (listed, []) := by
    rw [traversal, drain_eq_visit, push_eq, List.append_nil, ← indexForest_roots]
    exact Forest.visit_enough order few
  rw [whole]
  exact ⟨rfl, order⟩

end Traversal

section Names

variable {entries : List Json}

theorem ids_eq (entries : List Json) : (flatEntries entries).map FlatEntry.id = ids entries := by
  rw [flatEntries, ids, List.map_filterMap]
  refine congrArg (List.filterMap · entries) (funext fun entry => ?_)
  rw [flatEntry, Option.map_map]
  exact Option.map_id'

theorem linkOf_eq (entries : List Json) (id : Text) :
    linkOf entries id = ((flatEntries entries).find? fun node => node.id = id).bind FlatEntry.parent := by
  induction entries with
  | nil => rfl
  | cons entry rest ih =>
      cases named : idOf entry with
      | none =>
          have flat : flatEntries (entry :: rest) = flatEntries rest :=
            List.filterMap_cons_none (by rw [flatEntry, named]; rfl)
          rw [linkOf, List.find?_cons_of_neg (by simp [named]), ← linkOf, ih, flat]
      | some here =>
          have flat : flatEntries (entry :: rest) =
              { entry := entry, id := here, parent := parentLink entry } :: flatEntries rest :=
            List.filterMap_cons_some (by rw [flatEntry, named]; rfl)
          rw [flat]
          by_cases same : here = id
          · rw [linkOf, List.find?_cons_of_pos (by simp [named, same]), List.find?_cons_of_pos (by simp [same])]
            rfl
          · rw [linkOf, List.find?_cons_of_neg (by simp [named, same]), ← linkOf, ih,
              List.find?_cons_of_neg (by simp [same])]

theorem idAt_eq {nodes : List FlatEntry} {index : Nat} {node : FlatEntry} (here : nodes[index]? = some node) :
    idAt nodes index = node.id := by
  rw [idAt, here]
  rfl

theorem link_of_node (distinct : (ids entries).Nodup) {index : Nat} {node : FlatEntry}
    (here : (flatEntries entries)[index]? = some node) : linkOf entries node.id = node.parent := by
  rw [linkOf_eq]
  rw [← ids_eq] at distinct
  cases found : (flatEntries entries).find? fun other => other.id = node.id with
  | none =>
      have other := List.find?_eq_none.mp found node (List.mem_of_getElem? here)
      simp at other
  | some other =>
      have same : other.id = node.id := of_decide_eq_true (List.find?_some found :)
      rw [List.inj_on_of_nodup_map distinct (List.mem_of_find?_eq_some found) (List.mem_of_getElem? here) same]
      rfl

theorem resolvedParent_idAt (distinct : (ids entries).Nodup) {index : Nat}
    (inside : index < (flatEntries entries).length) :
    resolvedParent entries (idAt (flatEntries entries) index) =
      (parentAt (flatEntries entries) index).map (idAt (flatEntries entries)) := by
  have here := List.getElem?_eq_getElem inside
  rw [idAt_eq here, parentAt_eq here, resolvedParent, link_of_node distinct here]
  cases (flatEntries entries)[index].parent with
  | none => rfl
  | some parent =>
      by_cases own : parent = (flatEntries entries)[index].id
      · have dropped : (some parent).filter (· ≠ (flatEntries entries)[index].id) = none := by
          simp [Option.filter, own]
        rw [dropped]
        simp [Option.filter, own]
      · have kept : (some parent).filter (· ≠ (flatEntries entries)[index].id) = some parent := by
          simp [Option.filter, own]
        rw [kept, Option.bind_some]
        -- A link is resolved by place exactly when the log holds the id.
        cases found : indexById (flatEntries entries) parent with
        | none =>
            have missing : parent ∉ ids entries := by
              intro present
              obtain ⟨at', there⟩ := List.mem_iff_getElem?.mp present
              rw [← ids_eq, ← indexById_iff (by rwa [ids_eq]), found] at there
              cases there
            simp [Option.filter, missing]
        | some above =>
            have there := indexById_sound found
            have present : parent ∈ ids entries := by
              rw [← ids_eq]
              exact List.mem_of_getElem? there
            rw [List.getElem?_map, Option.map_eq_some_iff] at there
            obtain ⟨node, there, rfl⟩ := there
            rw [Option.map_some, idAt_eq there]
            simp [Option.filter, own, present]

theorem idAt_inj (distinct : (ids entries).Nodup) {first second : Nat}
    (inside : first < (flatEntries entries).length) (inside' : second < (flatEntries entries).length)
    (same : idAt (flatEntries entries) first = idAt (flatEntries entries) second) : first = second := by
  rw [← ids_eq] at distinct
  have here := List.getElem?_eq_getElem inside
  have there := List.getElem?_eq_getElem inside'
  rw [idAt_eq here, idAt_eq there] at same
  refine (List.getElem?_inj (by simpa using inside) distinct).mp ?_
  rw [List.getElem?_map, List.getElem?_map, here, there, Option.map_some, Option.map_some, same]

theorem ids_eq_range (entries : List Json) :
    ids entries = (List.range (flatEntries entries).length).map (idAt (flatEntries entries)) := by
  rw [← ids_eq]
  refine List.ext_getElem? ?_
  intro index
  rw [List.getElem?_map, List.getElem?_map]
  by_cases inside : index < (flatEntries entries).length
  · rw [List.getElem?_range inside, List.getElem?_eq_getElem inside, Option.map_some, Option.map_some,
      idAt_eq (List.getElem?_eq_getElem inside)]
  · rw [List.getElem?_eq_none (by omega), List.getElem?_eq_none (by simpa using inside)]
    rfl

theorem mem_ids {id : Text} :
    id ∈ ids entries ↔ ∃ index < (flatEntries entries).length, idAt (flatEntries entries) index = id := by
  simp [ids_eq_range]

theorem same_links (distinct : (ids entries).Nodup) :
    ∀ index, index < (flatEntries entries).length →
      resolvedParent entries (idAt (flatEntries entries) index) =
          (parentAt (flatEntries entries) index).map (idAt (flatEntries entries)) ∧
        ∀ above, parentAt (flatEntries entries) index = some above → above < (flatEntries entries).length :=
  fun _ inside => ⟨resolvedParent_idAt distinct inside, fun _ link => parentAt_lt link⟩

theorem climbs_idAt (distinct : (ids entries).Nodup) {index n : Nat} {top : Text}
    (inside : index < (flatEntries entries).length) :
    Forest.Climbs (resolvedParent entries) (idAt (flatEntries entries) index) n top ↔
      ∃ above < (flatEntries entries).length, top = idAt (flatEntries entries) above ∧
        Forest.Climbs (parentAt (flatEntries entries)) index n above := by
  constructor
  · intro climbs
    obtain ⟨above, rfl, reached, chain⟩ := climbs.of_map inside (same_links distinct)
    exact ⟨above, reached, rfl, chain⟩
  · rintro ⟨above, _, rfl, chain⟩
    exact chain.map inside (same_links distinct)

theorem children_idAt (distinct : (ids entries).Nodup) {index : Nat}
    (inside : index < (flatEntries entries).length) :
    (logForest entries distinct).children (idAt (flatEntries entries) index) =
      (children (flatEntries entries) index).map (idAt (flatEntries entries)) := by
  rw [← indexForest_children, Forest.children, Forest.children]
  change (ids entries).filter _ = _
  rw [ids_eq_range, List.filter_map]
  refine congrArg _ (List.filter_congr ?_)
  intro child member
  rw [Function.comp_apply, decide_eq_decide]
  change resolvedParent entries _ = _ ↔ parentAt _ child = some index
  rw [resolvedParent_idAt distinct (List.mem_range.mp member), Option.map_eq_some_iff]
  constructor
  · rintro ⟨above, link, same⟩
    rw [link, idAt_inj distinct (parentAt_lt link) inside same]
  · intro link
    exact ⟨index, link, rfl⟩

theorem roots_idAt (distinct : (ids entries).Nodup) :
    (logForest entries distinct).roots =
      (indexForest (flatEntries entries)).roots.map (idAt (flatEntries entries)) := by
  rw [Forest.roots, Forest.roots]
  change (ids entries).filter _ = _
  rw [ids_eq_range, List.filter_map]
  refine congrArg _ (List.filter_congr ?_)
  intro index member
  rw [Function.comp_apply, decide_eq_decide]
  change resolvedParent entries _ = none ↔ parentAt _ index = none
  rw [resolvedParent_idAt distinct (List.mem_range.mp member), Option.map_eq_none_iff]

end Names

section Projection

variable {entries : List Json} (display : Json → Text → ToolCalls → Display) (leafId : Option Text)

theorem mem_rows {row : TreeRow} :
    row ∈ (buildSessionTree display entries leafId).rows ↔
      ∃ index depth node, (index, depth) ∈ (traversal (flatEntries entries)).1 ∧
        (flatEntries entries)[index]? = some node ∧
          treeRow display (flatEntries entries) leafId index depth node = row := by
  simp [buildSessionTree, List.mem_filterMap]

theorem listed_inside {index depth : Nat} (listed : (index, depth) ∈ (traversal (flatEntries entries)).1) :
    index < (flatEntries entries).length ∧ Forest.Deep (parentAt (flatEntries entries)) index depth := by
  have ⟨member, deep⟩ := (traversal_preorder _).2.from_roots.mp listed
  exact ⟨List.mem_range.mp member, deep⟩

theorem rows_listed :
    (buildSessionTree display entries leafId).rows.map (fun row => (row.id, row.depth)) =
      (traversal (flatEntries entries)).1.map fun entry => (idAt (flatEntries entries) entry.1, entry.2) := by
  have inside := @listed_inside entries
  rw [buildSessionTree, List.map_filterMap]
  generalize (traversal (flatEntries entries)).1 = listed at inside
  induction listed with
  | nil => rfl
  | cons first rest ih =>
      obtain ⟨index, depth⟩ := first
      have here := List.getElem?_eq_getElem (inside List.mem_cons_self).1
      rw [List.filterMap_cons_some (by dsimp only; rw [here]; rfl), List.map_cons,
        ih fun member => inside (List.mem_cons_of_mem _ member), idAt_eq here]
      rfl

theorem rows_preorder (distinct : (ids entries).Nodup) :
    Forest.Preorder (logForest entries distinct).children 0 (logForest entries distinct).roots
      ((buildSessionTree display entries leafId).rows.map fun row => (row.id, row.depth)) := by
  -- Whatever the links are, the rows are a preorder of what hangs below the roots.
  rw [rows_listed, roots_idAt]
  refine (traversal_preorder _).2.map (idAt (flatEntries entries)) (· < (flatEntries entries).length) ?_ ?_
  · intro index member
    exact List.mem_range.mp (Forest.mem_roots.mp member).1
  · intro index inside
    rw [children_idAt distinct inside, indexForest_children]
    refine ⟨rfl, ?_⟩
    intro child hangs
    rw [← indexForest_children] at hangs
    exact List.mem_range.mp (Forest.mem_children.mp hangs).1

theorem rows_ids :
    (buildSessionTree display entries leafId).rows.map TreeRow.id =
      ((buildSessionTree display entries leafId).rows.map fun row => (row.id, row.depth)).map Prod.fst := by
  rw [List.map_map]
  rfl

theorem rows_once (distinct : (ids entries).Nodup) :
    ((buildSessionTree display entries leafId).rows.map TreeRow.id).Nodup := by
  rw [rows_ids]
  exact (rows_preorder display leafId distinct).roots_nodup

theorem mem_rows_ids (distinct : (ids entries).Nodup) {id : Text} :
    id ∈ (buildSessionTree display entries leafId).rows.map TreeRow.id ↔
      id ∈ ids entries ∧ ∃ depth, Forest.Deep (resolvedParent entries) id depth := by
  have listed := fun depth => @Forest.Preorder.from_roots _ _ _ _ (rows_preorder display leafId distinct) id depth
  rw [rows_ids, List.mem_map]
  constructor
  · rintro ⟨⟨_, depth⟩, member, rfl⟩
    have ⟨present, deep⟩ := (listed depth).mp member
    exact ⟨present, depth, deep⟩
  · rintro ⟨present, depth, deep⟩
    exact ⟨(id, depth), (listed depth).mpr ⟨present, deep⟩, rfl⟩

theorem row_depth (distinct : (ids entries).Nodup) {row : TreeRow}
    (member : row ∈ (buildSessionTree display entries leafId).rows) :
    Forest.Deep (resolvedParent entries) row.id row.depth := by
  have within : (row.id, row.depth) ∈ (buildSessionTree display entries leafId).rows.map fun row => (row.id, row.depth) :=
    List.mem_map.mpr ⟨row, member, rfl⟩
  exact ((rows_preorder display leafId distinct).from_roots.mp within).2

theorem row_children (distinct : (ids entries).Nodup) {row : TreeRow}
    (member : row ∈ (buildSessionTree display entries leafId).rows) :
    row.childIds = (logForest entries distinct).children row.id := by
  obtain ⟨index, depth, node, listed, here, rfl⟩ := (mem_rows display leafId).mp member
  have inside := (listed_inside listed).1
  change _ = (logForest entries distinct).children node.id
  rw [← idAt_eq here, children_idAt distinct inside]
  rfl

theorem row_active (distinct : (ids entries).Nodup) {row : TreeRow}
    (member : row ∈ (buildSessionTree display entries leafId).rows) :
    row.onActivePath = true ↔
      ∃ leaf ∈ leafId, leaf ∈ ids entries ∧ ∃ n, Forest.Climbs (resolvedParent entries) leaf n row.id := by
  obtain ⟨index, depth, node, listed, here, rfl⟩ := (mem_rows display leafId).mp member
  have ⟨inside, deep⟩ := listed_inside listed
  have marked : (treeRow display (flatEntries entries) leafId index depth node).onActivePath = true ↔
      index ∈ activePath (flatEntries entries) leafId := decide_eq_true_iff
  change _ ↔ ∃ leaf ∈ leafId, leaf ∈ ids entries ∧ ∃ n, Forest.Climbs (resolvedParent entries) leaf n node.id
  rw [marked, activePath, ← idAt_eq here]
  constructor
  · intro met
    cases found : leafId.bind (indexById (flatEntries entries)) with
    | none =>
        rw [found] at met
        cases met
    | some start =>
        rw [found] at met
        obtain ⟨leaf, given, at'⟩ := Option.bind_eq_some_iff.mp found
        have there := indexById_sound at'
        rw [List.getElem?_map, Option.map_eq_some_iff] at there
        obtain ⟨leafNode, there, rfl⟩ := there
        have ⟨inside', _⟩ := List.getElem?_eq_some_iff.mp there
        rcases Forest.ascend_sound met with before | ⟨n, climbs⟩
        · cases before
        · refine ⟨leafNode.id, given, mem_ids.mpr ⟨start, inside', idAt_eq there⟩, n, ?_⟩
          rw [← idAt_eq there]
          exact (climbs_idAt distinct inside').mpr ⟨index, inside, rfl, climbs⟩
  · rintro ⟨leaf, given, known, n, climbs⟩
    obtain ⟨start, inside', rfl⟩ := mem_ids.mp known
    obtain ⟨above, reached, same, chain⟩ := (climbs_idAt distinct inside').mp climbs
    obtain rfl := idAt_inj distinct inside reached same
    have there := List.getElem?_eq_getElem inside'
    have found : leafId.bind (indexById (flatEntries entries)) = some start := by
      rw [given, Option.bind_some, indexById_iff (by rwa [ids_eq]), List.getElem?_map, there, Option.map_some,
        idAt_eq there]
    rw [found]
    have deep' := Forest.Deep.of_climb chain deep
    -- The chain is shorter than the log, so the fuel does not end before it.
    have short := (indexForest (flatEntries entries)).deep_lt (List.mem_range.mpr inside') deep'
    rw [indexForest, List.length_range] at short
    exact Forest.ascend_complete deep' (by omega) (fun _ _ _ member => by cases member) chain

end Projection

section Complete

structure Projects (forest : Forest Text) (leafId : Option Text) (rows : List TreeRow) : Prop where
  complete : (rows.map TreeRow.id).Perm forest.nodes
  preorder : Forest.Preorder forest.children 0 forest.roots (rows.map fun row => (row.id, row.depth))
  depth : ∀ row ∈ rows, Forest.Deep forest.parent row.id row.depth
  childIds : ∀ row ∈ rows, row.childIds = forest.children row.id
  active : ∀ row ∈ rows, row.onActivePath = true ↔
    ∃ leaf ∈ leafId, leaf ∈ forest.nodes ∧ ∃ n, Forest.Climbs forest.parent leaf n row.id

variable (display : Json → Text → ToolCalls → Display) (entries : List Json) (leafId : Option Text)

theorem rows_complete_iff (distinct : (ids entries).Nodup) :
    (∀ id ∈ ids entries, id ∈ (buildSessionTree display entries leafId).rows.map TreeRow.id) ↔
      ∀ id ∈ ids entries, ¬ Forest.Cyclic (resolvedParent entries) id := by
  have acyclic : _ ↔ ∀ id ∈ ids entries, ¬ Forest.Cyclic (resolvedParent entries) id :=
    (logForest entries distinct).deep_iff_acyclic
  rw [← acyclic]
  constructor
  · intro listed id member
    exact ((mem_rows_ids display leafId distinct).mp (listed id member)).2
  · intro deep id member
    exact (mem_rows_ids display leafId distinct).mpr ⟨member, deep id member⟩

theorem session_tree_complete (distinct : (ids entries).Nodup)
    (acyclic : ∀ id ∈ ids entries, ¬ Forest.Cyclic (resolvedParent entries) id) :
    (traversal (flatEntries entries)).2 = [] ∧
      Projects (logForest entries distinct) leafId (buildSessionTree display entries leafId).rows := by
  refine ⟨(traversal_preorder _).1, ?_, rows_preorder display leafId distinct, ?_, ?_, ?_⟩
  · refine (List.perm_ext_iff_of_nodup (rows_once display leafId distinct) distinct).mpr ?_
    intro id
    constructor
    · intro member
      exact ((mem_rows_ids display leafId distinct).mp member).1
    · exact (rows_complete_iff display entries leafId distinct).mpr acyclic id
  · intro row member
    exact row_depth display leafId distinct member
  · intro row member
    exact row_children display leafId distinct member
  · intro row member
    exact row_active display leafId distinct member

def otherDisplay (_ : Json) (other : Text) (_ : ToolCalls) : Display :=
  let text := '[' :: other ++ [']']
  { role := other
    preview := text
    detail := text
    hasText := false }

def twoTurns : List Json :=
  [.object [("id".toList, .string "a".toList)],
   .object [("id".toList, .string "b".toList), ("parentId".toList, .string "a".toList)]]

theorem twoTurns_ids : ids twoTurns = ["a".toList, "b".toList] := by decide

theorem twoTurns_distinct : (ids twoTurns).Nodup := by decide

theorem twoTurns_acyclic : ∀ id ∈ ids twoTurns, ¬ Forest.Cyclic (resolvedParent twoTurns) id := by
  have root : resolvedParent twoTurns "a".toList = none := by decide
  have link : resolvedParent twoTurns "b".toList = some "a".toList := by decide
  have first : Forest.Deep (resolvedParent twoTurns) "a".toList 0 := ⟨_, .here _, root⟩
  have second : Forest.Deep (resolvedParent twoTurns) "b".toList 1 := ⟨_, .up link (.here _), root⟩
  rw [twoTurns_ids]
  intro id member
  rcases List.mem_cons.mp member with rfl | member
  · exact first.acyclic
  · rw [List.mem_singleton.mp member]
    exact second.acyclic

theorem two_turns_complete :
    (ids twoTurns).Nodup ∧ (∀ id ∈ ids twoTurns, ¬ Forest.Cyclic (resolvedParent twoTurns) id) ∧
      (traversal (flatEntries twoTurns)).2 = [] ∧
      Projects (logForest twoTurns twoTurns_distinct) (some "b".toList)
        (buildSessionTree otherDisplay twoTurns (some "b".toList)).rows :=
  ⟨twoTurns_distinct, twoTurns_acyclic,
    session_tree_complete otherDisplay twoTurns (some "b".toList) twoTurns_distinct twoTurns_acyclic⟩

/-- The walk always ends, but what hangs on a cycle of parents has no row. -/
theorem session_tree_total_iff (distinct : (ids entries).Nodup) :
    ((traversal (flatEntries entries)).2 = [] ∧
      ∀ id ∈ ids entries, ((buildSessionTree display entries leafId).rows.map TreeRow.id).count id = 1) ↔
        ∀ id ∈ ids entries, ¬ Forest.Cyclic (resolvedParent entries) id := by
  have once := rows_once display leafId distinct
  rw [← rows_complete_iff display entries leafId distinct]
  constructor
  · rintro ⟨_, single⟩ id member
    have one := single id member
    exact List.count_pos_iff.mp (by omega)
  · intro listed
    refine ⟨(traversal_preorder _).1, ?_⟩
    intro id member
    have least := List.count_pos_iff.mpr (listed id member)
    have most := List.nodup_iff_count_le_one.mp once id
    omega

def knot : List Json :=
  [.object [("id".toList, .string "a".toList), ("parentId".toList, .string "b".toList)],
   .object [("id".toList, .string "b".toList), ("parentId".toList, .string "a".toList)]]

theorem two_turns_total :
    (ids twoTurns).Nodup ∧ (traversal (flatEntries twoTurns)).2 = [] ∧
      ∀ id ∈ ids twoTurns, ((buildSessionTree otherDisplay twoTurns none).rows.map TreeRow.id).count id = 1 :=
  ⟨twoTurns_distinct, (session_tree_total_iff otherDisplay twoTurns none twoTurns_distinct).mpr twoTurns_acyclic⟩

theorem knot_hidden :
    ¬ ∀ entries : List Json, (ids entries).Nodup →
      ∀ id ∈ ids entries, ((buildSessionTree otherDisplay entries none).rows.map TreeRow.id).count id = 1 := by
  intro complete
  have one := complete knot (by decide) "a".toList (by decide)
  have empty : (buildSessionTree otherDisplay knot none).rows = [] := by decide
  rw [empty] at one
  cases one

end Complete

end GrokPi.SessionLog
