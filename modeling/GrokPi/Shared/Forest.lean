import Mathlib

set_option autoImplicit false

universe u

/-- The nodes in order, each with its parent; a node without one is a root. -/
structure Forest (Node : Type u) where
  nodes : List Node
  parent : Node → Option Node
  distinct : nodes.Nodup
  closed : ∀ node ∈ nodes, ∀ above, parent node = some above → above ∈ nodes

namespace Forest

variable {Node : Type u} [DecidableEq Node] (forest : Forest Node)

def roots : List Node := forest.nodes.filter fun node => forest.parent node = none

def children (node : Node) : List Node := forest.nodes.filter fun child => forest.parent child = some node

inductive Climbs (parent : Node → Option Node) : Node → Nat → Node → Prop
  | here (node : Node) : Climbs parent node 0 node
  | up {node above top : Node} {n : Nat} (link : parent node = some above) (rest : Climbs parent above n top) :
      Climbs parent node (n + 1) top

def Deep (parent : Node → Option Node) (node : Node) (depth : Nat) : Prop :=
  ∃ root, Climbs parent node depth root ∧ parent root = none

def Cyclic (parent : Node → Option Node) (node : Node) : Prop := ∃ n, Climbs parent node (n + 1) node

/-- The nodes with all that hangs below them, each in front of its children, with their depths. -/
inductive Preorder (children : Node → List Node) : Nat → List Node → List (Node × Nat) → Prop
  | nil (depth : Nat) : Preorder children depth [] []
  | cons {depth : Nat} {node : Node} {siblings : List Node} {below later : List (Node × Nat)}
      (inner : Preorder children (depth + 1) (children node) below)
      (rest : Preorder children depth siblings later) :
      Preorder children depth (node :: siblings) ((node, depth) :: below ++ later)

section Climbing

variable {parent : Node → Option Node} {node above top other : Node} {n m depth : Nat}

omit [DecidableEq Node] in
theorem Climbs.trans (first : Climbs parent node n above) (second : Climbs parent above m top) :
    Climbs parent node (n + m) top := by
  induction first with
  | here => simpa using second
  | up link _ ih =>
      rw [Nat.add_right_comm]
      exact .up link (ih second)

omit [DecidableEq Node] in
theorem Climbs.unique (first : Climbs parent node n above) (second : Climbs parent node n top) : above = top := by
  induction first with
  | here =>
      cases second
      rfl
  | up link _ ih =>
      cases second with
      | up link' rest =>
          obtain rfl := Option.some.inj (link.symm.trans link')
          exact ih rest

omit [DecidableEq Node] in
theorem Climbs.last (climbs : Climbs parent node (n + 1) top) :
    ∃ child, Climbs parent node n child ∧ parent child = some top := by
  induction n generalizing node with
  | zero =>
      cases climbs with
      | up link rest =>
          cases rest
          exact ⟨node, .here node, link⟩
  | succ n ih =>
      cases climbs with
      | up link rest =>
          obtain ⟨child, climbs, above⟩ := ih rest
          exact ⟨child, .up link climbs, above⟩

omit [DecidableEq Node] in
theorem Climbs.mem (climbs : Climbs forest.parent node n top) (member : node ∈ forest.nodes) :
    top ∈ forest.nodes := by
  induction climbs with
  | here => exact member
  | up link _ ih => exact ih (forest.closed _ member _ link)

omit [DecidableEq Node] in
theorem Climbs.between (first : Climbs parent node n above) (second : Climbs parent node m top) (le : n ≤ m) :
    Climbs parent above (m - n) top := by
  induction first generalizing m with
  | here => exact second
  | up link _ ih =>
      cases second with
      | here => omega
      | up link' rest =>
          obtain rfl := Option.some.inj (link.symm.trans link')
          rw [Nat.add_sub_add_right]
          exact ih rest (by omega)

omit [DecidableEq Node] in
theorem Climbs.of_root (climbs : Climbs parent node n top) (root : parent node = none) : n = 0 ∧ top = node := by
  cases climbs with
  | here => exact ⟨rfl, rfl⟩
  | up link _ =>
      rw [root] at link
      cases link

omit [DecidableEq Node] in
theorem Deep.unique (first : Deep parent node n) (second : Deep parent node m) : n = m := by
  obtain ⟨root, climbs, end'⟩ := first
  obtain ⟨root', climbs', end''⟩ := second
  rcases Nat.le_total n m with le | le
  · have ⟨none', _⟩ := (climbs.between climbs' le).of_root end'
    omega
  · have ⟨none', _⟩ := (climbs'.between climbs le).of_root end''
    omega

omit [DecidableEq Node] in
theorem Deep.climb (deep : Deep parent node depth) (climbs : Climbs parent node n top) :
    n ≤ depth ∧ Deep parent top (depth - n) := by
  obtain ⟨root, chain, end'⟩ := deep
  have le : n ≤ depth := by
    by_contra longer
    have ⟨none', _⟩ := (chain.between climbs (by omega)).of_root end'
    omega
  exact ⟨le, root, climbs.between chain le, end'⟩

omit [DecidableEq Node] in
theorem Deep.of_climb (climbs : Climbs parent node n top) (deep : Deep parent top depth) :
    Deep parent node (n + depth) := by
  obtain ⟨root, chain, end'⟩ := deep
  exact ⟨root, climbs.trans chain, end'⟩

omit [DecidableEq Node] in
theorem Deep.acyclic (deep : Deep parent node depth) : ¬ Cyclic parent node := by
  rintro ⟨n, cycle⟩
  have longer := Deep.of_climb cycle deep
  have same := longer.unique deep
  omega

end Climbing

section Finite

variable {node : Node} {depth : Nat}

omit [DecidableEq Node] in
theorem deep_lt (member : node ∈ forest.nodes) (deep : Deep forest.parent node depth) :
    depth < forest.nodes.length := by
  -- The nodes of a chain have different depths.
  have chain : ∀ (depth : Nat) (node : Node), node ∈ forest.nodes → Deep forest.parent node depth →
      ∃ above : List Node, above.length = depth + 1 ∧ above.Nodup ∧
        ∀ x ∈ above, x ∈ forest.nodes ∧ ∃ d, d ≤ depth ∧ Deep forest.parent x d := by
    intro depth
    induction depth with
    | zero =>
        intro node member deep
        exact ⟨[node], rfl, List.nodup_singleton _, by simpa using ⟨member, deep⟩⟩
    | succ depth ih =>
        rintro node member ⟨root, climbs, end'⟩
        have whole : Deep forest.parent node (depth + 1) := ⟨root, climbs, end'⟩
        cases climbs with
        | up link rest =>
            obtain ⟨above, length, once, listed⟩ := ih _ (forest.closed _ member _ link) ⟨root, rest, end'⟩
            refine ⟨node :: above, by simp [length], List.nodup_cons.mpr ⟨?_, once⟩, ?_⟩
            · intro again
              obtain ⟨_, d, le, deep⟩ := listed node again
              have same := deep.unique whole
              omega
            · intro x within
              rcases List.mem_cons.mp within with rfl | later
              · exact ⟨member, depth + 1, Nat.le_refl _, whole⟩
              · obtain ⟨present, d, le, deep⟩ := listed x later
                exact ⟨present, d, by omega, deep⟩
  obtain ⟨above, length, once, listed⟩ := chain depth node member deep
  have within : above.length ≤ forest.nodes.length :=
    (once.subperm fun x present => (listed x present).1).length_le
  omega

omit [DecidableEq Node] in
theorem deep_or_cyclic (member : node ∈ forest.nodes) :
    (∃ depth, Deep forest.parent node depth) ∨
      ∃ n top, Climbs forest.parent node n top ∧ Cyclic forest.parent top := by
  classical
  by_contra neither
  simp only [not_or, not_exists, not_and] at neither
  obtain ⟨shallow, straight⟩ := neither
  -- A chain that never ends can be climbed any number of links.
  have climb : ∀ n, ∃ top, Climbs forest.parent node n top := by
    intro n
    induction n with
    | zero => exact ⟨node, .here node⟩
    | succ n ih =>
        obtain ⟨top, climbs⟩ := ih
        cases above : forest.parent top with
        | none => exact absurd ⟨top, climbs, above⟩ (shallow n)
        | some next => exact ⟨next, climbs.trans (.up above (.here next))⟩
  choose at' climbs using climb
  have within : ∀ n ∈ Finset.range (forest.nodes.length + 1), at' n ∈ forest.nodes.toFinset :=
    fun n _ => List.mem_toFinset.mpr ((climbs n).mem forest member)
  have few : forest.nodes.toFinset.card < (Finset.range (forest.nodes.length + 1)).card := by
    rw [Finset.card_range]
    exact Nat.lt_succ_of_le (List.toFinset_card_le _)
  obtain ⟨n, _, m, _, apart, same⟩ := Finset.exists_ne_map_eq_of_card_lt_of_maps_to few within
  -- Two equal nodes of the climb lie on a cycle.
  have back : ∀ n m, n < m → at' n = at' m → False := by
    intro n m lt same
    have round := (climbs n).between (climbs m) (Nat.le_of_lt lt)
    rw [← same, show m - n = m - n - 1 + 1 by omega] at round
    exact straight n _ (climbs n) ⟨_, round⟩
  rcases Nat.lt_or_gt_of_ne apart with lt | gt
  · exact back n m lt same
  · exact back m n gt same.symm

omit [DecidableEq Node] in
theorem deep_iff_acyclic :
    (∀ node ∈ forest.nodes, ∃ depth, Deep forest.parent node depth) ↔
      ∀ node ∈ forest.nodes, ¬ Cyclic forest.parent node := by
  constructor
  · intro deep node member
    obtain ⟨depth, chain⟩ := deep node member
    exact chain.acyclic
  · intro straight node member
    refine (forest.deep_or_cyclic member).resolve_right ?_
    rintro ⟨n, top, climbs, cyclic⟩
    exact straight top (climbs.mem forest member) cyclic

end Finite

section Preorder

variable {forest} {depth : Nat} {nodes : List Node} {listed : List (Node × Nat)}

theorem mem_children {node child : Node} :
    child ∈ forest.children node ↔ child ∈ forest.nodes ∧ forest.parent child = some node := by
  rw [children, List.mem_filter, decide_eq_true_eq]

omit [DecidableEq Node] in
theorem mem_roots {node : Node} : node ∈ forest.roots ↔ node ∈ forest.nodes ∧ forest.parent node = none := by
  rw [roots, List.mem_filter, decide_eq_true_eq]

theorem children_deep {node : Node} {depth : Nat} (deep : Deep forest.parent node depth) :
    ∀ child ∈ forest.children node, child ∈ forest.nodes ∧ Deep forest.parent child (depth + 1) := by
  intro child hangs
  obtain ⟨member, link⟩ := mem_children.mp hangs
  refine ⟨member, ?_⟩
  rw [Nat.add_comm]
  exact Deep.of_climb (.up link (.here node)) deep

theorem Preorder.mem_iff (order : Preorder forest.children depth nodes listed)
    (within : ∀ node ∈ nodes, node ∈ forest.nodes) {node : Node} {at' : Nat} :
    (node, at') ∈ listed ↔
      node ∈ forest.nodes ∧ ∃ top ∈ nodes, ∃ n, at' = depth + n ∧ Climbs forest.parent node n top := by
  induction order generalizing node at' with
  | nil => simp
  | @cons depth first siblings below later _ _ inner rest =>
      have inner := @inner (fun child member => (mem_children.mp member).1) node at'
      have rest := @rest (fun sibling member => within sibling (List.mem_cons_of_mem _ member)) node at'
      rw [List.mem_append, List.mem_cons, rest, inner]
      constructor
      · rintro ((same | ⟨member, child, hangs, n, rfl, climbs⟩) | ⟨member, top, among, n, rfl, climbs⟩)
        · obtain ⟨rfl, rfl⟩ := Prod.mk.inj same
          exact ⟨within node List.mem_cons_self, node, List.mem_cons_self, 0, rfl, .here node⟩
        · have link := (mem_children.mp hangs).2
          exact ⟨member, first, List.mem_cons_self, n + 1, by omega, climbs.trans (.up link (.here first))⟩
        · exact ⟨member, top, List.mem_cons_of_mem _ among, n, rfl, climbs⟩
      · rintro ⟨member, top, among, n, rfl, climbs⟩
        rcases List.mem_cons.mp among with rfl | later
        · cases n with
          | zero =>
              cases climbs
              exact Or.inl (Or.inl rfl)
          | succ n =>
              obtain ⟨child, chain, link⟩ := climbs.last
              refine Or.inl (Or.inr ⟨member, child, mem_children.mpr ⟨chain.mem forest member, link⟩, n, ?_, chain⟩)
              omega
        · exact Or.inr ⟨member, top, later, n, rfl, climbs⟩

theorem Preorder.nodup (order : Preorder forest.children depth nodes listed)
    (deep : ∀ node ∈ nodes, node ∈ forest.nodes ∧ Deep forest.parent node depth) (once : nodes.Nodup) :
    (listed.map Prod.fst).Nodup := by
  induction order with
  | nil => exact List.nodup_nil
  | @cons depth first siblings below later inner rest inner' rest' =>
      obtain ⟨new, others⟩ := List.nodup_cons.mp once
      have ⟨present, chain⟩ := deep first List.mem_cons_self
      have among : ∀ sibling ∈ siblings, sibling ∈ forest.nodes ∧ Deep forest.parent sibling depth :=
        fun sibling member => deep sibling (List.mem_cons_of_mem _ member)
      have children := children_deep chain
      have belowIff := fun node at' => @Preorder.mem_iff _ _ _ _ _ _ inner (fun child m => (children child m).1) node at'
      have laterIff := fun node at' => @Preorder.mem_iff _ _ _ _ _ _ rest (fun sibling m => (among sibling m).1) node at'
      rw [List.map_append, List.map_cons, List.cons_append, List.nodup_cons, List.nodup_append]
      refine ⟨?_, inner' children (forest.distinct.filter _), rest' among others, ?_⟩
      · rw [List.mem_append]
        rintro (again | again)
        · obtain ⟨⟨_, at'⟩, member, rfl⟩ := List.mem_map.mp again
          obtain ⟨_, child, hangs, n, rfl, climbs⟩ := (belowIff _ _).mp member
          have longer := Deep.of_climb climbs (children child hangs).2
          have same := longer.unique chain
          omega
        · obtain ⟨⟨_, at'⟩, member, rfl⟩ := List.mem_map.mp again
          obtain ⟨_, top, sibling, n, rfl, climbs⟩ := (laterIff _ _).mp member
          have longer := Deep.of_climb climbs (among top sibling).2
          have same := longer.unique chain
          obtain rfl : n = 0 := by omega
          cases climbs
          exact new sibling
      -- A node below the first one and below a sibling would have two depths or two chains.
      · intro node member other member' same
        subst same
        obtain ⟨⟨x, at'⟩, listed, rfl⟩ := List.mem_map.mp member
        obtain ⟨⟨y, at''⟩, listed', here⟩ := List.mem_map.mp member'
        obtain rfl : y = x := here
        obtain ⟨_, child, hangs, n, rfl, climbs⟩ := (belowIff _ _).mp listed
        obtain ⟨_, top, sibling, m, rfl, climbs'⟩ := (laterIff _ _).mp listed'
        have link := (mem_children.mp hangs).2
        have whole := climbs.trans (.up link (.here first))
        have one := Deep.of_climb whole chain
        have two := Deep.of_climb climbs' (among top sibling).2
        have same := one.unique two
        obtain rfl : m = n + 1 := by omega
        obtain rfl := whole.unique climbs'
        exact new sibling

theorem exists_preorder (deep : ∀ node ∈ nodes, node ∈ forest.nodes ∧ Deep forest.parent node depth) :
    ∃ listed, Preorder forest.children depth nodes listed := by
  obtain ⟨left, room⟩ : ∃ left, forest.nodes.length ≤ depth + left := ⟨forest.nodes.length, by omega⟩
  induction left generalizing depth nodes with
  | zero =>
      cases nodes with
      | nil => exact ⟨[], .nil depth⟩
      | cons node _ =>
          -- No chain is as long as the list of all nodes.
          have ⟨member, chain⟩ := deep node List.mem_cons_self
          have short := forest.deep_lt member chain
          omega
  | succ left ih =>
      induction nodes with
      | nil => exact ⟨[], .nil depth⟩
      | cons node siblings more =>
          obtain ⟨later, rest⟩ := more fun sibling member => deep sibling (List.mem_cons_of_mem _ member)
          have ⟨_, chain⟩ := deep node List.mem_cons_self
          obtain ⟨inside, inner⟩ := ih (children_deep chain) (by omega)
          exact ⟨_, .cons inner rest⟩

omit [DecidableEq Node] in
theorem roots_deep : ∀ node ∈ forest.roots, node ∈ forest.nodes ∧ Deep forest.parent node 0 := by
  intro node member
  obtain ⟨present, root⟩ := mem_roots.mp member
  exact ⟨present, node, .here node, root⟩

theorem Preorder.from_roots (order : Preorder forest.children 0 forest.roots listed) {node : Node} {depth : Nat} :
    (node, depth) ∈ listed ↔ node ∈ forest.nodes ∧ Deep forest.parent node depth := by
  rw [order.mem_iff fun node member => (mem_roots.mp member).1]
  constructor
  · rintro ⟨member, top, root, n, rfl, climbs⟩
    rw [Nat.zero_add]
    exact ⟨member, top, climbs, (mem_roots.mp root).2⟩
  · rintro ⟨member, top, climbs, root⟩
    exact ⟨member, top, mem_roots.mpr ⟨climbs.mem forest member, root⟩, depth, (Nat.zero_add _).symm, climbs⟩

theorem Preorder.roots_nodup (order : Preorder forest.children 0 forest.roots listed) :
    (listed.map Prod.fst).Nodup :=
  order.nodup roots_deep (forest.distinct.filter _)

omit [DecidableEq Node] in
theorem Preorder.map {Other : Type u} {children : Node → List Node} {children' : Other → List Other}
    (order : Preorder children depth nodes listed) (name : Node → Other) (Known : Node → Prop)
    (known : ∀ node ∈ nodes, Known node)
    (same : ∀ node, Known node → children' (name node) = (children node).map name ∧
      ∀ child ∈ children node, Known child) :
    Preorder children' depth (nodes.map name) (listed.map fun entry => (name entry.1, entry.2)) := by
  induction order with
  | nil => exact .nil _
  | @cons depth node siblings below later _ _ inner rest =>
      have ⟨named, below'⟩ := same node (known node List.mem_cons_self)
      rw [List.map_cons, List.map_append, List.map_cons]
      refine .cons ?_ (rest fun sibling member => known sibling (List.mem_cons_of_mem _ member))
      rw [named]
      exact inner below'

end Preorder

section Renaming

variable {Other : Type u} {parent : Node → Option Node} {parent' : Other → Option Other} {name : Node → Other}
  {Known : Node → Prop} {node top : Node} {n : Nat}

omit [DecidableEq Node] in
theorem Climbs.map (climbs : Climbs parent node n top) (known : Known node)
    (same : ∀ node, Known node → parent' (name node) = (parent node).map name ∧
      ∀ above, parent node = some above → Known above) : Climbs parent' (name node) n (name top) := by
  induction climbs with
  | here => exact .here _
  | @up node above _ _ link _ ih =>
      have ⟨named, above'⟩ := same node known
      have link' : parent' (name node) = some (name above) := by
        rw [named, link]
        rfl
      exact .up link' (ih (above' above link))

omit [DecidableEq Node] in
theorem Climbs.of_map {top' : Other} (climbs : Climbs parent' (name node) n top') (known : Known node)
    (same : ∀ node, Known node → parent' (name node) = (parent node).map name ∧
      ∀ above, parent node = some above → Known above) :
    ∃ top, top' = name top ∧ Known top ∧ Climbs parent node n top := by
  induction n generalizing node with
  | zero =>
      cases climbs
      exact ⟨node, rfl, known, .here node⟩
  | succ n ih =>
      cases climbs with
      | up link rest =>
          have ⟨named, above'⟩ := same node known
          rw [named] at link
          obtain ⟨above, up, rfl⟩ := Option.map_eq_some_iff.mp link
          obtain ⟨top, rfl, reached, chain⟩ := ih rest (above' above up)
          exact ⟨top, rfl, reached, .up up chain⟩

end Renaming

section Visiting

def visit (children : Node → List Node) : Nat → List (Node × Nat) → List (Node × Nat) × List (Node × Nat)
  | 0, stack => ([], stack)
  | _ + 1, [] => ([], [])
  | fuel + 1, (node, depth) :: rest =>
      let (listed, left) := visit children fuel ((children node).map (·, depth + 1) ++ rest)
      ((node, depth) :: listed, left)

variable {children : Node → List Node} {depth : Nat} {nodes : List Node} {listed : List (Node × Nat)}

omit [DecidableEq Node] in
theorem visit_preorder (order : Preorder children depth nodes listed) (fuel : Nat) (stack : List (Node × Nat)) :
    visit children (listed.length + fuel) (nodes.map (·, depth) ++ stack) =
      (listed ++ (visit children fuel stack).1, (visit children fuel stack).2) := by
  induction order generalizing fuel stack with
  | nil => simp
  | @cons depth node siblings below later _ _ inner rest =>
      have count : ((node, depth) :: below ++ later).length + fuel = below.length + (later.length + fuel) + 1 := by
        simp
        omega
      rw [count, List.map_cons, List.cons_append, visit, inner, rest]
      simp

omit [DecidableEq Node] in
theorem visit_enough (order : Preorder children depth nodes listed) {fuel : Nat} (enough : listed.length ≤ fuel) :
    visit children fuel (nodes.map (·, depth)) = (listed, []) := by
  obtain ⟨more, rfl⟩ := Nat.exists_eq_add_of_le enough
  have whole := visit_preorder order more []
  have idle : ∀ fuel, visit children fuel [] = ([], []) := by
    intro fuel
    cases fuel <;> rfl
  rw [List.append_nil, idle] at whole
  simpa using whole

end Visiting

section Ascending

def ascend (parent : Node → Option Node) : Nat → List Node → Option Node → List Node
  | fuel + 1, seen, some node =>
      if node ∈ seen then seen else ascend parent fuel (node :: seen) (parent node)
  | _, seen, _ => seen

variable {parent : Node → Option Node} {start node : Node} {seen : List Node} {fuel depth : Nat}

theorem ascend_sound (met : node ∈ ascend parent fuel seen (some start)) :
    node ∈ seen ∨ ∃ n, Climbs parent start n node := by
  induction fuel generalizing seen start with
  | zero => exact Or.inl met
  | succ fuel ih =>
      rw [ascend] at met
      split at met
      · exact Or.inl met
      · cases above : parent start with
        | none =>
            have here : node ∈ start :: seen := by
              rw [above] at met
              cases fuel <;> exact met
            rcases List.mem_cons.mp here with rfl | before
            · exact Or.inr ⟨0, .here _⟩
            · exact Or.inl before
        | some next =>
            rw [above] at met
            rcases ih met with before | ⟨n, climbs⟩
            · rcases List.mem_cons.mp before with rfl | before
              · exact Or.inr ⟨0, .here _⟩
              · exact Or.inl before
            · exact Or.inr ⟨n + 1, .up above climbs⟩

theorem mem_ascend (before : node ∈ seen) (start : Option Node) : node ∈ ascend parent fuel seen start := by
  induction fuel generalizing seen start with
  | zero => cases start <;> exact before
  | succ fuel ih =>
      cases start with
      | none => exact before
      | some start =>
          rw [ascend]
          split
          · exact before
          · exact ih (List.mem_cons_of_mem _ before) _

theorem ascend_complete (deep : Deep parent start depth) (enough : depth < fuel)
    (fresh : ∀ n top, Climbs parent start n top → top ∉ seen) {n : Nat} (climbs : Climbs parent start n node) :
    node ∈ ascend parent fuel seen (some start) := by
  induction fuel generalizing start seen depth n with
  | zero => omega
  | succ fuel ih =>
      rw [ascend, if_neg (fresh 0 start (.here start))]
      cases climbs with
      | here => exact mem_ascend List.mem_cons_self _
      | @up _ above _ n link rest =>
          rw [link]
          have ⟨short, deep'⟩ := deep.climb (.up link (.here above))
          refine ih deep' (by omega) ?_ rest
          intro m top chain member
          rcases List.mem_cons.mp member with rfl | before
          · exact deep'.acyclic ⟨m, chain.trans (.up link (.here above))⟩
          · exact fresh (m + 1) top (.up link chain) before

end Ascending

section Lineage

inductive Lineage (parent : Node → Option Node) : Node → List Node → Prop
  | root {node : Node} (end' : parent node = none) : Lineage parent node [node]
  | up {node above : Node} {chain : List Node} (link : parent node = some above) (rest : Lineage parent above chain) :
      Lineage parent node (node :: chain)

variable {parent : Node → Option Node} {node top : Node} {chain : List Node} {depth : Nat}

omit [DecidableEq Node] in
theorem Lineage.of_deep (deep : Deep parent node depth) : ∃ chain, Lineage parent node chain := by
  obtain ⟨root, climbs, end'⟩ := deep
  induction climbs with
  | here => exact ⟨_, .root end'⟩
  | up link _ ih =>
      obtain ⟨chain, rest⟩ := ih end'
      exact ⟨_, .up link rest⟩

omit [DecidableEq Node] in
theorem Lineage.mem_iff (lineage : Lineage parent node chain) : top ∈ chain ↔ ∃ n, Climbs parent node n top := by
  induction lineage with
  | root end' =>
      rw [List.mem_singleton]
      constructor
      · rintro rfl
        exact ⟨0, .here _⟩
      · rintro ⟨n, climbs⟩
        exact (climbs.of_root end').2
  | up link _ ih =>
      rw [List.mem_cons, ih]
      constructor
      · rintro (rfl | ⟨n, climbs⟩)
        · exact ⟨0, .here _⟩
        · exact ⟨n + 1, .up link climbs⟩
      · rintro ⟨n, climbs⟩
        cases climbs with
        | here => exact Or.inl rfl
        | up link' rest =>
            obtain rfl := Option.some.inj (link.symm.trans link')
            exact Or.inr ⟨_, rest⟩

omit [DecidableEq Node] in
theorem Lineage.deep (lineage : Lineage parent node chain) : Deep parent node (chain.length - 1) := by
  induction lineage with
  | root end' => exact ⟨_, .here _, end'⟩
  | @up node above chain link rest ih =>
      have some' : chain ≠ [] := by
        intro empty
        cases rest <;> cases empty
      have count : (node :: chain).length - 1 = 1 + (chain.length - 1) := by
        have := List.length_pos_of_ne_nil some'
        simp
        omega
      rw [count]
      exact Deep.of_climb (.up link (.here above)) ih

omit [DecidableEq Node] in
theorem Lineage.ascending (lineage : Lineage parent node chain) :
    chain.Pairwise fun low high => ∃ n, Climbs parent low (n + 1) high := by
  induction lineage with
  | root _ => exact List.pairwise_singleton _ _
  | up link rest ih =>
      refine List.pairwise_cons.mpr ⟨?_, ih⟩
      intro high member
      obtain ⟨n, climbs⟩ := rest.mem_iff.mp member
      exact ⟨n, .up link climbs⟩

omit [DecidableEq Node] in
theorem Lineage.nodup (lineage : Lineage parent node chain) : chain.Nodup := by
  refine lineage.ascending.imp_of_mem ?_
  rintro low high member _ ⟨n, climbs⟩ rfl
  obtain ⟨m, up⟩ := lineage.mem_iff.mp member
  exact (lineage.deep.climb up).2.acyclic ⟨n, climbs⟩

end Lineage

section Order

variable {forest} {depth : Nat} {nodes : List Node} {listed : List (Node × Nat)}

theorem Preorder.ordered (order : Preorder forest.children depth nodes listed)
    (deep : ∀ node ∈ nodes, node ∈ forest.nodes ∧ Deep forest.parent node depth) (once : nodes.Nodup) :
    (listed.map Prod.fst).Pairwise fun first second => ∀ n, ¬ Climbs forest.parent first (n + 1) second := by
  induction order with
  | nil => exact List.Pairwise.nil
  | @cons depth first siblings below later inner rest inner' rest' =>
      obtain ⟨new, others⟩ := List.nodup_cons.mp once
      have ⟨present, chain⟩ := deep first List.mem_cons_self
      have among : ∀ sibling ∈ siblings, sibling ∈ forest.nodes ∧ Deep forest.parent sibling depth :=
        fun sibling member => deep sibling (List.mem_cons_of_mem _ member)
      have children := children_deep chain
      have hanging : ∀ node ∈ below.map Prod.fst, ∃ n, Climbs forest.parent node (n + 1) first := by
        intro node member
        obtain ⟨⟨_, at'⟩, within, rfl⟩ := List.mem_map.mp member
        obtain ⟨_, child, hangs, n, _, climbs⟩ := (inner.mem_iff fun child m => (children child m).1).mp within
        exact ⟨n, climbs.trans (.up (mem_children.mp hangs).2 (.here first))⟩
      have beside : ∀ node ∈ later.map Prod.fst, ∃ top ∈ siblings, ∃ n, Climbs forest.parent node n top := by
        intro node member
        obtain ⟨⟨_, at'⟩, within, rfl⟩ := List.mem_map.mp member
        obtain ⟨_, top, sibling, n, _, climbs⟩ := (rest.mem_iff fun sibling m => (among sibling m).1).mp within
        exact ⟨top, sibling, n, climbs⟩
      rw [List.map_append, List.map_cons, List.cons_append, List.pairwise_cons, List.pairwise_append]
      refine ⟨?_, inner' children (forest.distinct.filter _), rest' among others, ?_⟩
      · intro node member n climbs
        rcases List.mem_append.mp member with under | side
        · obtain ⟨m, up⟩ := hanging node under
          exact chain.acyclic ⟨n + 1 + m, climbs.trans up⟩
        · obtain ⟨top, sibling, m, up⟩ := beside node side
          have one := (Deep.of_climb (climbs.trans up) (among top sibling).2).unique chain
          omega
      · intro node under other side n climbs
        obtain ⟨m, up⟩ := hanging node under
        obtain ⟨top, sibling, k, up'⟩ := beside other side
        have one := Deep.of_climb up chain
        have two := Deep.of_climb (climbs.trans up') (among top sibling).2
        have same : m + 1 = n + 1 + k := by
          have := one.unique two
          omega
        rw [same] at up
        obtain rfl := up.unique (climbs.trans up')
        exact new sibling

theorem Preorder.lineage (order : Preorder forest.children 0 forest.roots listed) {node : Node} {chain : List Node}
    (lineage : Lineage forest.parent node chain) (member : node ∈ forest.nodes) :
    (listed.map Prod.fst).filter (· ∈ chain) = chain.reverse := by
  have listedOnce := order.roots_nodup
  have sameMembers : ∀ top, top ∈ (listed.map Prod.fst).filter (· ∈ chain) ↔ top ∈ chain.reverse := by
    intro top
    rw [List.mem_filter, List.mem_reverse, decide_eq_true_eq]
    constructor
    · exact And.right
    · intro among
      obtain ⟨n, climbs⟩ := lineage.mem_iff.mp among
      have up := (lineage.deep.climb climbs).2
      exact ⟨List.mem_map.mpr ⟨(top, _), order.from_roots.mpr ⟨climbs.mem forest member, up⟩, rfl⟩, among⟩
  have perm : ((listed.map Prod.fst).filter (· ∈ chain)).Perm chain.reverse :=
    (List.perm_ext_iff_of_nodup (listedOnce.filter _) (List.nodup_reverse.mpr lineage.nodup)).mpr sameMembers
  refine perm.eq_of_pairwise ?_ ((order.ordered roots_deep (forest.distinct.filter _)).filter _) ?_
  · -- Of two nodes on one chain, one is above the other.
    intro low high member member' first second
    obtain ⟨n, up⟩ := lineage.mem_iff.mp (List.mem_reverse.mp ((sameMembers low).mp member))
    obtain ⟨m, up'⟩ := lineage.mem_iff.mp (List.mem_reverse.mp member')
    rcases Nat.lt_trichotomy n m with lt | rfl | gt
    · have between := up.between up' (Nat.le_of_lt lt)
      rw [show m - n = m - n - 1 + 1 by omega] at between
      exact absurd between (first _)
    · exact up.unique up'
    · have between := up'.between up (Nat.le_of_lt gt)
      rw [show n - m = n - m - 1 + 1 by omega] at between
      exact absurd between (second _)
  · rw [List.pairwise_reverse]
    refine lineage.ascending.imp_of_mem ?_
    rintro low high among _ ⟨n, climbs⟩ m back
    obtain ⟨k, up⟩ := lineage.mem_iff.mp among
    have cycle := climbs.trans back
    exact (lineage.deep.climb up).2.acyclic ⟨_, cycle⟩

end Order

end Forest
