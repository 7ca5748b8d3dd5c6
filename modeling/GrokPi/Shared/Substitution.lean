import Mathlib

set_option autoImplicit false

namespace Substitution

variable {Line : Type}

/-- The lines from `start` up to `stop` give way to `lines`; an insertion takes none away. -/
structure Edit (Line : Type) where
  start : Nat
  stop : Nat
  lines : List Line
  deriving DecidableEq

def startsAt (edits : List (Edit Line)) (i : Nat) : List (Edit Line) :=
  edits.filter fun edit => edit.start = i

def inserted (edits : List (Edit Line)) (i : Nat) : List Line :=
  ((startsAt edits i).filter fun edit => edit.stop = i).flatMap Edit.lines

def replacing (edits : List (Edit Line)) (i : Nat) : List Line :=
  ((startsAt edits i).filter fun edit => i < edit.stop).flatMap Edit.lines

def Covered (edits : List (Edit Line)) (i : Nat) : Prop := ∃ edit ∈ edits, edit.start ≤ i ∧ i < edit.stop

instance (edits : List (Edit Line)) (i : Nat) : Decidable (Covered edits i) :=
  inferInstanceAs (Decidable (∃ edit ∈ edits, edit.start ≤ i ∧ i < edit.stop))

def kept (lines : List Line) (edits : List (Edit Line)) (i : Nat) : List Line :=
  if Covered edits i then [] else lines[i]?.toList

def placed (lines : List Line) (edits : List (Edit Line)) (i : Nat) : List Line :=
  inserted edits i ++ replacing edits i ++ kept lines edits i

def placedFrom (lines : List Line) (edits : List (Edit Line)) (first : Nat) : List Line :=
  (List.range' first (lines.length + 1 - first)).flatMap (placed lines edits)

def substituted (lines : List Line) (edits : List (Edit Line)) : List Line := placedFrom lines edits 0

def splice (edit : Edit Line) (lines : List Line) : List Line :=
  lines.take edit.start ++ edit.lines ++ lines.drop edit.stop

structure Ordered (count : Nat) (edits : List (Edit Line)) : Prop where
  forward : ∀ edit ∈ edits, edit.start ≤ edit.stop ∧ edit.stop ≤ count
  apart : edits.Pairwise fun first second => first.stop ≤ second.start

theorem Ordered.tail {count : Nat} {edit : Edit Line} {edits : List (Edit Line)}
    (ordered : Ordered count (edit :: edits)) : Ordered count edits :=
  ⟨fun other member => ordered.forward other (List.mem_cons_of_mem _ member), ordered.apart.tail⟩

theorem Ordered.behind {count : Nat} {edit : Edit Line} {edits : List (Edit Line)}
    (ordered : Ordered count (edit :: edits)) : ∀ other ∈ edits, edit.stop ≤ other.start :=
  (List.pairwise_cons.mp ordered.apart).1

theorem Ordered.above {count : Nat} {above below : List (Edit Line)} {edit : Edit Line}
    (ordered : Ordered count (above ++ edit :: below)) : Ordered edit.start above := by
  obtain ⟨apart, -, cross⟩ := List.pairwise_append.mp ordered.apart
  refine ⟨?_, apart⟩
  intro other member
  exact ⟨(ordered.forward other (List.mem_append_left _ member)).1, cross other member edit List.mem_cons_self⟩

section Placing

variable {edits : List (Edit Line)}

theorem startsAt_none {i : Nat} (later : ∀ edit ∈ edits, i < edit.start) : startsAt edits i = [] := by
  apply List.filter_eq_nil_iff.mpr
  intro edit member
  have behind := later edit member
  simp only [decide_eq_true_eq]
  omega

theorem placed_before (lines : List Line) {i : Nat}
    (later : ∀ edit ∈ edits, i < edit.start) : placed lines edits i = lines[i]?.toList := by
  have uncovered : ¬ Covered edits i := by
    rintro ⟨edit, member, starts, -⟩
    have behind := later edit member
    omega
  rw [placed, inserted, replacing, startsAt_none later, kept, if_neg uncovered]
  rfl

theorem placed_behind (lines : List Line) {edit : Edit Line} (edits : List (Edit Line)) {i : Nat}
    (starts : edit.start ≠ i) (stops : edit.stop ≤ i) :
    placed lines (edit :: edits) i = placed lines edits i := by
  have starting : startsAt (edit :: edits) i = startsAt edits i := by simp [startsAt, starts]
  have covered : Covered (edit :: edits) i ↔ Covered edits i := by
    simp only [Covered, List.mem_cons, exists_eq_or_imp]
    constructor
    · rintro (⟨-, inside⟩ | there)
      · omega
      · exact there
    · exact Or.inr
  simp only [placed, inserted, replacing, starting, kept, covered]

theorem placed_insertion (lines : List Line) {edit : Edit Line} (edits : List (Edit Line))
    (insertion : edit.stop = edit.start) :
    placed lines (edit :: edits) edit.start = edit.lines ++ placed lines edits edit.start := by
  have covered : Covered (edit :: edits) edit.start ↔ Covered edits edit.start := by
    simp only [Covered, List.mem_cons, exists_eq_or_imp]
    constructor
    · rintro (⟨-, inside⟩ | there)
      · omega
      · exact there
    · exact Or.inr
  simp [placed, inserted, replacing, kept, covered, startsAt, insertion]

theorem placed_range (lines : List Line) {edit : Edit Line} {i : Nat}
    (behind : ∀ other ∈ edits, edit.stop ≤ other.start) (starts : edit.start ≤ i) (stops : i < edit.stop) :
    placed lines (edit :: edits) i = if i = edit.start then edit.lines else [] := by
  -- A range places its lines at its start, and nothing at the lines that it takes away.
  have covered : Covered (edit :: edits) i := ⟨edit, List.mem_cons_self, starts, stops⟩
  have none' : startsAt edits i = [] := startsAt_none fun other member => by
    have later := behind other member
    omega
  rw [placed, kept, if_pos covered, List.append_nil]
  by_cases same : edit.start = i
  · have starting : startsAt (edit :: edits) i = [edit] := by
      simp only [startsAt, List.filter_cons, decide_eq_true same, if_true]
      rw [show edits.filter (fun other => decide (other.start = i)) = [] from none']
    rw [inserted, replacing, starting, if_pos same.symm]
    simp [stops, stops.ne']
  · have starting : startsAt (edit :: edits) i = [] := by
      simp only [startsAt, List.filter_cons, decide_eq_false same]
      exact none'
    rw [inserted, replacing, starting, if_neg (Ne.symm same)]
    rfl

end Placing

section Scanning

theorem flatMap_congr_mem {A B : Type} {items : List A} {f g : A → List B} (same : ∀ a ∈ items, f a = g a) :
    items.flatMap f = items.flatMap g := by
  rw [List.flatMap_def, List.flatMap_def, List.map_congr_left same]

theorem placedFrom_split (lines : List Line) (edits : List (Edit Line)) {first last : Nat}
    (forward : first ≤ last) (inside : last ≤ lines.length + 1) :
    placedFrom lines edits first =
      (List.range' first (last - first)).flatMap (placed lines edits) ++ placedFrom lines edits last := by
  have whole : List.range' first (lines.length + 1 - first) =
      List.range' first (last - first) ++ List.range' last (lines.length + 1 - last) := by
    have joined := @List.range'_append first (last - first) (lines.length + 1 - last) 1
    rw [show first + 1 * (last - first) = last by omega,
      show last - first + (lines.length + 1 - last) = lines.length + 1 - first by omega] at joined
    exact joined.symm
  rw [placedFrom, placedFrom, whole, List.flatMap_append]

theorem placedFrom_congr (lines : List Line) {edits others : List (Edit Line)} {first : Nat}
    (same : ∀ i, first ≤ i → placed lines edits i = placed lines others i) :
    placedFrom lines edits first = placedFrom lines others first :=
  flatMap_congr_mem fun i member => same i (List.mem_range'_1.mp member).1

theorem flatMap_lines (lines : List Line) (first count : Nat) :
    (List.range' first count).flatMap (fun i => lines[i]?.toList) = (lines.drop first).take count := by
  induction count generalizing first with
  | zero => simp
  | succ count ih =>
      rw [List.range'_succ, List.flatMap_cons, ih]
      by_cases inside : first < lines.length
      · rw [List.getElem?_eq_getElem inside, List.drop_eq_getElem_cons inside]
        rfl
      · rw [List.getElem?_eq_none (by omega), List.drop_eq_nil_of_le (by omega),
          List.drop_eq_nil_of_le (by omega)]
        simp

theorem placedFrom_nil (lines : List Line) (first : Nat) : placedFrom lines [] first = lines.drop first := by
  have same : ∀ i ∈ List.range' first (lines.length + 1 - first), placed lines [] i = lines[i]?.toList :=
    fun i _ => placed_before lines (by simp)
  rw [placedFrom, flatMap_congr_mem same, flatMap_lines, List.take_of_length_le]
  rw [List.length_drop]
  omega

theorem placedFrom_cons (lines : List Line) {edit : Edit Line} {edits : List (Edit Line)}
    (ordered : Ordered lines.length (edit :: edits)) {first : Nat} (starts : first ≤ edit.start) :
    placedFrom lines (edit :: edits) first =
      (lines.drop first).take (edit.start - first) ++ edit.lines ++ placedFrom lines edits edit.stop := by
  -- The lines up to the first edit, its own lines, and what the others make of the rest.
  obtain ⟨forward, inside⟩ := ordered.forward edit List.mem_cons_self
  have behind := ordered.behind
  have before : ∀ i ∈ List.range' first (edit.start - first),
      placed lines (edit :: edits) i = lines[i]?.toList := by
    intro i member
    have bounds := List.mem_range'_1.mp member
    apply placed_before
    intro other within
    rcases List.mem_cons.mp within with rfl | later
    · omega
    · have next := behind other later
      omega
  rw [placedFrom_split lines _ starts (by omega), flatMap_congr_mem before, flatMap_lines, List.append_assoc]
  congr 1
  by_cases insertion : edit.stop = edit.start
  · -- The line at an insertion is still to be placed.
    have after : ∀ i ∈ List.range' (edit.start + 1) (lines.length + 1 - (edit.start + 1)),
        placed lines (edit :: edits) i = placed lines edits i := by
      intro i member
      have bounds := List.mem_range'_1.mp member
      exact placed_behind lines edits (by omega) (by omega)
    have here : List.range' edit.start (lines.length + 1 - edit.start) =
        edit.start :: List.range' (edit.start + 1) (lines.length + 1 - (edit.start + 1)) := by
      rw [← List.range'_succ]
      congr 1
      omega
    rw [insertion, placedFrom, placedFrom, here, List.flatMap_cons, List.flatMap_cons,
      placed_insertion lines edits insertion, flatMap_congr_mem after, List.append_assoc]
  · have range : edit.start < edit.stop := by omega
    have within : ∀ i ∈ List.range' edit.start (edit.stop - edit.start),
        placed lines (edit :: edits) i = if i = edit.start then edit.lines else [] := by
      intro i member
      have bounds := List.mem_range'_1.mp member
      exact placed_range lines behind bounds.1 (by omega)
    have first' : (List.range' edit.start (edit.stop - edit.start)).flatMap
        (fun i => if i = edit.start then edit.lines else []) = edit.lines := by
      obtain ⟨more, count⟩ : ∃ more, edit.stop - edit.start = more + 1 := ⟨edit.stop - edit.start - 1, by omega⟩
      have rest : ∀ i ∈ List.range' (edit.start + 1) more,
          (if i = edit.start then edit.lines else []) = [] := by
        intro i member
        have bounds := List.mem_range'_1.mp member
        exact if_neg (by omega)
      rw [count, List.range'_succ, List.flatMap_cons, if_pos rfl, flatMap_congr_mem rest]
      simp
    have after : placedFrom lines (edit :: edits) edit.stop = placedFrom lines edits edit.stop :=
      placedFrom_congr lines fun i stops => placed_behind lines edits (by omega) stops
    rw [placedFrom_split lines _ forward (by omega), flatMap_congr_mem within, first', after]

end Scanning

section Splicing

theorem splices_placed (lines : List Line) {edits : List (Edit Line)} (ordered : Ordered lines.length edits)
    {first : Nat} (starts : ∀ edit ∈ edits, first ≤ edit.start) (inside : first ≤ lines.length) :
    edits.foldr splice lines = lines.take first ++ placedFrom lines edits first := by
  induction edits generalizing first with
  | nil => rw [List.foldr_nil, placedFrom_nil, List.take_append_drop]
  | cons edit edits ih =>
      obtain ⟨forward, within⟩ := ordered.forward edit List.mem_cons_self
      have start := starts edit List.mem_cons_self
      have later := ih ordered.tail ordered.behind within
      have top : (lines.take edit.stop ++ placedFrom lines edits edit.stop).take edit.start =
          lines.take edit.start := by
        rw [List.take_append_of_le_length (by rw [List.length_take]; omega), List.take_take]
        congr 1
        omega
      have bottom : (lines.take edit.stop ++ placedFrom lines edits edit.stop).drop edit.stop =
          placedFrom lines edits edit.stop := by
        rw [List.drop_append_of_le_length (by rw [List.length_take]; omega), List.drop_take]
        simp
      have front : lines.take edit.start = lines.take first ++ (lines.drop first).take (edit.start - first) := by
        rw [← List.take_add]
        congr 1
        omega
      rw [List.foldr_cons, later, splice, top, bottom, placedFrom_cons lines ordered start, front]
      simp

theorem splices_substitute (lines : List Line) {edits : List (Edit Line)} (ordered : Ordered lines.length edits) :
    edits.foldr splice lines = substituted lines edits := by
  have starts : ∀ edit ∈ edits, 0 ≤ edit.start := fun _ _ => Nat.zero_le _
  have placed := splices_placed lines ordered starts (Nat.zero_le _)
  rwa [List.take_zero, List.nil_append] at placed

end Splicing

section Positions

def shift (edits : List (Edit Line)) : Int :=
  (edits.map fun edit => (edit.lines.length : Int) - (edit.stop - edit.start : Nat)).sum

theorem placedFrom_length (lines : List Line) {edits : List (Edit Line)} (ordered : Ordered lines.length edits)
    {first : Nat} (starts : ∀ edit ∈ edits, first ≤ edit.start) (inside : first ≤ lines.length) :
    ((placedFrom lines edits first).length : Int) = (lines.length : Int) - first + shift edits := by
  induction edits generalizing first with
  | nil =>
      rw [placedFrom_nil, List.length_drop]
      simp [shift]
      omega
  | cons edit edits ih =>
      obtain ⟨forward, within⟩ := ordered.forward edit List.mem_cons_self
      have start := starts edit List.mem_cons_self
      have later := ih ordered.tail ordered.behind within
      have moved : shift (edit :: edits) =
          (edit.lines.length : Int) - (edit.stop - edit.start : Nat) + shift edits := by
        simp [shift]
      rw [placedFrom_cons lines ordered start, moved]
      simp only [List.length_append, List.length_take, List.length_drop]
      push_cast
      rw [later]
      omega

theorem substituted_length (lines : List Line) {edits : List (Edit Line)} (ordered : Ordered lines.length edits) :
    ((substituted lines edits).length : Int) = (lines.length : Int) + shift edits := by
  have starts : ∀ edit ∈ edits, 0 ≤ edit.start := fun _ _ => Nat.zero_le _
  have counted := placedFrom_length lines ordered starts (Nat.zero_le _)
  rw [substituted, counted]
  simp

theorem placedFrom_append (lines : List Line) {above below : List (Edit Line)} {edit : Edit Line}
    (ordered : Ordered lines.length (above ++ edit :: below)) {first : Nat}
    (starts : ∀ other ∈ above ++ edit :: below, first ≤ other.start) :
    placedFrom lines (above ++ edit :: below) first =
      placedFrom (lines.take edit.start) above first ++ edit.lines ++ placedFrom lines below edit.stop := by
  -- In front of the lines of an edit stands what the edits above make of the lines above.
  induction above generalizing first with
  | nil =>
      rw [List.nil_append, placedFrom_cons lines ordered (starts edit List.mem_cons_self), placedFrom_nil,
        List.drop_take]
  | cons other above ih =>
      obtain ⟨forward, -⟩ := ordered.forward other List.mem_cons_self
      obtain ⟨forward', within⟩ := ordered.forward edit (by simp)
      have start := starts other List.mem_cons_self
      have gap := ordered.behind edit (by simp)
      have count : (lines.take edit.start).length = edit.start := by
        rw [List.length_take]
        omega
      have ordered' : Ordered (lines.take edit.start).length (other :: above) := by
        rw [count]
        exact ordered.above
      have later := ih ordered.tail ordered.behind
      have whole : Ordered lines.length (other :: (above ++ edit :: below)) := ordered
      rw [List.cons_append, placedFrom_cons lines whole start, later,
        placedFrom_cons (lines.take edit.start) ordered' start]
      have same : ((lines.take edit.start).drop first).take (other.start - first) =
          (lines.drop first).take (other.start - first) := by
        rw [List.drop_take, List.take_take]
        congr 1
        omega
      rw [same]
      simp

theorem substituted_append (lines : List Line) {above below : List (Edit Line)} {edit : Edit Line}
    (ordered : Ordered lines.length (above ++ edit :: below)) :
    substituted lines (above ++ edit :: below) =
      substituted (lines.take edit.start) above ++ edit.lines ++ placedFrom lines below edit.stop :=
  placedFrom_append lines ordered fun _ _ => Nat.zero_le _

def keptPosition (lines : List Line) (edits : List (Edit Line)) (i : Nat) : Nat :=
  ((List.range' 0 i).flatMap (placed lines edits) ++ inserted edits i).length

theorem substituted_keeps (lines : List Line) (edits : List (Edit Line)) {i : Nat} (inside : i < lines.length)
    (uncovered : ¬ Covered edits i) :
    substituted lines edits =
      ((List.range' 0 i).flatMap (placed lines edits) ++ inserted edits i) ++
        lines[i] :: placedFrom lines edits (i + 1) := by
  have replaced : replacing edits i = [] := by
    have none' : (startsAt edits i).filter (fun edit => decide (i < edit.stop)) = [] := by
      apply List.filter_eq_nil_iff.mpr
      intro edit member stops
      obtain ⟨within, starts⟩ := List.mem_filter.mp member
      exact uncovered ⟨edit, within, le_of_eq (of_decide_eq_true starts), of_decide_eq_true stops⟩
    rw [replacing, none']
    rfl
  have here : placed lines edits i = inserted edits i ++ [lines[i]] := by
    rw [placed, replaced, kept, if_neg uncovered, List.getElem?_eq_getElem inside, List.append_nil]
    rfl
  have one : i + 1 - i = 1 := by omega
  rw [substituted, placedFrom_split lines edits (Nat.zero_le i) (by omega),
    placedFrom_split lines edits (Nat.le_succ i) (by omega), Nat.succ_eq_add_one, one]
  simp [here]

end Positions

section Listing

def listedAt (lines : List Line) (edits : List (Edit Line)) (i : Nat) : List Line :=
  (startsAt edits i).flatMap Edit.lines ++ kept lines edits i

def listed (lines : List Line) (edits : List (Edit Line)) : List Line :=
  (List.range' 0 (lines.length + 1)).flatMap (listedAt lines edits)

theorem starting_together {starting : List (Edit Line)} {i : Nat}
    (start : ∀ edit ∈ starting, edit.start = i ∧ i ≤ edit.stop)
    (apart : starting.Pairwise fun first second => first.stop ≤ second.start) :
    starting.flatMap Edit.lines =
      (starting.filter fun edit => edit.stop = i).flatMap Edit.lines ++
        (starting.filter fun edit => i < edit.stop).flatMap Edit.lines := by
  -- Of edits that start at one line and do not overlap, only the last can be a range.
  induction starting with
  | nil => rfl
  | cons edit starting ih =>
      have ⟨first, later⟩ := List.pairwise_cons.mp apart
      have ⟨_, forward⟩ := start edit List.mem_cons_self
      have ih := ih (fun other member => start other (List.mem_cons_of_mem _ member)) later
      by_cases insertion : edit.stop = i
      · simp [insertion, ih]
      · have range : i < edit.stop := by omega
        cases starting with
        | nil => simp [insertion, range]
        | cons next _ =>
            have behind := first next List.mem_cons_self
            have ⟨same, _⟩ := start next (List.mem_cons_of_mem _ List.mem_cons_self)
            omega

theorem listed_substituted (lines : List Line) {edits : List (Edit Line)}
    (ordered : Ordered lines.length edits) : listed lines edits = substituted lines edits := by
  apply flatMap_congr_mem
  intro i _
  have start : ∀ edit ∈ startsAt edits i, edit.start = i ∧ i ≤ edit.stop := by
    intro edit member
    obtain ⟨within, starts⟩ := List.mem_filter.mp member
    have same := of_decide_eq_true starts
    have forward := (ordered.forward edit within).1
    omega
  have apart := ordered.apart.sublist (List.filter_sublist (p := fun edit => decide (edit.start = i)))
  rw [listedAt, starting_together start apart]
  rfl

theorem listed_append (lines : List Line) {above below : List (Edit Line)} {count : Nat}
    (inside : count ≤ lines.length) (ordered : Ordered count above)
    (behind : ∀ edit ∈ below, count ≤ edit.start) :
    listed lines (above ++ below) = substituted (lines.take count) above ++
      (List.range' count (lines.length + 1 - count)).flatMap (listedAt lines below) := by
  -- The edits above a line, of which none reaches behind it, and the edits from it on.
  have length : (lines.take count).length = count := by
    rw [List.length_take]
    omega
  have covered : ∀ i, count ≤ i → (Covered (above ++ below) i ↔ Covered below i) := by
    intro i from'
    constructor
    · rintro ⟨edit, member, starts, stops⟩
      rcases List.mem_append.mp member with there | here
      · have within := (ordered.forward edit there).2
        omega
      · exact ⟨edit, here, starts, stops⟩
    · rintro ⟨edit, member, range⟩
      exact ⟨edit, List.mem_append_right _ member, range⟩
  have starting : ∀ i, startsAt (above ++ below) i = startsAt above i ++ startsAt below i :=
    fun i => List.filter_append _ _
  have top : ∀ i ∈ List.range' 0 count,
      listedAt lines (above ++ below) i = listedAt (lines.take count) above i := by
    intro i member
    have before := (List.mem_range'_1.mp member).2
    have none' : startsAt below i = [] := startsAt_none fun edit within => by
      have later := behind edit within
      omega
    have same : Covered (above ++ below) i ↔ Covered above i := by
      constructor
      · rintro ⟨edit, member, starts, stops⟩
        rcases List.mem_append.mp member with there | here
        · exact ⟨edit, there, starts, stops⟩
        · have later := behind edit here
          omega
      · rintro ⟨edit, member, range⟩
        exact ⟨edit, List.mem_append_left _ member, range⟩
    have line : (lines.take count)[i]? = lines[i]? := List.getElem?_take_of_lt (by omega)
    simp only [listedAt, starting, none', List.append_nil, kept, same, line]
  have bottom : ∀ i ∈ List.range' (count + 1) (lines.length - count),
      listedAt lines (above ++ below) i = listedAt lines below i := by
    intro i member
    have after := (List.mem_range'_1.mp member).1
    have none' : startsAt above i = [] := by
      apply List.filter_eq_nil_iff.mpr
      intro edit within
      have bounds := ordered.forward edit within
      simp only [decide_eq_true_eq]
      omega
    simp only [listedAt, starting, none', List.nil_append, kept, covered i (by omega)]
  have here : listedAt lines (above ++ below) count =
      (startsAt above count).flatMap Edit.lines ++ listedAt lines below count := by
    simp only [listedAt, starting, List.flatMap_append, kept, covered count (Nat.le_refl _),
      List.append_assoc]
  have last : listedAt (lines.take count) above count = (startsAt above count).flatMap Edit.lines := by
    simp [listedAt, kept]
  have whole : listed (lines.take count) above = substituted (lines.take count) above :=
    listed_substituted _ (by rw [length]; exact ordered)
  have split : List.range' 0 (lines.length + 1) =
      List.range' 0 count ++ count :: List.range' (count + 1) (lines.length - count) := by
    rw [← List.range'_succ, show lines.length - count + 1 = lines.length + 1 - count by omega]
    have joined := @List.range'_append 0 count (lines.length + 1 - count) 1
    rw [show 0 + 1 * count = count by omega,
      show count + (lines.length + 1 - count) = lines.length + 1 by omega] at joined
    exact joined.symm
  have split' : List.range' count (lines.length + 1 - count) =
      count :: List.range' (count + 1) (lines.length - count) := by
    rw [← List.range'_succ]
    congr 1
    omega
  have split'' : List.range' 0 (count + 1) = List.range' 0 count ++ [count] := by
    rw [List.range'_concat]
    simp
  rw [← whole, listed, listed, length, split, split', split'', List.flatMap_append, List.flatMap_append,
    List.flatMap_cons, List.flatMap_cons, flatMap_congr_mem top, flatMap_congr_mem bottom, here]
  simp [last]

end Listing

section Order

theorem placed_congr (lines : List Line) {edits others : List (Edit Line)}
    (same : ∀ i, startsAt edits i = startsAt others i) (i : Nat) : placed lines edits i = placed lines others i := by
  -- Only the order of the edits that start at one line matters.
  have member : ∀ edit, edit ∈ edits ↔ edit ∈ others := by
    intro edit
    have there : ∀ all : List (Edit Line), edit ∈ all ↔ edit ∈ startsAt all edit.start := by
      simp [startsAt]
    rw [there edits, there others, same]
  have covered : Covered edits i ↔ Covered others i := by simp only [Covered, member]
  simp only [placed, inserted, replacing, same, kept, covered]

theorem substituted_congr (lines : List Line) {edits others : List (Edit Line)}
    (same : ∀ i, startsAt edits i = startsAt others i) : substituted lines edits = substituted lines others :=
  placedFrom_congr lines fun i _ => placed_congr lines same i

theorem placedFrom_eq_nil (lines : List Line) {edits : List (Edit Line)}
    (forward : ∀ edit ∈ edits, edit.start ≤ edit.stop ∧ edit.start ≤ lines.length) (first : Nat) :
    placedFrom lines edits first = [] ↔
      (∀ i, first ≤ i → i < lines.length → Covered edits i) ∧
        ∀ edit ∈ edits, first ≤ edit.start → edit.lines = [] := by
  -- Nothing is placed from a line on when every line goes away and no edit brings one.
  rw [placedFrom, List.flatMap_eq_nil_iff]
  constructor
  · intro none'
    constructor
    · intro i from' inside
      by_contra uncovered
      have here := none' i (List.mem_range'_1.mpr ⟨from', by omega⟩)
      rw [placed, kept, if_neg uncovered, List.getElem?_eq_getElem inside] at here
      simp at here
    · intro edit member from'
      obtain ⟨order, inside⟩ := forward edit member
      have here := none' edit.start (List.mem_range'_1.mpr ⟨from', by omega⟩)
      have starting : edit ∈ startsAt edits edit.start := by simp [startsAt, member]
      rw [placed, List.append_eq_nil_iff, List.append_eq_nil_iff] at here
      by_cases insertion : edit.stop = edit.start
      · exact List.flatMap_eq_nil_iff.mp here.1.1 edit (by simp [starting, insertion])
      · exact List.flatMap_eq_nil_iff.mp here.1.2 edit (by simp [starting]; omega)
  · rintro ⟨gone, empty⟩ i member
    have from' := (List.mem_range'_1.mp member).1
    have brings : ∀ edit ∈ startsAt edits i, edit.lines = [] := by
      intro edit starting
      obtain ⟨within, starts⟩ := List.mem_filter.mp starting
      have start : edit.start = i := of_decide_eq_true starts
      exact empty edit within (by omega)
    have kept' : kept lines edits i = [] := by
      by_cases inside : i < lines.length
      · exact if_pos (gone i from' inside)
      · unfold kept
        rw [List.getElem?_eq_none (by omega)]
        simp
    have inserted' : inserted edits i = [] :=
      List.flatMap_eq_nil_iff.mpr fun edit within => brings edit (List.mem_of_mem_filter within)
    have replaced' : replacing edits i = [] :=
      List.flatMap_eq_nil_iff.mpr fun edit within => brings edit (List.mem_of_mem_filter within)
    rw [placed, inserted', replaced', kept']
    rfl

theorem mem_substituted {lines : List Line} {edits : List (Edit Line)} {line : Line}
    (member : line ∈ substituted lines edits) : line ∈ lines ∨ ∃ edit ∈ edits, line ∈ edit.lines := by
  obtain ⟨i, -, within⟩ := List.mem_flatMap.mp member
  unfold placed at within
  rw [List.mem_append, List.mem_append] at within
  rcases within with (inserted' | replaced) | kept'
  · obtain ⟨edit, starting, brought⟩ := List.mem_flatMap.mp inserted'
    exact .inr ⟨edit, List.mem_of_mem_filter (List.mem_of_mem_filter starting), brought⟩
  · obtain ⟨edit, starting, brought⟩ := List.mem_flatMap.mp replaced
    exact .inr ⟨edit, List.mem_of_mem_filter (List.mem_of_mem_filter starting), brought⟩
  · unfold kept at kept'
    split at kept'
    · simp at kept'
    · exact .inl (List.mem_of_getElem? (Option.mem_toList.mp kept'))

end Order

end Substitution
