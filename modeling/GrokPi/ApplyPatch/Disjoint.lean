import GrokPi.ApplyPatch.Seeking
import GrokPi.Shared.Substitution

set_option autoImplicit false

namespace GrokPi.ApplyPatch

open Substitution (Edit Ordered listed listedAt substituted startsAt)

variable {lines : List Text} {path : Text} {chunk : UpdateFileChunk} {lineIndex next : Nat}
  {earlier replacements : List Replacement} {placed : Replacement}

def Replacement.stop (replacement : Replacement) : Nat := replacement.start + replacement.oldLen

def Replacement.edit (replacement : Replacement) : Edit Text :=
  { start := replacement.start
    stop := replacement.stop
    lines := replacement.newLines }

def Apart (first second : Replacement) : Prop := first.stop ≤ second.start ∨ second.stop ≤ first.start

structure Simultaneous (lines : List Text) (replacements : List Replacement) : Prop where
  inside : ∀ replacement ∈ replacements, replacement.stop ≤ lines.length
  apart : replacements.Pairwise Apart
  substituted : applyReplacements lines replacements = listed lines (replacements.map Replacement.edit)

section Clear

def placeChunk (lines : List Text) (path : Text) (lineIndex : Nat) (chunk : UpdateFileChunk) :
    Option (Replacement × Nat) :=
  match seekContext lines path chunk lineIndex with
  | .error _ => none
  | .ok lineIndex =>
      if chunk.oldLines = [] then
        some ({ start := insertionIdx lines, oldLen := 0, newLines := chunk.newLines }, lineIndex)
      else (findOldLines lines chunk lineIndex).map fun found => (found, found.stop)

/-- A chunk keeps clear of the replacements in front of it. -/
def ClearStep (lines : List Text) (earlier : List Replacement) (chunk : UpdateFileChunk)
    (placed : Replacement) : Prop :=
  if chunk.oldLines = [] then
    -- Where an earlier chunk takes the empty last line, it takes no line above, and the added lines are empty.
    ∀ replacement ∈ earlier, replacement.start ≤ placed.start → placed.start < replacement.stop →
      replacement.start = placed.start ∧ ∀ line ∈ chunk.newLines, line = []
  else if chunk.isEndOfFile then
    -- The lines at the end of the file are not yet taken.
    0 < placed.oldLen → ∀ replacement ∈ earlier, replacement.start < lines.length →
      replacement.stop ≤ lines.length - placed.oldLen
  else
    ∀ replacement ∈ earlier, replacement.oldLen = 0 → placed.start < replacement.start →
      placed.stop ≤ replacement.start

def Clear (lines : List Text) (path : Text) : Nat → List Replacement → List UpdateFileChunk → Prop
  | _, _, [] => True
  | lineIndex, earlier, chunk :: rest =>
      ∀ placed next, placeChunk lines path lineIndex chunk = some (placed, next) →
        ClearStep lines earlier chunk placed ∧ Clear lines path next (earlier ++ [placed]) rest

end Clear

section Placing

theorem seekSequence_bounds {pattern : List Text} {start i : Nat} {eof : Bool} (nonempty : pattern ≠ [])
    (found : seekSequence lines pattern start eof = some i) :
    i + pattern.length ≤ lines.length ∧ (eof = false → start ≤ i) ∧
      (eof = true → i + pattern.length = lines.length) := by
  obtain ⟨_, best⟩ := seekSequence_best nonempty found
  have within := best.window.1
  have inside := best.inside
  refine ⟨within, ?_, ?_⟩
  · rintro rfl
    exact inside
  · rintro rfl
    simp only [searchStart, if_true] at inside
    omega

structure FoundAt (lines : List Text) (chunk : UpdateFileChunk) (lineIndex : Nat) (found : Replacement) : Prop where
  inside : found.stop ≤ lines.length
  empty : found.oldLen = 0 → found.start = lineIndex
  forward : chunk.isEndOfFile = false → lineIndex ≤ found.start
  atEnd : chunk.isEndOfFile = true → 0 < found.oldLen → found.stop = lines.length

theorem findOldLines_at {found : Replacement} (within : lineIndex ≤ lines.length)
    (nonempty : chunk.oldLines ≠ []) (seen : findOldLines lines chunk lineIndex = some found) :
    FoundAt lines chunk lineIndex found := by
  unfold findOldLines at seen
  split at seen
  next start sought =>
    obtain rfl := Option.some.inj seen
    obtain ⟨inside, forward, atEnd⟩ := seekSequence_bounds nonempty sought
    refine ⟨inside, ?_, forward, fun eof _ => atEnd eof⟩
    intro empty
    exact absurd (List.length_eq_zero_iff.mp empty) nonempty
  next =>
    split at seen
    next =>
      obtain ⟨start, sought, rfl⟩ := Option.map_eq_some_iff.mp seen
      by_cases empty : chunk.oldLines.dropLast = []
      · rw [empty, seekSequence, if_pos rfl] at sought
        obtain rfl := Option.some.inj sought
        have none' : chunk.oldLines.dropLast.length = 0 := by rw [empty]; rfl
        refine ⟨?_, fun _ => rfl, fun _ => Nat.le_refl _, fun _ some' => ?_⟩
        · simpa [Replacement.stop, none'] using within
        · simp only [none'] at some'
          omega
      · obtain ⟨inside, forward, atEnd⟩ := seekSequence_bounds empty sought
        refine ⟨inside, ?_, forward, fun eof _ => atEnd eof⟩
        intro none'
        exact absurd (List.length_eq_zero_iff.mp none') empty
    · cases seen

theorem seekContext_at {after : Nat} (within : lineIndex ≤ lines.length)
    (seen : seekContext lines path chunk lineIndex = .ok after) : lineIndex ≤ after ∧ after ≤ lines.length := by
  unfold seekContext at seen
  split at seen
  · obtain rfl := Except.ok.inj seen
    exact ⟨Nat.le_refl _, within⟩
  · split at seen
    next context _ idx found =>
      obtain rfl := Except.ok.inj seen
      have ⟨inside, forward, _⟩ := seekSequence_bounds (List.cons_ne_nil _ _) found
      have from' := forward rfl
      simp only [List.length_singleton] at inside
      omega
    · cases seen

theorem placeChunk_cases (within : lineIndex ≤ lines.length)
    (step : placeChunk lines path lineIndex chunk = some (placed, next)) :
    ∃ after, lineIndex ≤ after ∧ after ≤ lines.length ∧
      ((chunk.oldLines = [] ∧ next = after ∧
          placed = { start := insertionIdx lines, oldLen := 0, newLines := chunk.newLines }) ∨
        (chunk.oldLines ≠ [] ∧ next = placed.stop ∧ FoundAt lines chunk after placed)) := by
  unfold placeChunk at step
  split at step
  · cases step
  next after context =>
    have ⟨from', inside⟩ := seekContext_at within context
    refine ⟨after, from', inside, ?_⟩
    split at step
    next none' =>
      cases step
      exact Or.inl ⟨none', rfl, rfl⟩
    next some' =>
      obtain ⟨found, seen, same⟩ := Option.map_eq_some_iff.mp step
      cases same
      exact Or.inr ⟨some', rfl, findOldLines_at inside some' seen⟩

theorem replacementsFrom_cons {rest : List UpdateFileChunk} {whole : List Replacement}
    (made : replacementsFrom lines path lineIndex (chunk :: rest) = .ok whole) :
    ∃ placed next others, placeChunk lines path lineIndex chunk = some (placed, next) ∧
      replacementsFrom lines path next rest = .ok others ∧ whole = placed :: others := by
  cases context : seekContext lines path chunk lineIndex with
  | error message =>
      simp only [replacementsFrom, context] at made
      cases made
  | ok after =>
      simp only [replacementsFrom, context] at made
      simp only [placeChunk, context]
      by_cases none' : chunk.oldLines = []
      · rw [if_pos none'] at made ⊢
        cases others : replacementsFrom lines path after rest with
        | error message =>
            rw [others] at made
            cases made
        | ok others' =>
            rw [others] at made
            exact ⟨_, _, others', rfl, others, (Except.ok.inj made).symm⟩
      · rw [if_neg none'] at made ⊢
        cases seen : findOldLines lines chunk after with
        | none =>
            rw [seen] at made
            cases made
        | some found =>
            simp only [seen] at made
            cases others : replacementsFrom lines path (found.start + found.oldLen) rest with
            | error message =>
                rw [others] at made
                cases made
            | ok others' =>
                rw [others] at made
                exact ⟨_, _, others', rfl, others, (Except.ok.inj made).symm⟩

end Placing

section Loop

/-- Behind a range that starts where an insertion stands, the insertion brings only empty lines. -/
def Tied (first second : Replacement) : Prop :=
  first.start = second.start → 0 < first.oldLen → ∀ line ∈ second.newLines, line = []

def TiesLast (lines : List Text) (first second : Replacement) : Prop :=
  first.start = second.start → 0 < first.oldLen → second.oldLen = 0 → second.start = insertionIdx lines

structure Loop (lines : List Text) (lineIndex : Nat) (earlier : List Replacement) : Prop where
  cursor : lineIndex ≤ lines.length
  inside : ∀ replacement ∈ earlier, replacement.stop ≤ lines.length
  behind : ∀ replacement ∈ earlier, replacement.stop ≤ lineIndex ∨
    replacement.oldLen = 0 ∧ replacement.start = insertionIdx lines

theorem insertionIdx_le (lines : List Text) : insertionIdx lines ≤ lines.length := by
  unfold insertionIdx
  split <;> omega

theorem Loop.step (loop : Loop lines lineIndex earlier)
    (step : placeChunk lines path lineIndex chunk = some (placed, next)) :
    Loop lines next (earlier ++ [placed]) := by
  obtain ⟨after, from', within, ⟨_, rfl, rfl⟩ | ⟨_, rfl, found⟩⟩ := placeChunk_cases loop.cursor step
  · refine ⟨within, ?_, ?_⟩
    · intro replacement member
      rcases List.mem_append.mp member with before | here
      · exact loop.inside replacement before
      · obtain rfl := List.mem_singleton.mp here
        exact insertionIdx_le lines
    · intro replacement member
      rcases List.mem_append.mp member with before | here
      · exact (loop.behind replacement before).imp_left fun stop => by omega
      · obtain rfl := List.mem_singleton.mp here
        exact Or.inr ⟨rfl, rfl⟩
  · refine ⟨found.inside, ?_, ?_⟩
    · intro replacement member
      rcases List.mem_append.mp member with before | here
      · exact loop.inside replacement before
      · obtain rfl := List.mem_singleton.mp here
        exact found.inside
    · intro replacement member
      rcases List.mem_append.mp member with before | here
      · refine (loop.behind replacement before).imp_left fun stop => ?_
        have inside := loop.inside replacement before
        -- Only the end of the file is searched with no regard to the line index.
        by_cases empty : placed.oldLen = 0
        · have same := found.empty empty
          simp only [Replacement.stop] at *
          omega
        · cases eof : chunk.isEndOfFile with
          | true =>
              have last := found.atEnd eof (by omega)
              omega
          | false =>
              have forward := found.forward eof
              simp only [Replacement.stop] at *
              omega
      · obtain rfl := List.mem_singleton.mp here
        exact Or.inl (Nat.le_refl _)

theorem Loop.clearStep_iff (loop : Loop lines lineIndex earlier)
    (step : placeChunk lines path lineIndex chunk = some (placed, next)) :
    ClearStep lines earlier chunk placed ↔
      ∀ replacement ∈ earlier, Apart replacement placed ∧ Tied replacement placed := by
  obtain ⟨after, from', within, ⟨none', rfl, rfl⟩ | ⟨some', rfl, found⟩⟩ := placeChunk_cases loop.cursor step
  -- An addition stands at the insertion point, whatever the line index is.
  · rw [ClearStep, if_pos none']
    refine forall₂_congr fun replacement _ => ?_
    simp only [Apart, Tied, Replacement.stop]
    constructor
    · intro clear
      refine ⟨?_, fun start some' => (clear (by omega) (by omega)).2⟩
      by_contra overlap
      have same := (clear (by omega) (by omega)).1
      omega
    · rintro ⟨apart, tied⟩ starts stops
      have same : replacement.start = insertionIdx lines := by omega
      exact ⟨same, tied same (by omega)⟩
  · rw [ClearStep, if_neg some']
    -- A block lies behind the line index, and at the end of the file when it is marked so.
    have inside := found.inside
    have forward := found.forward
    have empty := found.empty
    have atEnd := found.atEnd
    cases eof : chunk.isEndOfFile with
    | true =>
        simp only [if_true]
        constructor
        · intro clear replacement member
          have stop := loop.inside replacement member
          have before := loop.behind replacement member
          have atEnd := atEnd eof
          simp only [Replacement.stop] at *
          by_cases taken : placed.oldLen = 0
          · have same := empty taken
            refine ⟨?_, fun start some' => ?_⟩
            · simp only [Apart, Replacement.stop]
              omega
            · omega
          · have last := atEnd (by omega)
            have gap := clear (by omega) replacement member
            refine ⟨?_, fun start some' => ?_⟩
            · simp only [Apart, Replacement.stop]
              omega
            · omega
        · intro apart taken replacement member starts
          have last := atEnd eof taken
          have gap := (apart replacement member).1
          simp only [Apart, Replacement.stop] at *
          omega
    | false =>
        simp only [Bool.false_eq_true, if_false]
        have forward := forward eof
        constructor
        · intro clear replacement member
          have before := loop.behind replacement member
          have gap := clear replacement member
          simp only [Replacement.stop] at *
          refine ⟨?_, fun start some' => ?_⟩
          · simp only [Apart, Replacement.stop]
            omega
          · omega
        · intro apart replacement member insertion starts
          have gap := (apart replacement member).1
          simp only [Apart, Replacement.stop] at *
          omega

theorem Loop.ties (loop : Loop lines lineIndex earlier)
    (step : placeChunk lines path lineIndex chunk = some (placed, next)) :
    ∀ replacement ∈ earlier, TiesLast lines replacement placed := by
  intro replacement member same taken insertion
  obtain ⟨after, from', within, ⟨_, rfl, rfl⟩ | ⟨_, rfl, found⟩⟩ := placeChunk_cases loop.cursor step
  · rfl
  · have start := found.empty insertion
    have behind := loop.behind replacement member
    simp only [Replacement.stop] at *
    omega

theorem Loop.clear_iff {chunks : List UpdateFileChunk} {made : List Replacement}
    (loop : Loop lines lineIndex earlier) (run : replacementsFrom lines path lineIndex chunks = .ok made) :
    Clear lines path lineIndex earlier chunks ↔
      made.Pairwise (fun first second => Apart first second ∧ Tied first second) ∧
        ∀ first ∈ earlier, ∀ second ∈ made, Apart first second ∧ Tied first second := by
  induction chunks generalizing lineIndex earlier made with
  | nil =>
      obtain rfl := Except.ok.inj run
      simp [Clear]
  | cons chunk rest ih =>
      obtain ⟨placed, next, others, step, later, rfl⟩ := replacementsFrom_cons run
      have one : Clear lines path lineIndex earlier (chunk :: rest) ↔
          ClearStep lines earlier chunk placed ∧ Clear lines path next (earlier ++ [placed]) rest := by
        rw [Clear, step]
        constructor
        · exact fun clear => clear placed next rfl
        · rintro clear _ _ ⟨⟩
          exact clear
      rw [one, loop.clearStep_iff step, ih (loop.step step) later, List.pairwise_cons]
      constructor
      · rintro ⟨here, apart, before⟩
        refine ⟨⟨fun second member => before placed (by simp) second member, apart⟩, ?_⟩
        intro first member second within
        rcases List.mem_cons.mp within with rfl | there
        · exact here first member
        · exact before first (List.mem_append_left _ member) second there
      · rintro ⟨⟨here, apart⟩, before⟩
        refine ⟨fun first member => before first member placed List.mem_cons_self, apart, ?_⟩
        intro first member second within
        rcases List.mem_append.mp member with there | same
        · exact before first there second (List.mem_cons_of_mem _ within)
        · obtain rfl := List.mem_singleton.mp same
          exact here second within

theorem Loop.made {chunks : List UpdateFileChunk} {made : List Replacement}
    (loop : Loop lines lineIndex earlier) (run : replacementsFrom lines path lineIndex chunks = .ok made) :
    (∀ replacement ∈ made, replacement.stop ≤ lines.length) ∧ made.Pairwise (TiesLast lines) ∧
      ∀ first ∈ earlier, ∀ second ∈ made, TiesLast lines first second := by
  induction chunks generalizing lineIndex earlier made with
  | nil =>
      obtain rfl := Except.ok.inj run
      simp
  | cons chunk rest ih =>
      obtain ⟨placed, next, others, step, later, rfl⟩ := replacementsFrom_cons run
      have stepped := loop.step step
      obtain ⟨inside, ties, before⟩ := ih stepped later
      refine ⟨?_, List.pairwise_cons.mpr ⟨?_, ties⟩, ?_⟩
      · intro replacement member
        rcases List.mem_cons.mp member with rfl | there
        · exact stepped.inside _ (by simp)
        · exact inside replacement there
      · exact fun second member => before placed (by simp) second member
      · intro first member second within
        rcases List.mem_cons.mp within with rfl | there
        · exact loop.ties step first member
        · exact before first (List.mem_append_left _ member) second there

end Loop

section Applying

theorem applyReplacements_splices (lines : List Text) (replacements : List Replacement) :
    applyReplacements lines replacements =
      (replacements.map Replacement.edit).foldr Substitution.splice lines := by
  rw [List.foldr_map]
  rfl

theorem ordered_edits {count : Nat} (inside : ∀ replacement ∈ replacements, replacement.stop ≤ count)
    (apart : replacements.Pairwise fun first second => first.stop ≤ second.start) :
    Ordered count (replacements.map Replacement.edit) := by
  refine ⟨?_, List.pairwise_map.mpr apart⟩
  intro edit member
  obtain ⟨replacement, within, rfl⟩ := List.mem_map.mp member
  exact ⟨Nat.le_add_right _ _, inside replacement within⟩

theorem apply_ordered (inside : ∀ replacement ∈ replacements, replacement.stop ≤ lines.length)
    (apart : replacements.Pairwise fun first second => first.stop ≤ second.start) :
    applyReplacements lines replacements = listed lines (replacements.map Replacement.edit) := by
  have ordered := ordered_edits inside apart
  rw [applyReplacements_splices, Substitution.splices_substitute lines ordered,
    Substitution.listed_substituted lines ordered]

theorem append_eq_cons_iff {Line : Type} (blank line : Line) (added : List Line) :
    added ++ [blank] = line :: added ↔ line = blank ∧ ∀ other ∈ added, other = blank := by
  induction added generalizing line with
  | nil => simp [eq_comm]
  | cons head tail ih =>
      simp only [List.cons_append, List.cons.injEq, ih, List.mem_cons, forall_eq_or_imp]
      constructor
      · rintro ⟨rfl, rfl, rest⟩
        exact ⟨rfl, rfl, rest⟩
      · rintro ⟨rfl, rfl, rest⟩
        exact ⟨rfl, rfl, rest⟩

theorem drop_blank_iff {Line : Type} (blank : Line) (added : List Line) :
    (added ++ [blank]).drop 1 = added ↔ ∀ line ∈ added, line = blank := by
  cases added with
  | nil => simp
  | cons line rest => simp [append_eq_cons_iff]

structure TakesLast (lines front : List Text) (taken : Replacement) (above below : List Replacement) : Prop where
  split : lines = front ++ [[]]
  start : taken.start = front.length
  stop : taken.stop = front.length + 1
  above : Ordered front.length (above.map Replacement.edit)
  insertions : ∀ replacement ∈ below, replacement.oldLen = 0
  starts : ∀ replacement ∈ below, replacement.start = front.length ∨ replacement.start = front.length + 1
  sorted : below.Pairwise fun first second => first.start ≤ second.start

def broughtTo (below : List Replacement) (start : Nat) : List Text :=
  (startsAt (below.map Replacement.edit) start).flatMap Edit.lines

variable {front : List Text} {taken : Replacement} {above below : List Replacement}

theorem TakesLast.uncovered (takes : TakesLast lines front taken above below) (i : Nat) :
    ¬ Substitution.Covered (below.map Replacement.edit) i := by
  rintro ⟨edit, member, starts, stops⟩
  obtain ⟨replacement, within, rfl⟩ := List.mem_map.mp member
  have empty := takes.insertions replacement within
  simp only [Replacement.edit, Replacement.stop] at starts stops
  omega

theorem TakesLast.inserted (takes : TakesLast lines front taken above below) :
    applyReplacements lines below =
      front ++ broughtTo below front.length ++ [[]] ++ broughtTo below (front.length + 1) := by
  -- The insertions behind the range go in front of the last line and behind it.
  have length : lines.length = front.length + 1 := by simp [takes.split]
  have inside : ∀ replacement ∈ below, replacement.stop ≤ lines.length := by
    intro replacement member
    have empty := takes.insertions replacement member
    have starts := takes.starts replacement member
    simp only [Replacement.stop]
    omega
  have apart : below.Pairwise fun first second => first.stop ≤ second.start := by
    refine takes.sorted.imp_of_mem ?_
    intro first second member _ le
    have empty := takes.insertions first member
    simp only [Replacement.stop]
    omega
  have none' : Ordered front.length ([] : List (Edit Text)) := ⟨by simp, .nil⟩
  have behind : ∀ edit ∈ below.map Replacement.edit, front.length ≤ edit.start := by
    intro edit member
    obtain ⟨replacement, within, rfl⟩ := List.mem_map.mp member
    have starts := takes.starts replacement within
    simp only [Replacement.edit]
    omega
  have parts := @Substitution.listed_append _ lines _ _ front.length (by omega) none' behind
  rw [List.nil_append] at parts
  have range : List.range' front.length (lines.length + 1 - front.length) = [front.length, front.length + 1] := by
    rw [show lines.length + 1 - front.length = 2 by omega]
    rfl
  have empty : substituted (lines.take front.length) [] = front := by
    rw [substituted, Substitution.placedFrom_nil, List.drop_zero, takes.split]
    simp
  rw [apply_ordered inside apart, parts, range, empty]
  simp [listedAt, broughtTo, Substitution.kept, takes.uncovered, takes.split]

theorem drop_front (front brought later : List Text) :
    (front ++ brought ++ [[]] ++ later).drop (front.length + 1) = (brought ++ [[]]).drop 1 ++ later := by
  rw [List.append_assoc front, List.append_assoc front, List.drop_length_add_append,
    List.drop_append_of_le_length (by simp)]

def trailing (front brought : List Text) : Edit Text :=
  { start := front.length
    stop := front.length
    lines := brought }

theorem ordered_trailing (brought : List Text) {edits : List (Edit Text)} (ordered : Ordered front.length edits) :
    Ordered front.length (edits ++ [trailing front brought]) := by
  refine ⟨?_, List.pairwise_append.mpr ⟨ordered.apart, List.pairwise_singleton _ _, ?_⟩⟩
  · intro edit member
    rcases List.mem_append.mp member with before | here
    · exact ordered.forward edit before
    · obtain rfl := List.mem_singleton.mp here
      exact ⟨Nat.le_refl _, Nat.le_refl _⟩
  · intro edit member other here
    obtain rfl := List.mem_singleton.mp here
    exact (ordered.forward edit member).2

theorem splices_front (brought : List Text) {edits : List (Edit Text)} (ordered : Ordered front.length edits) :
    edits.foldr Substitution.splice (front ++ brought) = substituted front edits ++ brought := by
  have whole : (edits ++ [trailing front brought]).foldr Substitution.splice front =
      edits.foldr Substitution.splice (front ++ brought) := by
    rw [List.foldr_append]
    simp [Substitution.splice, trailing]
  have ordered' := ordered_trailing brought ordered
  have top : front.take (trailing front brought).start = front := List.take_length
  rw [← whole, Substitution.splices_substitute front ordered', Substitution.substituted_append front ordered', top,
    Substitution.placedFrom_nil]
  simp [trailing]

theorem TakesLast.applied (takes : TakesLast lines front taken above below) :
    applyReplacements lines (above ++ taken :: below) =
      substituted front (above.map Replacement.edit) ++ taken.newLines ++
        (broughtTo below front.length ++ [[]]).drop 1 ++ broughtTo below (front.length + 1) := by
  have inserted := takes.inserted
  have top : (front ++ broughtTo below front.length ++ [[]] ++ broughtTo below (front.length + 1)).take
      front.length = front := by simp
  have step : Substitution.splice taken.edit (front ++ broughtTo below front.length ++ [[]] ++
      broughtTo below (front.length + 1)) = front ++ (taken.newLines ++
        ((broughtTo below front.length ++ [[]]).drop 1 ++ broughtTo below (front.length + 1))) := by
    rw [Substitution.splice]
    simp only [Replacement.edit, takes.start, takes.stop]
    rw [top, drop_front, List.append_assoc]
  rw [applyReplacements_splices] at inserted ⊢
  rw [List.map_append, List.map_cons, List.foldr_append, List.foldr_cons, inserted, step,
    splices_front _ takes.above]
  simp only [List.append_assoc]

theorem TakesLast.listed (takes : TakesLast lines front taken above below) :
    listed lines ((above ++ taken :: below).map Replacement.edit) =
      substituted front (above.map Replacement.edit) ++ taken.newLines ++ broughtTo below front.length ++
        broughtTo below (front.length + 1) := by
  have length : lines.length = front.length + 1 := by simp [takes.split]
  have behind : ∀ edit ∈ (taken :: below).map Replacement.edit, front.length ≤ edit.start := by
    intro edit member
    obtain ⟨replacement, within, rfl⟩ := List.mem_map.mp member
    rcases List.mem_cons.mp within with rfl | later
    · exact Nat.le_of_eq takes.start.symm
    · have starts := takes.starts replacement later
      simp only [Replacement.edit]
      omega
  have range : List.range' front.length (lines.length + 1 - front.length) = [front.length, front.length + 1] := by
    rw [show lines.length + 1 - front.length = 2 by omega]
    rfl
  have covered : Substitution.Covered ((taken :: below).map Replacement.edit) front.length := by
    refine ⟨taken.edit, List.mem_cons_self, Nat.le_of_eq takes.start, ?_⟩
    simp [Replacement.edit, takes.stop]
  have here : startsAt ((taken :: below).map Replacement.edit) front.length =
      taken.edit :: startsAt (below.map Replacement.edit) front.length := by
    simp [startsAt, Replacement.edit, takes.start]
  have last : startsAt ((taken :: below).map Replacement.edit) (front.length + 1) =
      startsAt (below.map Replacement.edit) (front.length + 1) := by
    simp [startsAt, Replacement.edit, takes.start]
  have top : lines.take front.length = front := by simp [takes.split]
  rw [List.map_append, Substitution.listed_append lines (by omega) takes.above behind, range, top]
  simp only [List.flatMap_cons, List.flatMap_nil, listedAt, here, last, Substitution.kept, if_pos covered,
    List.append_nil, broughtTo]
  have beyond : lines[front.length + 1]? = none := List.getElem?_eq_none (by omega)
  simp [beyond, Replacement.edit]

theorem insertionIdx_last (inside : insertionIdx lines < lines.length) :
    lines = lines.dropLast ++ [[]] ∧ insertionIdx lines = lines.dropLast.length := by
  unfold insertionIdx at inside ⊢
  split
  next last =>
    obtain ⟨front, rfl⟩ := List.getLast?_eq_some_iff.mp last
    simp
  next other =>
    rw [if_neg other] at inside
    omega

theorem stops_of_untied {first second : Replacement} (sorted : first.start ≤ second.start)
    (apart : Apart first second) (ties : TiesLast lines first second)
    (untaken : first.start = insertionIdx lines → first.oldLen = 0) : first.stop ≤ second.start := by
  -- A range and an insertion that stands at its start come in one order only.
  by_contra reaches
  simp only [Apart, Replacement.stop] at apart reaches
  have same : first.start = second.start := by omega
  have start := ties same (by omega) (by omega)
  have empty := untaken (by omega)
  omega

theorem takesLast (sorted : (above ++ taken :: below).Pairwise fun first second => first.start ≤ second.start)
    (inside : ∀ replacement ∈ above ++ taken :: below, replacement.stop ≤ lines.length)
    (apart : (above ++ taken :: below).Pairwise Apart) (ties : (above ++ taken :: below).Pairwise (TiesLast lines))
    (start : taken.start = insertionIdx lines) (taking : 0 < taken.oldLen) :
    TakesLast lines lines.dropLast taken above below := by
  have stop := inside taken (by simp)
  obtain ⟨split, idx⟩ := @insertionIdx_last lines (by simp only [Replacement.stop] at stop; omega)
  have length : lines.length = lines.dropLast.length + 1 := by
    rw [List.length_dropLast]
    simp only [Replacement.stop] at stop
    omega
  obtain ⟨sortedAbove, sortedBelow, sortedCross⟩ := List.pairwise_append.mp sorted
  obtain ⟨apartAbove, apartBelow, apartCross⟩ := List.pairwise_append.mp apart
  have tiesAbove := (List.pairwise_append.mp ties).1
  have before : ∀ replacement ∈ above, replacement.stop ≤ lines.dropLast.length := by
    intro replacement member
    have le := sortedCross replacement member taken List.mem_cons_self
    have gap := apartCross replacement member taken List.mem_cons_self
    simp only [Apart, Replacement.stop] at *
    omega
  have behind : ∀ replacement ∈ below, replacement.oldLen = 0 ∧
      (replacement.start = lines.dropLast.length ∨ replacement.start = lines.dropLast.length + 1) := by
    intro replacement member
    have le := (List.pairwise_cons.mp sortedBelow).1 replacement member
    have gap := (List.pairwise_cons.mp apartBelow).1 replacement member
    have within := inside replacement (List.mem_append_right _ (List.mem_cons_of_mem _ member))
    simp only [Apart, Replacement.stop] at *
    omega
  refine ⟨split, start.trans idx, ?_, ordered_edits before ?_, fun r member => (behind r member).1,
    fun r member => (behind r member).2, (List.pairwise_cons.mp sortedBelow).2⟩
  · simp only [Replacement.stop] at *
    omega
  · refine ((sortedAbove.and apartAbove).and tiesAbove).imp_of_mem ?_
    rintro first second member _ ⟨⟨le, gap⟩, tie⟩
    have within := before first member
    refine stops_of_untied le gap tie fun last => ?_
    simp only [Replacement.stop] at within
    omega

theorem mem_broughtTo {start : Nat} {line : Text} :
    line ∈ broughtTo below start ↔
      ∃ replacement ∈ below, replacement.start = start ∧ line ∈ replacement.newLines := by
  simp only [broughtTo, startsAt, List.mem_flatMap, List.mem_filter, List.mem_map, decide_eq_true_eq]
  constructor
  · rintro ⟨_, ⟨⟨replacement, member, rfl⟩, start⟩, brought⟩
    exact ⟨replacement, member, start, brought⟩
  · rintro ⟨replacement, member, start, brought⟩
    exact ⟨_, ⟨⟨replacement, member, rfl⟩, start⟩, brought⟩

theorem TakesLast.tied_iff (takes : TakesLast lines front taken above below) (taking : 0 < taken.oldLen) :
    (above ++ taken :: below).Pairwise Tied ↔ ∀ line ∈ broughtTo below front.length, line = [] := by
  have low : ∀ replacement ∈ above, 0 < replacement.oldLen → replacement.start < front.length := by
    intro replacement member some'
    have stop := (takes.above.forward _ (List.mem_map_of_mem member)).2
    simp only [Replacement.edit, Replacement.stop] at stop
    omega
  rw [List.pairwise_append, List.pairwise_cons]
  constructor
  · rintro ⟨_, ⟨tied, _⟩, _⟩ line brought
    obtain ⟨replacement, member, start, within⟩ := mem_broughtTo.mp brought
    exact tied replacement member (takes.start.trans start.symm) taking line within
  · intro blank
    refine ⟨?_, ⟨?_, ?_⟩, ?_⟩
    · refine (List.pairwise_map.mp takes.above.apart).imp ?_
      intro first second stops same some'
      simp only [Replacement.edit, Replacement.stop] at stops
      omega
    · intro replacement member same _ line within
      exact blank line (mem_broughtTo.mpr ⟨replacement, member, same.symm.trans takes.start, within⟩)
    · refine List.pairwise_of_forall_mem_list ?_
      intro first member second _ _ some'
      have empty := takes.insertions first member
      omega
    · intro first member second there same some'
      have start := low first member some'
      rcases List.mem_cons.mp there with rfl | later
      · have starts := takes.start
        omega
      · have starts := takes.starts second later
        omega

theorem apply_iff_tied (sorted : replacements.Pairwise fun first second => first.start ≤ second.start)
    (inside : ∀ replacement ∈ replacements, replacement.stop ≤ lines.length)
    (apart : replacements.Pairwise Apart) (ties : replacements.Pairwise (TiesLast lines)) :
    applyReplacements lines replacements = listed lines (replacements.map Replacement.edit) ↔
      replacements.Pairwise Tied := by
  -- Replacements that are apart are all made at once, unless an addition stands behind the range that takes the
  -- empty last line.
  by_cases taking : ∃ taken ∈ replacements, taken.start = insertionIdx lines ∧ 0 < taken.oldLen
  -- An earlier range takes the empty last line, in front of which additions go.
  · obtain ⟨taken, member, start, some'⟩ := taking
    obtain ⟨above, below, rfl⟩ := List.append_of_mem member
    have takes := takesLast sorted inside apart ties start some'
    rw [takes.applied, takes.listed, takes.tied_iff some', ← drop_blank_iff]
    simp only [List.append_assoc, List.append_cancel_left_eq]
    exact List.append_left_inj _
  · have stops : replacements.Pairwise fun first second => first.stop ≤ second.start := by
      refine ((sorted.and apart).and ties).imp_of_mem ?_
      rintro first second member _ ⟨⟨le, gap⟩, tie⟩
      refine stops_of_untied le gap tie fun last => ?_
      by_contra some'
      exact taking ⟨first, member, last, Nat.pos_of_ne_zero some'⟩
    refine iff_of_true (apply_ordered inside stops) (stops.imp ?_)
    intro first second stop same some'
    simp only [Replacement.stop] at stop
    omega

end Applying

section Contract

theorem sorted_together (replacements : List Replacement) (start : Nat) :
    (replacements.mergeSort fun first second => first.start ≤ second.start).filter
        (fun replacement => replacement.start = start) =
      replacements.filter fun replacement => replacement.start = start := by
  -- The sort is stable: those of one start are in order already.
  have together : (replacements.filter fun replacement => replacement.start = start).Pairwise
      fun first second => decide (first.start ≤ second.start) = true := by
    refine List.pairwise_of_forall_mem_list ?_
    intro first member second member'
    have one := of_decide_eq_true (List.mem_filter.mp member).2
    have other := of_decide_eq_true (List.mem_filter.mp member').2
    simp only [decide_eq_true_eq]
    omega
  have within := List.sublist_mergeSort (fun a b c => by simpa using Nat.le_trans)
    (fun a b => by simpa using Nat.le_total _ _) together List.filter_sublist
  have filtered := within.filter fun replacement => replacement.start = start
  rw [List.filter_filter] at filtered
  simp only [Bool.and_self] at filtered
  refine (filtered.eq_of_length ?_).symm
  exact (((List.mergeSort_perm replacements _).filter _).length_eq).symm

theorem pairwise_sorted {R : Replacement → Replacement → Prop}
    (together : ∀ first second, first.start ≠ second.start → R first second) :
    (replacements.mergeSort fun first second => first.start ≤ second.start).Pairwise R ↔
      replacements.Pairwise R := by
  have one : ∀ first second : List Replacement,
      (∀ start, first.filter (fun replacement => decide (replacement.start = start)) =
        second.filter fun replacement => decide (replacement.start = start)) →
      first.Pairwise R → second.Pairwise R := by
    intro first second same pairs
    rw [List.pairwise_iff_forall_sublist] at pairs ⊢
    intro a b within
    by_cases start : a.start = b.start
    · have filtered := within.filter fun replacement => replacement.start = a.start
      rw [← same a.start] at filtered
      simp only [List.filter_cons, List.filter_nil, decide_true, if_true, start.symm] at filtered
      exact pairs (filtered.trans List.filter_sublist)
    · exact together a b start
  exact ⟨one _ _ (sorted_together replacements), one _ _ fun start => (sorted_together replacements start).symm⟩

theorem computeReplacements_ok {chunks : List UpdateFileChunk}
    (succeeds : computeReplacements lines path chunks = .ok replacements) :
    ∃ made, replacementsFrom lines path 0 chunks = .ok made ∧
      replacements = made.mergeSort fun first second => first.start ≤ second.start := by
  unfold computeReplacements at succeeds
  cases made : replacementsFrom lines path 0 chunks with
  | error message =>
      rw [made] at succeeds
      cases succeeds
  | ok all =>
      rw [made] at succeeds
      exact ⟨all, rfl, (Except.ok.inj succeeds).symm⟩

section Sorted

variable {chunks : List UpdateFileChunk} {made : List Replacement}

theorem sorted_inside (run : replacementsFrom lines path 0 chunks = .ok made) :
    ∀ replacement ∈ made.mergeSort fun first second => first.start ≤ second.start,
      replacement.stop ≤ lines.length := by
  have fresh : Loop lines 0 [] := ⟨Nat.zero_le _, by simp, by simp⟩
  exact fun replacement member => (fresh.made run).1 replacement (List.mem_mergeSort.mp member)

theorem sorted_starts (made : List Replacement) :
    (made.mergeSort fun first second => first.start ≤ second.start).Pairwise
      fun first second => first.start ≤ second.start := by
  have sorts := @List.pairwise_mergeSort _ (fun first second : Replacement => first.start ≤ second.start)
    (fun a b c => by simpa using Nat.le_trans) (fun a b => by simpa using Nat.le_total _ _) made
  exact sorts.imp of_decide_eq_true

theorem sorted_apart (made : List Replacement) :
    (made.mergeSort fun first second => first.start ≤ second.start).Pairwise Apart ↔ made.Pairwise Apart :=
  (List.mergeSort_perm made _).pairwise_iff Or.symm

theorem sorted_applied (run : replacementsFrom lines path 0 chunks = .ok made) (apart : made.Pairwise Apart) :
    applyReplacements lines (made.mergeSort fun first second => first.start ≤ second.start) =
        listed lines ((made.mergeSort fun first second => first.start ≤ second.start).map Replacement.edit) ↔
      made.Pairwise Tied := by
  have fresh : Loop lines 0 [] := ⟨Nat.zero_le _, by simp, by simp⟩
  have ties : (made.mergeSort fun first second => first.start ≤ second.start).Pairwise (TiesLast lines) :=
    (pairwise_sorted fun _ _ apart same => absurd same apart).mpr (fresh.made run).2.1
  rw [apply_iff_tied (sorted_starts made) (sorted_inside run) ((sorted_apart made).mpr apart) ties]
  exact pairwise_sorted fun _ _ apart same => absurd same apart

theorem simultaneous_of_clear (succeeds : computeReplacements lines path chunks = .ok replacements)
    (clear : Clear lines path 0 [] chunks) : Simultaneous lines replacements := by
  obtain ⟨made, run, rfl⟩ := computeReplacements_ok succeeds
  have fresh : Loop lines 0 [] := ⟨Nat.zero_le _, by simp, by simp⟩
  have pairs := ((fresh.clear_iff run).mp clear).1
  have apart := pairs.imp And.left
  exact ⟨sorted_inside run, (sorted_apart made).mpr apart,
    (sorted_applied run apart).mpr (pairs.imp And.right)⟩

end Sorted

/-- The replacements of a patch lie apart, and applying them from the last to the first makes them all at
once, exactly when every chunk keeps clear of what the chunks in front of it took. -/
theorem replacements_simultaneous_iff {lines : List Text} {path : Text} {chunks : List UpdateFileChunk}
    {replacements : List Replacement} (succeeds : computeReplacements lines path chunks = .ok replacements) :
    Simultaneous lines replacements ↔ Clear lines path 0 [] chunks := by
  refine ⟨?_, simultaneous_of_clear succeeds⟩
  obtain ⟨made, run, rfl⟩ := computeReplacements_ok succeeds
  rintro ⟨_, gaps, applied⟩
  have fresh : Loop lines 0 [] := ⟨Nat.zero_le _, by simp, by simp⟩
  have apart := (sorted_apart made).mp gaps
  exact (fresh.clear_iff run).mpr ⟨apart.and ((sorted_applied run apart).mp applied), by simp⟩

def textChunk (oldLines newLines : List String) (isEndOfFile : Bool) : UpdateFileChunk :=
  { changeContext := none
    oldLines := oldLines.map String.toList
    newLines := newLines.map String.toList
    isEndOfFile := isEndOfFile }

theorem addition_then_removal_simultaneous :
    Simultaneous ["a".toList, "b".toList]
      [{ start := 0, oldLen := 2, newLines := ["c".toList] }, { start := 2, oldLen := 0, newLines := ["x".toList] }] := by
  have run : replacementsFrom ["a".toList, "b".toList] [] 0
      [textChunk [] ["x"] false, textChunk ["a", "b"] ["c"] false] =
      .ok [{ start := 2, oldLen := 0, newLines := ["x".toList] }, { start := 0, oldLen := 2, newLines := ["c".toList] }] := rfl
  have succeeds : computeReplacements ["a".toList, "b".toList] []
      [textChunk [] ["x"] false, textChunk ["a", "b"] ["c"] false] =
      .ok [{ start := 0, oldLen := 2, newLines := ["c".toList] }, { start := 2, oldLen := 0, newLines := ["x".toList] }] := by
    rw [computeReplacements, run]
    simp [Except.map, List.mergeSort, List.MergeSort.Internal.splitInTwo]
  refine (replacements_simultaneous_iff succeeds).mpr ?_
  rintro _ _ ⟨⟩
  refine ⟨?_, ?_⟩
  · intro replacement none'
    cases none'
  · rintro _ _ ⟨⟩
    refine ⟨?_, trivial⟩
    intro replacement member
    obtain rfl := List.mem_singleton.mp member
    decide

theorem end_of_file_taken_twice :
    ∃ replacements, computeReplacements ["a".toList, "b".toList] []
      [textChunk ["a", "b"] ["x"] false, textChunk ["b"] ["y"] true] = .ok replacements ∧
      ¬ Simultaneous ["a".toList, "b".toList] replacements := by
  have run : replacementsFrom ["a".toList, "b".toList] [] 0
      [textChunk ["a", "b"] ["x"] false, textChunk ["b"] ["y"] true] =
      .ok [{ start := 0, oldLen := 2, newLines := ["x".toList] }, { start := 1, oldLen := 1, newLines := ["y".toList] }] := rfl
  refine ⟨[{ start := 0, oldLen := 2, newLines := ["x".toList] },
    { start := 1, oldLen := 1, newLines := ["y".toList] }], ?_, ?_⟩
  · rw [computeReplacements, run]
    simp [Except.map, List.mergeSort, List.MergeSort.Internal.splitInTwo]
  · intro simultaneous
    have apart := simultaneous.apart
    simp [Apart, Replacement.stop] at apart

end Contract

end GrokPi.ApplyPatch
