import GrokPi.HunkTracker.Actor

set_option autoImplicit false

namespace GrokPi.HunkTracker

open LineEdit (Change Block oldSide newSide group replaceAll)
open Text (stripTerminator lines unlines joinLines EndsInLine Unbroken Unpaired Pieces Firm Joinable)

section Chains

def acceptBlock (block : Block Text) (content : Text) : Text :=
  patchLines content block.oldStart block.oldLines.length block.newLines.flatten

def acceptAll (blocks : List (Block Text)) (content : Text) : Text := blocks.foldr acceptBlock content

def patchBlock (block : Block Text) (content : Text) : Text :=
  let output := joinLines (block.replace (lines content))
  if EndsInLine content ∧ output ≠ [] then output ++ ['\n'] else output

def patchAll (blocks : List (Block Text)) (content : Text) : Text := blocks.foldr patchBlock content

theorem lines_of_ended {text : Text} (ended : EndsInLine text) : lines text ≠ [] := by
  intro empty
  rw [lines, List.map_eq_nil_iff, Text.splitInclusive_eq_nil] at empty
  simp [empty, EndsInLine] at ended

theorem unlines_ended {parts : List Text} (some' : parts ≠ []) : EndsInLine (unlines parts) := by
  rw [Text.unlines_eq_joinLines some', EndsInLine, List.getLast?_append]
  rfl

theorem ne_nil_of_joined {parts : List Text} (some' : joinLines parts ≠ []) : parts ≠ [] := by
  rintro rfl
  exact some' rfl

theorem patchBlock_ended {block : Block Text} {content : Text} (ended : EndsInLine content)
    (some' : joinLines (block.replace (lines content)) ≠ []) :
    patchBlock block content = unlines (block.replace (lines content)) := by
  rw [patchBlock, if_pos ⟨ended, some'⟩, Text.unlines_eq_joinLines (ne_nil_of_joined some')]

theorem patchBlock_blank {block : Block Text} {content : Text}
    (blank : joinLines (block.replace (lines content)) = []) : patchBlock block content = [] := by
  rw [patchBlock, if_neg fun both => both.2 blank, blank]

theorem suffix_ne_cons {later rest : List (Block Text)} {block : Block Text} (suffix : later <:+ rest) :
    later ≠ block :: rest := by
  rintro rfl
  have short := suffix.length_le
  rw [List.length_cons] at short
  omega

theorem patchAll_unlines {blocks : List (Block Text)} {start : List Text} (some' : start ≠ [])
    (unbroken : ∀ later, later <:+ blocks → later ≠ blocks → ∀ line ∈ replaceAll later start, Unbroken line)
    (filled : ∀ later, later ≠ [] → later <:+ blocks → joinLines (replaceAll later start) ≠ []) :
    patchAll blocks (unlines start) = unlines (replaceAll blocks start) ∧ replaceAll blocks start ≠ [] := by
  induction blocks with
  | nil => exact ⟨rfl, some'⟩
  | cons block rest ih =>
      obtain ⟨before, left⟩ := ih
        (fun later suffix _ => unbroken later (suffix.trans (List.suffix_cons _ _)) (suffix_ne_cons suffix))
        fun later nonempty suffix => filled later nonempty (suffix.trans (List.suffix_cons _ _))
      have whole := filled (block :: rest) (by simp) List.suffix_rfl
      have read := Text.lines_unlines (unbroken rest (List.suffix_cons _ _) (suffix_ne_cons List.suffix_rfl))
      refine ⟨?_, ne_nil_of_joined whole⟩
      change patchBlock block (patchAll rest (unlines start)) = _
      rw [before, patchBlock_ended (unlines_ended left) (by rw [read]; exact whole), read]
      rfl

theorem patchAll_joinLines {blocks : List (Block Text)} {start : List Text}
    (joinable : ∀ later, later <:+ blocks → later ≠ blocks → Joinable (replaceAll later start)) :
    patchAll blocks (joinLines start) = joinLines (replaceAll blocks start) := by
  -- Without a final line feed none appears.
  induction blocks with
  | nil => rfl
  | cons block rest ih =>
      have before := ih fun later suffix _ =>
        joinable later (suffix.trans (List.suffix_cons _ _)) (suffix_ne_cons suffix)
      have read := Text.lines_joinLines
        (joinable rest (List.suffix_cons _ _) (suffix_ne_cons List.suffix_rfl))
      change patchBlock block (patchAll rest (joinLines start)) = _
      rw [before, patchBlock, read.1, if_neg fun both => read.2 both.1]
      rfl

end Chains

section Returns

def returnsAt (parts : List Text) (index : Nat) : Nat := (parts[index]?.getD []).count '\r'

def returns (parts : List Text) : Nat := (parts.map (List.count '\r')).sum

def FewerReturns (a b : List Text) : Prop := ∀ index, returnsAt a index ≤ returnsAt b index

theorem FewerReturns.refl (parts : List Text) : FewerReturns parts parts := fun _ => Nat.le_refl _

theorem FewerReturns.trans {a b c : List Text} (first : FewerReturns a b) (second : FewerReturns b c) :
    FewerReturns a c := fun index => Nat.le_trans (first index) (second index)

theorem FewerReturns.cons {a b : Text} {as bs : List Text} (head : a.count '\r' ≤ b.count '\r')
    (tail : FewerReturns as bs) : FewerReturns (a :: as) (b :: bs) := by
  intro index
  cases index with
  | zero => exact head
  | succ index => exact tail index

theorem FewerReturns.returns_le {a b : List Text} (fewer : FewerReturns a b) : returns a ≤ returns b := by
  induction a generalizing b with
  | nil => exact Nat.zero_le _
  | cons first rest ih =>
      have head := fewer 0
      cases b with
      | nil =>
          have tail := ih (b := []) fun index => by simpa [returnsAt] using fewer (index + 1)
          simp only [returnsAt, List.getElem?_cons_zero, Option.getD_some, List.getElem?_nil, Option.getD_none,
            List.count_nil, Nat.le_zero] at head
          simpa [returns, head] using tail
      | cons second others =>
          have tail := ih (b := others) fun index => fewer (index + 1)
          simp only [returnsAt, List.getElem?_cons_zero, Option.getD_some] at head
          simp only [returns, List.map_cons, List.sum_cons] at tail ⊢
          omega

theorem returnsAt_splice {parts : List Text} {start : Nat} (within : start ≤ parts.length) (count : Nat)
    (inserted : List Text) (index : Nat) :
    returnsAt (LineEdit.splice parts start count inserted) index =
      if index < start then returnsAt parts index
      else if index - start < inserted.length then returnsAt inserted (index - start)
      else returnsAt parts (start + count + (index - start - inserted.length)) := by
  have front : (parts.take start).length = start := by simp [within]
  unfold returnsAt LineEdit.splice
  rw [List.append_assoc]
  split
  next before => rw [List.getElem?_append_left (by omega), List.getElem?_take_of_lt before]
  next behind =>
    rw [List.getElem?_append_right (by omega), front]
    split
    next inside => rw [List.getElem?_append_left inside]
    next after => rw [List.getElem?_append_right (by omega), List.getElem?_drop]

theorem FewerReturns.splice {a b : List Text} (fewer : FewerReturns a b) {start : Nat} (within : start ≤ a.length)
    (within' : start ≤ b.length) (count : Nat) (inserted : List Text) :
    FewerReturns (LineEdit.splice a start count inserted) (LineEdit.splice b start count inserted) := by
  intro index
  rw [returnsAt_splice within, returnsAt_splice within']
  split
  · exact fewer index
  · split
    · exact Nat.le_refl _
    · exact fewer _

theorem returns_joinLines (parts : List Text) : (joinLines parts).count '\r' = returns parts := by
  induction parts with
  | nil => rfl
  | cons first rest ih =>
      cases rest with
      | nil => simp [returns]
      | cons second rest =>
          rw [Text.joinLines_cons_cons, List.count_append, List.count_cons_of_ne (by decide), ih]
          simp [returns]

theorem stripTerminator_returns (piece : Text) : (stripTerminator piece).count '\r' ≤ piece.count '\r' := by
  unfold stripTerminator
  split
  · split
    · exact ((List.dropLast_sublist _).trans (List.dropLast_sublist _)).count_le _
    · exact (List.dropLast_sublist _).count_le _
  · exact Nat.le_refl _

theorem lines_joined {parts : List Text} (clean : ∀ line ∈ parts, '\n' ∉ line) :
    FewerReturns (lines (joinLines parts)) parts ∧ parts.length ≤ (lines (joinLines parts)).length + 1 := by
  induction parts with
  | nil => exact ⟨FewerReturns.refl _, by simp⟩
  | cons first rest ih =>
      have head := clean first List.mem_cons_self
      cases rest with
      | nil =>
          rw [Text.joinLines_singleton]
          refine ⟨?_, by simp⟩
          by_cases empty : first = []
          · rw [empty]
            intro index
            simp [returnsAt, lines, Text.splitInclusive]
          · have unended : ¬ EndsInLine first := fun ended => head (List.mem_of_getLast? ended)
            have clean' : '\n' ∉ first.dropLast := fun member => head (List.dropLast_subset _ member)
            rw [lines, Text.splitInclusive_last empty clean', List.map_singleton,
              Text.stripTerminator_unended unended]
            exact FewerReturns.refl _
      | cons second rest =>
          have later := ih fun line member => clean line (List.mem_cons_of_mem _ member)
          rw [Text.joinLines_cons_cons, Text.lines_cons_line head]
          have stripped := stripTerminator_returns (first ++ ['\n'])
          rw [List.count_append] at stripped
          refine ⟨FewerReturns.cons (by simpa using stripped) later.1, ?_⟩
          have count := later.2
          simp only [List.length_cons] at count ⊢
          omega

theorem lines_unlined {parts : List Text} (clean : ∀ line ∈ parts, '\n' ∉ line) :
    FewerReturns (lines (unlines parts)) parts ∧ (lines (unlines parts)).length = parts.length := by
  induction parts with
  | nil => exact ⟨FewerReturns.refl _, rfl⟩
  | cons first rest ih =>
      have later := ih fun line member => clean line (List.mem_cons_of_mem _ member)
      have stripped := stripTerminator_returns (first ++ ['\n'])
      rw [List.count_append] at stripped
      rw [Text.unlines_cons, Text.lines_cons_line (clean first List.mem_cons_self)]
      exact ⟨FewerReturns.cons (by simpa using stripped) later.1, by simp [later.2]⟩

theorem returns_stripped (pieces : List Text) :
    returns (pieces.map stripTerminator) ≤ (pieces.map (List.count '\r')).sum := by
  induction pieces with
  | nil => exact Nat.le_refl _
  | cons first rest ih =>
      have less := stripTerminator_returns first
      simp only [returns, List.map_cons, List.sum_cons] at ih ⊢
      omega

theorem stripped_keeps {pieces : List Text}
    (total : (pieces.map (List.count '\r')).sum ≤ returns (pieces.map stripTerminator)) :
    ∀ piece ∈ pieces, piece.count '\r' ≤ (stripTerminator piece).count '\r' := by
  induction pieces with
  | nil => simp
  | cons first rest ih =>
      intro piece member
      have head := stripTerminator_returns first
      have tail := returns_stripped rest
      simp only [returns, List.map_cons, List.sum_cons] at total tail
      rcases List.mem_cons.mp member with rfl | within
      · omega
      · exact ih (by simp only [returns]; omega) piece within

theorem unpaired_of_returns {text : Text} (kept : text.count '\r' ≤ returns (lines text)) : Unpaired text := by
  have flat := Text.splitInclusive_flatten '\n' text
  rw [← flat]
  apply Text.unpaired_of_pieces (Text.splitInclusive_pieces text)
  rw [← flat, List.count_flatten, flat] at kept
  intro piece member ended last
  have same := stripped_keeps kept piece member
  have shape := List.dropLast_append_getLast? '\n' ended
  have inner := List.dropLast_append_getLast? '\r' last
  have stripped : stripTerminator piece = piece.dropLast.dropLast := by
    simp [stripTerminator, ended, last]
  rw [stripped] at same
  rw [← shape, ← inner] at same
  simp at same

end Returns

section Scripts

structure Leads (script : List (Change Text)) (baseline current : Text) : Prop where
  old : oldSide script = lines baseline
  new : newSide script = lines current

/-- Insertions, one kept empty line, deletions. -/
def Emptied (script : List (Change Text)) : Prop :=
  ∃ inserted deleted : List Text, script = inserted.map .insert ++ .equal [] :: deleted.map .delete

variable {script : List (Change Text)} {baseline current : Text}

theorem Leads.flip (leads : Leads script baseline current) : Leads (script.map Change.flip) current baseline :=
  ⟨(LineEdit.oldSide_flip script).trans leads.new, (LineEdit.newSide_flip script).trans leads.old⟩

theorem Leads.replaced (leads : Leads script baseline current) :
    replaceAll (group 1 1 none script) (lines baseline) = lines current := by
  rw [← leads.old, LineEdit.replaceAll_script, leads.new]

variable {block : Block Text}

theorem Leads.inserted (leads : Leads script baseline current)
    (member : block ∈ group 1 1 none script) : ∀ line ∈ block.newLines, line ∈ lines current := by
  have within := (LineEdit.group_lines script block member).2
  simp only [LineEdit.openNew, Option.elim_none, List.nil_append, leads.new] at within
  exact fun line inside => within.subset inside

theorem Leads.start_le (leads : Leads script baseline current)
    (member : block ∈ group 1 1 none script) : block.oldStart - 1 ≤ (lines baseline).length := by
  obtain ⟨⟨front, back, start, whole⟩, -⟩ := LineEdit.located_script script block member
  have count := congrArg List.length whole
  simp only [leads.old, List.length_append] at count
  omega

theorem starts_behind {rest : List (Block Text)} (suffix : block :: rest <:+ group 1 1 none script) :
    ∀ other ∈ rest, block.oldStart - 1 < other.oldStart - 1 := by
  intro other member
  have ordered := (LineEdit.group_before script (LineEdit.openAt_none 1 1)).sublist suffix.sublist
  have apart := ((List.pairwise_cons.mp ordered).1 other member).1
  have first := (LineEdit.group_starts script (LineEdit.openAt_none 1 1) block (suffix.subset List.mem_cons_self)).1
  omega

variable {later : List (Block Text)}

theorem kept_line (leads : Leads script baseline current) (some' : later ≠ [])
    (suffix : later <:+ group 1 1 none script) : later = group 1 1 none script ∨
      ∃ first line second, script = first ++ .equal line :: second ∧
        (∃ change ∈ first, change.isEqual = false) ∧
        replaceAll later (lines baseline) = oldSide first ++ line :: newSide second := by
  rw [← leads.old]
  rcases LineEdit.replaceAll_suffix script [] (LineEdit.openAt_none 1 1) some' suffix with
    whole | ⟨first, line, second, shape, changed, result⟩
  · exact Or.inl whole
  · refine Or.inr ⟨first, line, second, shape, ?_, ?_⟩
    · simpa using changed
    · simpa [LineEdit.openOld] using result

theorem blank_text (unpaired : Unpaired current) (blank : joinLines (lines current) = []) :
    current = [] ∨ current = ['\n'] := by
  by_cases ended : EndsInLine current
  · right
    have some' : lines current ≠ [] := lines_of_ended ended
    rw [← Text.unlines_lines unpaired (Or.inr ended), Text.unlines_eq_joinLines some', blank]
    rfl
  · exact Or.inl ((Text.joinLines_lines unpaired ended).symm.trans blank)

theorem blank_later (leads : Leads script baseline current) (unpaired : Unpaired current)
    (some' : later ≠ []) (suffix : later <:+ group 1 1 none script)
    (blank : joinLines (replaceAll later (lines baseline)) = []) :
    (later = group 1 1 none script ∧ (current = [] ∨ current = ['\n'])) ∨
      ∃ inserted deleted : List Text, inserted ≠ [] ∧
        script = inserted.map .insert ++ .equal [] :: deleted.map .delete := by
  -- Only the end of the run, or one kept empty line, can leave a text without characters.
  rcases kept_line leads some' suffix with whole | ⟨first, line, second, shape, changed, result⟩
  · left
    rw [whole, leads.replaced] at blank
    exact ⟨whole, blank_text unpaired blank⟩
  · right
    rw [result, Text.joinLines_eq_nil] at blank
    have single : oldSide first = [] ∧ newSide second = [] ∧ line = [] := by
      rcases blank with empty | one
      · simp at empty
      · have count := congrArg List.length one
        simp only [List.length_append, List.length_cons, List.length_nil] at count
        have noOld : oldSide first = [] := List.length_eq_zero_iff.mp (by omega)
        have noNew : newSide second = [] := List.length_eq_zero_iff.mp (by omega)
        simpa [noOld, noNew] using one
    refine ⟨newSide first, oldSide second, ?_, ?_⟩
    · intro empty
      obtain ⟨change, member, different⟩ := changed
      rw [LineEdit.inserts_of_oldSide single.1, empty] at member
      simp at member
    · rw [shape, single.2.2, ← LineEdit.inserts_of_oldSide single.1,
        ← LineEdit.deletes_of_newSide single.2.1]

theorem replaced_unbroken (leads : Leads script baseline current)
    (unbrokenOld : ∀ line ∈ lines baseline, Unbroken line) (unbrokenNew : ∀ line ∈ lines current, Unbroken line)
    (suffix : later <:+ group 1 1 none script) :
    ∀ line ∈ replaceAll later (lines baseline), Unbroken line := by
  intro line member
  rcases LineEdit.mem_replaceAll member with early | ⟨block, within, inserted⟩
  · exact unbrokenOld line early
  · exact unbrokenNew line (leads.inserted (suffix.subset within) line inserted)

theorem patch_ended (leads : Leads script baseline current) (unpairedOld : Unpaired baseline)
    (unpairedNew : Unpaired current) (ended : EndsInLine baseline) (endedNew : EndsInLine current)
    (notBlank : current ≠ ['\n']) (kept : ¬ Emptied script) :
    patchAll (group 1 1 none script) baseline = current := by
  have start := Text.unlines_lines unpairedOld (Or.inr ended)
  have chain := @patchAll_unlines (group 1 1 none script) _ (lines_of_ended ended)
    (fun later suffix _ => replaced_unbroken leads (Text.lines_unbroken unpairedOld ended)
      (Text.lines_unbroken unpairedNew endedNew) suffix) ?_
  · rw [leads.replaced, start, Text.unlines_lines unpairedNew (Or.inr endedNew)] at chain
    exact chain.1
  · intro later nonempty suffix blank
    rcases blank_later leads unpairedNew nonempty suffix blank with
      ⟨-, none' | newline⟩ | ⟨inserted, deleted, -, shape⟩
    · rw [none'] at endedNew
      simp [EndsInLine] at endedNew
    · exact notBlank newline
    · exact kept ⟨inserted, deleted, shape⟩

theorem replaced_joinable (leads : Leads script baseline current) (old : Joinable (lines baseline))
    (new : Joinable (lines current)) (suffix : later <:+ group 1 1 none script)
    (proper : later ≠ group 1 1 none script) : Joinable (replaceAll later (lines baseline)) := by
  by_cases empty : later = []
  · rw [empty]
    exact old
  rcases kept_line leads empty suffix with whole | ⟨first, line, second, shape, -, result⟩
  · exact absurd whole proper
  -- The kept line and everything behind it is already that of the new text.
  have oldLines : lines baseline = oldSide first ++ line :: oldSide second := by
    rw [← leads.old, shape]
    simp [oldSide]
  have newLines : lines current = newSide first ++ line :: newSide second := by
    rw [← leads.new, shape]
    simp [newSide]
  rw [result]
  rw [oldLines] at old
  rw [newLines] at new
  refine ⟨?_, ?_, ?_⟩
  · intro other member
    rcases List.mem_append.mp member with early | late
    · exact old.clean other (List.mem_append_left _ early)
    · exact new.clean other (List.mem_append_right _ late)
  · rw [List.dropLast_append_of_ne_nil (by simp)]
    intro other member
    rcases List.mem_append.mp member with early | late
    · refine old.unbroken other ?_
      rw [List.dropLast_append_of_ne_nil (by simp)]
      exact List.mem_append_left _ early
    · refine new.unbroken other ?_
      rw [List.dropLast_append_of_ne_nil (by simp)]
      exact List.mem_append_right _ late
  · have firm := new.firm
    simpa [Firm, List.getLast?_append] using firm

theorem patch_unended (leads : Leads script baseline current) (unpairedOld : Unpaired baseline)
    (unpairedNew : Unpaired current) (unendedOld : ¬ EndsInLine baseline)
    (unendedNew : ¬ EndsInLine current) :
    patchAll (group 1 1 none script) baseline = current := by
  have chain := patchAll_joinLines fun later suffix proper =>
    replaced_joinable leads (Text.lines_joinable unpairedOld unendedOld)
      (Text.lines_joinable unpairedNew unendedNew) suffix proper
  rwa [Text.joinLines_lines unpairedOld unendedOld, leads.replaced,
    Text.joinLines_lines unpairedNew unendedNew] at chain

theorem patch_from_empty (leads : Leads script [] current) (unpaired : Unpaired current)
    (ended : EndsInLine current) : patchAll (group 1 1 none script) [] ≠ current := by
  -- A text that begins empty takes no final line feed from what is inserted.
  have noOld : oldSide script = [] := leads.old
  have nothing : Joinable (lines []) := Text.lines_joinable (by decide) (by decide)
  have chain : patchAll (group 1 1 none script) (joinLines (lines [])) = _ := patchAll_joinLines ?_
  · rw [leads.replaced] at chain
    change patchAll _ [] = _ at chain
    rw [chain]
    intro same
    have whole := Text.unlines_lines unpaired (Or.inr ended)
    rw [Text.unlines_eq_joinLines (lines_of_ended ended), same] at whole
    simpa using congrArg List.length whole
  · intro later suffix proper
    by_cases empty : later = []
    · rw [empty]
      exact nothing
    · rcases kept_line leads empty suffix with whole | ⟨first, line, second, shape, -, -⟩
      · exact absurd whole proper
      · rw [shape] at noOld
        simp [oldSide] at noOld

theorem patch_to_newline (leads : Leads script baseline ['\n']) (unpaired : Unpaired baseline)
    (ended : EndsInLine baseline) (some' : group 1 1 none script ≠ []) :
    patchAll (group 1 1 none script) baseline ≠ ['\n'] := by
  have single : newSide script = [[]] := leads.new
  have start := Text.unlines_lines unpaired (Or.inr ended)
  have unbroken : ∀ {later : List (Block Text)}, later <:+ group 1 1 none script →
      ∀ line ∈ replaceAll later (lines baseline), Unbroken line :=
    fun suffix => replaced_unbroken leads (Text.lines_unbroken unpaired ended)
      (Text.lines_unbroken (by decide) rfl) suffix
  have goal' := leads.replaced
  cases blocks : group 1 1 none script with
  | nil => exact absurd blocks some'
  | cons block rest =>
      have inner : rest <:+ group 1 1 none script := blocks ▸ List.suffix_cons _ _
      rw [blocks] at goal'
      have chain := @patchAll_unlines rest _ (lines_of_ended ended)
        (fun later suffix _ => unbroken (suffix.trans inner)) ?_
      · have blank : block.replace (replaceAll rest (lines baseline)) = [[]] := goal'
        rw [start] at chain
        change patchBlock block (patchAll rest baseline) ≠ _
        rw [chain.1, patchBlock_blank (by rw [Text.lines_unlines (unbroken inner), blank]; rfl)]
        simp
      · intro later nonempty suffix blank
        rcases blank_later leads (by decide) nonempty (suffix.trans inner) blank with
          ⟨whole, -⟩ | ⟨inserted, deleted, nonempty', shape⟩
        · have short := suffix.length_le
          rw [whole, blocks, List.length_cons] at short
          omega
        · rw [shape] at single
          have count := congrArg List.length single
          simp [newSide, nonempty'] at count

theorem group_emptied {inserted deleted : List Text} (someInserted : inserted ≠ [])
    (someDeleted : deleted ≠ []) :
    ∃ first second, group 1 1 none (inserted.map .insert ++ .equal [] :: deleted.map .delete) =
        [first, second] ∧
      first = { oldStart := 1, newStart := 1, oldLines := [], newLines := inserted } ∧
      second = { oldStart := 2, newStart := inserted.length + 2, oldLines := deleted, newLines := [] } := by
  refine ⟨_, _, ?_, rfl, rfl⟩
  cases inserted with
  | nil => exact absurd rfl someInserted
  | cons inserted more =>
      cases deleted with
      | nil => exact absurd rfl someDeleted
      | cons deleted others =>
          have start : 1 + 1 + more.length + 1 = (inserted :: more).length + 2 := by
            simp
            omega
          have deletes := LineEdit.group_deletes others
            { oldStart := 2, newStart := (inserted :: more).length + 2, oldLines := [deleted], newLines := [] }
            [] 3 ((inserted :: more).length + 2)
          rw [List.append_nil] at deletes
          simp only [List.map_cons, List.cons_append, group, Option.getD_none, LineEdit.group_inserts, start]
          simp only [Block.addOldLine, Block.addNewLine, Block.new, List.nil_append] at deletes ⊢
          rw [deletes]
          simp [group]

theorem ended_of_blank_last (blank : (lines current).getLast? = some []) : EndsInLine current := by
  by_contra unended
  exact Text.lines_firm unended blank

theorem emptied_ended (leads : Leads script baseline current) (emptied : Emptied script) : EndsInLine current := by
  obtain ⟨inserted, deleted, shape⟩ := emptied
  apply ended_of_blank_last
  rw [← leads.new, shape]
  simp [newSide]

theorem patch_emptied {inserted deleted : List Text}
    (leads : Leads (inserted.map .insert ++ .equal [] :: deleted.map .delete) baseline current)
    (unpaired : Unpaired current) (someInserted : inserted ≠ []) (someDeleted : deleted ≠ []) :
    patchAll (group 1 1 none (inserted.map .insert ++ .equal [] :: deleted.map .delete)) baseline ≠ current := by
  -- The deletions empty the text, and the line feed is lost for what is inserted then.
  obtain ⟨first, second, blocks, firstIs, secondIs⟩ := group_emptied someInserted someDeleted
  have oldLines : lines baseline = [] :: deleted := by
    rw [← leads.old]
    simp [oldSide]
  have emptied : patchBlock second baseline = [] := by
    apply patchBlock_blank
    simp [oldLines, Block.replace, LineEdit.splice, secondIs, Nat.add_comm 1]
  have inserts : patchAll [first, second] baseline = joinLines inserted := by
    change patchBlock first (patchBlock second baseline) = _
    rw [emptied, patchBlock, if_neg fun both => absurd both.1 (by decide)]
    simp [firstIs, Block.replace, LineEdit.splice, lines, Text.splitInclusive]
  rw [blocks, inserts]
  intro same
  have newLines : lines current = inserted ++ [[]] := by
    rw [← leads.new]
    simp [newSide]
  have endedNew := emptied_ended leads ⟨inserted, deleted, rfl⟩
  have whole := Text.unlines_lines unpaired (Or.inr endedNew)
  rw [newLines, unlines, List.flatMap_append, ← unlines, Text.unlines_eq_joinLines someInserted, same] at whole
  simpa using congrArg List.length whole

structure Invertible (script : List (Change Text)) (baseline current : Text) : Prop where
  unpairedOld : Unpaired baseline
  unpairedNew : Unpaired current
  sameEnd : EndsInLine baseline ↔ EndsInLine current
  notBlankOld : baseline ≠ ['\n']
  notBlankNew : current ≠ ['\n']
  kept : ¬ Emptied script
  keptFlipped : ¬ Emptied (script.map Change.flip)

theorem flip_twice (script : List (Change Text)) : (script.map Change.flip).map Change.flip = script := by
  simp [Function.comp_def]

theorem Invertible.flip (invertible : Invertible script baseline current) :
    Invertible (script.map Change.flip) current baseline :=
  ⟨invertible.unpairedNew, invertible.unpairedOld, invertible.sameEnd.symm, invertible.notBlankNew,
    invertible.notBlankOld, invertible.keptFlipped, by rw [flip_twice]; exact invertible.kept⟩

theorem patch_inverts (leads : Leads script baseline current) (invertible : Invertible script baseline current) :
    patchAll (group 1 1 none script) baseline = current := by
  by_cases ended : EndsInLine baseline
  · exact patch_ended leads invertible.unpairedOld invertible.unpairedNew ended
      (invertible.sameEnd.mp ended) invertible.notBlankNew invertible.kept
  · exact patch_unended leads invertible.unpairedOld invertible.unpairedNew ended
      (invertible.sameEnd.not.mp ended)

theorem replaced_clean (leads : Leads script baseline current)
    (member : block ∈ group 1 1 none script) (content : Text) :
    ∀ line ∈ block.replace (lines content), '\n' ∉ line := by
  intro line inside
  have origin : line ∈ lines content ∨ ∃ other ∈ [block], line ∈ other.newLines :=
    LineEdit.mem_replaceAll inside
  rcases origin with early | ⟨_, same, inserted⟩
  · exact Text.lines_clean content line early
  · rw [List.mem_singleton.mp same] at inserted
    exact Text.lines_clean current line (leads.inserted member line inserted)

theorem patchBlock_returns (leads : Leads script baseline current)
    (member : block ∈ group 1 1 none script) (content : Text) :
    (patchBlock block content).count '\r' = returns (block.replace (lines content)) ∧
      FewerReturns (lines (patchBlock block content)) (block.replace (lines content)) ∧
      (block.replace (lines content)).length ≤ (lines (patchBlock block content)).length + 1 := by
  have clean := replaced_clean leads member content
  by_cases both : EndsInLine content ∧ joinLines (block.replace (lines content)) ≠ []
  · have read := lines_unlined clean
    rw [patchBlock_ended both.1 both.2]
    refine ⟨?_, read.1, by omega⟩
    rw [Text.unlines_eq_joinLines (ne_nil_of_joined both.2), List.count_append, returns_joinLines]
    simp
  · have read := lines_joined clean
    rw [patchBlock, if_neg both]
    exact ⟨returns_joinLines _, read.1, read.2⟩

theorem replace_reaches (block : Block Text) {parts : List Text} (short : block.oldStart - 1 ≤ parts.length) :
    block.oldStart - 1 ≤ (block.replace parts).length := by
  simp only [Block.replace, LineEdit.splice, List.length_append, List.length_take]
  omega

theorem patchAll_returns (leads : Leads script baseline current)
    (suffix : later <:+ group 1 1 none script) {start : Nat} (short : start ≤ (lines baseline).length)
    (before : ∀ block ∈ later, start < block.oldStart - 1) :
    FewerReturns (lines (patchAll later baseline)) (replaceAll later (lines baseline)) ∧
      start ≤ (lines (patchAll later baseline)).length ∧ start ≤ (replaceAll later (lines baseline)).length := by
  induction later generalizing start with
  | nil => exact ⟨FewerReturns.refl _, short, short⟩
  | cons block rest ih =>
      have member := suffix.subset List.mem_cons_self
      have here := before block List.mem_cons_self
      obtain ⟨fewer, reach, reach'⟩ :=
        ih ((List.suffix_cons _ _).trans suffix) (leads.start_le member) (starts_behind suffix)
      have patched := patchBlock_returns leads member (patchAll rest baseline)
      have spliced : FewerReturns (block.replace (lines (patchAll rest baseline)))
          (block.replace (replaceAll rest (lines baseline))) := fewer.splice reach reach' _ _
      have count := replace_reaches block reach
      have lost := patched.2.2
      refine ⟨patched.2.1.trans spliced, ?_, Nat.le_trans here.le (replace_reaches block reach')⟩
      change start ≤ (lines (patchBlock block (patchAll rest baseline))).length
      omega

/-- Every patch strips the lines that it reads, so a text that comes out whole has no pair to strip. -/
theorem unpaired_of_patch (leads : Leads script baseline current) (some' : group 1 1 none script ≠ [])
    (patched : patchAll (group 1 1 none script) baseline = current) : Unpaired current := by
  apply unpaired_of_returns
  have goal' := leads.replaced
  cases blocks : group 1 1 none script with
  | nil => exact absurd blocks some'
  | cons block rest =>
      rw [blocks] at patched goal'
      have suffix : block :: rest <:+ group 1 1 none script := blocks ▸ List.suffix_rfl
      have member := suffix.subset List.mem_cons_self
      obtain ⟨fewer, reach, reach'⟩ := patchAll_returns leads ((List.suffix_cons _ _).trans suffix)
        (leads.start_le member) (starts_behind suffix)
      have spliced : FewerReturns (block.replace (lines (patchAll rest baseline)))
          (block.replace (replaceAll rest (lines baseline))) := fewer.splice reach reach' _ _
      have last := (patchBlock_returns leads member (patchAll rest baseline)).1
      change patchBlock block (patchAll rest baseline) = current at patched
      change block.replace (replaceAll rest (lines baseline)) = _ at goal'
      rw [goal'] at spliced
      rw [patched] at last
      rw [last]
      exact spliced.returns_le

theorem replace_head (behind : 0 < block.oldStart - 1) (head : Text) (more : List Text) :
    ∃ after, block.replace (head :: more) = head :: after := by
  obtain ⟨start, eq⟩ := Nat.exists_eq_add_one.mpr behind
  exact ⟨_, by simp [Block.replace, LineEdit.splice, eq]; rfl⟩

/--
The patches behind the first block leave the first line and keep the final line feed, unless the new text
has one too: with the feed the whole text is lost, and then the script has kept an empty line as the last.
-/
theorem patchAll_stays_ended (leads : Leads script baseline current) (unpaired : Unpaired baseline)
    (ended : EndsInLine baseline) (unended : ¬ EndsInLine current)
    (suffix : later <:+ group 1 1 none script) (behind : ∀ block ∈ later, 0 < block.oldStart - 1)
    (proper : later ≠ group 1 1 none script) :
    EndsInLine (patchAll later baseline) ∧ (lines (patchAll later baseline)).head? = (lines baseline).head? ∧
      (lines (patchAll later baseline)).length = (replaceAll later (lines baseline)).length := by
  induction later with
  | nil => exact ⟨ended, rfl, rfl⟩
  | cons block rest ih =>
      have member := suffix.subset List.mem_cons_self
      have inner := (List.suffix_cons block rest).trans suffix
      obtain ⟨before, head, count⟩ := ih inner (fun other member => behind other (List.mem_cons_of_mem _ member)) (by
        rintro same
        rw [← same] at suffix
        exact suffix_ne_cons List.suffix_rfl (suffix.eq_of_length_le (by simp)).symm)
      have clean := replaced_clean leads member (patchAll rest baseline)
      cases whole : lines baseline with
      | nil => exact absurd whole (lines_of_ended ended)
      | cons line more =>
          have unbroken := Text.lines_unbroken unpaired ended line (whole ▸ List.mem_cons_self)
          rw [whole] at head
          obtain ⟨others, read⟩ : ∃ others, lines (patchAll rest baseline) = line :: others :=
            List.head?_eq_some_iff.mp head
          obtain ⟨after, replaced⟩ := replace_head (behind block List.mem_cons_self) line others
          have size : (block.replace (lines (patchAll rest baseline))).length =
              (replaceAll (block :: rest) (lines baseline)).length := by
            change _ = (block.replace (replaceAll rest (lines baseline))).length
            simp only [Block.replace, LineEdit.splice, List.length_append, List.length_take, List.length_drop, count]
          have filled : joinLines (block.replace (lines (patchAll rest baseline))) ≠ [] := by
            intro blank
            rw [read, replaced, Text.joinLines_eq_nil] at blank
            have single : line = [] ∧ after = [] := by simpa using blank
            rcases kept_line leads (by simp) suffix with all | ⟨first, kept, second, shape, -, result⟩
            · exact proper all
            · have one := size
              rw [read, replaced, single.2, result] at one
              simp only [List.length_append, List.length_cons, List.length_nil] at one
              have noOld : oldSide first = [] := List.length_eq_zero_iff.mp (by omega)
              have noNew : newSide second = [] := List.length_eq_zero_iff.mp (by omega)
              have same : kept = line := by
                have old := leads.old
                rw [whole, shape] at old
                simp only [LineEdit.oldSide_append, noOld, oldSide, List.nil_append, List.cons.injEq] at old
                exact old.1
              apply unended
              apply ended_of_blank_last
              rw [← leads.new, shape]
              simp [newSide, noNew, same, single.1]
          change EndsInLine (patchBlock block (patchAll rest baseline)) ∧
            (lines (patchBlock block (patchAll rest baseline))).head? = _ ∧
            (lines (patchBlock block (patchAll rest baseline))).length = _
          rw [patchBlock_ended before filled]
          refine ⟨unlines_ended (ne_nil_of_joined filled), ?_, ?_⟩
          · rw [read, replaced, Text.unlines_cons, Text.lines_cons_line unbroken.1, Text.stripTerminator_ended unbroken.2]
            rfl
          · rw [(lines_unlined clean).2, size, whole]

theorem ended_of_patch (leads : Leads script baseline current) (unpaired : Unpaired baseline)
    (patched : patchAll (group 1 1 none script) baseline = current)
    (back : patchAll (group 1 1 none (script.map Change.flip)) current = baseline)
    (ended : EndsInLine baseline) : EndsInLine current := by
  by_contra unended
  by_cases empty : current = []
  · subst empty
    exact patch_from_empty leads.flip unpaired ended back
  cases blocks : group 1 1 none script with
  | nil =>
      rw [blocks] at patched
      exact unended (patched ▸ ended)
  | cons block rest =>
      have suffix : block :: rest <:+ group 1 1 none script := blocks ▸ List.suffix_rfl
      have before := (patchAll_stays_ended leads unpaired ended unended ((List.suffix_cons _ _).trans suffix)
        (fun other member => Nat.zero_lt_of_lt (starts_behind suffix other member))
        (blocks ▸ suffix_ne_cons List.suffix_rfl)).1
      rw [blocks] at patched
      change patchBlock block (patchAll rest baseline) = current at patched
      by_cases blank : joinLines (block.replace (lines (patchAll rest baseline))) = []
      · exact empty (patched.symm.trans (patchBlock_blank blank))
      · rw [patchBlock_ended before blank] at patched
        exact unended (patched ▸ unlines_ended (ne_nil_of_joined blank))

theorem blank_read (unpaired : Unpaired current) (blank : lines current = [[]]) : current = ['\n'] := by
  rcases blank_text unpaired (by rw [blank]; rfl) with empty | newline
  · rw [empty] at blank
    exact absurd blank (by decide)
  · exact newline

theorem kept_of_patch (leads : Leads script baseline current) (unpairedOld : Unpaired baseline)
    (unpairedNew : Unpaired current) (notBlankOld : baseline ≠ ['\n']) (notBlankNew : current ≠ ['\n'])
    (patched : patchAll (group 1 1 none script) baseline = current) : ¬ Emptied script := by
  rintro ⟨inserted, deleted, rfl⟩
  refine patch_emptied leads unpairedNew ?_ ?_ patched
  · rintro rfl
    exact notBlankNew (blank_read unpairedNew (leads.new.symm.trans (by simp [newSide])))
  · rintro rfl
    exact notBlankOld (blank_read unpairedOld (leads.old.symm.trans (by simp [oldSide])))

theorem newline_of_patch (leads : Leads script baseline current) (unpaired : Unpaired baseline)
    (sameEnd : EndsInLine baseline ↔ EndsInLine current) (some' : group 1 1 none script ≠ [])
    (patched : patchAll (group 1 1 none script) baseline = current) : current ≠ ['\n'] := by
  rintro rfl
  exact patch_to_newline leads unpaired (sameEnd.mpr rfl) some' patched

theorem group_flip_script (script : List (Change Text)) :
    group 1 1 none (script.map Change.flip) = (group 1 1 none script).map Block.flip :=
  LineEdit.group_flip 1 1 none script

theorem invertible_of_patch (leads : Leads script baseline current) (some' : group 1 1 none script ≠ [])
    (patched : patchAll (group 1 1 none script) baseline = current)
    (back : patchAll (group 1 1 none (script.map Change.flip)) current = baseline) :
    Invertible script baseline current := by
  have someFlipped : group 1 1 none (script.map Change.flip) ≠ [] := by
    simpa [group_flip_script] using some'
  have unpairedNew := unpaired_of_patch leads some' patched
  have unpairedOld := unpaired_of_patch leads.flip someFlipped back
  have sameEnd : EndsInLine baseline ↔ EndsInLine current :=
    ⟨ended_of_patch leads unpairedOld patched back,
      ended_of_patch leads.flip unpairedNew back (by rw [flip_twice]; exact patched)⟩
  have notBlankNew := newline_of_patch leads unpairedOld sameEnd some' patched
  have notBlankOld := newline_of_patch leads.flip unpairedNew sameEnd.symm someFlipped back
  exact ⟨unpairedOld, unpairedNew, sameEnd, notBlankOld, notBlankNew,
    kept_of_patch leads unpairedOld unpairedNew notBlankOld notBlankNew patched,
    kept_of_patch leads.flip unpairedNew unpairedOld notBlankNew notBlankOld back⟩

end Scripts

section Counting

structure Numbers (baseline current : Text) (hunk block : Block Text) : Prop where
  oldStart : hunk.oldStart = block.oldStart
  newStart : hunk.newStart = block.newStart
  oldLines : lines hunk.oldLines.flatten = block.oldLines
  newLines : lines hunk.newLines.flatten = block.newLines
  oldEnd : min (hunk.oldStart - 1 + hunk.oldLines.length) (lines baseline).length =
    block.oldStart - 1 + block.oldLines.length
  newEnd : min (hunk.newStart - 1 + hunk.newLines.length) (lines current).length =
    block.newStart - 1 + block.newLines.length

/-- The hunks count the lines of the two texts as an edit script between these lines does. -/
structure CountsLines (hunks : List (Block Text)) (script : List (Change Text)) (baseline current : Text) : Prop where
  leads : Leads script baseline current
  numbers : List.Forall₂ (Numbers baseline current) hunks (group 1 1 none script)

variable {script : List (Change Text)} {baseline current : Text} {hunk block : Block Text} {hunks blocks : List (Block Text)}

theorem Numbers.flip (numbers : Numbers baseline current hunk block) : Numbers current baseline hunk.flip block.flip :=
  ⟨numbers.newStart, numbers.oldStart, numbers.newLines, numbers.oldLines, numbers.newEnd, numbers.oldEnd⟩

theorem CountsLines.flip (counted : CountsLines hunks script baseline current) :
    CountsLines (hunks.map Block.flip) (script.map Change.flip) current baseline := by
  refine ⟨counted.leads.flip, ?_⟩
  rw [group_flip_script, List.forall₂_map_left_iff, List.forall₂_map_right_iff]
  exact counted.numbers.imp fun _ _ numbers => numbers.flip

theorem drop_past {parts : List Text} {first second : Nat} (same : min first parts.length = second) :
    parts.drop first = parts.drop second := by
  rw [← same]
  rcases Nat.le_total first parts.length with short | long
  · rw [Nat.min_eq_left short]
  · rw [Nat.min_eq_right long, List.drop_eq_nil_of_le long, List.drop_length]

theorem Numbers.accept (numbers : Numbers baseline current hunk block) {content : Text}
    (whole : content = baseline ∨ hunk.oldStart - 1 + hunk.oldLines.length ≤ (lines baseline).length) :
    acceptBlock hunk content = patchBlock block content := by
  have replaced : LineEdit.splice (lines content) (hunk.oldStart - 1) hunk.oldLines.length block.newLines =
      block.replace (lines content) := by
    unfold Block.replace LineEdit.splice
    have ends := numbers.oldEnd
    rcases whole with rfl | within
    · rw [drop_past ends, numbers.oldStart]
    · rw [Nat.min_eq_left within] at ends
      rw [ends, numbers.oldStart]
  unfold acceptBlock patchBlock
  rw [patchLines_eq, numbers.newLines, replaced]

/-- Only the last hunk can count past the end, and it is the first one to be put in place. -/
theorem acceptAll_numbers (numbers : List.Forall₂ (Numbers baseline current) hunks blocks)
    (ordered : hunks.Pairwise Block.Before) (within : ∀ block ∈ blocks, block.oldStart - 1 ≤ (lines baseline).length) :
    acceptAll hunks baseline = patchAll blocks baseline := by
  induction numbers with
  | nil => rfl
  | @cons hunk block hunks blocks first rest ih =>
      have later := ih (List.pairwise_cons.mp ordered).2 fun other member => within other (List.mem_cons_of_mem _ member)
      change acceptBlock hunk (acceptAll hunks baseline) = patchBlock block (patchAll blocks baseline)
      rw [later]
      apply first.accept
      cases rest with
      | nil => exact Or.inl rfl
      | cons second others =>
          right
          have apart := ((List.pairwise_cons.mp ordered).1 _ List.mem_cons_self).1
          have short := within _ (List.mem_cons_of_mem _ List.mem_cons_self)
          rw [second.oldStart] at apart
          omega

theorem CountsLines.acceptAll_eq (counted : CountsLines hunks script baseline current) (ordered : hunks.Pairwise Block.Before) :
    acceptAll hunks baseline = patchAll (group 1 1 none script) baseline :=
  acceptAll_numbers counted.numbers ordered fun _ member => counted.leads.start_le member

theorem before_flip (ordered : hunks.Pairwise Block.Before) : (hunks.map Block.flip).Pairwise Block.Before :=
  List.pairwise_map.mpr (ordered.imp fun before => And.symm before)

theorem CountsLines.inverts (counted : CountsLines hunks script baseline current) (ordered : hunks.Pairwise Block.Before)
    (some' : hunks ≠ []) :
    acceptAll hunks baseline = current ∧ acceptAll (hunks.map Block.flip) current = baseline ↔
      Invertible script baseline current := by
  rw [counted.acceptAll_eq ordered, counted.flip.acceptAll_eq (before_flip ordered)]
  constructor
  · rintro ⟨patched, back⟩
    refine invertible_of_patch counted.leads ?_ patched back
    intro empty
    have numbers := counted.numbers
    rw [empty, List.forall₂_nil_right_iff] at numbers
    exact some' numbers
  · intro invertible
    exact ⟨patch_inverts counted.leads invertible, patch_inverts counted.leads.flip invertible.flip⟩

theorem CountsLines.some_of_invertible (counted : CountsLines hunks script baseline current)
    (invertible : Invertible script baseline current) (different : baseline ≠ current) : hunks ≠ [] := by
  rintro rfl
  have patched := patch_inverts counted.leads invertible
  rw [List.forall₂_nil_left_iff.mp counted.numbers] at patched
  exact different patched

structure ScriptOf (script : List (Change Text)) (baseline current : Text) : Prop where
  old : oldSide script = Text.splitInclusive '\n' baseline
  new : newSide script = Text.splitInclusive '\n' current

theorem numbers_map (located : LineEdit.Located block (Text.splitInclusive '\n' baseline) (Text.splitInclusive '\n' current)) :
    Numbers baseline current block (block.map stripTerminator) := by
  obtain ⟨⟨front, back, start, old⟩, newFront, newBack, newStart, new⟩ := located
  have oldPieces := Text.splitInclusive_pieces baseline
  have newPieces := Text.splitInclusive_pieces current
  have oldWithin : block.oldLines <:+: Text.splitInclusive '\n' baseline := ⟨front, back, old.symm⟩
  have newWithin : block.newLines <:+: Text.splitInclusive '\n' current := ⟨newFront, newBack, new.symm⟩
  refine ⟨rfl, rfl, Text.lines_of_pieces (Text.pieces_part oldWithin oldPieces),
    Text.lines_of_pieces (Text.pieces_part newWithin newPieces), ?_, ?_⟩
  · simp only [Block.map, lines, List.length_map, old, List.length_append]
    omega
  · simp only [Block.map, lines, List.length_map, new, List.length_append]
    omega

theorem ScriptOf.counted (leads : ScriptOf script baseline current) :
    CountsLines (group 1 1 none script) (script.map (Change.map stripTerminator)) baseline current := by
  have groups := LineEdit.group_map stripTerminator 1 1 none script
  refine ⟨⟨?_, ?_⟩, ?_⟩
  · rw [LineEdit.oldSide_map, leads.old, lines]
  · rw [LineEdit.newSide_map, leads.new, lines]
  · rw [Option.map_none] at groups
    rw [groups, List.forall₂_map_right_iff, List.forall₂_same]
    intro block member
    have located := LineEdit.located_script script block member
    rw [leads.old, leads.new] at located
    exact numbers_map located

end Counting

section Batches

def Hunk.change (hunk : Hunk) : HunkLineInfo × Option Text × Text :=
  (hunk.lineInfo, hunk.oldText, hunk.newText)

theorem rejectPatch_build (id : HunkId) (path : Text) (source : HunkSource) (block : Block Text) :
    rejectPatch (build id path source block) = acceptBlock block.flip := by
  have text : (build id path source block).oldText.getD [] = block.oldLines.flatten := by
    by_cases empty : block.oldLines = []
    · simp [build, empty]
    · simp [build, empty]
  funext content
  unfold rejectPatch
  rw [text]
  rfl

theorem sortFromEnd_reverse (start : HunkLineInfo → Nat) {hunks : List Hunk}
    (increasing : hunks.Pairwise fun a b => start a.lineInfo < start b.lineInfo) :
    sortFromEnd start hunks = hunks.reverse := by
  -- Hunks in strictly increasing order are sorted from the end by turning them around.
  have sorted : hunks.reverse.Pairwise fun a b => decide (start b.lineInfo ≤ start a.lineInfo) = true := by
    rw [List.pairwise_reverse]
    exact increasing.imp fun less => by simpa using Nat.le_of_lt less
  have merged : (sortFromEnd start hunks).Pairwise
      fun a b => decide (start b.lineInfo ≤ start a.lineInfo) = true :=
    List.pairwise_mergeSort (fun a b c => by simp only [decide_eq_true_eq]; omega)
      (fun a b => by simp only [Bool.or_eq_true, decide_eq_true_eq]; omega) hunks
  apply List.Perm.eq_of_pairwise _ merged sorted
    ((List.mergeSort_perm hunks _).trans (List.reverse_perm hunks).symm)
  intro a b memberA memberB lessA lessB
  have distinct : (hunks.map fun hunk => start hunk.lineInfo).Nodup :=
    List.pairwise_map.mpr (increasing.imp Nat.ne_of_lt)
  apply List.inj_on_of_nodup_map distinct
  · exact (List.mergeSort_perm hunks _).mem_iff.mp memberA
  · exact List.mem_reverse.mp memberB
  · simp only [decide_eq_true_eq] at lessA lessB
    omega

variable {path baseline current : Text}

/-- The hunks are those of the diff, under any identifiers and sources. -/
def Computed (diff : LineDiff) (path : Text) (hunks : List Hunk) (baseline current : Text) : Prop :=
  ∃ firstId source,
    hunks.map Hunk.change = (computeHunks diff firstId path baseline current source).map Hunk.change

/-- `compute_hunks` reaches the diff and believes it. -/
structure Diffed (diff : LineDiff) (baseline current : Text) : Prop where
  different : baseline ≠ current
  smallOld : byteLen baseline ≤ maxDiffFileSize
  smallNew : byteLen current ≤ maxDiffFileSize
  inTime : diff.timedOut baseline current = false

def diffBlocks (diff : LineDiff) (baseline current : Text) : List (Block Text) :=
  group 1 1 none (diff.changes baseline current)

variable {diff : LineDiff}

theorem computeHunks_diffed (diffed : Diffed diff baseline current) (firstId : HunkId)
    (source : HunkSource) : computeHunks diff firstId path baseline current source =
      (diffBlocks diff baseline current).mapIdx fun index block =>
        build (firstId + index) path source block := by
  have small : ¬ (byteLen baseline > maxDiffFileSize ∨ byteLen current > maxDiffFileSize) := by
    have smallOld := diffed.smallOld
    have smallNew := diffed.smallNew
    omega
  simp [computeHunks, diffed.different, small, diffed.inTime, diffBlocks]

theorem computeHunks_undiffed (undiffed : ¬ Diffed diff baseline current)
    (firstId : HunkId) (source : HunkSource) :
    computeHunks diff firstId path baseline current source = [] := by
  unfold computeHunks
  split
  · rfl
  next different =>
    split
    · rfl
    next small =>
      split
      · rfl
      next inTime =>
        rw [not_or, Nat.not_lt, Nat.not_lt] at small
        exact absurd ⟨different, small.1, small.2, by simpa using inTime⟩ undiffed

theorem computed_map {hunks : List Hunk} {Value : Type} (patch : Hunk → Value)
    (ofChange : ∀ a b : Hunk, a.change = b.change → patch a = patch b)
    (diffed : Diffed diff baseline current) (computed : Computed diff path hunks baseline current) :
    hunks.map patch =
      (diffBlocks diff baseline current).map fun block => patch (build 0 path .external block) := by
  obtain ⟨firstId, source, same⟩ := computed
  rw [computeHunks_diffed diffed] at same
  have count : hunks.length = (diffBlocks diff baseline current).length := by
    simpa using congrArg List.length same
  apply List.ext_getElem
  · simpa using count
  · intro index before after
    have within : index < hunks.length := by simpa using before
    have listed : index < (diffBlocks diff baseline current).length := count ▸ within
    have here := congrArg (fun changes => changes[index]?) same
    simp only [List.getElem?_map, List.getElem?_mapIdx, List.getElem?_eq_getElem within,
      List.getElem?_eq_getElem listed, Option.map_some, Option.some.injEq] at here
    simp only [List.getElem_map]
    exact ofChange _ _ here

theorem foldl_mapFull (patches : List (Text → Text)) (content : Text) :
    patches.foldl (fun state patch => FileContentState.mapFull patch state) (.full content) =
      .full (patches.foldl (fun text patch => patch text) content) := by
  induction patches generalizing content with
  | nil => rfl
  | cons patch rest ih => exact ih (patch content)

theorem preserveHunks_nil (claimed : List HunkId) (hunks : List Hunk) :
    preserveHunks [] claimed hunks = hunks := by
  induction hunks with
  | nil => rfl
  | cons hunk rest ih => simp [preserveHunks, findMatchingOldHunk, maxByKey, ih]

theorem sorted_patches {hunks : List Hunk} (start : HunkLineInfo → Nat)
    (patch : Hunk → Text → Text) (ofChange : ∀ a b : Hunk, a.change = b.change → patch a = patch b)
    (ordered : (diffBlocks diff baseline current).Pairwise fun a b =>
      start (build 0 path .external a).lineInfo < start (build 0 path .external b).lineInfo)
    (diffed : Diffed diff baseline current) (computed : Computed diff path hunks baseline current)
    (content : Text) : (sortFromEnd start hunks).foldl (fun text hunk => patch hunk text) content =
      (diffBlocks diff baseline current).foldr
        (fun block text => patch (build 0 path .external block) text) content := by
  have starts := computed_map (fun hunk => start hunk.lineInfo)
    (fun a b same => by rw [show a.lineInfo = b.lineInfo from congrArg Prod.fst same]) diffed computed
  have increasing : hunks.Pairwise fun a b => start a.lineInfo < start b.lineInfo := by
    have mapped : (hunks.map fun hunk => start hunk.lineInfo).Pairwise (· < ·) := by
      rw [starts]
      exact List.pairwise_map.mpr ordered
    exact List.pairwise_map.mp mapped
  have patches := computed_map patch ofChange diffed computed
  rw [sortFromEnd_reverse start increasing, List.foldl_reverse]
  calc hunks.foldr (fun hunk text => patch hunk text) content
      = (hunks.map patch).foldr (fun patch text => patch text) content := by rw [List.foldr_map]
    _ = _ := by rw [patches, List.foldr_map]

end Batches

section Actions

variable {env : Env} {actor : Actor} {path : Text} {state : FileHunkState} {baseline current : Text}
variable {hunks : List Hunk}

theorem acceptHunksBatch_lookup (env : Env) (some' : hunks ≠ [])
    (found : actor.fileStates.lookup path = some state) (old : state.baseline = .full baseline)
    (new : state.currentContent = .full current) (all : dropHunks state.hunks (hunks.map Hunk.id) = [])
    {patched : Text}
    (patches : (sortFromEnd HunkLineInfo.oldStart hunks).foldl (fun text hunk => acceptPatch hunk text)
      baseline = patched) :
    (actor.acceptHunksBatch env path hunks).fileStates.lookup path =
      some
        { state with
          baseline := .full patched
          baselineAccepted := true
          hunks := computeHunks env.diff actor.nextId path patched current .external } := by
  have states := foldl_mapFull ((sortFromEnd HunkLineInfo.oldStart hunks).map acceptPatch) baseline
  rw [List.foldl_map, List.foldl_map, patches] at states
  unfold Actor.acceptHunksBatch
  rw [if_neg some', found]
  simp only [old, reduceCtorEq, if_false, states, all, new]
  rw [Actor.recomputeRemaining_lookup (Actor.sendEvents_lookup ..)]
  simp [preserveHunks_nil, diffHunks]
  rfl

theorem rejectHunksBatch_lookup (env : Env) (some' : hunks ≠ [])
    (found : actor.fileStates.lookup path = some state) (old : state.baseline = .full baseline)
    (new : state.currentContent = .full current) (all : dropHunks state.hunks (hunks.map Hunk.id) = [])
    (written : env.write path = true) {patched : Text}
    (patches : (sortFromEnd HunkLineInfo.newStart hunks).foldl (fun text hunk => rejectPatch hunk text)
      current = patched) :
    (actor.rejectHunksBatch env path hunks).2.fileStates.lookup path =
      some
        { state with
          currentContent := .full patched
          hunks := computeHunks env.diff actor.nextId path baseline patched .external } := by
  unfold Actor.rejectHunksBatch
  rw [if_neg some', found]
  simp only [old, new, written, if_true, all, patches]
  rw [Actor.recomputeRemaining_lookup (Actor.sendEvents_lookup ..)]
  simp [preserveHunks_nil, diffHunks]
  rfl

theorem applyActionBatch_single (action : HunkAction) (hunks : List Hunk) :
    (actor.applyActionBatch env action [(path, hunks)]).2 =
      (actor.actOnBatch env action path hunks).2 := by
  unfold Actor.applyActionBatch
  split
  next error acted result => rw [result]
  next acted result => rw [result]; rfl

theorem applyFileAction_some (found : actor.fileStates.lookup path = some state)
    (some' : state.hunks ≠ []) (action : HunkAction) :
    (actor.applyFileAction env path action).2 = (actor.actOnBatch env action path state.hunks).2 := by
  unfold Actor.applyFileAction
  rw [found]
  simp only [some', if_false]
  exact applyActionBatch_single action state.hunks

theorem applyFileAction_none (found : actor.fileStates.lookup path = some state)
    (none' : state.hunks = []) (action : HunkAction) :
    (actor.applyFileAction env path action).2 = actor := by
  unfold Actor.applyFileAction
  rw [found]
  simp [none']

def AcceptInverts (env : Env) (actor : Actor) (path current : Text) : Prop :=
  ∃ state, (actor.applyFileAction env path .accept).2.fileStates.lookup path = some state ∧
    state.baseline = .full current ∧ state.hunks = []

def RejectInverts (env : Env) (actor : Actor) (path baseline : Text) : Prop :=
  ∃ state, (actor.applyFileAction env path .reject).2.fileStates.lookup path = some state ∧
    state.currentContent = .full baseline ∧ state.hunks = []

theorem computed_some {diff : LineDiff} (diffed : Diffed diff baseline current)
    (computed : Computed diff path hunks baseline current) :
    hunks = [] ↔ diffBlocks diff baseline current = [] := by
  have same := computed_map Hunk.change (fun a b same => same) diffed computed
  rw [← List.map_eq_nil_iff, same, List.map_eq_nil_iff]

theorem accept_iff (found : actor.fileStates.lookup path = some state)
    (old : state.baseline = .full baseline) (new : state.currentContent = .full current)
    (diffed : Diffed env.diff baseline current)
    (computed : Computed env.diff path state.hunks baseline current) (some' : state.hunks ≠ []) :
    AcceptInverts env actor path current ↔
      acceptAll (diffBlocks env.diff baseline current) baseline = current := by
  have ordered := LineEdit.group_before (env.diff.changes baseline current) (LineEdit.openAt_none 1 1)
  have patches := sorted_patches HunkLineInfo.oldStart acceptPatch
    (fun a b same => by
      simp only [Hunk.change, Prod.mk.injEq] at same
      funext content
      simp [acceptPatch, same])
    (ordered.imp fun before => by
      have less := before.1
      change _ < _
      simp only [build]
      omega) diffed computed baseline
  have result := acceptHunksBatch_lookup env some'
    ((congrArg (AList.lookup path) (countHunks_spec .accept state.hunks actor).1).trans found) old new
    (dropHunks_self _) patches
  unfold AcceptInverts
  rw [applyFileAction_some found some']
  change (∃ final, (Actor.acceptHunksBatch _ env path state.hunks).fileStates.lookup path = some final ∧ _) ↔
    _
  rw [result]
  constructor
  · rintro ⟨final, same, reached, -⟩
    rw [← Option.some.inj same] at reached
    exact FileContentState.full.inj reached
  · intro reached
    refine ⟨_, rfl, congrArg FileContentState.full reached, ?_⟩
    change computeHunks env.diff _ path (acceptAll (diffBlocks env.diff baseline current) baseline) current _ = []
    rw [reached]
    simp [computeHunks]

theorem acceptAll_flip (blocks : List (Block Text)) (content : Text) :
    acceptAll (blocks.map Block.flip) content =
      blocks.foldr (fun block text => acceptBlock block.flip text) content := by
  rw [acceptAll, List.foldr_map]

theorem reject_iff (found : actor.fileStates.lookup path = some state)
    (old : state.baseline = .full baseline) (new : state.currentContent = .full current)
    (written : env.write path = true) (diffed : Diffed env.diff baseline current)
    (computed : Computed env.diff path state.hunks baseline current) (some' : state.hunks ≠ []) :
    RejectInverts env actor path baseline ↔
      acceptAll ((diffBlocks env.diff baseline current).map Block.flip) current = baseline := by
  have ordered := LineEdit.group_before (env.diff.changes baseline current) (LineEdit.openAt_none 1 1)
  have patches := sorted_patches HunkLineInfo.newStart rejectPatch
    (fun a b same => by
      simp only [Hunk.change, Prod.mk.injEq] at same
      funext content
      simp [rejectPatch, same])
    (ordered.imp fun before => by
      have less := before.2
      change _ < _
      simp only [build]
      omega) diffed computed current
  simp only [rejectPatch_build] at patches
  rw [← acceptAll_flip] at patches
  have result := rejectHunksBatch_lookup env some'
    ((congrArg (AList.lookup path) (countHunks_spec .reject state.hunks actor).1).trans found) old new
    (dropHunks_self _) written patches
  unfold RejectInverts
  rw [applyFileAction_some found some']
  change (∃ final, (Actor.rejectHunksBatch _ env path state.hunks).2.fileStates.lookup path = some final ∧ _) ↔
    _
  rw [result]
  constructor
  · rintro ⟨final, same, reached, -⟩
    rw [← Option.some.inj same] at reached
    exact FileContentState.full.inj reached
  · intro reached
    refine ⟨_, rfl, congrArg FileContentState.full reached, ?_⟩
    simp only [reached]
    simp [computeHunks]

theorem inverts_of_none (env : Env) (found : actor.fileStates.lookup path = some state)
    (old : state.baseline = .full baseline) (new : state.currentContent = .full current)
    (none' : state.hunks = []) :
    (AcceptInverts env actor path current ↔ baseline = current) ∧
      (RejectInverts env actor path baseline ↔ baseline = current) := by
  unfold AcceptInverts RejectInverts
  rw [applyFileAction_none found none', applyFileAction_none found none', found]
  constructor
  · constructor
    · rintro ⟨final, same, reached, -⟩
      rw [← Option.some.inj same, old] at reached
      exact FileContentState.full.inj reached
    · intro same
      exact ⟨state, rfl, same ▸ old, none'⟩
  · constructor
    · rintro ⟨final, same, reached, -⟩
      rw [← Option.some.inj same, new] at reached
      exact (FileContentState.full.inj reached).symm
    · intro same
      exact ⟨state, rfl, same ▸ new, none'⟩

theorem computed_none {diff : LineDiff} (undiffed : ¬ Diffed diff baseline current)
    (computed : Computed diff path hunks baseline current) : hunks = [] := by
  obtain ⟨firstId, source, same⟩ := computed
  rw [computeHunks_undiffed undiffed] at same
  exact List.map_eq_nil_iff.mp same

theorem LineDiff.Lawful.script {diff : LineDiff} (laws : diff.Lawful)
    (endsOld : Text.returnsEndLines baseline = true) (endsNew : Text.returnsEndLines current = true) :
    ScriptOf (diff.changes baseline current) baseline current :=
  ⟨(laws.oldSide _ _).trans (laws.tokens _ endsOld), (laws.newSide _ _).trans (laws.tokens _ endsNew)⟩

/--
Accepting and rejecting all hunks of a file whose hunks are counted as its lines: they settle exactly when the
texts have no carriage return before a line feed, end alike, and are not emptied on the way.
-/
theorem accept_reject_invert (laws : env.diff.Lawful) (written : env.write path = true)
    (found : actor.fileStates.lookup path = some state) (old : state.baseline = .full baseline)
    (new : state.currentContent = .full current)
    (computed : Computed env.diff path state.hunks baseline current) :
    (baseline = current ∨ (Diffed env.diff baseline current ∧ ∃ script,
        CountsLines (diffBlocks env.diff baseline current) script baseline current ∧
          Invertible script baseline current) →
      AcceptInverts env actor path current ∧ RejectInverts env actor path baseline) ∧
    ((Diffed env.diff baseline current →
        ∃ script, CountsLines (diffBlocks env.diff baseline current) script baseline current) →
      AcceptInverts env actor path current ∧ RejectInverts env actor path baseline →
      baseline = current ∨ (Diffed env.diff baseline current ∧ ∃ script,
        CountsLines (diffBlocks env.diff baseline current) script baseline current ∧
          Invertible script baseline current)) ∧
    (env.diff.tokens baseline = Text.splitInclusive '\n' baseline →
      env.diff.tokens current = Text.splitInclusive '\n' current →
      CountsLines (diffBlocks env.diff baseline current)
        ((env.diff.changes baseline current).map (Change.map stripTerminator)) baseline current) := by
  have ordered : (diffBlocks env.diff baseline current).Pairwise Block.Before :=
    LineEdit.group_before (env.diff.changes baseline current) (LineEdit.openAt_none 1 1)
  refine ⟨?_, ?_, fun tokensOld tokensNew => ScriptOf.counted
    ⟨(laws.oldSide _ _).trans tokensOld, (laws.newSide _ _).trans tokensNew⟩⟩
  · rintro (same | ⟨diffed, script, counted, invertible⟩)
    · have none' := computed_none (fun diffed => diffed.different same) computed
      have unchanged := inverts_of_none env found old new none'
      exact ⟨unchanged.1.mpr same, unchanged.2.mpr same⟩
    · have blocks := counted.some_of_invertible invertible diffed.different
      have some' := (computed_some diffed computed).not.mpr blocks
      rw [accept_iff found old new diffed computed some', reject_iff found old new written diffed computed some']
      exact (counted.inverts ordered blocks).mpr invertible
  · intro countable settles
    by_cases same : baseline = current
    · exact Or.inl same
    have shown : state.hunks ≠ [] := fun none' => same ((inverts_of_none env found old new none').1.mp settles.1)
    have diffed : Diffed env.diff baseline current := by
      by_contra undiffed
      exact shown (computed_none undiffed computed)
    obtain ⟨script, counted⟩ := countable diffed
    rw [accept_iff found old new diffed computed shown, reject_iff found old new written diffed computed shown] at settles
    exact Or.inr ⟨diffed, script, counted,
      (counted.inverts ordered ((computed_some diffed computed).not.mp shown)).mp settles⟩

def oneFile (diff : LineDiff) (path baseline current : Text) : Actor :=
  (Actor.new [] .agentOnly).setState path
    { baseline := .full baseline
      currentContent := .full current
      hunks := computeHunks diff 0 path baseline current .external
      isAgentFile := false
      baselineAccepted := false }

theorem accept_reject_invert_one_line :
    AcceptInverts (Env.blank .plain) (oneFile .plain ['f'] ['a', '\r'] ['b', '\r']) ['f'] ['b', '\r'] ∧
      RejectInverts (Env.blank .plain) (oneFile .plain ['f'] ['a', '\r'] ['b', '\r']) ['f']
        ['a', '\r'] := by
  have keepsNothing : ∀ script : List (Change Text), (∀ line, .equal line ∉ script) → ¬ Emptied script := by
    intro script nothing ⟨inserted, deleted, shape⟩
    exact nothing [] (by simp [shape])
  have settles := @accept_reject_invert (Env.blank .plain) (oneFile .plain ['f'] ['a', '\r'] ['b', '\r']) ['f'] _
    ['a', '\r'] ['b', '\r'] LineDiff.plain_lawful rfl (Actor.setState_lookup ..) rfl rfl ⟨0, .external, rfl⟩
  refine settles.1 (Or.inr ⟨⟨by decide, by decide, by decide, rfl⟩, _, settles.2.2 rfl rfl, ?_⟩)
  exact ⟨by decide, by decide, by decide, by decide, by decide,
    keepsNothing _ (by simp [Env.blank, LineDiff.plain, Text.splitInclusive, lineByLine, Change.map]),
    keepsNothing _ (by simp [Env.blank, LineDiff.plain, Text.splitInclusive, lineByLine, Change.map, Change.flip])⟩

/-- The baseline has no final line feed, so the accepted text gets none. -/
theorem final_newline_lost :
    ¬ (AcceptInverts (Env.blank .plain) (oneFile .plain ['f'] ['a'] ['b', '\n']) ['f'] ['b', '\n'] ∧
      RejectInverts (Env.blank .plain) (oneFile .plain ['f'] ['a'] ['b', '\n']) ['f'] ['a']) := by
  intro both
  have accepted := (accept_iff (Actor.setState_lookup ..) rfl rfl
    ⟨by decide, by decide, by decide, rfl⟩ ⟨0, .external, rfl⟩ (by decide +kernel)).mp both.1
  exact absurd accepted (by decide +kernel)

end Actions

end GrokPi.HunkTracker
