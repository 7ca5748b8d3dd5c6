import Mathlib

set_option autoImplicit false

namespace LineEdit

variable {Line Other : Type}

inductive Change (Line : Type) where
  | equal (line : Line)
  | delete (line : Line)
  | insert (line : Line)
  deriving DecidableEq

def Change.flip : Change Line → Change Line
  | .equal line => .equal line
  | .delete line => .insert line
  | .insert line => .delete line

def Change.map (f : Line → Other) : Change Line → Change Other
  | .equal line => .equal (f line)
  | .delete line => .delete (f line)
  | .insert line => .insert (f line)

def oldSide : List (Change Line) → List Line
  | [] => []
  | .equal line :: rest | .delete line :: rest => line :: oldSide rest
  | .insert _ :: rest => oldSide rest

def newSide : List (Change Line) → List Line
  | [] => []
  | .equal line :: rest | .insert line :: rest => line :: newSide rest
  | .delete _ :: rest => newSide rest

example : oldSide [.equal 'a', .delete 'b', .insert 'c'] = ['a', 'b'] ∧
    newSide [.equal 'a', .delete 'b', .insert 'c'] = ['a', 'c'] := by
  simp [oldSide, newSide]

/-- Lines are numbered from 1; a start is the number of the first line of its side. -/
structure Block (Line : Type) where
  oldStart : Nat
  newStart : Nat
  oldLines : List Line
  newLines : List Line
  deriving DecidableEq

def Block.new (oldStart newStart : Nat) : Block Line :=
  { oldStart := oldStart
    newStart := newStart
    oldLines := []
    newLines := [] }

def Block.addOldLine (block : Block Line) (line : Line) : Block Line :=
  { block with oldLines := block.oldLines ++ [line] }

def Block.addNewLine (block : Block Line) (line : Line) : Block Line :=
  { block with newLines := block.newLines ++ [line] }

def Block.flip (block : Block Line) : Block Line :=
  { oldStart := block.newStart
    newStart := block.oldStart
    oldLines := block.newLines
    newLines := block.oldLines }

def Block.map (f : Line → Other) (block : Block Line) : Block Other :=
  { oldStart := block.oldStart
    newStart := block.newStart
    oldLines := block.oldLines.map f
    newLines := block.newLines.map f }

/-- One pass over a script; `current` is the block being built. -/
def group (oldLine newLine : Nat) (current : Option (Block Line)) :
    List (Change Line) → List (Block Line)
  | [] => current.toList
  | .equal _ :: rest => current.toList ++ group (oldLine + 1) (newLine + 1) none rest
  | .delete line :: rest =>
      group (oldLine + 1) newLine
        (some ((current.getD (.new oldLine newLine)).addOldLine line)) rest
  | .insert line :: rest =>
      group oldLine (newLine + 1)
        (some ((current.getD (.new oldLine newLine)).addNewLine line)) rest

def splice (lines : List Line) (start count : Nat) (inserted : List Line) : List Line :=
  lines.take start ++ inserted ++ lines.drop (start + count)

def Block.replace (block : Block Line) (lines : List Line) : List Line :=
  splice lines (block.oldStart - 1) block.oldLines.length block.newLines

def replaceAll (blocks : List (Block Line)) (lines : List Line) : List Line :=
  blocks.foldr Block.replace lines

section Sides

@[simp]
theorem flip_flip (change : Change Line) : change.flip.flip = change := by
  cases change <;> rfl

theorem oldSide_flip (script : List (Change Line)) : oldSide (script.map Change.flip) = newSide script := by
  induction script with
  | nil => rfl
  | cons change rest ih => cases change <;> simp [Change.flip, oldSide, newSide, ih]

theorem newSide_flip (script : List (Change Line)) : newSide (script.map Change.flip) = oldSide script := by
  induction script with
  | nil => rfl
  | cons change rest ih => cases change <;> simp [Change.flip, oldSide, newSide, ih]

theorem oldSide_map (f : Line → Other) (script : List (Change Line)) :
    oldSide (script.map (Change.map f)) = (oldSide script).map f := by
  induction script with
  | nil => rfl
  | cons change rest ih => cases change <;> simp [Change.map, oldSide, ih]

theorem newSide_map (f : Line → Other) (script : List (Change Line)) :
    newSide (script.map (Change.map f)) = (newSide script).map f := by
  induction script with
  | nil => rfl
  | cons change rest ih => cases change <;> simp [Change.map, newSide, ih]

@[simp]
theorem oldSide_append (first second : List (Change Line)) :
    oldSide (first ++ second) = oldSide first ++ oldSide second := by
  induction first with
  | nil => rfl
  | cons change rest ih => cases change <;> simp [oldSide, ih]

@[simp]
theorem newSide_append (first second : List (Change Line)) :
    newSide (first ++ second) = newSide first ++ newSide second := by
  induction first with
  | nil => rfl
  | cons change rest ih => cases change <;> simp [newSide, ih]

@[simp]
theorem sides_inserts (inserted : List Line) :
    oldSide (inserted.map .insert) = [] ∧ newSide (inserted.map .insert) = inserted := by
  induction inserted with
  | nil => exact ⟨rfl, rfl⟩
  | cons line rest ih => exact ⟨ih.1, congrArg (line :: ·) ih.2⟩

@[simp]
theorem sides_deletes (deleted : List Line) :
    oldSide (deleted.map .delete) = deleted ∧ newSide (deleted.map .delete) = [] := by
  induction deleted with
  | nil => exact ⟨rfl, rfl⟩
  | cons line rest ih => exact ⟨congrArg (line :: ·) ih.1, ih.2⟩

theorem inserts_of_oldSide {script : List (Change Line)} (empty : oldSide script = []) :
    script = (newSide script).map .insert := by
  -- A script that keeps and deletes nothing only inserts.
  induction script with
  | nil => rfl
  | cons change rest ih =>
      cases change with
      | equal line | delete line => simp [oldSide] at empty
      | insert line => simpa [newSide] using ih empty

theorem deletes_of_newSide {script : List (Change Line)} (empty : newSide script = []) :
    script = (oldSide script).map .delete := by
  induction script with
  | nil => rfl
  | cons change rest ih =>
      cases change with
      | equal line | insert line => simp [newSide] at empty
      | delete line => simpa [oldSide] using ih empty

end Sides

section Blocks

theorem group_flip (oldLine newLine : Nat) (current : Option (Block Line))
    (script : List (Change Line)) :
    group newLine oldLine (current.map Block.flip) (script.map Change.flip) =
      (group oldLine newLine current script).map Block.flip := by
  induction script generalizing oldLine newLine current with
  | nil => cases current <;> rfl
  | cons change rest ih =>
      cases change with
      | equal line =>
          have later := ih (oldLine + 1) (newLine + 1) none
          cases current <;> simpa [group, Change.flip] using later
      | delete line =>
          have later := ih (oldLine + 1) newLine
            (some ((current.getD (.new oldLine newLine)).addOldLine line))
          cases current <;> exact later
      | insert line =>
          have later := ih oldLine (newLine + 1)
            (some ((current.getD (.new oldLine newLine)).addNewLine line))
          cases current <;> exact later

theorem group_map (f : Line → Other) (oldLine newLine : Nat) (current : Option (Block Line))
    (script : List (Change Line)) :
    group oldLine newLine (current.map (Block.map f)) (script.map (Change.map f)) =
      (group oldLine newLine current script).map (Block.map f) := by
  induction script generalizing oldLine newLine current with
  | nil => cases current <;> rfl
  | cons change rest ih =>
      cases change with
      | equal line =>
          have later := ih (oldLine + 1) (newLine + 1) none
          cases current <;> simpa [group, Change.map] using later
      | delete line =>
          have later := ih (oldLine + 1) newLine (some ((current.getD (.new oldLine newLine)).addOldLine line))
          cases current <;> simpa [group, Change.map, Block.map, Block.new, Block.addOldLine] using later
      | insert line =>
          have later := ih oldLine (newLine + 1) (some ((current.getD (.new oldLine newLine)).addNewLine line))
          cases current <;> simpa [group, Change.map, Block.map, Block.new, Block.addNewLine] using later

def openOld (current : Option (Block Line)) : List Line := current.elim [] Block.oldLines

def openNew (current : Option (Block Line)) : List Line := current.elim [] Block.newLines

/-- The block being built begins at `oldStart` and `newStart` and reaches the lines read so far. -/
structure OpenAt (oldStart newStart oldLine newLine : Nat) (current : Option (Block Line)) : Prop where
  old : oldLine = oldStart + (openOld current).length
  new : newLine = newStart + (openNew current).length
  starts : ∀ block, current = some block → block.oldStart = oldStart ∧ block.newStart = newStart

theorem openAt_none (oldLine newLine : Nat) :
    OpenAt oldLine newLine oldLine newLine (none : Option (Block Line)) :=
  ⟨rfl, rfl, by simp⟩

variable {oldStart newStart oldLine newLine : Nat} {current : Option (Block Line)}

theorem OpenAt.delete (position : OpenAt oldStart newStart oldLine newLine current) (line : Line) :
    OpenAt oldStart newStart (oldLine + 1) newLine
      (some ((current.getD (.new oldLine newLine)).addOldLine line)) := by
  rcases position with ⟨old, new, starts⟩
  cases current with
  | none =>
      simp only [openOld, openNew, Option.elim_none, List.length_nil, Nat.add_zero] at old new
      subst old new
      exact ⟨rfl, rfl, by simp [Block.new, Block.addOldLine]⟩
  | some block =>
      refine ⟨?_, new, ?_⟩
      · simp [openOld, Block.addOldLine] at old ⊢
        omega
      · intro other same
        obtain rfl := Option.some.inj same
        exact starts block rfl

theorem OpenAt.insert (position : OpenAt oldStart newStart oldLine newLine current) (line : Line) :
    OpenAt oldStart newStart oldLine (newLine + 1)
      (some ((current.getD (.new oldLine newLine)).addNewLine line)) := by
  rcases position with ⟨old, new, starts⟩
  cases current with
  | none =>
      simp only [openOld, openNew, Option.elim_none, List.length_nil, Nat.add_zero] at old new
      subst old new
      exact ⟨rfl, rfl, by simp [Block.new, Block.addNewLine]⟩
  | some block =>
      refine ⟨old, ?_, ?_⟩
      · simp [openNew, Block.addNewLine] at new ⊢
        omega
      · intro other same
        obtain rfl := Option.some.inj same
        exact starts block rfl

theorem OpenAt.equalOld {front : List Line} (position : OpenAt (front.length + 1) newStart oldLine newLine current)
    (line : Line) :
    OpenAt ((front ++ openOld current ++ [line]).length + 1) (newLine + 1) (oldLine + 1) (newLine + 1)
      (none : Option (Block Line)) := by
  have old := position.old
  refine ⟨?_, rfl, by simp⟩
  simp [openOld] at old ⊢
  omega

theorem OpenAt.equal {oldFront newFront : List Line}
    (position : OpenAt (oldFront.length + 1) (newFront.length + 1) oldLine newLine current) (line : Line) :
    OpenAt ((oldFront ++ openOld current ++ [line]).length + 1) ((newFront ++ openNew current ++ [line]).length + 1)
      (oldLine + 1) (newLine + 1) (none : Option (Block Line)) := by
  have old := position.old
  have new := position.new
  refine ⟨?_, ?_, by simp⟩
  · simp [openOld] at old ⊢
    omega
  · simp [openNew] at new ⊢
    omega

@[simp]
theorem openOld_delete (line : Line) :
    openOld (some ((current.getD (.new oldLine newLine)).addOldLine line)) =
      openOld current ++ [line] := by
  cases current <;> rfl

@[simp]
theorem openNew_delete (line : Line) :
    openNew (some ((current.getD (.new oldLine newLine)).addOldLine line)) = openNew current := by
  cases current <;> rfl

@[simp]
theorem openOld_insert (line : Line) :
    openOld (some ((current.getD (.new oldLine newLine)).addNewLine line)) = openOld current := by
  cases current <;> rfl

@[simp]
theorem openNew_insert (line : Line) :
    openNew (some ((current.getD (.new oldLine newLine)).addNewLine line)) =
      openNew current ++ [line] := by
  cases current <;> rfl

end Blocks

section Replacing

theorem splice_middle (front old inserted back : List Line) :
    splice (front ++ old ++ back) front.length old.length inserted = front ++ inserted ++ back := by
  have taken : (front ++ old ++ back).take front.length = front := by simp
  have dropped : (front ++ old ++ back).drop (front.length + old.length) = back := by
    rw [← List.length_append, List.drop_left]
  rw [splice, taken, dropped]

variable {oldStart newStart oldLine newLine : Nat} {current : Option (Block Line)}

theorem replace_open (front back : List Line)
    (position : OpenAt (front.length + 1) newStart oldLine newLine current) :
    current.toList.foldr Block.replace (front ++ openOld current ++ back) =
      front ++ openNew current ++ back := by
  cases current with
  | none => rfl
  | some block =>
      have start := (position.starts block rfl).1
      simp [Block.replace, openOld, openNew, start]
      simpa using splice_middle front block.oldLines block.newLines back

theorem replaceAll_group (script : List (Change Line)) (front : List Line)
    (position : OpenAt (front.length + 1) newStart oldLine newLine current) :
    replaceAll (group oldLine newLine current script) (front ++ openOld current ++ oldSide script) =
      front ++ openNew current ++ newSide script := by
  induction script generalizing front newStart oldLine newLine current with
  | nil => simpa [group, replaceAll, oldSide, newSide] using replace_open front [] position
  | cons change rest ih =>
      cases change with
      | delete line => simpa [group, oldSide, newSide] using ih front (position.delete line)
      | insert line => simpa [group, oldSide, newSide] using ih front (position.insert line)
      | equal line =>
          have later := ih (front ++ openOld current ++ [line]) (position.equalOld line)
          have opened := replace_open front (line :: newSide rest) position
          simp only [group, replaceAll, List.foldr_append, oldSide, newSide] at later ⊢
          simp only [openOld, openNew, Option.elim_none, List.append_nil, List.append_assoc,
            List.singleton_append] at later opened ⊢
          rw [later, opened]

theorem replaceAll_script (script : List (Change Line)) :
    replaceAll (group 1 1 none script) (oldSide script) = newSide script := by
  simpa [openOld, openNew] using replaceAll_group script [] (openAt_none 1 1)

def Change.isEqual : Change Line → Bool
  | .equal _ => true
  | _ => false

/-- Between two blocks there is a line that the script keeps: replacing only the later blocks gives
the old lines up to it and the new lines after it. -/
theorem replaceAll_suffix (script : List (Change Line)) (front : List Line)
    (position : OpenAt (front.length + 1) newStart oldLine newLine current)
    {later : List (Block Line)} (some' : later ≠ [])
    (suffix : later <:+ group oldLine newLine current script) :
    later = group oldLine newLine current script ∨
      ∃ first line second, script = first ++ .equal line :: second ∧
        (current ≠ none ∨ ∃ change ∈ first, change.isEqual = false) ∧
        replaceAll later (front ++ openOld current ++ oldSide script) =
          front ++ openOld current ++ oldSide first ++ line :: newSide second := by
  induction script generalizing front newStart oldLine newLine current with
  | nil =>
      left
      cases current with
      | none => simp_all [group]
      | some block =>
          simp only [group, Option.toList_some] at suffix ⊢
          rcases List.suffix_cons_iff.mp suffix with whole | tail
          · exact whole
          · exact absurd (List.suffix_nil.mp tail) some'
  | cons change rest ih =>
      cases change with
      | delete line =>
          rcases ih front (position.delete line) suffix with
            whole | ⟨first, kept, second, shape, -, result⟩
          · exact Or.inl whole
          · refine Or.inr ⟨.delete line :: first, kept, second, by rw [shape]; rfl, ?_, ?_⟩
            · exact Or.inr ⟨_, List.mem_cons_self, rfl⟩
            · simpa [oldSide] using result
      | insert line =>
          rcases ih front (position.insert line) suffix with
            whole | ⟨first, kept, second, shape, -, result⟩
          · exact Or.inl whole
          · refine Or.inr ⟨.insert line :: first, kept, second, by rw [shape]; rfl, ?_, ?_⟩
            · exact Or.inr ⟨_, List.mem_cons_self, rfl⟩
            · simpa [oldSide] using result
      | equal line =>
          have next' := position.equalOld line
          have inner : later <:+ group (oldLine + 1) (newLine + 1) none rest →
              later = group (oldLine + 1) (newLine + 1) none rest ∨
              ∃ first kept second, Change.equal line :: rest = first ++ .equal kept :: second ∧
                (current ≠ none ∨ ∃ change ∈ first, change.isEqual = false) ∧
                replaceAll later (front ++ openOld current ++ oldSide (.equal line :: rest)) =
                  front ++ openOld current ++ oldSide first ++ kept :: newSide second := by
            intro within
            rcases ih _ next' within with whole | ⟨first, kept, second, shape, changed, result⟩
            · exact Or.inl whole
            · refine Or.inr ⟨.equal line :: first, kept, second, by rw [shape]; rfl, ?_, ?_⟩
              · rcases changed with absurd' | ⟨change, member, different⟩
                · exact absurd rfl absurd'
                · exact Or.inr ⟨change, List.mem_cons_of_mem _ member, different⟩
              · simpa [oldSide, openOld] using result
          cases current with
          | none =>
              rcases inner (by simpa [group] using suffix) with whole | split
              · exact Or.inl (by simpa [group] using whole)
              · exact Or.inr split
          | some block =>
              simp only [group, Option.toList_some, List.singleton_append] at suffix ⊢
              rcases List.suffix_cons_iff.mp suffix with whole | tail
              · exact Or.inl whole
              · rcases inner tail with whole | split
                · refine Or.inr ⟨[], line, rest, rfl, Or.inl (by simp), ?_⟩
                  have replayed := replaceAll_group rest _ next'
                  rw [← whole] at replayed
                  simpa [oldSide, openOld, openNew] using replayed
                · exact Or.inr split

theorem mem_replaceAll {blocks : List (Block Line)} {lines : List Line} {line : Line}
    (member : line ∈ replaceAll blocks lines) :
    line ∈ lines ∨ ∃ block ∈ blocks, line ∈ block.newLines := by
  induction blocks with
  | nil => exact Or.inl member
  | cons block rest ih =>
      simp only [replaceAll, List.foldr_cons, Block.replace, splice, List.mem_append] at member ih
      rcases member with (taken | inserted) | dropped
      · rcases ih (List.mem_of_mem_take taken) with early | ⟨other, within, found⟩
        · exact Or.inl early
        · exact Or.inr ⟨other, List.mem_cons_of_mem _ within, found⟩
      · exact Or.inr ⟨block, List.mem_cons_self, inserted⟩
      · rcases ih (List.mem_of_mem_drop dropped) with early | ⟨other, within, found⟩
        · exact Or.inl early
        · exact Or.inr ⟨other, List.mem_cons_of_mem _ within, found⟩

theorem group_inserts (inserted : List Line) (block : Block Line) (rest : List (Change Line))
    (oldLine newLine : Nat) :
    group oldLine newLine (some block) (inserted.map .insert ++ rest) =
      group oldLine (newLine + inserted.length)
        (some { block with newLines := block.newLines ++ inserted }) rest := by
  induction inserted generalizing block newLine with
  | nil => simp
  | cons line more ih =>
      simp only [List.map_cons, List.cons_append, group, Option.getD_some, ih, Block.addNewLine,
        List.length_cons, List.append_assoc]
      congr 1
      omega

theorem group_deletes (deleted : List Line) (block : Block Line) (rest : List (Change Line))
    (oldLine newLine : Nat) :
    group oldLine newLine (some block) (deleted.map .delete ++ rest) =
      group (oldLine + deleted.length) newLine
        (some { block with oldLines := block.oldLines ++ deleted }) rest := by
  induction deleted generalizing block oldLine with
  | nil => simp
  | cons line more ih =>
      simp only [List.map_cons, List.cons_append, group, Option.getD_some, ih, Block.addOldLine,
        List.length_cons, List.append_assoc]
      congr 1
      omega

end Replacing

section Layout

variable {oldStart newStart oldLine newLine : Nat} {current : Option (Block Line)}

def Block.Before (first second : Block Line) : Prop :=
  first.oldStart + first.oldLines.length < second.oldStart ∧
    first.newStart + first.newLines.length < second.newStart

theorem group_starts (script : List (Change Line))
    (position : OpenAt oldStart newStart oldLine newLine current) :
    ∀ block ∈ group oldLine newLine current script,
      oldStart ≤ block.oldStart ∧ newStart ≤ block.newStart := by
  induction script generalizing oldStart newStart oldLine newLine current with
  | nil =>
      intro block member
      have starts := position.starts block (by simpa [group] using member)
      omega
  | cons change rest ih =>
      cases change with
      | delete line => exact ih (position.delete line)
      | insert line => exact ih (position.insert line)
      | equal line =>
          intro block member
          simp only [group, List.mem_append, Option.mem_toList] at member
          rcases member with opened | later
          · have starts := position.starts block opened
            omega
          · have old := position.old
            have new := position.new
            have starts := ih (openAt_none _ _) block later
            omega

theorem group_before (script : List (Change Line))
    (position : OpenAt oldStart newStart oldLine newLine current) :
    (group oldLine newLine current script).Pairwise Block.Before := by
  induction script generalizing oldStart newStart oldLine newLine current with
  | nil => cases current <;> simp [group]
  | cons change rest ih =>
      cases change with
      | delete line => exact ih (position.delete line)
      | insert line => exact ih (position.insert line)
      | equal line =>
          simp only [group]
          have later := ih (openAt_none (oldLine + 1) (newLine + 1))
          cases current with
          | none => simpa using later
          | some block =>
              refine List.pairwise_cons.mpr ⟨?_, later⟩
              intro second member
              have starts := position.starts block rfl
              have old := position.old
              have new := position.new
              have after := group_starts rest (openAt_none (oldLine + 1) (newLine + 1)) second member
              simp only [openOld, openNew, Option.elim_some] at old new
              unfold Block.Before
              omega

theorem group_lines (script : List (Change Line)) :
    ∀ block ∈ group oldLine newLine current script,
      block.oldLines <:+: openOld current ++ oldSide script ∧
        block.newLines <:+: openNew current ++ newSide script := by
  induction script generalizing oldLine newLine current with
  | nil =>
      intro block member
      simp only [group, Option.mem_toList] at member
      simp [member, openOld, openNew, oldSide, newSide]
  | cons change rest ih =>
      cases change with
      | delete line =>
          intro block member
          simpa [oldSide, newSide] using ih block member
      | insert line =>
          intro block member
          simpa [oldSide, newSide] using ih block member
      | equal line =>
          intro block member
          simp only [group, List.mem_append, Option.mem_toList] at member
          rcases member with opened | later
          · simp only [opened, openOld, openNew, Option.elim_some]
            exact ⟨(List.prefix_append _ _).isInfix, (List.prefix_append _ _).isInfix⟩
          · have within := ih block later
            simp only [openOld, openNew, Option.elim_none, List.nil_append] at within
            have oldTail : oldSide rest <:+ openOld current ++ oldSide (.equal line :: rest) :=
              ⟨openOld current ++ [line], by simp [oldSide]⟩
            have newTail : newSide rest <:+ openNew current ++ newSide (.equal line :: rest) :=
              ⟨openNew current ++ [line], by simp [newSide]⟩
            exact ⟨within.1.trans oldTail.isInfix, within.2.trans newTail.isInfix⟩

structure Located (block : Block Line) (oldLines newLines : List Line) : Prop where
  old : ∃ front back, block.oldStart = front.length + 1 ∧ oldLines = front ++ block.oldLines ++ back
  new : ∃ front back, block.newStart = front.length + 1 ∧ newLines = front ++ block.newLines ++ back

theorem group_located (script : List (Change Line)) (oldFront newFront : List Line)
    (position : OpenAt (oldFront.length + 1) (newFront.length + 1) oldLine newLine current) :
    ∀ block ∈ group oldLine newLine current script,
      Located block (oldFront ++ openOld current ++ oldSide script) (newFront ++ openNew current ++ newSide script) := by
  induction script generalizing oldFront newFront oldLine newLine current with
  | nil =>
      intro block member
      simp only [group, Option.mem_toList] at member
      have starts := position.starts block member
      rw [member]
      exact ⟨⟨oldFront, [], starts.1, rfl⟩, ⟨newFront, [], starts.2, rfl⟩⟩
  | cons change rest ih =>
      cases change with
      | delete line =>
          intro block member
          simpa [oldSide, newSide] using ih oldFront newFront (position.delete line) block member
      | insert line =>
          intro block member
          simpa [oldSide, newSide] using ih oldFront newFront (position.insert line) block member
      | equal line =>
          intro block member
          simp only [group, List.mem_append, Option.mem_toList] at member
          rcases member with opened | later
          · have starts := position.starts block opened
            rw [opened]
            exact ⟨⟨oldFront, _, starts.1, rfl⟩, ⟨newFront, _, starts.2, rfl⟩⟩
          · simpa [openOld, openNew, oldSide, newSide] using ih _ _ (position.equal line) block later

theorem located_script (script : List (Change Line)) :
    ∀ block ∈ group 1 1 none script, Located block (oldSide script) (newSide script) := by
  simpa [openOld, openNew] using group_located script [] [] (openAt_none 1 1)

theorem Located.map {block : Block Line} {oldLines newLines : List Line} (located : Located block oldLines newLines)
    (f : Line → Other) : Located (block.map f) (oldLines.map f) (newLines.map f) := by
  obtain ⟨⟨oldFront, oldBack, oldStart, rfl⟩, newFront, newBack, newStart, rfl⟩ := located
  exact ⟨⟨oldFront.map f, oldBack.map f, by simpa [Block.map] using oldStart, by simp [Block.map]⟩,
    ⟨newFront.map f, newBack.map f, by simpa [Block.map] using newStart, by simp [Block.map]⟩⟩

def Block.KeptBehind (block : Block Line) (oldLines newLines : List Line) : Prop :=
  ∃ line, oldLines[block.oldStart - 1 + block.oldLines.length]? = some line ∧
    newLines[block.newStart - 1 + block.newLines.length]? = some line

theorem group_kept (script : List (Change Line)) (oldFront newFront : List Line)
    (position : OpenAt (oldFront.length + 1) (newFront.length + 1) oldLine newLine current) :
    (group oldLine newLine current script).Pairwise fun block _ =>
      block.KeptBehind (oldFront ++ openOld current ++ oldSide script) (newFront ++ openNew current ++ newSide script) := by
  induction script generalizing oldFront newFront oldLine newLine current with
  | nil => cases current <;> simp [group]
  | cons change rest ih =>
      cases change with
      | delete line => simpa [group, oldSide, newSide] using ih oldFront newFront (position.delete line)
      | insert line => simpa [group, oldSide, newSide] using ih oldFront newFront (position.insert line)
      | equal line =>
          have later := ih _ _ (position.equal line)
          simp only [openOld, openNew, Option.elim_none, List.append_nil, List.append_assoc, List.singleton_append] at later
          cases current with
          | none => simpa [group, openOld, openNew, oldSide, newSide] using later
          | some block =>
              obtain ⟨oldStart, newStart⟩ := position.starts block rfl
              simp only [group, Option.toList_some, List.singleton_append, oldSide, newSide, openOld, openNew,
                Option.elim_some, List.append_assoc]
              refine List.pairwise_cons.mpr ⟨fun second _ => ⟨line, ?_, ?_⟩, later⟩
              · simp [oldStart]
              · simp [newStart]

def rebuild (lines : List Line) : Nat → List (Block Line) → List Line
  | from', [] => lines.drop from'
  | from', block :: rest =>
      (lines.drop from').take (block.oldStart - 1 - from') ++ block.newLines ++
        rebuild lines (block.oldStart - 1 + block.oldLines.length) rest

theorem take_drop_front {front : List Line} {from' : Nat} (within : from' ≤ front.length) (back : List Line) :
    ((front ++ back).drop from').take (front.length - from') = front.drop from' := by
  rw [List.drop_append_of_le_length within, List.take_left' (by simp)]

theorem rebuild_group (script : List (Change Line)) (front : List Line) {from' : Nat} (within : from' ≤ front.length)
    (position : OpenAt (front.length + 1) newStart oldLine newLine current) :
    rebuild (front ++ openOld current ++ oldSide script) from' (group oldLine newLine current script) =
      front.drop from' ++ openNew current ++ newSide script := by
  induction script generalizing newStart oldLine newLine current front from' with
  | nil =>
      cases current with
      | none => simp [group, rebuild, openOld, openNew, oldSide, newSide]
      | some block =>
          have start := (position.starts block rfl).1
          simp only [group, Option.toList_some, rebuild, start, Nat.add_sub_cancel, List.append_assoc, take_drop_front within]
          simp [openOld, openNew, oldSide, newSide]
  | cons change rest ih =>
      cases change with
      | delete line => simpa [group, oldSide, newSide] using ih front within (position.delete line)
      | insert line => simpa [group, oldSide, newSide] using ih front within (position.insert line)
      | equal line =>
          have next' := (position.equalOld line)
          cases current with
          | none =>
              have later := ih (front ++ [line]) (within.trans (by simp)) (by simpa [openOld] using next')
              rw [List.drop_append_of_le_length within] at later
              simpa [group, openOld, openNew, oldSide, newSide] using later
          | some block =>
              have start := (position.starts block rfl).1
              -- The kept line is all that stands between the block and the next front.
              have later := @ih (newLine + 1) (oldLine + 1) (newLine + 1) none (front ++ block.oldLines ++ [line])
                (front.length + block.oldLines.length) (by simp) next'
              rw [← List.length_append, List.drop_left] at later
              simp only [group, Option.toList_some, List.singleton_append, rebuild, start, Nat.add_sub_cancel, oldSide, newSide,
                List.append_assoc, take_drop_front within]
              simp only [openOld, openNew, Option.elim_none, Option.elim_some, List.append_nil, List.append_assoc,
                List.singleton_append, List.length_append] at later ⊢
              rw [later]

theorem rebuild_script (script : List (Change Line)) :
    rebuild (oldSide script) 0 (group 1 1 none script) = newSide script := by
  simpa [openOld, openNew] using rebuild_group script [] (le_refl _) (openAt_none 1 1)

end Layout

end LineEdit
