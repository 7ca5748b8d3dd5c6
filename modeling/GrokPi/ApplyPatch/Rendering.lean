import GrokPi.ApplyPatch.Parser

set_option autoImplicit false

namespace GrokPi.ApplyPatch

section Grammar

inductive ChangeLine where
  | context (text : Text)
  | added (text : Text)
  | removed (text : Text)
  deriving DecidableEq

def ChangeLine.render : ChangeLine → Text
  | context text => ' ' :: text
  | added text => '+' :: text
  | removed text => '-' :: text

def ChangeLine.oldSide : ChangeLine → List Text
  | context text | removed text => [text]
  | added _ => []

def ChangeLine.newSide : ChangeLine → List Text
  | context text | added text => [text]
  | removed _ => []

def contextLine : Option Text → Text
  | none => emptyChangeContextMarker
  | some context => changeContextMarker ++ context

def eofLines (isEndOfFile : Bool) : List Text := if isEndOfFile then [eofMarker] else []

/-- The change lines stand in any order that keeps both sides of the chunk. -/
inductive RendersChunk : UpdateFileChunk → List Text → Prop where
  | chunk (changeContext : Option Text) (changes : List ChangeLine) (isEndOfFile : Bool) :
      RendersChunk
        ⟨changeContext, changes.flatMap ChangeLine.oldSide, changes.flatMap ChangeLine.newSide, isEndOfFile⟩
        (contextLine changeContext :: (changes.map ChangeLine.render ++ eofLines isEndOfFile))

def moveLines : Option Text → List Text
  | none => []
  | some path => [moveToMarker ++ path]

inductive RendersHunk : Hunk → List Text → Prop where
  | addFile (path contents : Text) :
      RendersHunk (.addFile path contents)
        ((addFileMarker ++ path) :: (Text.lines contents).map (List.cons '+'))
  | deleteFile (path : Text) : RendersHunk (.deleteFile path) [deleteFileMarker ++ path]
  | updateFile (path : Text) (movePath : Option Text) (chunks : List UpdateFileChunk)
      (parts : List (List Text)) (rendered : List.Forall₂ RendersChunk chunks parts) :
      RendersHunk (.updateFile path movePath chunks)
        ((updateFileMarker ++ path) :: (moveLines movePath ++ parts.flatten))

inductive RendersPatch : List Hunk → List Text → Prop where
  | patch (hunks : List Hunk) (bodies : List (List Text))
      (rendered : List.Forall₂ RendersHunk hunks bodies) :
      RendersPatch hunks (beginPatchMarker :: (bodies.flatten ++ [endPatchMarker]))

end Grammar

section CanonicalForm

def CanonicalPath (path : Text) : Prop := path ≠ [] ∧ '\n' ∉ path ∧ path.trim = path

def UpdateFileChunk.Canonical (chunk : UpdateFileChunk) : Prop :=
  (∀ context ∈ chunk.changeContext, Text.Plain context) ∧
    (∀ line ∈ chunk.oldLines ++ chunk.newLines, Text.Plain line) ∧
    chunk.oldLines ++ chunk.newLines ≠ []

def Hunk.Canonical : Hunk → Prop
  | addFile path contents =>
      CanonicalPath path ∧ ∃ added : List Text, (∀ line ∈ added, Text.Plain line) ∧ contents = Text.unlines added
  | deleteFile path => CanonicalPath path
  | updateFile path movePath chunks =>
      CanonicalPath path ∧ (∀ dest ∈ movePath, CanonicalPath dest) ∧ chunks ≠ [] ∧
        ∀ chunk ∈ chunks, chunk.Canonical

-- Each old line taken away, then each new line put in.
def plainChanges (chunk : UpdateFileChunk) : List ChangeLine :=
  chunk.oldLines.map .removed ++ chunk.newLines.map .added

theorem plainChanges_sides (chunk : UpdateFileChunk) :
    (plainChanges chunk).flatMap ChangeLine.oldSide = chunk.oldLines ∧
      (plainChanges chunk).flatMap ChangeLine.newSide = chunk.newLines := by
  simp [plainChanges, List.flatMap_append, List.flatMap_map, ChangeLine.oldSide, ChangeLine.newSide]

theorem chunk_has_rendering (chunk : UpdateFileChunk) : ∃ part, RendersChunk chunk part := by
  obtain ⟨old, new⟩ := plainChanges_sides chunk
  have rendered := RendersChunk.chunk chunk.changeContext (plainChanges chunk) chunk.isEndOfFile
  rw [old, new] at rendered
  exact ⟨_, rendered⟩

theorem renderings_exist {A B : Type} {renders : A → B → Prop} (each : ∀ a, ∃ b, renders a b)
    (items : List A) : ∃ rendered, List.Forall₂ renders items rendered := by
  induction items with
  | nil => exact ⟨[], .nil⟩
  | cons item rest ih =>
      obtain ⟨first, head⟩ := each item
      obtain ⟨later, tail⟩ := ih
      exact ⟨first :: later, .cons head tail⟩

theorem hunk_has_rendering (hunk : Hunk) : ∃ body, RendersHunk hunk body := by
  cases hunk with
  | addFile path contents => exact ⟨_, .addFile path contents⟩
  | deleteFile path => exact ⟨_, .deleteFile path⟩
  | updateFile path movePath chunks =>
      obtain ⟨parts, rendered⟩ := renderings_exist chunk_has_rendering chunks
      exact ⟨_, .updateFile path movePath chunks parts rendered⟩

theorem patch_has_rendering (hunks : List Hunk) : ∃ lines, RendersPatch hunks lines := by
  obtain ⟨bodies, rendered⟩ := renderings_exist hunk_has_rendering hunks
  exact ⟨_, .patch hunks bodies rendered⟩

end CanonicalForm

section Markers

theorem stripMarker_append (marker rest : Text) : stripMarker marker (marker ++ rest) = some rest := by
  simp [stripMarker]

theorem stripMarker_of_ne {marker text : Text} {i : Nat} (within : i < marker.length)
    (other : text[i]? ≠ marker[i]?) : stripMarker marker text = none := by
  rw [stripMarker, if_neg]
  rintro ⟨rest, rfl⟩
  exact other (List.getElem?_append_left within)

theorem markedPath_trim (marker : Text) {path : Text} (head : marker.head? = some '*')
    (canonical : CanonicalPath path) : (marker ++ path).trim = marker ++ path := by
  -- A marker with a path behind it is trimmed already, and stays one line.
  obtain ⟨some', -, trimmed⟩ := canonical
  have start : (marker ++ path).trimStart = marker ++ path := by
    apply Text.trimStart_of_head
    intro d first
    rw [List.head?_append, head] at first
    obtain rfl : '*' = d := by simpa using first
    decide
  unfold Text.trim
  rw [start]
  apply Text.trimEnd_of_last
  intro d last
  rw [List.getLast?_append_of_ne_nil _ some'] at last
  rw [← trimmed] at last
  exact Text.trim_last last

theorem markedPath_unbroken {marker path : Text} (plain : Text.Plain marker)
    (canonical : CanonicalPath path) : Text.Unbroken (marker ++ path) := by
  obtain ⟨some', unsplit, trimmed⟩ := canonical
  constructor
  · rw [List.mem_append, not_or]
    exact ⟨plain.1, unsplit⟩
  · rw [List.getLast?_append_of_ne_nil _ some']
    intro last
    rw [← trimmed] at last
    exact absurd (Text.trim_last last) (by decide)

end Markers

section ReadingChunks

def EndsChunk (rest : List Text) : Prop :=
  ∀ line ∈ rest.head?, line ≠ eofMarker ∧
    ∃ mark content, line = mark :: content ∧ mark ≠ ' ' ∧ mark ≠ '+' ∧ mark ≠ '-'

theorem render_ne_eofMarker (change : ChangeLine) : change.render ≠ eofMarker := by
  intro same
  have head : change.render.head? = some '*' := by
    rw [same]
    decide
  cases change <;> simp [ChangeLine.render] at head

theorem parseChunkLines_change (lineNumber parsedLines : Nat) (chunk : UpdateFileChunk)
    (change : ChangeLine) (rest : List Text) :
    parseChunkLines lineNumber chunk parsedLines (change.render :: rest) =
      parseChunkLines lineNumber
        { chunk with
          oldLines := chunk.oldLines ++ change.oldSide
          newLines := chunk.newLines ++ change.newSide } (parsedLines + 1) rest := by
  have unmarked := render_ne_eofMarker change
  cases change with
  | context text =>
      simp only [ChangeLine.render] at unmarked
      simp [ChangeLine.render, ChangeLine.oldSide, ChangeLine.newSide, parseChunkLines, unmarked]
  | added text =>
      simp only [ChangeLine.render] at unmarked
      simp [ChangeLine.render, ChangeLine.oldSide, ChangeLine.newSide, parseChunkLines, unmarked]
  | removed text =>
      simp only [ChangeLine.render] at unmarked
      simp [ChangeLine.render, ChangeLine.oldSide, ChangeLine.newSide, parseChunkLines, unmarked]

theorem parseChunkLines_changes (lineNumber : Nat) (changes : List ChangeLine) (rest : List Text)
    (chunk : UpdateFileChunk) (parsedLines : Nat) :
    parseChunkLines lineNumber chunk parsedLines (changes.map ChangeLine.render ++ rest) =
      parseChunkLines lineNumber
        { chunk with
          oldLines := chunk.oldLines ++ changes.flatMap ChangeLine.oldSide
          newLines := chunk.newLines ++ changes.flatMap ChangeLine.newSide }
        (parsedLines + changes.length) rest := by
  induction changes generalizing chunk parsedLines with
  | nil => simp
  | cons change later ih =>
      have count : parsedLines + 1 + later.length = parsedLines + (change :: later).length := by
        rw [List.length_cons]
        omega
      rw [List.map_cons, List.cons_append, parseChunkLines_change, ih, count]
      simp

theorem parseChunkLines_close (lineNumber : Nat) (chunk : UpdateFileChunk) (parsedLines : Nat)
    (isEndOfFile : Bool) (rest : List Text) (taken : 0 < parsedLines)
    (fresh : chunk.isEndOfFile = false) (ends : EndsChunk rest) :
    parseChunkLines lineNumber chunk parsedLines (eofLines isEndOfFile ++ rest) =
      .ok ({ chunk with isEndOfFile := isEndOfFile }, parsedLines + (eofLines isEndOfFile).length) := by
  -- The marker at the end of a file, or else a line of another part, closes the chunk.
  cases isEndOfFile with
  | true =>
      simp only [eofLines, if_true, List.singleton_append, parseChunkLines, if_neg taken.ne']
      rfl
  | false =>
      have same : { chunk with isEndOfFile := false } = chunk := by
        rw [← fresh]
      rw [same]
      cases rest with
      | nil => rfl
      | cons line later =>
          obtain ⟨unmarked, mark, content, rfl, space, plus, minus⟩ := ends line rfl
          simp [eofLines, parseChunkLines, unmarked, space, plus, minus, taken.ne']

theorem parseChangeContext_contextLine (changeContext : Option Text) (lineNumber : Nat) (allow : Bool) :
    parseChangeContext (contextLine changeContext) lineNumber allow = .ok (changeContext, 1) := by
  cases changeContext with
  | none => rfl
  | some context =>
      have longer : changeContextMarker ++ context ≠ emptyChangeContextMarker := by
        intro same
        have third := congrArg (fun text : Text => text[2]?) same
        exact absurd third (by simp [changeContextMarker, emptyChangeContextMarker])
      rw [parseChangeContext, contextLine, if_neg longer, stripMarker_append]

theorem parseUpdateFileChunk_rendered {chunk : UpdateFileChunk} {part : List Text}
    (rendered : RendersChunk chunk part) (canonical : chunk.Canonical) {rest : List Text}
    (ends : EndsChunk rest) (lineNumber : Nat) (allow : Bool) :
    parseUpdateFileChunk (part ++ rest) lineNumber allow = .ok (chunk, part.length) := by
  obtain ⟨changeContext, changes, isEndOfFile⟩ := rendered
  have some' : 0 < changes.length := by
    rw [List.length_pos_iff]
    rintro rfl
    exact canonical.2.2 rfl
  have read := parseChunkLines_changes lineNumber changes (eofLines isEndOfFile ++ rest)
    ⟨changeContext, [], [], false⟩ 0
  have closed := parseChunkLines_close lineNumber
    ⟨changeContext, changes.flatMap ChangeLine.oldSide, changes.flatMap ChangeLine.newSide, false⟩
    changes.length isEndOfFile rest some' rfl ends
  simp only [List.nil_append, Nat.zero_add] at read
  have more : ¬ 1 ≥ (contextLine changeContext ::
      (changes.map ChangeLine.render ++ eofLines isEndOfFile ++ rest)).length := by
    simp only [List.length_cons, List.length_append, List.length_map]
    omega
  unfold parseUpdateFileChunk
  simp only [List.cons_append, parseChangeContext_contextLine, if_neg more]
  simp only [List.drop_succ_cons, List.drop_zero, List.append_assoc, read, closed]
  simp

theorem rendersChunk_opens {chunk : UpdateFileChunk} {part : List Text} (rendered : RendersChunk chunk part) :
    ∃ changeContext more, part = contextLine changeContext :: more := by
  obtain ⟨changeContext, changes, isEndOfFile⟩ := rendered
  exact ⟨changeContext, _, rfl⟩

theorem contextLine_opens (changeContext : Option Text) : ∃ more, contextLine changeContext = '@' :: more := by
  cases changeContext with
  | none => exact ⟨['@'], rfl⟩
  | some context => exact ⟨'@' :: ' ' :: context, rfl⟩

end ReadingChunks

section ReadingHunks

inductive OpensHunk : Text → Prop where
  | addFile (path : Text) : OpensHunk (addFileMarker ++ path)
  | deleteFile (path : Text) : OpensHunk (deleteFileMarker ++ path)
  | updateFile (path : Text) : OpensHunk (updateFileMarker ++ path)

theorem rendersHunk_opens {hunk : Hunk} {body : List Text} (rendered : RendersHunk hunk body) :
    ∃ line more, body = line :: more ∧ OpensHunk line := by
  cases rendered with
  | addFile path contents => exact ⟨_, _, rfl, .addFile path⟩
  | deleteFile path => exact ⟨_, _, rfl, .deleteFile path⟩
  | updateFile path movePath chunks parts rendered => exact ⟨_, _, rfl, .updateFile path⟩

theorem opensHunk_shape {line : Text} (opens : OpensHunk line) :
    ∃ letter more, letter ≠ 'E' ∧ line = '*' :: '*' :: '*' :: ' ' :: letter :: more := by
  cases opens with
  | addFile path => exact ⟨'A', "dd File: ".toList ++ path, by decide, rfl⟩
  | deleteFile path => exact ⟨'D', "elete File: ".toList ++ path, by decide, rfl⟩
  | updateFile path => exact ⟨'U', "pdate File: ".toList ++ path, by decide, rfl⟩

def EndsHunk (rest : List Text) : Prop := ∀ line ∈ rest.head?, OpensHunk line

variable {rest : List Text}

theorem endsHunk_endsChunk (ends : EndsHunk rest) : EndsChunk rest := by
  intro line head
  obtain ⟨letter, more, other, rfl⟩ := opensHunk_shape (ends line head)
  refine ⟨?_, '*', _, rfl, by decide, by decide, by decide⟩
  intro same
  have fifth : eofMarker[4]? = some letter := by
    rw [← same]
    rfl
  rw [show eofMarker[4]? = some 'E' by decide] at fifth
  exact other (Option.some.inj fifth).symm

variable {chunks : List UpdateFileChunk} {parts : List (List Text)}

theorem flatten_endsChunk (rendered : List.Forall₂ RendersChunk chunks parts) (ends : EndsHunk rest) :
    EndsChunk (parts.flatten ++ rest) := by
  cases rendered with
  | nil => exact endsHunk_endsChunk ends
  | cons head tail =>
      obtain ⟨changeContext, more, rfl⟩ := rendersChunk_opens head
      intro line first
      obtain rfl : contextLine changeContext = line := by simpa using first
      obtain ⟨content, shape⟩ := contextLine_opens changeContext
      refine ⟨?_, '@', content, shape, by decide, by decide, by decide⟩
      intro same
      rw [shape] at same
      have head : eofMarker.head? = some '@' := by
        rw [← same]
        rfl
      exact absurd head (by decide)

theorem parseChunks_end (ends : EndsHunk rest) (lineNumber rounds parsedLines : Nat)
    (chunks : List UpdateFileChunk) :
    parseChunks lineNumber rounds rest parsedLines chunks = .ok (chunks, parsedLines) := by
  cases rounds with
  | zero => rfl
  | succ rounds =>
      cases rest with
      | nil => rfl
      | cons line more =>
          obtain ⟨letter, content, -, rfl⟩ := opensHunk_shape (ends line rfl)
          rw [parseChunks, if_neg (Text.trim_ne_nil (by decide) _), if_pos ⟨' ' :: letter :: content, rfl⟩]

theorem parseChunks_rendered
    (rendered : List.Forall₂ RendersChunk chunks parts) (canonical : ∀ chunk ∈ chunks, chunk.Canonical)
    (ends : EndsHunk rest) (lineNumber : Nat) {rounds : Nat}
    (enough : parts.length ≤ rounds) (parsedLines : Nat) (before : List UpdateFileChunk) :
    parseChunks lineNumber rounds (parts.flatten ++ rest) parsedLines before =
      .ok (before ++ chunks, parsedLines + parts.flatten.length) := by
  -- Each chunk is read up to the next one, and the last up to the next hunk.
  induction rendered generalizing rounds parsedLines before with
  | nil => simpa using parseChunks_end ends lineNumber rounds parsedLines before
  | @cons chunk part chunks parts head tail ih =>
      obtain ⟨rounds, rfl⟩ : ∃ fewer, rounds = fewer + 1 := Nat.exists_eq_add_one.mpr (by
        rw [List.length_cons] at enough
        omega)
      have read := parseUpdateFileChunk_rendered head (canonical chunk List.mem_cons_self)
        (flatten_endsChunk tail ends) (lineNumber + parsedLines) before.isEmpty
      have later := ih (fun other member => canonical other (List.mem_cons_of_mem _ member))
        (Nat.le_of_succ_le_succ enough) (parsedLines + part.length) (before ++ [chunk])
      obtain ⟨changeContext, more, rfl⟩ := rendersChunk_opens head
      obtain ⟨content, shape⟩ := contextLine_opens changeContext
      have inked : (contextLine changeContext).trim ≠ [] := by
        rw [shape]
        exact Text.trim_ne_nil (by decide) _
      have inside : ¬ "***".toList <+: contextLine changeContext := by
        rw [shape]
        rintro ⟨more, same⟩
        exact absurd (congrArg List.head? same) (by simp)
      simp only [List.flatten_cons, List.append_assoc, List.cons_append] at read later ⊢
      rw [parseChunks, if_neg inked, if_neg inside, read]
      simp only [List.length_cons, List.drop_succ_cons, List.drop_left] at later ⊢
      rw [later]
      simp [Nat.add_assoc, Nat.add_comm 1]

theorem parts_length_le
    (rendered : List.Forall₂ RendersChunk chunks parts) : parts.length ≤ parts.flatten.length := by
  induction rendered with
  | nil => rfl
  | cons head tail ih =>
      obtain ⟨changeContext, more, rfl⟩ := rendersChunk_opens head
      simp only [List.length_cons, List.flatten_cons, List.length_append]
      omega

theorem lines_of_addFile {contents : Text} {added : List Text} (plain : ∀ line ∈ added, Text.Plain line)
    (shape : contents = Text.unlines added) : Text.unlines (Text.lines contents) = contents := by
  rw [shape, Text.lines_unlines fun line member => (plain line member).unbroken]

theorem parseAddFile_rendered (path contents : Text) (ends : EndsHunk rest)
    (kept : Text.unlines (Text.lines contents) = contents) :
    parseAddFile path ((Text.lines contents).map (List.cons '+') ++ rest) =
      (.addFile path contents, (Text.lines contents).length + 1) := by
  have own : ∀ line ∈ (Text.lines contents).map (List.cons '+'), decide ("+".toList <+: line) = true := by
    intro line member
    obtain ⟨content, -, rfl⟩ := List.mem_map.mp member
    exact decide_eq_true ⟨content, rfl⟩
  have other : rest.takeWhile (fun line => decide ("+".toList <+: line)) = [] := by
    cases rest with
    | nil => rfl
    | cons line later =>
        obtain ⟨letter, content, -, rfl⟩ := opensHunk_shape (ends line rfl)
        exact List.takeWhile_cons_of_neg (by simp)
  unfold parseAddFile
  rw [List.takeWhile_append_of_pos own, other]
  simp [Nat.add_comm, Function.comp_def, kept]

theorem movePath_read (movePath : Option Text)
    (apart : ∀ line ∈ rest.head?, stripMarker moveToMarker line = none) :
    (moveLines movePath ++ rest).head?.bind (stripMarker moveToMarker) = movePath := by
  -- A move header is taken, and no chunk is taken for one.
  cases movePath with
  | some path => simp [moveLines, stripMarker_append]
  | none =>
      cases rest with
      | nil => rfl
      | cons line later => exact apart line rfl

theorem parseUpdateFile_rendered (path : Text) (movePath : Option Text)
    (rendered : List.Forall₂ RendersChunk chunks parts)
    (some' : chunks ≠ []) (canonical : ∀ chunk ∈ chunks, chunk.Canonical)
    (ends : EndsHunk rest) (lineNumber : Nat) :
    parseUpdateFile path (moveLines movePath ++ parts.flatten ++ rest) lineNumber =
      .ok (.updateFile path movePath chunks, (moveLines movePath ++ parts.flatten).length + 1) := by
  have apart : ∀ line ∈ (parts.flatten ++ rest).head?, stripMarker moveToMarker line = none := by
    intro line first
    cases rendered with
    | nil => exact absurd rfl some'
    | cons head tail =>
        obtain ⟨changeContext, more, rfl⟩ := rendersChunk_opens head
        obtain ⟨content, shape⟩ := contextLine_opens changeContext
        obtain rfl : contextLine changeContext = line := by simpa using first
        rw [shape]
        have star : moveToMarker[0]? = some '*' := by decide
        apply stripMarker_of_ne (i := 0) (by decide)
        rw [star]
        simp
  have moved := movePath_read movePath apart
  have long : parts.length ≤ (parts.flatten ++ rest).length := by
    rw [List.length_append]
    exact (parts_length_le rendered).trans (Nat.le_add_right _ _)
  have read := fun parsedLines =>
    parseChunks_rendered rendered canonical ends lineNumber long parsedLines []
  unfold parseUpdateFile
  rw [List.append_assoc, moved]
  cases movePath with
  | none =>
      simp only [Option.isSome_none, Bool.false_eq_true, if_false, moveLines, List.nil_append, read, some']
      rw [Nat.add_comm]
  | some dest =>
      simp only [Option.isSome_some, if_true, moveLines, List.singleton_append, List.tail_cons, read,
        List.nil_append, some', if_false, List.length_cons]
      rw [Nat.add_comm]

theorem parseOneHunk_rendered {hunk : Hunk} {line : Text} {body : List Text}
    (rendered : RendersHunk hunk (line :: body)) (canonical : hunk.Canonical)
    (ends : EndsHunk rest) (lineNumber : Nat) :
    parseOneHunk line (body ++ rest) lineNumber = .ok (hunk, body.length + 1) := by
  -- The fifth letter of the header tells the three kinds apart.
  have add : addFileMarker[4]? = some 'A' := by decide
  have delete : deleteFileMarker[4]? = some 'D' := by decide
  have update : updateFileMarker[4]? = some 'U' := by decide
  cases rendered with
  | addFile path contents =>
      obtain ⟨named, added, plain, shape⟩ := canonical
      have trimmed := markedPath_trim addFileMarker (by decide) named
      unfold parseOneHunk
      rw [trimmed]
      simp only [stripMarker_append]
      rw [parseAddFile_rendered path contents ends (lines_of_addFile plain shape), List.length_map]
  | deleteFile path =>
      have trimmed := markedPath_trim deleteFileMarker (by decide) canonical
      have notAdd : stripMarker addFileMarker (deleteFileMarker ++ path) = none := by
        apply stripMarker_of_ne (i := 4) (by decide)
        rw [List.getElem?_append_left (by decide), add, delete]
        decide
      unfold parseOneHunk
      rw [trimmed]
      simp only [notAdd, stripMarker_append]
      rfl
  | updateFile path movePath chunks parts rendered =>
      obtain ⟨named, -, some', chunksCanonical⟩ := canonical
      have trimmed := markedPath_trim updateFileMarker (by decide) named
      have notAdd : stripMarker addFileMarker (updateFileMarker ++ path) = none := by
        apply stripMarker_of_ne (i := 4) (by decide)
        rw [List.getElem?_append_left (by decide), add, update]
        decide
      have notDelete : stripMarker deleteFileMarker (updateFileMarker ++ path) = none := by
        apply stripMarker_of_ne (i := 4) (by decide)
        rw [List.getElem?_append_left (by decide), delete, update]
        decide
      unfold parseOneHunk
      rw [trimmed]
      simp only [notAdd, notDelete, stripMarker_append]
      exact parseUpdateFile_rendered path movePath rendered some' chunksCanonical ends lineNumber

theorem flatten_endsHunk {hunks : List Hunk} {bodies : List (List Text)}
    (rendered : List.Forall₂ RendersHunk hunks bodies) : EndsHunk bodies.flatten := by
  cases rendered with
  | nil => exact fun line head => absurd head (by simp)
  | cons head tail =>
      obtain ⟨line, more, rfl, opens⟩ := rendersHunk_opens head
      intro first same
      obtain rfl : line = first := by simpa using same
      exact opens

theorem parseHunks_rendered {hunks : List Hunk} {bodies : List (List Text)}
    (rendered : List.Forall₂ RendersHunk hunks bodies) (canonical : ∀ hunk ∈ hunks, hunk.Canonical)
    {rounds : Nat} (enough : bodies.flatten.length ≤ rounds) (lineNumber : Nat) (before : List Hunk) :
    parseHunks rounds bodies.flatten lineNumber before = .ok (before ++ hunks) := by
  induction rendered generalizing rounds lineNumber before with
  | nil => cases rounds <;> simp [parseHunks]
  | @cons hunk body hunks bodies head tail ih =>
      obtain ⟨line, more, rfl, -⟩ := rendersHunk_opens head
      simp only [List.flatten_cons, List.cons_append, List.length_cons, List.length_append] at enough ⊢
      obtain ⟨rounds, rfl⟩ : ∃ fewer, rounds = fewer + 1 := Nat.exists_eq_add_one.mpr (by omega)
      have read := parseOneHunk_rendered head (canonical hunk List.mem_cons_self)
        (flatten_endsHunk tail) lineNumber
      have enough' : bodies.flatten.length ≤ rounds := by omega
      have later := ih (fun other member => canonical other (List.mem_cons_of_mem _ member))
        enough' (lineNumber + (more.length + 1)) (before ++ [hunk])
      rw [parseHunks, read]
      simp only [List.drop_succ_cons, List.drop_left]
      rw [later, List.append_assoc, List.singleton_append]

end ReadingHunks

section ReadingPatches

theorem marker_plain {marker : Text} (plain : marker.all (fun c => c != '\n' && c != '\r') = true) :
    Text.Plain marker := by
  rw [List.all_eq_true] at plain
  constructor
  · intro member
    exact absurd (plain _ member) (by decide)
  · intro member
    exact absurd (plain _ member) (by decide)

theorem plain_cons {c : Char} {line : Text} (letter : c ≠ '\n' ∧ c ≠ '\r') (plain : Text.Plain line) :
    Text.Plain (c :: line) := by
  constructor
  · rw [List.mem_cons, not_or]
    exact ⟨letter.1.symm, plain.1⟩
  · rw [List.mem_cons, not_or]
    exact ⟨letter.2.symm, plain.2⟩

theorem change_plain {change : ChangeLine}
    (sides : ∀ line ∈ change.oldSide ++ change.newSide, Text.Plain line) : Text.Plain change.render := by
  cases change with
  | context text => exact plain_cons (by decide) (sides text (by simp [ChangeLine.oldSide]))
  | added text => exact plain_cons (by decide) (sides text (by simp [ChangeLine.newSide]))
  | removed text => exact plain_cons (by decide) (sides text (by simp [ChangeLine.oldSide]))

theorem chunk_plain {chunk : UpdateFileChunk} {part : List Text} (rendered : RendersChunk chunk part)
    (canonical : chunk.Canonical) : ∀ line ∈ part, Text.Plain line := by
  obtain ⟨changeContext, changes, isEndOfFile⟩ := rendered
  obtain ⟨context, sides, -⟩ := canonical
  intro line member
  rcases List.mem_cons.mp member with rfl | member
  · cases changeContext with
    | none => exact marker_plain (by decide)
    | some text =>
        have plain := context text rfl
        exact plain_cons (by decide) (plain_cons (by decide) (plain_cons (by decide) plain))
  rcases List.mem_append.mp member with member | member
  · obtain ⟨change, within, rfl⟩ := List.mem_map.mp member
    apply change_plain
    intro text side
    apply sides
    rcases List.mem_append.mp side with old | new
    · exact List.mem_append_left _ (List.mem_flatMap.mpr ⟨change, within, old⟩)
    · exact List.mem_append_right _ (List.mem_flatMap.mpr ⟨change, within, new⟩)
  · cases isEndOfFile with
    | false => simp [eofLines] at member
    | true =>
        obtain rfl : line = eofMarker := by simpa [eofLines] using member
        exact marker_plain (by decide)

theorem forall₂_flatten {A B : Type} {renders : A → List B → Prop} {good : B → Prop} {items : List A}
    {parts : List (List B)} (rendered : List.Forall₂ renders items parts)
    (each : ∀ item ∈ items, ∀ part, renders item part → ∀ b ∈ part, good b) :
    ∀ b ∈ parts.flatten, good b := by
  induction rendered with
  | nil => simp
  | cons head tail ih =>
      intro b member
      rcases List.mem_append.mp member with here | later
      · exact each _ List.mem_cons_self _ head b here
      · exact ih (fun item within => each item (List.mem_cons_of_mem _ within)) b later

theorem hunk_unbroken {hunk : Hunk} {body : List Text} (rendered : RendersHunk hunk body)
    (canonical : hunk.Canonical) : ∀ line ∈ body, Text.Unbroken line := by
  cases rendered with
  | addFile path contents =>
      obtain ⟨named, added, plain, rfl⟩ := canonical
      rw [Text.lines_unlines fun line member => (plain line member).unbroken]
      intro line member
      rcases List.mem_cons.mp member with rfl | member
      · exact markedPath_unbroken (marker_plain (by decide)) named
      · obtain ⟨text, within, rfl⟩ := List.mem_map.mp member
        exact (plain_cons (by decide) (plain text within)).unbroken
  | deleteFile path =>
      intro line member
      obtain rfl := List.mem_singleton.mp member
      exact markedPath_unbroken (marker_plain (by decide)) canonical
  | updateFile path movePath chunks parts rendered =>
      obtain ⟨named, moved, -, chunksCanonical⟩ := canonical
      intro line member
      rcases List.mem_cons.mp member with rfl | member
      · exact markedPath_unbroken (marker_plain (by decide)) named
      rcases List.mem_append.mp member with move | member
      · cases movePath with
        | none => simp [moveLines] at move
        | some dest =>
            obtain rfl := List.mem_singleton.mp move
            exact markedPath_unbroken (marker_plain (by decide)) (moved dest rfl)
      · have plain := forall₂_flatten rendered fun chunk within part shown =>
          chunk_plain shown (chunksCanonical chunk within)
        exact (plain line member).unbroken

theorem patch_unbroken {hunks : List Hunk} {lines : List Text} (rendered : RendersPatch hunks lines)
    (canonical : ∀ hunk ∈ hunks, hunk.Canonical) : ∀ line ∈ lines, Text.Unbroken line := by
  obtain ⟨bodies, rendered⟩ := rendered
  intro line member
  rcases List.mem_cons.mp member with rfl | member
  · exact (marker_plain (by decide)).unbroken
  rcases List.mem_append.mp member with inner | last
  · exact forall₂_flatten rendered (fun hunk within body shown => hunk_unbroken shown (canonical hunk within))
      line inner
  · obtain rfl := List.mem_singleton.mp last
    exact (marker_plain (by decide)).unbroken

theorem lines_of_text {first last : Text} {inner : List Text} {a z : Char}
    (unbroken : ∀ line ∈ first :: (inner ++ [last]), Text.Unbroken line)
    (head : first.head? = some a) (headInked : Text.isWhitespace a = false)
    (tail : last.getLast? = some z) (tailInked : Text.isWhitespace z = false) {ending : Text}
    (blank : ∀ c ∈ ending, Text.isWhitespace c = true) :
    Text.lines (Text.joinLines (first :: (inner ++ [last])) ++ ending).trim = first :: (inner ++ [last]) := by
  -- Lines between two inked ones are read back from their text, whatever white space stands behind it.
  have firstInked : first ≠ [] := by
    rintro rfl
    simp at head
  have lastInked : last ≠ [] := by
    rintro rfl
    simp at tail
  have firm : Text.Firm (first :: (inner ++ [last])) := by
    rw [Text.Firm, ← List.cons_append, List.getLast?_concat]
    exact fun empty => lastInked (Option.some.inj empty)
  have opens := (Text.joinLines_head firstInked (inner ++ [last])).trans head
  have closes := (Text.joinLines_last lastInked (first :: inner)).trans tail
  rw [Text.trim_inked opens headInked closes tailInked blank]
  exact (Text.lines_joinLines (Text.joinable_of_unbroken unbroken firm)).1

theorem boundaries_strict (body : List Text) :
    checkPatchBoundariesStrict (beginPatchMarker :: (body ++ [endPatchMarker])) = .ok () := by
  have last : (beginPatchMarker :: (body ++ [endPatchMarker])).getLast? = some endPatchMarker := by
    rw [← List.cons_append, List.getLast?_concat]
  have begins : beginPatchMarker.trim = beginPatchMarker := by decide
  have ends : endPatchMarker.trim = endPatchMarker := by decide
  unfold checkPatchBoundariesStrict checkStartAndEndLinesStrict
  rw [last]
  simp only [List.head?_cons, Option.map_some, begins, ends]
  exact if_pos ⟨trivial, trivial⟩

theorem patchLines_bare (body : List Text) (mode : ParseMode) :
    patchLines (beginPatchMarker :: (body ++ [endPatchMarker])) mode =
      .ok (beginPatchMarker :: (body ++ [endPatchMarker])) := by
  unfold patchLines
  rw [boundaries_strict]

theorem patchLines_heredoc {opening : Text} (known : opening ∈ heredocOpenings) (body : List Text) :
    patchLines (opening :: (beginPatchMarker :: (body ++ [endPatchMarker]) ++ [heredocClosing])) .lenient =
      .ok (beginPatchMarker :: (body ++ [endPatchMarker])) := by
  -- The strict check turns a heredoc down, and the lenient one looks inside.
  have other : opening.trim ≠ beginPatchMarker := by
    have each : ∀ opening ∈ heredocOpenings, opening.trim ≠ beginPatchMarker := by decide
    exact each opening known
  have strict : ∃ e, checkPatchBoundariesStrict
      (opening :: (beginPatchMarker :: (body ++ [endPatchMarker]) ++ [heredocClosing])) = .error e := by
    have last : (opening :: (beginPatchMarker :: (body ++ [endPatchMarker]) ++ [heredocClosing])).getLast? =
        some heredocClosing := by
      rw [← List.cons_append, List.getLast?_concat]
    unfold checkPatchBoundariesStrict checkStartAndEndLinesStrict
    rw [last]
    simp only [List.head?_cons, Option.map_some]
    rw [if_neg fun both => other both.1, if_pos other]
    exact ⟨_, rfl⟩
  obtain ⟨e, strict⟩ := strict
  unfold patchLines
  rw [strict]
  unfold checkPatchBoundariesLenient
  rw [← List.cons_append, List.getLast?_concat]
  simp only [List.cons_append, List.head?_cons, List.tail_cons]
  have long : (opening :: beginPatchMarker :: (body ++ [endPatchMarker] ++ [heredocClosing])).length ≥ 4 := by
    simp
  rw [if_pos ⟨known, List.suffix_rfl, long⟩, ← List.cons_append, List.dropLast_concat, boundaries_strict]

theorem parsePatchText_lines {patch : Text} {hunks : List Hunk} {bodies : List (List Text)}
    (rendered : List.Forall₂ RendersHunk hunks bodies) (canonical : ∀ hunk ∈ hunks, hunk.Canonical)
    (read : patchLines (Text.lines patch.trim) .lenient =
      .ok (beginPatchMarker :: (bodies.flatten ++ [endPatchMarker]))) :
    parsePatch patch =
      .ok ⟨hunks, Text.joinLines (beginPatchMarker :: (bodies.flatten ++ [endPatchMarker]))⟩ := by
  have hunksRead := parseHunks_rendered rendered canonical (le_refl bodies.flatten.length) 2 []
  unfold parsePatch parsePatchText
  simp only [parseInStrictMode, Bool.false_eq_true, if_false, read, List.tail_cons, List.dropLast_concat,
    hunksRead, List.nil_append]

theorem parse_undoes_render {hunks : List Hunk} (canonical : ∀ hunk ∈ hunks, hunk.Canonical) :
    (∃ lines, RendersPatch hunks lines) ∧
      ∀ lines, RendersPatch hunks lines → ∀ ending : Text, (∀ c ∈ ending, Text.isWhitespace c = true) →
        parsePatch (Text.joinLines lines ++ ending) = .ok ⟨hunks, Text.joinLines lines⟩ ∧
          ∀ opening ∈ heredocOpenings,
            parsePatch (Text.joinLines (opening :: (lines ++ [heredocClosing])) ++ ending) =
              .ok ⟨hunks, Text.joinLines lines⟩ := by
  refine ⟨patch_has_rendering hunks, ?_⟩
  intro lines written ending blank
  have unbroken := patch_unbroken written canonical
  obtain ⟨bodies, rendered⟩ := written
  constructor
  · apply parsePatchText_lines rendered canonical
    rw [lines_of_text unbroken (a := '*') (z := 'h') (by decide) (by decide) (by decide) (by decide) blank]
    exact patchLines_bare _ _
  · intro opening known
    have opens : ∀ opening ∈ heredocOpenings, opening.head? = some '<' := by decide
    have plain : ∀ opening ∈ heredocOpenings, opening.all (fun c => c != '\n' && c != '\r') = true := by decide
    have unbroken' : ∀ line ∈ opening :: (beginPatchMarker :: (bodies.flatten ++ [endPatchMarker]) ++
        [heredocClosing]), Text.Unbroken line := by
      intro line member
      rcases List.mem_cons.mp member with rfl | member
      · exact (marker_plain (plain _ known)).unbroken
      rcases List.mem_append.mp member with inner | last
      · exact unbroken line inner
      · obtain rfl := List.mem_singleton.mp last
        exact (marker_plain (by decide)).unbroken
    apply parsePatchText_lines rendered canonical
    rw [lines_of_text unbroken' (z := 'F') (opens opening known) (by decide) (by decide) (by decide) blank]
    exact patchLines_heredoc known _

-- Contents that look like the markers around them.
def lookalikeHunks : List Hunk :=
  [.addFile "a b".toList "*** End Patch\n\n".toList,
    .updateFile "c".toList (some "d".toList)
      [⟨some "@@".toList, ["*** End of File".toList, []], ["+".toList, []], true⟩],
    .deleteFile "e".toList]

def lookalikeLines : List Text :=
  ["*** Begin Patch", "*** Add File: a b", "+*** End Patch", "+", "*** Update File: c", "*** Move to: d",
    "@@ @@", "-*** End of File", "++", " ", "*** End of File", "*** Delete File: e",
    "*** End Patch"].map String.toList

theorem lookalikes_canonical : ∀ hunk ∈ lookalikeHunks, hunk.Canonical := by
  have empty : Text.Plain [] := ⟨by simp, by simp⟩
  have ending : Text.Plain "*** End Patch".toList := marker_plain (by decide)
  have atSigns : Text.Plain "@@".toList := marker_plain (by decide)
  have marker : Text.Plain "*** End of File".toList := marker_plain (by decide)
  have plus : Text.Plain "+".toList := marker_plain (by decide)
  have named : ∀ path ∈ ["a b".toList, "c".toList, "d".toList, "e".toList], CanonicalPath path := by
    unfold CanonicalPath
    decide
  unfold lookalikeHunks
  simp only [List.forall_mem_cons, List.not_mem_nil, false_implies, implies_true, and_true]
  refine ⟨⟨named _ (by decide), ["*** End Patch".toList, []], ?_, by decide⟩,
    ⟨named _ (by decide), ?_, by simp, ?_⟩, named _ (by decide)⟩
  · simp only [List.forall_mem_cons, List.not_mem_nil, false_implies, implies_true, and_true]
    exact ⟨ending, empty⟩
  · intro dest moved
    obtain rfl := Option.some.inj moved
    exact named _ (by decide)
  · intro chunk member
    obtain rfl := List.mem_singleton.mp member
    refine ⟨?_, ?_, by simp⟩
    · intro context shown
      obtain rfl := Option.some.inj shown
      exact atSigns
    · simp only [List.cons_append, List.nil_append, List.forall_mem_cons, List.not_mem_nil, false_implies,
        implies_true, and_true]
      exact ⟨marker, empty, plus, empty⟩

theorem lookalikes_rendered : RendersPatch lookalikeHunks lookalikeLines :=
  .patch _ _ (.cons (.addFile _ _)
    (.cons (.updateFile _ _ _ _
        (.cons (.chunk (some "@@".toList)
          [.removed "*** End of File".toList, .added "+".toList, .context []] true) .nil))
      (.cons (.deleteFile _) .nil)))

theorem parse_undoes_render_lookalikes :
    parsePatch (Text.joinLines lookalikeLines ++ ['\n']) =
        .ok ⟨lookalikeHunks, Text.joinLines lookalikeLines⟩ ∧
      parsePatch (Text.joinLines ("<<'EOF'".toList :: (lookalikeLines ++ [heredocClosing])) ++ ['\n']) =
        .ok ⟨lookalikeHunks, Text.joinLines lookalikeLines⟩ := by
  have read := (parse_undoes_render lookalikes_canonical).2 lookalikeLines lookalikes_rendered ['\n']
    (List.forall_mem_singleton.mpr (by decide))
  exact ⟨read.1, read.2 "<<'EOF'".toList (by decide)⟩

end ReadingPatches

end GrokPi.ApplyPatch
