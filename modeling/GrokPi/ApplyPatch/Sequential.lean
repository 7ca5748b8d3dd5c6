import GrokPi.ApplyPatch.Tool

set_option autoImplicit false

namespace GrokPi.ApplyPatch

open Overwrites (assign LastAgree firstWrites secondWrites)

section Semantics

def updatedText (locate : Text → Text) (cwd : Text) (files : Files) (path : Text)
    (chunks : List UpdateFileChunk) : Option Text :=
  (files (locate (PathText.join cwd path))).bind fun bytes =>
    (deriveNewContents (Text.fromUtf8Lossy bytes) (PathText.join cwd path) chunks).toOption

def applyHunk (locate : Text → Text) (cwd : Text) (files : Files) : Hunk → Option Files
  | .addFile path contents =>
      some (Function.update files (locate (PathText.join cwd path)) (some (Text.asBytes contents)))
  | .deleteFile path =>
      (files (locate (PathText.join cwd path))).map fun _ =>
        Function.update files (locate (PathText.join cwd path)) none
  | .updateFile path none chunks =>
      (updatedText locate cwd files path chunks).map fun newContent =>
        Function.update files (locate (PathText.join cwd path)) (some (Text.asBytes newContent))
  | .updateFile path (some dest) chunks =>
      (updatedText locate cwd files path chunks).map fun newContent =>
        Function.update
          (Function.update files (locate (PathText.join cwd dest)) (some (Text.asBytes newContent)))
          (locate (PathText.join cwd path)) none

def applySequentially (locate : Text → Text) (cwd : Text) : Files → List Hunk → Option Files
  | files, [] => some files
  | files, hunk :: rest => (applyHunk locate cwd files hunk).bind fun next => applySequentially locate cwd next rest

def Hunk.touched (locate : Text → Text) (cwd : Text) : Hunk → List Text
  | .addFile path _ | .deleteFile path | .updateFile path none _ => [locate (PathText.join cwd path)]
  | .updateFile path (some dest) _ => [locate (PathText.join cwd dest), locate (PathText.join cwd path)]

def touchedBy (locate : Text → Text) (cwd : Text) (hunks : List Hunk) : List Text :=
  hunks.flatMap (Hunk.touched locate cwd)

/-- An update of a file that an earlier hunk touched still finds its lines there, and makes the same
text of it as of the original file, unless that text is overwritten or removed again. -/
def Hunk.Rederives (locate : Text → Text) (cwd : Text) (original left : Files) (later : List Text) :
    Hunk → Prop
  | .addFile _ _ | .deleteFile _ => True
  | .updateFile path none chunks =>
      ∃ text, updatedText locate cwd left path chunks = some text ∧
        (updatedText locate cwd original path chunks = some text ∨
          locate (PathText.join cwd path) ∈ later)
  | .updateFile path (some dest) chunks =>
      ∃ text, updatedText locate cwd left path chunks = some text ∧
        (updatedText locate cwd original path chunks = some text ∨
          locate (PathText.join cwd dest) ∈ locate (PathText.join cwd path) :: later)

def Hunk.stale (locate : Text → Text) (cwd : Text) (before : List Text) : Hunk → Prop
  | .addFile _ _ | .deleteFile _ => False
  | .updateFile path _ _ => locate (PathText.join cwd path) ∈ before

def StaleUpdatesRederive (locate : Text → Text) (cwd : Text) (original : Files) :
    List Text → Files → List Hunk → Prop
  | _, _, [] => True
  | before, left, hunk :: rest =>
      (hunk.stale locate cwd before →
        hunk.Rederives locate cwd original left (touchedBy locate cwd rest)) ∧
      ∀ next, applyHunk locate cwd left hunk = some next →
        StaleUpdatesRederive locate cwd original (before ++ hunk.touched locate cwd) next rest

end Semantics

section Writes

variable {host : Host} {cwd : Text} {original left written next : Files} {hunk : Hunk} {change : FileChange}

def Hunk.text (locate : Text → Text) (cwd : Text) (files : Files) : Hunk → Option Text
  | .addFile _ contents => some contents
  | .deleteFile path => (files (locate (PathText.join cwd path))).map fun _ => []
  | .updateFile path _ chunks => updatedText locate cwd files path chunks

def Hunk.writes (locate : Text → Text) (cwd : Text) (text : Text) : Hunk → List (Text × Option (List UInt8))
  | .addFile path _ | .updateFile path none _ =>
      [(locate (PathText.join cwd path), some (Text.asBytes text))]
  | .deleteFile path => [(locate (PathText.join cwd path), none)]
  | .updateFile path (some dest) _ =>
      [(locate (PathText.join cwd dest), some (Text.asBytes text)), (locate (PathText.join cwd path), none)]

theorem applyHunk_eq (locate : Text → Text) (cwd : Text) (files : Files) (hunk : Hunk) :
    applyHunk locate cwd files hunk =
      (hunk.text locate cwd files).map fun text => assign files (hunk.writes locate cwd text) := by
  cases hunk with
  | addFile path contents => rfl
  | deleteFile path =>
      simp only [applyHunk, Hunk.text, Option.map_map]
      rfl
  | updateFile path movePath chunks => cases movePath <;> rfl

def Hunk.Removable (locate : Text → Text) (cwd : Text) (files : Files) : Hunk → Prop
  | .deleteFile path => (files (locate (PathText.join cwd path))).isSome = true
  | _ => True

theorem readFileAsString_ok {path text : Text} (read : readFileAsString host original path = .ok text) :
    ∃ bytes, original (host.locate path) = some bytes ∧ text = Text.fromUtf8Lossy bytes := by
  unfold readFileAsString at read
  split at read
  · cases read
  next bytes found =>
    split at read
    · exact ⟨bytes, found, (Except.ok.inj read).symm⟩
    · cases read

theorem writeFile_ok {files : Files} {path content : Text} (stored : writeFile host files path content = .ok next) :
    next = Function.update files (host.locate path) (some (Text.asBytes content)) := by
  unfold writeFile at stored
  split at stored
  · exact (Except.ok.inj stored).symm
  · cases stored

theorem storeFile_ok {files : Files} {path content : Text} (stored : storeFile host files path content = .ok next) :
    next = Function.update files (host.locate path) (some (Text.asBytes content)) := by
  unfold storeFile at stored
  split at stored
  · cases stored
  · exact (Except.ok.inj stored).symm
  · exact writeFile_ok stored

theorem deleteFile_ok {files : Files} {path : Text} (deleted : deleteFile host files path = .ok next) :
    (files (host.locate path)).isSome = true ∧ next = Function.update files (host.locate path) none := by
  unfold deleteFile at deleted
  split at deleted
  next can => exact ⟨can.1, (Except.ok.inj deleted).symm⟩
  · cases deleted

theorem applyChange_ok (computed : computeChange host cwd original hunk = .ok change)
    (applied : applyChange host written change = (.ok (), next)) :
    ∃ text, hunk.text host.locate cwd original = some text ∧
      next = assign written (hunk.writes host.locate cwd text) ∧
      hunk.Removable host.locate cwd written := by
  cases hunk with
  | addFile path contents =>
      rw [← Except.ok.inj computed] at applied
      simp only [applyChange] at applied
      split at applied
      · cases (Prod.mk.inj applied).1
      next stored ok => exact ⟨contents, rfl, (Prod.mk.inj applied).2 ▸ storeFile_ok ok, trivial⟩
  | deleteFile path =>
      simp only [computeChange] at computed
      split at computed
      · cases computed
      next originalContent read =>
        obtain ⟨bytes, found, -⟩ := readFileAsString_ok read
        rw [← Except.ok.inj computed] at applied
        simp only [applyChange] at applied
        split at applied
        · cases (Prod.mk.inj applied).1
        next deleted ok =>
          obtain ⟨present, result⟩ := deleteFile_ok ok
          exact ⟨[], by simp [Hunk.text, found], (Prod.mk.inj applied).2 ▸ result, present⟩
  | updateFile path movePath chunks =>
      simp only [computeChange] at computed
      split at computed
      · cases computed
      next originalContent read =>
        obtain ⟨bytes, found, rfl⟩ := readFileAsString_ok read
        cases derived : deriveNewContents (Text.fromUtf8Lossy bytes) (PathText.join cwd path) chunks with
        | error message => simp [derived, Except.map] at computed
        | ok text =>
            have decided : (Hunk.updateFile path movePath chunks).text host.locate cwd original = some text := by
              simp [Hunk.text, updatedText, found, derived, Except.toOption]
            simp only [derived, Except.map, Except.ok.injEq] at computed
            refine ⟨text, decided, ?_, trivial⟩
            cases movePath with
            | none =>
                rw [← computed] at applied
                simp only [applyChange] at applied
                split at applied
                · cases (Prod.mk.inj applied).1
                next stored ok => exact (Prod.mk.inj applied).2 ▸ storeFile_ok ok
            | some dest =>
                rw [← computed] at applied
                simp only [applyChange] at applied
                split at applied
                · cases (Prod.mk.inj applied).1
                next moved ok =>
                  split at applied
                  · cases (Prod.mk.inj applied).1
                  next deleted removed =>
                    rw [← (Prod.mk.inj applied).2, (deleteFile_ok removed).2, writeFile_ok ok]
                    rfl

def Hunk.writePairs (locate : Text → Text) (cwd : Text) (first second : Text) :
    Hunk → List (Text × Option (List UInt8) × Option (List UInt8))
  | .addFile path _ | .updateFile path none _ =>
      [(locate (PathText.join cwd path), some (Text.asBytes first), some (Text.asBytes second))]
  | .deleteFile path => [(locate (PathText.join cwd path), none, none)]
  | .updateFile path (some dest) _ =>
      [(locate (PathText.join cwd dest), some (Text.asBytes first), some (Text.asBytes second)),
        (locate (PathText.join cwd path), none, none)]

theorem writePairs_spec (locate : Text → Text) (cwd first second : Text) (hunk : Hunk) :
    firstWrites (hunk.writePairs locate cwd first second) = hunk.writes locate cwd first ∧
      secondWrites (hunk.writePairs locate cwd first second) = hunk.writes locate cwd second ∧
      (hunk.writePairs locate cwd first second).map Prod.fst = hunk.touched locate cwd := by
  cases hunk with
  | addFile path contents => exact ⟨rfl, rfl, rfl⟩
  | deleteFile path => exact ⟨rfl, rfl, rfl⟩
  | updateFile path movePath chunks => cases movePath <;> exact ⟨rfl, rfl, rfl⟩

theorem writes_present {first second : Files} (present : ∀ place, (first place).isSome = (second place).isSome)
    (locate : Text → Text) (cwd a b : Text) (hunk : Hunk) (place : Text) :
    (assign first (hunk.writes locate cwd a) place).isSome =
      (assign second (hunk.writes locate cwd b) place).isSome := by
  -- Whether files are there does not depend on the texts.
  cases hunk with
  | addFile path contents =>
      simp only [Hunk.writes, assign, List.foldl, Function.update_apply]
      split <;> simp [present]
  | deleteFile path =>
      simp only [Hunk.writes, assign, List.foldl, Function.update_apply]
      split <;> simp [present]
  | updateFile path movePath chunks =>
      cases movePath <;> simp only [Hunk.writes, assign, List.foldl, Function.update_apply]
      · split <;> simp [present]
      · split
        · rfl
        · split <;> simp [present]

theorem writes_untouched (locate : Text → Text) (cwd text : Text) (hunk : Hunk) (files : Files) {place : Text}
    (untouched : place ∉ hunk.touched locate cwd) :
    assign files (hunk.writes locate cwd text) place = files place := by
  cases hunk with
  | addFile path contents => simp_all [Hunk.touched, Hunk.writes, assign]
  | deleteFile path => simp_all [Hunk.touched, Hunk.writes, assign]
  | updateFile path movePath chunks => cases movePath <;> simp_all [Hunk.touched, Hunk.writes, assign]

end Writes

section Sequence

variable {locate : Text → Text} {cwd : Text} {original left : Files} {before : List Text} {hunk : Hunk}

theorem updatedText_fresh {path : Text} {movePath : Option Text} {chunks : List UpdateFileChunk}
    (untouched : ∀ place ∉ before, left place = original place)
    (fresh : ¬ (Hunk.updateFile path movePath chunks).stale locate cwd before) :
    updatedText locate cwd left path chunks = updatedText locate cwd original path chunks := by
  unfold updatedText
  rw [untouched _ fresh]

theorem text_some {text : Text} {later : List Text} (decided : hunk.text locate cwd original = some text)
    (removable : hunk.Removable locate cwd left) (untouched : ∀ place ∉ before, left place = original place)
    (rederives : hunk.stale locate cwd before → hunk.Rederives locate cwd original left later) :
    ∃ other, hunk.text locate cwd left = some other := by
  cases hunk with
  | addFile path contents => exact ⟨contents, rfl⟩
  | deleteFile path =>
      obtain ⟨bytes, found⟩ := Option.isSome_iff_exists.mp removable
      exact ⟨[], by simp [Hunk.text, found]⟩
  | updateFile path movePath chunks =>
      by_cases stale : (Hunk.updateFile path movePath chunks).stale locate cwd before
      · have again := rederives stale
        cases movePath with
        | none => exact ⟨again.choose, again.choose_spec.1⟩
        | some dest => exact ⟨again.choose, again.choose_spec.1⟩
      · exact ⟨text, (updatedText_fresh untouched stale).trans decided⟩

theorem lastAgree_iff {a b : Text} (later : List Text) (first : hunk.text locate cwd original = some a)
    (second : hunk.text locate cwd left = some b) (untouched : ∀ place ∉ before, left place = original place) :
    LastAgree later (hunk.writePairs locate cwd b a) ↔
      (hunk.stale locate cwd before → hunk.Rederives locate cwd original left later) := by
  have same : Text.asBytes b = Text.asBytes a ↔ a = b := by
    constructor
    · intro bytes
      rw [← Text.fromUtf8Lossy_asBytes a, ← bytes, Text.fromUtf8Lossy_asBytes]
    · intro texts
      rw [texts]
  cases hunk with
  | addFile path contents =>
      have texts : a = b := Option.some.inj (first.symm.trans second)
      simp [Hunk.writePairs, LastAgree, Hunk.stale, texts]
  | deleteFile path => simp [Hunk.writePairs, LastAgree, Hunk.stale]
  | updateFile path movePath chunks =>
      by_cases stale : (Hunk.updateFile path movePath chunks).stale locate cwd before
      · simp only [Hunk.text] at first second
        cases movePath with
        | none =>
            simp only [stale, forall_const, Hunk.Rederives, first, second, Option.some.injEq, exists_eq_left',
              Hunk.writePairs, LastAgree, same, List.map_nil, List.nil_append, and_true]
            tauto
        | some dest =>
            simp only [stale, forall_const, Hunk.Rederives, first, second, Option.some.injEq, exists_eq_left',
              Hunk.writePairs, LastAgree, same, List.map_nil, List.map_cons, List.cons_append, List.nil_append,
              implies_true, and_true]
            tauto
      · have texts : a = b := by
          have fresh := updatedText_fresh untouched stale
          exact Option.some.inj (first.symm.trans (fresh.symm.trans second))
        cases movePath <;> simp [stale, texts, Hunk.writePairs, LastAgree]

theorem computeAllChanges_cons {host : Host} {rest : List Hunk} {changes : List FileChange}
    (computed : computeAllChanges host cwd original (hunk :: rest) = .ok changes) :
    ∃ change others, computeChange host cwd original hunk = .ok change ∧
      computeAllChanges host cwd original rest = .ok others ∧ changes = change :: others := by
  simp only [computeAllChanges, List.mapM_cons] at computed
  cases first : computeChange host cwd original hunk with
  | error message => simp [first, bind, Except.bind] at computed
  | ok change =>
      cases more : rest.mapM (computeChange host cwd original) with
      | error message => simp [first, more, bind, Except.bind] at computed
      | ok others =>
          simp only [first, more, bind, Except.bind, pure, Except.pure, Except.ok.injEq] at computed
          exact ⟨change, others, rfl, more, computed.symm⟩

theorem applyChanges_cons {host : Host} {written final : Files} {change : FileChange} {rest : List FileChange}
    {notified : List FileWritten}
    (applied : applyChanges host written (change :: rest) = (.ok (), final, notified)) :
    ∃ next others, applyChange host written change = (.ok (), next) ∧
      applyChanges host next rest = (.ok (), final, others) := by
  simp only [applyChanges] at applied
  split at applied
  · cases (Prod.mk.inj applied).1
  next next' first =>
    cases result : applyChanges host next' rest with
    | mk outcome after =>
        obtain ⟨files, others⟩ := after
        simp only [result, Prod.mk.injEq] at applied
        exact ⟨next', others, first, by rw [result, applied.1, applied.2.1]⟩

theorem applySequentially_iff {host : Host} {written final : Files} {hunks : List Hunk}
    {changes : List FileChange} {notified : List FileWritten}
    (computed : computeAllChanges host cwd original hunks = .ok changes)
    (applied : applyChanges host written changes = (.ok (), final, notified))
    (present : ∀ place, (left place).isSome = (written place).isSome)
    (untouched : ∀ place ∉ before, left place = original place) :
    applySequentially host.locate cwd left hunks = some final ↔
      StaleUpdatesRederive host.locate cwd original before left hunks ∧
        ∀ place ∉ touchedBy host.locate cwd hunks, left place = written place := by
  induction hunks generalizing changes written left before notified with
  | nil =>
      simp only [computeAllChanges, List.mapM_nil] at computed
      cases computed
      simp only [applyChanges, Prod.mk.injEq, true_and] at applied
      simp [applySequentially, StaleUpdatesRederive, touchedBy, ← applied.1, funext_iff]
  | cons hunk rest ih =>
      obtain ⟨change, others, first, more, rfl⟩ := computeAllChanges_cons computed
      obtain ⟨next, notified', step, steps⟩ := applyChanges_cons applied
      obtain ⟨a, decided, rfl, removable⟩ := applyChange_ok first step
      have removableLeft : hunk.Removable host.locate cwd left := by
        cases hunk with
        | deleteFile path => exact (present _).trans removable
        | _ => trivial
      rw [applySequentially, applyHunk_eq]
      cases textLeft : hunk.text host.locate cwd left with
      | none =>
          constructor
          · intro none'
            cases none'
          · intro holds
            obtain ⟨other, found⟩ := text_some decided removableLeft untouched holds.1.1
            rw [textLeft] at found
            cases found
      | some b =>
          have pairs := writePairs_spec host.locate cwd b a hunk
          have agree := Overwrites.assign_agree (touchedBy host.locate cwd rest)
            (hunk.writePairs host.locate cwd b a) left written
          rw [pairs.1, pairs.2.1, pairs.2.2, lastAgree_iff _ decided textLeft untouched] at agree
          have after := ih more steps (writes_present present host.locate cwd b a hunk)
            (fun place outside => by
              rw [List.mem_append, not_or] at outside
              rw [writes_untouched host.locate cwd b hunk left outside.2]
              exact untouched place outside.1)
          have applied' : applyHunk host.locate cwd left hunk =
              some (assign left (hunk.writes host.locate cwd b)) := by rw [applyHunk_eq, textLeft]; rfl
          simp only [Option.map_some, Option.bind_some, StaleUpdatesRederive, applied', Option.some.injEq,
            forall_eq']
          rw [after, agree]
          change _ ∧ _ ∧ (∀ place ∉ hunk.touched host.locate cwd ++ touchedBy host.locate cwd rest, _) ↔ _
          tauto

theorem run_sequential_iff {host : Host} {hunks : List Hunk} {files final : Files}
    {results : List ApplyPatchFileResult} {summary : Text} {notified : List FileWritten}
    (ran : run host cwd hunks files = (.ok (.success results summary), final, notified)) :
    applySequentially host.locate cwd files hunks = some final ↔
      StaleUpdatesRederive host.locate cwd files [] files hunks := by
  unfold run at ran
  split at ran
  · cases (Prod.mk.inj ran).1
  · split at ran
    · cases (Prod.mk.inj ran).1
    next changes computed =>
      split at ran
      · cases (Prod.mk.inj ran).1
      · split at ran
        · cases (Prod.mk.inj ran).1
        · cases (Prod.mk.inj ran).1
        next after applied =>
          rw [(Prod.mk.inj ran).2] at applied
          have nothing : ∀ place ∉ ([] : List Text), files place = files place := fun _ _ => rfl
          rw [applySequentially_iff computed applied (fun _ => rfl) nothing]
          simp

def onlyFile (path content : Text) : Files :=
  fun place => if place = path then some (Text.asBytes content) else none

def lineChunk (old new : Text) : UpdateFileChunk :=
  { changeContext := none
    oldLines := [old]
    newLines := [new]
    isEndOfFile := false }

def addAndUpdate : List Hunk :=
  [.addFile ['b'] "three\n".toList, .updateFile ['a'] none [lineChunk "one".toList "1".toList]]

def updateTwice : List Hunk :=
  [.updateFile ['a'] none [lineChunk "one".toList "1".toList],
    .updateFile ['a'] none [lineChunk "two".toList "2".toList]]

theorem add_and_update_sequential :
    applySequentially id ['/'] (onlyFile "/a".toList "one\ntwo\n".toList) addAndUpdate =
      some (run Host.plain ['/'] addAndUpdate (onlyFile "/a".toList "one\ntwo\n".toList)).2.1 := by
  have succeeded : (run Host.plain ['/'] addAndUpdate (onlyFile "/a".toList "one\ntwo\n".toList)).1 =
      .ok (.success [⟨"/b".toList, "added".toList, none, "three\n".toList, none⟩,
        ⟨"/a".toList, "modified".toList, some "one\ntwo\n".toList, "1\ntwo\n".toList, none⟩]
        "Success. Updated the following files:\nA /b\nM /a\n".toList) := by decide +kernel
  refine (run_sequential_iff (Prod.ext succeeded rfl)).mpr ⟨fun stale => stale.elim, ?_⟩
  intro next applied
  refine ⟨?_, fun _ _ => trivial⟩
  intro stale
  exact absurd (show "/a".toList ∈ ["/b".toList] from stale) (by decide)

theorem first_update_lost :
    (∃ results summary, (run Host.plain ['/'] updateTwice (onlyFile "/a".toList "one\ntwo\n".toList)).1 =
        .ok (.success results summary)) ∧
      applySequentially id ['/'] (onlyFile "/a".toList "one\ntwo\n".toList) updateTwice ≠
        some (run Host.plain ['/'] updateTwice (onlyFile "/a".toList "one\ntwo\n".toList)).2.1 := by
  constructor
  · refine ⟨[⟨"/a".toList, "modified".toList, some "one\ntwo\n".toList, "1\ntwo\n".toList, none⟩,
      ⟨"/a".toList, "modified".toList, some "one\ntwo\n".toList, "one\n2\n".toList, none⟩],
      "Success. Updated the following files:\nM /a\nM /a\n".toList, ?_⟩
    decide +kernel
  · intro same
    have texts := congrArg (Option.map fun files : Files => files "/a".toList) same
    revert texts
    decide +kernel

end Sequence

end GrokPi.ApplyPatch
