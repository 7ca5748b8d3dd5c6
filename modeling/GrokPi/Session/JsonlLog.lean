import GrokPi.Session.JsonlFile

set_option autoImplicit false

namespace GrokPi.Session

universe v

variable {R : Type v} (codec : TornLog.LineCodec UInt8 R)

section Operations

inductive SyncFault where
  | file (error : IoError)
  | directory (error : IoError)

def SyncFault.error : SyncFault → IoError
  | .file error | .directory error => error

def File.sync (file : File) : Option SyncFault → File
  | some (.file _) => file
  | some (.directory _) => file.syncFile
  | none => file.syncFile.syncParent

inductive FileOp (R : Type v) where
  | append (record : R) (durability : AppendDurability) (faults : AppendFaults)
  | replace (records : List R) (fault : Option ReplaceFault)
  | sync (fault : Option SyncFault)
  | powerLoss (renamesLost kept : Nat)

def File.perform (file : File) : FileOp R → Except AppendLineError Unit × File
  | .append record durability faults => file.appendJsonlLine codec record durability faults
  | .replace records fault =>
      let replaced := file.writeJsonl codec records fault
      match fault with
      | none => (.ok (), replaced.2)
      | some (.kept error) => (.error (.notCommitted error), replaced.2)
      | some (.unsynced error) => (.error (.committed error), replaced.2)
  | .sync none => (.ok (), file.sync none)
  | .sync (some fault) => (.error (.notCommitted fault.error), file.sync (some fault))
  | .powerLoss renamesLost kept => (.ok (), file.powerLoss renamesLost kept)

def File.step (file : File) (op : FileOp R) : File := (file.perform codec op).2

structure Log (R : Type v) where
  records : List R
  certain : List R
  earlier : List (List R)

def File.log (file : File) : Log R :=
  { records := file.read codec
    certain := file.certain codec
    earlier := file.replaced.map fun contents => TornLog.read codec contents.bytes }

def Log.Named (before after : Log R) : Prop :=
  after.earlier = before.earlier ∨ before.records = [] ∧ after.earlier = [] :: before.earlier

def Log.Follows (before : Log R) : FileOp R → Except AppendLineError Unit → Log R → Prop
  | .append record .buffered _, .ok (), after =>
      after.records = before.records ++ [record] ∧ after.certain = before.certain ∧ before.Named after
  | .append record .durable _, .ok (), after =>
      after.records = before.records ++ [record] ∧ after.certain = after.records ∧ after.earlier = []
  | .append record _ _, .error (.committed _), after =>
      after.records = before.records ++ [record] ∧
        (after.certain = before.certain ∨ after.certain = after.records) ∧ before.Named after
  | .append record _ _, .error (.notCommitted _), after =>
      (after.records = before.records ∨ after.records = before.records ++ [record]) ∧
        after.certain = before.certain ∧ before.Named after
  | .replace records _, .ok (), after => after.records = records ∧ after.certain = records ∧ after.earlier = []
  | .replace records _, .error (.committed _), after =>
      after.records = records ∧ after.certain = [] ∧ after.earlier = before.records :: before.earlier
  | .replace _ _, .error (.notCommitted _), after => after = before
  | .sync _, .ok (), after => after.records = before.records ∧ after.certain = before.records ∧ after.earlier = []
  | .sync _, .error _, after =>
      after.records = before.records ∧ (after.certain = before.certain ∨ after.certain = before.records) ∧
        after.earlier = before.earlier
  | .powerLoss _ _, _, after =>
      before.certain <+: after.certain ∧ after.certain <+: after.records ∧ after.earlier = [] ∧
        ∃ held ∈ before.records :: before.earlier, after.records <+: held

/-- What an operation may do to the strict reading, by what the caller is told. -/
def Loads (before : Except IoError (List R)) :
    FileOp R → Except AppendLineError Unit → Except IoError (List R) → Prop
  | .append _ _ _, .error (.notCommitted _), after => after.isOk = true → before.isOk = true
  | .append _ _ _, _, after => after.isOk = before.isOk
  | .replace _ _, .error (.notCommitted _), after => after = before
  | .replace _ _, _, after => after.isOk = true
  | .sync _, _, after => after = before
  | .powerLoss _ _, _, _ => True

end Operations

structure Contents.Sound (contents : Contents) : Prop where
  torn : TornLog.WellTorn codec contents.bytes
  synced : contents.synced ≤ contents.bytes.length
  absent : contents.present = false → contents.bytes = []

namespace File

structure Sound (file : File) : Prop where
  here : file.toContents.Sound codec
  replaced : ∀ contents ∈ file.replaced, contents.Sound codec

variable {codec} {file : File}

@[simp] theorem openCreate_bytes (file : File) : file.openCreate.bytes = file.bytes := by
  unfold openCreate
  split <;> rfl

@[simp] theorem openCreate_synced (file : File) : file.openCreate.synced = file.synced := by
  unfold openCreate
  split <;> rfl

theorem openCreate_present (file : File) : file.openCreate.present = true := by
  unfold openCreate
  split
  · assumption
  · rfl

theorem openCreate_cases (file : File) :
    file.openCreate.replaced = file.replaced ∨
      file.present = false ∧ file.openCreate.replaced = file.toContents :: file.replaced := by
  unfold openCreate
  split
  · exact Or.inl rfl
  · rename_i absent
    exact Or.inr ⟨by simpa using absent, rfl⟩

variable (codec) in
theorem certain_of_replaced {contents : Contents} {rest : List Contents} (replaced : file.replaced = contents :: rest) :
    file.certain codec = [] := by
  simp [certain, replaced]

variable (codec) in
theorem read_torn (file : File) (record : R) (written : Nat) :
    (file.appended codec record written).read codec = file.read codec ∨
      (file.appended codec record written).read codec = file.read codec ++ [record] := by
  simp only [read, appended, TornLog.read_append]
  split
  · exact Or.inr rfl
  · exact Or.inl (List.append_nil _)

variable (codec) in
theorem read_appended (file : File) (record : R) :
    (file.appended codec record (file.lineLength codec record)).read codec = file.read codec ++ [record] := by
  have whole : TornLog.Lands codec file.bytes record (file.lineLength codec record) := Nat.le_succ _
  simp only [read, appended]
  rw [TornLog.read_append, if_pos whole]

theorem Sound.read_absent (sound : file.Sound codec) (absent : file.present = false) : file.read codec = [] := by
  rw [read, sound.here.absent absent, TornLog.read_nil]

theorem Sound.openCreate (sound : file.Sound codec) : file.openCreate.Sound codec := by
  constructor
  · constructor
    · rw [openCreate_bytes]
      exact sound.here.torn
    · rw [openCreate_bytes, openCreate_synced]
      exact sound.here.synced
    · intro absent
      rw [openCreate_present] at absent
      cases absent
  · intro contents member
    rcases openCreate_cases file with same | ⟨-, created⟩
    · exact sound.replaced contents (same ▸ member)
    · rw [created] at member
      rcases List.mem_cons.mp member with rfl | member
      · exact sound.here
      · exact sound.replaced contents member

theorem Sound.appended (sound : file.Sound codec) (record : R) (written : Nat) :
    (file.appended codec record written).Sound codec := by
  have opened := sound.openCreate
  refine ⟨⟨TornLog.wellTorn_append codec sound.here.torn record written, ?_, ?_⟩, opened.replaced⟩
  · have within := sound.here.synced
    simp only [File.appended, openCreate_synced, TornLog.append, List.length_append]
    omega
  · intro absent
    have present := openCreate_present file
    simp only [File.appended] at absent
    rw [present] at absent
    cases absent

theorem Sound.syncFile (sound : file.Sound codec) : file.syncFile.Sound codec :=
  { here :=
      { torn := sound.here.torn
        synced := Nat.le_refl _
        absent := sound.here.absent }
    replaced := sound.replaced }

theorem Sound.syncParent (sound : file.Sound codec) : file.syncParent.Sound codec :=
  { here := sound.here
    replaced := fun _ member => by cases member }

theorem openCreate_named (sound : file.Sound codec) (after : Log R) (same : after.earlier = (file.openCreate.log codec).earlier) :
    (file.log codec).Named after := by
  rcases openCreate_cases file with kept | ⟨absent, created⟩
  · refine Or.inl (same.trans ?_)
    simp only [log, kept]
  · refine Or.inr ⟨sound.read_absent absent, same.trans ?_⟩
    have empty := sound.read_absent absent
    rw [read] at empty
    simp only [log, created, List.map_cons, empty]

theorem certain_appended (sound : file.Sound codec) (record : R) (written : Nat) :
    (file.appended codec record written).certain codec = file.certain codec := by
  rcases openCreate_cases file with kept | ⟨absent, created⟩
  · simp only [certain, appended, kept, openCreate_synced, TornLog.append]
    rw [List.take_append_of_le_length sound.here.synced]
  · have later : (file.appended codec record written).replaced = file.toContents :: file.replaced := created
    rw [certain_of_replaced codec later]
    simp [certain, sound.here.absent absent]

theorem certain_openCreate (sound : file.Sound codec) : file.openCreate.certain codec = file.certain codec := by
  rcases openCreate_cases file with kept | ⟨absent, created⟩
  · simp only [certain, kept, openCreate_bytes, openCreate_synced]
  · rw [certain_of_replaced codec created]
    simp [certain, sound.here.absent absent]

variable (codec) in
theorem certain_synced (file : File) : file.syncFile.syncParent.certain codec = file.read codec := by
  simp [certain, File.syncFile, syncParent, read]

variable (codec) in
theorem certain_syncFile (file : File) :
    file.syncFile.certain codec = file.certain codec ∨ file.syncFile.certain codec = file.read codec := by
  cases replaced : file.replaced with
  | nil => exact Or.inr (by simp [certain, File.syncFile, read, replaced])
  | cons contents rest => exact Or.inl (by simp [certain, File.syncFile, replaced])

inductive Appends (codec : TornLog.LineCodec UInt8 R) (file : File) (record : R) :
    AppendDurability → Except AppendLineError Unit × File → Prop where
  | unopened {durability : AppendDurability} (error : IoError) :
      Appends codec file record durability (.error (.notCommitted error), file)
  | unseen {durability : AppendDurability} (error : IoError) :
      Appends codec file record durability (.error (.notCommitted error), file.openCreate)
  | torn {durability : AppendDurability} (error : IoError) (written : Nat) :
      Appends codec file record durability (.error (.notCommitted error), file.appended codec record written)
  | unflushed {durability : AppendDurability} (error : IoError) :
      Appends codec file record durability
        (.error (.committed error), file.appended codec record (file.lineLength codec record))
  | unsynced (error : IoError) :
      Appends codec file record .durable
        (.error (.committed error), (file.appended codec record (file.lineLength codec record)).syncFile)
  | buffered : Appends codec file record .buffered (.ok (), file.appended codec record (file.lineLength codec record))
  | durable :
      Appends codec file record .durable
        (.ok (), (file.appended codec record (file.lineLength codec record)).syncFile.syncParent)

theorem Appends.sound {record : R} {durability : AppendDurability} {done : Except AppendLineError Unit × File}
    (appends : Appends codec file record durability done) (sound : file.Sound codec) : done.2.Sound codec := by
  have whole := sound.appended record (file.lineLength codec record)
  cases appends with
  | unopened error => exact sound
  | unseen error => exact sound.openCreate
  | torn error written => exact sound.appended record written
  | unflushed error => exact whole
  | unsynced error => exact whole.syncFile
  | buffered => exact whole
  | durable => exact whole.syncFile.syncParent

theorem Appends.follows {record : R} {durability : AppendDurability} {done : Except AppendLineError Unit × File}
    (appends : Appends codec file record durability done) (sound : file.Sound codec) (faults : AppendFaults) :
    (file.log codec).Follows (.append record durability faults) done.1 (done.2.log codec) := by
  have records := read_appended codec file record
  have kept := certain_appended sound record (file.lineLength codec record)
  have named := openCreate_named sound ((file.appended codec record (file.lineLength codec record)).log codec) rfl
  cases appends with
  | unopened error => cases durability <;> exact ⟨Or.inl rfl, rfl, Or.inl rfl⟩
  | unseen error =>
      have read : file.openCreate.read codec = file.read codec := by simp [File.read]
      have opened := openCreate_named sound (file.openCreate.log codec) rfl
      cases durability <;> exact ⟨Or.inl read, certain_openCreate sound, opened⟩
  | torn error written =>
      have torn := read_torn codec file record written
      have named := openCreate_named sound ((file.appended codec record written).log codec) rfl
      cases durability <;> exact ⟨torn, certain_appended sound record written, named⟩
  | unflushed error => cases durability <;> exact ⟨records, Or.inl kept, named⟩
  | unsynced error =>
      refine ⟨records, ?_, named⟩
      rcases certain_syncFile codec (file.appended codec record (file.lineLength codec record)) with same | all
      · exact Or.inl (same.trans kept)
      · exact Or.inr all
  | buffered => exact ⟨records, kept, named⟩
  | durable => exact ⟨records, certain_synced codec _, rfl⟩

theorem left_mem (file : File) (renamesLost : Nat) :
    (file.toContents :: file.replaced).getD renamesLost file.toContents ∈ file.toContents :: file.replaced := by
  rw [List.getD_eq_getElem?_getD]
  cases found : (file.toContents :: file.replaced)[renamesLost]? with
  | none => exact List.mem_cons_self
  | some contents => exact List.mem_of_getElem? found

theorem Sound.left (sound : file.Sound codec) (renamesLost : Nat) :
    ((file.toContents :: file.replaced).getD renamesLost file.toContents).Sound codec := by
  have each : ∀ contents ∈ file.toContents :: file.replaced, contents.Sound codec :=
    List.forall_mem_cons.mpr ⟨sound.here, sound.replaced⟩
  exact each _ (left_mem file renamesLost)

end File

section Strict

variable {serde : Serde R}

theorem fromStr_line {line : Text} (torn : Text.asBytes line = [] ∨ ∃ record lost, serde.toVec record = Text.asBytes line ++ lost) :
    line.getLast? ≠ some '\r' ∧
      (line = [] ∨ line.trim.isEmpty = false ∧ serde.fromStr line = serde.fromSlice (Text.asBytes line)) := by
  cases line with
  | nil => exact ⟨by simp, Or.inl rfl⟩
  | cons c rest =>
      obtain ⟨record, lost, split⟩ := torn.resolve_left fun empty =>
        absurd (List.append_eq_nil_iff.mp empty).1 String.utf8EncodeChar_ne_nil
      obtain ⟨more, whole, left⟩ := Text.asBytes_split split
      have unbroken : '\r' ∉ Json.print (.object (serde.members record)) := Json.print_unbroken (by decide) _
      rw [whole] at unbroken
      have brace : c = '{' := by
        rw [Json.print, List.cons_append, List.cons_append] at whole
        exact (List.cons.inj whole).1.symm
      have inked : Text.isWhitespace c = false := by
        rw [brace]
        decide
      refine ⟨fun last => unbroken (List.mem_append_left _ (List.mem_of_getLast? last)), Or.inr ⟨?_, ?_⟩⟩
      · rw [List.isEmpty_eq_false_iff]
        exact Text.trim_ne_nil inked rest
      · by_cases full : more = []
        · rw [full, List.append_nil] at whole
          rw [← whole]
          have again := serde.fromSlice_toVec record
          rw [Serde.toVec] at again
          rw [again, Serde.fromStr, Json.parse_print, Option.bind_some, serde.ofJson_members]
        · have cut : lost ≠ [] := by
            rw [left]
            intro none'
            apply full
            cases more with
            | nil => rfl
            | cons d others => exact absurd (List.append_eq_nil_iff.mp none').1 String.utf8EncodeChar_ne_nil
          rw [serde.fromSlice_torn record _ _ split cut, Serde.fromStr, Json.parse_torn whole full, Option.bind_none]

theorem mapM_lines {lines : List Text} {keep : Text → Bool} (blank : keep [] = false) {first second : Text → Option R}
    (same : ∀ line ∈ lines, line = [] ∨ keep line = true ∧ first line = second line) (silent : second [] = none) :
    (lines.filter keep).mapM first =
      if ∀ line ∈ lines, line = [] ∨ (second line).isSome = true then some (lines.filterMap second) else none := by
  induction lines with
  | nil => rfl
  | cons line rest ih =>
      have later := ih fun other member => same other (List.mem_cons_of_mem _ member)
      rcases same line List.mem_cons_self with rfl | ⟨kept, alike⟩
      · simp [blank, silent, later]
      · rw [List.filter_cons_of_pos kept, List.mapM_cons, alike, later]
        cases read : second line with
        | none =>
            have some' : line ≠ [] := by
              rintro rfl
              rw [blank] at kept
              cases kept
            simp [read, some']
        | some record =>
            simp only [List.forall_mem_cons, read, Option.isSome_some, or_true, true_and,
              List.filterMap_cons_some read]
            split <;> rfl

theorem valid_of_whole {bytes : Bytes} (torn : TornLog.WellTorn serde.codec bytes)
    (whole : TornLog.Whole serde.codec bytes) : ∃ text, Text.asBytes text = bytes := by
  have pieces : ∀ piece ∈ bytes.splitOn newline, ∃ text, Text.asBytes text = piece := by
    intro piece member
    rcases whole piece member with empty | read
    · exact ⟨[], empty.symm⟩
    rcases torn piece member with empty | ⟨record, lost, split⟩
    · exact ⟨[], empty.symm⟩
    by_cases full : lost = []
    · rw [full, List.append_nil] at split
      exact ⟨_, split⟩
    · have unread : serde.codec.decode piece = none := serde.fromSlice_torn record piece lost split full
      rw [unread] at read
      cases read
  obtain ⟨text, same⟩ := Text.asBytes_lines pieces
  exact ⟨text, same.trans (List.intercalate_splitOn newline)⟩

section ValidText

variable {file : File} {text : Text} (bytes : Text.asBytes text = file.bytes)

include bytes

theorem lines_text : file.bytes.splitOn newline = (text.splitOn '\n').map Text.asBytes := by
  rw [← bytes]
  exact Text.asBytes_splitOn text

theorem whole_text : TornLog.Whole serde.codec file.bytes ↔
    ∀ line ∈ text.splitOn '\n', line = [] ∨ (serde.fromSlice (Text.asBytes line)).isSome = true := by
  rw [TornLog.Whole, show serde.codec.separator = newline from rfl, lines_text bytes, List.forall_mem_map]
  simp only [Text.asBytes_eq_nil]
  rfl

theorem read_text : file.read serde.codec =
    (text.splitOn '\n').filterMap fun line => serde.fromSlice (Text.asBytes line) := by
  rw [File.read, TornLog.read, show serde.codec.separator = newline from rfl, lines_text bytes, List.filterMap_map]
  rfl

theorem readJsonl_text (present : file.present = true) (torn : TornLog.WellTorn serde.codec file.bytes) :
    file.readJsonl serde =
      (if ∀ line ∈ text.splitOn '\n', line = [] ∨ (serde.fromSlice (Text.asBytes line)).isSome = true
        then some ((text.splitOn '\n').filterMap fun line => serde.fromSlice (Text.asBytes line)) else none).elim
        (.error .other) .ok := by
  rw [TornLog.WellTorn, show serde.codec.separator = newline from rfl, lines_text bytes, List.forall_mem_map] at torn
  have each := fun line member => @fromStr_line R serde line (torn line member)
  have filtered := @Text.filter_lines (fun line => !(Text.trim line).isEmpty) rfl text fun line member => (each line member).1
  have alike : ∀ line ∈ text.splitOn '\n', line = [] ∨
      (!(Text.trim line).isEmpty) = true ∧ serde.fromStr line = serde.fromSlice (Text.asBytes line) :=
    fun line member => (each line member).2.imp_right fun both => ⟨by simp [both.1], both.2⟩
  have same : Text.fromUtf8Lossy file.bytes = text := by
    rw [← bytes, Text.fromUtf8Lossy_asBytes]
  rw [← mapM_lines rfl alike rfl, ← filtered]
  simp only [File.readJsonl, present, same, bytes, Bool.not_true, Bool.false_eq_true, if_false, if_true]
  cases ((Text.lines text).filter fun line => !(Text.trim line).isEmpty).mapM serde.fromStr <;> rfl

end ValidText

theorem readJsonl_eq {file : File} (sound : file.Sound serde.codec) :
    (TornLog.Whole serde.codec file.bytes → file.readJsonl serde = .ok (file.read serde.codec)) ∧
      (¬ TornLog.Whole serde.codec file.bytes → file.readJsonl serde = .error .other) := by
  cases present : file.present with
  | false =>
      have empty := sound.here.absent present
      have whole : TornLog.Whole serde.codec file.bytes := empty ▸ TornLog.whole_nil serde.codec
      exact ⟨fun _ => by simp [File.readJsonl, present, sound.read_absent present], fun torn => absurd whole torn⟩
  | true =>
      by_cases valid : ∃ text, Text.asBytes text = file.bytes
      · obtain ⟨text, bytes⟩ := valid
        rw [readJsonl_text bytes present sound.here.torn, whole_text bytes, read_text bytes]
        exact ⟨fun all => by rw [if_pos all, Option.elim_some], fun cut => by rw [if_neg cut, Option.elim_none]⟩
      · have lossy : Text.asBytes (Text.fromUtf8Lossy file.bytes) ≠ file.bytes := fun same => valid ⟨_, same⟩
        refine ⟨fun whole => absurd (valid_of_whole sound.here.torn whole) valid, fun _ => ?_⟩
        simp only [File.readJsonl, present, lossy, Bool.not_true, Bool.false_eq_true, if_false]

namespace File

variable {file : File}

theorem isOk_readJsonl (sound : file.Sound serde.codec) :
    (file.readJsonl serde).isOk = true ↔ TornLog.Whole serde.codec file.bytes := by
  have read := readJsonl_eq sound
  by_cases whole : TornLog.Whole serde.codec file.bytes
  · exact iff_of_true (by rw [read.1 whole]; rfl) whole
  · exact iff_of_false (by rw [read.2 whole]; exact Bool.false_ne_true) whole

theorem isOk_committed (sound : file.Sound serde.codec) {after : File} (kept : after.Sound serde.codec) {record : R}
    (written : after.bytes = TornLog.append serde.codec file.bytes record (file.lineLength serde.codec record)) :
    (after.readJsonl serde).isOk = (file.readJsonl serde).isOk := by
  have ends := TornLog.whole_append serde.codec file.bytes record (file.lineLength serde.codec record)
  have lands : TornLog.Lands serde.codec file.bytes record (file.lineLength serde.codec record) := Nat.le_succ _
  rw [Bool.eq_iff_iff, isOk_readJsonl kept, isOk_readJsonl sound, written]
  exact ⟨ends.1, fun whole => ends.2 whole lands⟩

theorem Appends.loads {record : R} {durability : AppendDurability} {done : Except AppendLineError Unit × File}
    (appends : Appends serde.codec file record durability done) (sound : file.Sound serde.codec) (faults : AppendFaults) :
    Loads (file.readJsonl serde) (.append record durability faults) done.1 (done.2.readJsonl serde) := by
  have after := appends.sound sound
  cases appends with
  | unopened error => exact id
  | unseen error =>
      intro loaded
      rw [isOk_readJsonl after, openCreate_bytes] at loaded
      exact (isOk_readJsonl sound).mpr loaded
  | torn error written =>
      intro loaded
      rw [isOk_readJsonl after] at loaded
      exact (isOk_readJsonl sound).mpr ((TornLog.whole_append serde.codec file.bytes record written).1 loaded)
  | unflushed error => exact isOk_committed sound after rfl
  | unsynced error => exact isOk_committed sound after rfl
  | buffered => exact isOk_committed sound after rfl
  | durable => exact isOk_committed sound after rfl

end File

end Strict

end GrokPi.Session
