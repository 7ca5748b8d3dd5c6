import GrokPi.Shared.Json
import GrokPi.Shared.Runs

set_option autoImplicit false

namespace GrokPi.Workflow

abbrev Bytes := List UInt8

def newline : UInt8 := 10

def isAsciiWhitespace (byte : UInt8) : Bool :=
  byte == 9 || byte == 10 || byte == 12 || byte == 13 || byte == 32

def maxJournalBytes : Nat := 64 * 1024 * 1024

def maxHostCalls : Nat := 10000

def maxJournalEntries : Nat := maxHostCalls

def hostErrorKey : Text := "__xai_workflow_host_error".toList

structure JournalEntry where
  seq : Nat
  kind : Text
  reqHash : Text
  result : Json
  atMs : Nat

inductive JournalError where
  | io (error : Text)
  | parse (line : Nat) (error : Text)
  | unsafeRestore (limit : Nat) (reason : Text)
  | full (seq limit : Nat)
  | sequence (index expected actual : Nat)
  | divergence (seq : Nat) (kind : Text)

/-- How entries become lines, and what the journal relies on for it. -/
structure EntryCodec where
  encode : JournalEntry → Bytes
  decode : Bytes → Except Text JournalEntry
  oneLine : ∀ entry, newline ∉ encode entry
  visible : ∀ entry, ¬ (encode entry).all isAsciiWhitespace
  torn : ∀ entry part lost, encode entry = part ++ lost → lost ≠ [] →
    (decode part).toOption = none

structure Journal where
  entries : List JournalEntry
  bytes : Nat
  lastLineStart : Option Nat

namespace Journal

def new : Journal :=
  { entries := []
    bytes := 0
    lastLineStart := none }

variable (codec : EntryCodec)

def validateSequence (entries : List JournalEntry) (entry : JournalEntry) : Except JournalError Unit :=
  if entry.seq ≠ entries.length then
    .error (.sequence entries.length entries.length entry.seq)
  else .ok ()

inductive TailRepair where
  | keep
  | truncate (len : Nat)
  | terminate
  deriving DecidableEq

def tooManyEntries : JournalError :=
  .unsafeRestore maxJournalEntries "too many journal entries".toList

def push (entries : List JournalEntry) (entry : JournalEntry) : Except JournalError (List JournalEntry) := do
  if maxJournalEntries ≤ entries.length then throw tooManyEntries
  validateSequence entries entry
  return entries ++ [entry]

def loadLines : Nat → Nat → Nat → List JournalEntry → Option Nat → Bytes →
    Except JournalError (List JournalEntry × Option Nat × TailRepair)
  | 0, _, _, entries, lastLineStart, _ => .ok (entries, lastLineStart, .keep)
  | fuel + 1, offset, lineNumber, entries, lastLineStart, rest =>
      if rest.isEmpty then .ok (entries, lastLineStart, .keep)
      else
        let line := rest.takeWhile fun byte => byte != newline
        match rest.dropWhile fun byte => byte != newline with
        | [] =>
            if line.all isAsciiWhitespace then .ok (entries, lastLineStart, .truncate offset)
            else
              match codec.decode line with
              | .ok entry => do
                  let entries ← push entries entry
                  .ok (entries, some offset, .terminate)
              | .error _ => .ok (entries, lastLineStart, .truncate offset)
        | _ :: after =>
            let next := offset + line.length + 1
            if line.all isAsciiWhitespace then
              loadLines fuel next (lineNumber + 1) entries lastLineStart after
            else
              match codec.decode line with
              | .error error => .error (.parse (lineNumber + 1) error)
              | .ok entry => do
                  let entries ← push entries entry
                  loadLines fuel next (lineNumber + 1) entries (some offset) after

def TailRepair.apply (content : Bytes) : TailRepair → Bytes
  | .keep => content
  | .truncate len => content.take len
  | .terminate => content ++ [newline]

/-- A journal and the file as it is after the load; a file that is not there is empty. -/
def load (content : Bytes) : Except JournalError (Journal × Bytes) :=
  if maxJournalBytes < content.length then
    .error (.unsafeRestore maxJournalBytes
      ("journal exceeds ".toList ++ Nat.toDigits 10 maxJournalBytes ++ " bytes".toList))
  else do
    let (entries, lastLineStart, repair) ← loadLines codec (content.length + 1) 0 0 [] none content
    let file := repair.apply content
    .ok ({ entries, bytes := file.length, lastLineStart }, file)

def entryLine (entry : JournalEntry) : Bytes := codec.encode entry ++ [newline]

def prepare (journal : Journal) (entry : JournalEntry) : Except JournalError Bytes := do
  validateSequence journal.entries entry
  if maxJournalBytes < journal.bytes + (entryLine codec entry).length then
    throw (.full entry.seq maxJournalBytes)
  return entryLine codec entry

def recorded (journal : Journal) (entry : JournalEntry) (line : Bytes) : Journal :=
  { entries := journal.entries ++ [entry]
    bytes := journal.bytes + line.length
    lastLineStart := some journal.bytes }

def hostErrorMessage (entry : JournalEntry) : Option Text :=
  (entry.result.get hostErrorKey).bind Json.asText

def prunable (journal : Journal) (failureDetail : Text) : Except JournalError (Option Nat) :=
  match journal.entries.getLast?.bind hostErrorMessage with
  | none => .ok none
  | some message =>
      if message.isEmpty || (Text.find message failureDetail).isNone then .ok none
      else
        match journal.lastLineStart with
        | none =>
            .error (.io "journal cannot locate the trailing entry's byte offset".toList)
        | some newLen => .ok (some newLen)

def pruned (journal : Journal) (newLen : Nat) : Journal :=
  { entries := journal.entries.dropLast
    bytes := newLen
    lastLineStart := none }

/-- The journal and the file that a resumed run begins with; one that failed loses the error at its end. -/
def resume (content : Bytes) (failure : Option Text) : Except JournalError (Journal × Bytes) := do
  let (journal, file) ← load codec content
  match failure with
  | none => return (journal, file)
  | some failureDetail =>
      match ← prunable journal failureDetail with
      | none => return (journal, file)
      | some newLen => return (pruned journal newLen, file.take newLen)

section Loading

variable {codec : EntryCodec}

def render (codec : EntryCodec) (entries : List JournalEntry) : Bytes :=
  entries.flatMap (entryLine codec)

def Dense (entries : List JournalEntry) : Prop := entries.map (·.seq) = List.range entries.length

/-- The parser gives the entry back; it does not for every number, nor for a value nested too deeply. -/
def Readable (codec : EntryCodec) (entry : JournalEntry) : Prop :=
  codec.decode (codec.encode entry) = .ok entry

structure Stored (codec : EntryCodec) (entries : List JournalEntry) : Prop where
  dense : Dense entries
  room : entries.length ≤ maxJournalEntries
  readable : ∀ entry ∈ entries, Readable codec entry

def lastStart (codec : EntryCodec) (offset : Nat) (last : Option Nat) : List JournalEntry → Option Nat
  | [] => last
  | entry :: rest => lastStart codec (offset + (entryLine codec entry).length) (some offset) rest

@[simp] theorem render_nil : render codec [] = [] := rfl

@[simp] theorem render_append (first second : List JournalEntry) :
    render codec (first ++ second) = render codec first ++ render codec second := by
  simp [render]

@[simp] theorem render_singleton (entry : JournalEntry) : render codec [entry] = entryLine codec entry := by
  simp [render]

theorem lastStart_concat (offset : Nat) (last : Option Nat) (entries : List JournalEntry)
    (entry : JournalEntry) :
    lastStart codec offset last (entries ++ [entry]) = some (offset + (render codec entries).length) := by
  induction entries generalizing offset last with
  | nil => simp [lastStart]
  | cons first rest ih =>
      rw [List.cons_append, lastStart, ih]
      simp only [render, List.flatMap_cons, List.length_append]
      congr 1
      omega

theorem dense_concat {entries : List JournalEntry} {entry : JournalEntry} :
    Dense (entries ++ [entry]) ↔ Dense entries ∧ entry.seq = entries.length := by
  simp only [Dense, List.map_append, List.length_append, List.map_cons, List.map_nil, List.length_cons,
    List.length_nil, List.range_succ]
  constructor
  · intro same
    have ⟨init, last⟩ := List.append_inj' same rfl
    exact ⟨init, by simpa using last⟩
  · intro ⟨init, last⟩
    rw [init, last]

theorem push_ok {entries : List JournalEntry} {entry : JournalEntry} (room : entries.length < maxJournalEntries)
    (next : entry.seq = entries.length) : push entries entry = .ok (entries ++ [entry]) := by
  simp [push, validateSequence, next, Nat.not_le.mpr room, bind, Except.bind, pure, Except.pure]

theorem push_full {entries : List JournalEntry} (entry : JournalEntry)
    (full : maxJournalEntries ≤ entries.length) : push entries entry = .error tooManyEntries := by
  simp [push, full, bind, Except.bind, throw, throwThe, MonadExceptOf.throw]

theorem takeWhile_line (entry : JournalEntry) (rest : Bytes) :
    (codec.encode entry ++ newline :: rest).takeWhile (fun byte => byte != newline) = codec.encode entry ∧
      (codec.encode entry ++ newline :: rest).dropWhile (fun byte => byte != newline) = newline :: rest := by
  have kept : ∀ byte ∈ codec.encode entry, (byte != newline) = true := by
    intro byte member
    have other : byte ≠ newline := fun same => codec.oneLine entry (same ▸ member)
    simpa using other
  constructor
  · rw [List.takeWhile_append_of_pos kept]
    simp
  · rw [List.dropWhile_append_of_pos kept]
    simp

theorem stored_of_isPrefix {kept entries : List JournalEntry} (part : kept <+: entries)
    (stored : Stored codec entries) : Stored codec kept := by
  obtain ⟨more, rfl⟩ := part
  refine ⟨?_, ?_, fun entry member => stored.readable entry (by simp [member])⟩
  · have taken := congrArg (List.take kept.length) stored.dense
    rw [← List.map_take, List.take_left, List.take_range] at taken
    rw [Dense, taken]
    congr 1
    simp
  · have room := stored.room
    rw [List.length_append] at room
    omega

theorem loadLines_render (entries : List JournalEntry) (fuel offset lineNumber : Nat)
    (before : List JournalEntry) (last : Option Nat) (tail : Bytes)
    (stored : Stored codec (before ++ entries)) :
    loadLines codec (fuel + entries.length) offset lineNumber before last (render codec entries ++ tail) =
      loadLines codec fuel (offset + (render codec entries).length) (lineNumber + entries.length)
        (before ++ entries) (lastStart codec offset last entries) tail := by
  -- The loop passes one complete line after the other.
  induction entries generalizing offset lineNumber before last with
  | nil => simp [lastStart]
  | cons entry rest ih =>
      have split : before ++ entry :: rest = before ++ [entry] ++ rest := by simp
      have first : Stored codec (before ++ [entry]) :=
        stored_of_isPrefix (split ▸ List.prefix_append _ _) stored
      have more : before.length < maxJournalEntries := by
        have room := stored.room
        simp only [List.length_append, List.length_cons] at room
        omega
      have pushed := push_ok more (dense_concat.mp first.dense).2
      have read : codec.decode (codec.encode entry) = .ok entry := stored.readable entry (by simp)
      have ⟨line, after⟩ := @takeWhile_line codec entry (render codec rest ++ tail)
      have text : render codec (entry :: rest) ++ tail =
          codec.encode entry ++ newline :: (render codec rest ++ tail) := by
        simp [render, entryLine]
      have fuel' : fuel + (entry :: rest).length = fuel + rest.length + 1 := by simp; omega
      have some' : (codec.encode entry ++ newline :: (render codec rest ++ tail)).isEmpty = false := by
        simp
      rw [fuel', text, loadLines]
      simp only [some', line, after, codec.visible entry, read, pushed,
        Bool.false_eq_true, if_false, bind, Except.bind]
      rw [ih _ _ _ _ (split ▸ stored), lastStart]
      have start : offset + (codec.encode entry).length + 1 = offset + (entryLine codec entry).length := by
        simp [entryLine]
        omega
      have size : (render codec (entry :: rest)).length =
          (entryLine codec entry).length + (render codec rest).length := by
        simp [render]
      rw [start, size, ← Nat.add_assoc, List.length_cons, ← split]
      congr 1
      omega

theorem length_le_render (entries : List JournalEntry) : entries.length ≤ (render codec entries).length := by
  induction entries with
  | nil => simp
  | cons entry rest ih =>
      simp only [render, List.flatMap_cons, List.length_append, List.length_cons, entryLine] at ih ⊢
      omega

theorem load_lines (entries : List JournalEntry) (tail : Bytes) (stored : Stored codec entries)
    (small : (render codec entries ++ tail).length ≤ maxJournalBytes) :
    load codec (render codec entries ++ tail) =
      (loadLines codec ((render codec entries ++ tail).length + 1 - entries.length)
          (render codec entries).length entries.length entries (lastStart codec 0 none entries)
          tail).map fun (entries', last, repair) =>
        let file := repair.apply (render codec entries ++ tail)
        ({ entries := entries', bytes := file.length, lastLineStart := last }, file) := by
  have count := @length_le_render codec entries
  have fuel : (render codec entries ++ tail).length + 1 =
      (render codec entries ++ tail).length + 1 - entries.length + entries.length := by
    simp only [List.length_append]
    omega
  have passed := @loadLines_render codec entries
    ((render codec entries ++ tail).length + 1 - entries.length) 0 0 [] none tail stored
  rw [← fuel, Nat.zero_add, Nat.zero_add, List.nil_append] at passed
  rw [load, if_neg (by omega), passed]
  cases loadLines codec ((render codec entries ++ tail).length + 1 - entries.length)
    (render codec entries).length entries.length entries (lastStart codec 0 none entries) tail <;> rfl

def loaded (codec : EntryCodec) (entries : List JournalEntry) : Journal × Bytes :=
  ({ entries
     bytes := (render codec entries).length
     lastLineStart := lastStart codec 0 none entries }, render codec entries)

section Tails

variable {entries : List JournalEntry} (stored : Stored codec entries)

include stored

theorem load_complete (small : (render codec entries).length ≤ maxJournalBytes) :
    load codec (render codec entries) = .ok (loaded codec entries) := by
  have read := load_lines entries [] stored (by simpa using small)
  have fuel : (render codec entries).length + 1 - entries.length =
      (render codec entries).length - entries.length + 1 := by
    have count := @length_le_render codec entries
    omega
  simp only [List.append_nil, fuel, loadLines, List.isEmpty_nil, if_true] at read
  exact read

theorem load_tail {part : Bytes} (some' : part ≠ []) (oneLine : newline ∉ part)
    (small : (render codec entries ++ part).length ≤ maxJournalBytes) :
    load codec (render codec entries ++ part) =
      if part.all isAsciiWhitespace then .ok (loaded codec entries)
      else
        match codec.decode part with
        | .error _ => .ok (loaded codec entries)
        | .ok entry => (push entries entry).map fun entries' =>
            ({ entries := entries'
               bytes := (render codec entries ++ part ++ [newline]).length
               lastLineStart := some (render codec entries).length },
              render codec entries ++ part ++ [newline]) := by
  -- A tail without a newline, which is not the empty one.
  have read := load_lines entries part stored small
  have count := @length_le_render codec entries
  have fuel : (render codec entries ++ part).length + 1 - entries.length =
      (render codec entries ++ part).length - entries.length + 1 := by
    simp only [List.length_append]
    omega
  have kept : ∀ byte ∈ part, (byte != newline) = true := by
    intro byte member
    have other : byte ≠ newline := fun same => oneLine (same ▸ member)
    simpa using other
  have whole : part.takeWhile (fun byte => byte != newline) = part ∧
      part.dropWhile (fun byte => byte != newline) = [] :=
    ⟨List.takeWhile_eq_self_iff.mpr kept, List.dropWhile_eq_nil_iff.mpr kept⟩
  have some'' : part.isEmpty = false := by simpa using some'
  rw [fuel, loadLines] at read
  simp only [some'', whole, Bool.false_eq_true, if_false] at read
  rw [read]
  split
  · simp [TailRepair.apply, loaded, Except.map]
  · cases codec.decode part with
    | error error => simp [TailRepair.apply, loaded, Except.map]
    | ok entry => cases pushed : push entries entry <;> simp [pushed, bind, Except.bind, Except.map, TailRepair.apply]

theorem load_line {entry : JournalEntry}
    (small : (render codec entries ++ entryLine codec entry).length ≤ maxJournalBytes) :
    load codec (render codec entries ++ entryLine codec entry) =
      match codec.decode (codec.encode entry) with
      | .error error => .error (.parse (entries.length + 1) error)
      | .ok entry' => (push entries entry').map fun entries' =>
          ({ entries := entries'
             bytes := (render codec entries ++ entryLine codec entry).length
             lastLineStart := some (render codec entries).length },
            render codec entries ++ entryLine codec entry) := by
  -- A tail that is one complete line.
  have count := @length_le_render codec entries
  have read := load_lines entries (entryLine codec entry) stored small
  have fuel : (render codec entries ++ entryLine codec entry).length + 1 - entries.length =
      (render codec entries ++ codec.encode entry).length - entries.length + 1 + 1 := by
    simp only [List.length_append, entryLine, List.length_cons, List.length_nil]
    omega
  have ⟨line, after⟩ := @takeWhile_line codec entry []
  have some' : (codec.encode entry ++ [newline]).isEmpty = false := by simp
  rw [fuel, loadLines] at read
  simp only [entryLine, some', line, after, codec.visible entry, Bool.false_eq_true, if_false] at read ⊢
  rw [read]
  cases codec.decode (codec.encode entry) with
  | error error => rfl
  | ok entry' => cases pushed : push entries entry' <;> simp [pushed, bind, Except.bind, Except.map, loadLines, TailRepair.apply]

theorem load_torn {part : Bytes} (oneLine : newline ∉ part) (torn : (codec.decode part).toOption = none)
    (small : (render codec entries ++ part).length ≤ maxJournalBytes) :
    load codec (render codec entries ++ part) = .ok (loaded codec entries) := by
  -- A tail that is no entry is cut off.
  by_cases some' : part = []
  · subst some'
    rw [List.append_nil] at small ⊢
    exact load_complete stored small
  · rw [load_tail stored some' oneLine small]
    split
    · rfl
    · cases read : codec.decode part with
      | error error => rfl
      | ok entry => simp [read, Except.toOption] at torn

end Tails

section Parts

variable {entries : List JournalEntry}

theorem part_of_render {part : Bytes} (cut : part <+: render codec entries) :
    ∃ init torn, part = render codec init ++ torn ∧
      (init = entries ∧ torn = [] ∨ ∃ last, init ++ [last] <+: entries ∧ torn <+: codec.encode last) := by
  induction entries generalizing part with
  | nil => exact ⟨[], [], List.prefix_nil.mp cut, .inl ⟨rfl, rfl⟩⟩
  | cons entry rest ih =>
      have text : render codec (entry :: rest) = codec.encode entry ++ (newline :: render codec rest) := by
        simp [render, entryLine]
      have begins : codec.encode entry <+: render codec (entry :: rest) := text ▸ List.prefix_append _ _
      rcases List.prefix_or_prefix_of_prefix cut begins with inside | ⟨more, rfl⟩
      · exact ⟨[], part, rfl, .inr ⟨entry, by simp, inside⟩⟩
      · rw [text, List.prefix_append_right_inj, List.prefix_cons_iff] at cut
        rcases cut with rfl | ⟨more, rfl, cut⟩
        · exact ⟨[], codec.encode entry, by simp, .inr ⟨entry, by simp, List.prefix_rfl⟩⟩
        · obtain ⟨init, torn, rfl, ends⟩ := ih cut
          refine ⟨entry :: init, torn, by simp [render, entryLine], ?_⟩
          rcases ends with ⟨rfl, none'⟩ | ⟨last, within, begun⟩
          · exact .inl ⟨rfl, none'⟩
          · exact .inr ⟨last, List.cons_prefix_cons.mpr ⟨rfl, within⟩, begun⟩

theorem prefix_of_render_le {entries first second : List JournalEntry} (one : first <+: entries)
    (two : second <+: entries) (short : (render codec first).length ≤ (render codec second).length) :
    first <+: second := by
  rcases List.prefix_or_prefix_of_prefix one two with within | ⟨more, rfl⟩
  · exact within
  · have count := @length_le_render codec more
    rw [render_append, List.length_append] at short
    have none' : more = [] := List.length_eq_zero_iff.mp (by omega)
    simp [none']

structure Reads (codec : EntryCodec) (entries : List JournalEntry) (content : Bytes) (journal : Journal)
    (file : Bytes) : Prop where
  file : file = render codec journal.entries
  part : journal.entries <+: entries
  whole : ∀ kept, kept <+: entries → render codec kept <+: content → kept <+: journal.entries
  lastLineStart : ∀ init last, journal.entries = init ++ [last] →
    journal.lastLineStart = some (render codec init).length

theorem loaded_lastLineStart {entries init : List JournalEntry} {last : JournalEntry}
    (ends : entries = init ++ [last]) :
    (loaded codec entries).1.lastLineStart = some (render codec init).length := by
  simp [loaded, ends, lastStart_concat]

theorem load_part {part : Bytes} (stored : Stored codec entries)
    (small : (render codec entries).length ≤ maxJournalBytes) (cut : part <+: render codec entries) :
    ∃ journal file, load codec part = .ok (journal, file) ∧ Reads codec entries part journal file := by
  have small' : part.length ≤ maxJournalBytes := cut.length_le.trans small
  obtain ⟨init, torn, rfl, ⟨rfl, rfl⟩ | ⟨last, within, begun⟩⟩ := part_of_render cut
  · rw [List.append_nil] at small' ⊢
    refine ⟨_, _, load_complete stored small', rfl, List.prefix_rfl, fun kept one _ => one, ?_⟩
    exact fun front last ends => loaded_lastLineStart ends
  · have stored' : Stored codec (init ++ [last]) := stored_of_isPrefix within stored
    have front : Stored codec init := stored_of_isPrefix (List.prefix_append _ _) stored'
    have oneLine : newline ∉ torn := fun member => codec.oneLine last (begun.subset member)
    have kept' : ∀ kept, kept <+: entries → render codec kept <+: render codec init ++ torn → kept <+: init := by
      intro kept one two
      have short := two.length_le
      have size := begun.length_le
      have lines : (render codec (init ++ [last])).length =
          (render codec init).length + (codec.encode last).length + 1 := by
        simp [entryLine, Nat.add_assoc]
      rw [List.length_append] at short
      have least := @prefix_of_render_le codec _ _ _ one within (by omega)
      rcases List.prefix_concat_iff.mp least with rfl | least
      · omega
      · exact least
    by_cases done : torn = codec.encode last
    · -- only the newline is missing, and the load writes it
      subst done
      have some' : codec.encode last ≠ [] := by
        intro empty
        have visible := codec.visible last
        simp [empty] at visible
      have more : init.length < maxJournalEntries := by
        have room := stored'.room
        simp only [List.length_append, List.length_cons, List.length_nil] at room
        omega
      have pushed := push_ok more (dense_concat.mp stored'.dense).2
      have read : codec.decode (codec.encode last) = .ok last := stored'.readable last (by simp)
      have loads := load_tail front some' oneLine small'
      rw [if_neg (codec.visible last), read] at loads
      simp only [pushed, Except.map] at loads
      refine ⟨_, _, loads, ?_, within, fun kept one two => (kept' kept one two).trans (List.prefix_append _ _), ?_⟩
      · simp [entryLine]
      · intro front' last' ends
        have ⟨same, _⟩ := List.append_inj' ends rfl
        simp [same]
    · have torn' : (codec.decode torn).toOption = none := by
        obtain ⟨lost, split⟩ := begun
        refine codec.torn last torn lost split.symm ?_
        rintro rfl
        exact done (by simpa using split)
      refine ⟨_, _, load_torn front oneLine torn' small', rfl, (List.prefix_append _ _).trans within, kept', ?_⟩
      exact fun front' last' ends => loaded_lastLineStart ends

theorem prunable_cases {journal : Journal} (start : ∀ init last, journal.entries = init ++ [last] →
      journal.lastLineStart = some (render codec init).length) (failureDetail : Text) :
    prunable journal failureDetail = .ok none ∨
      ∃ init last, journal.entries = init ++ [last] ∧
        prunable journal failureDetail = .ok (some (render codec init).length) := by
  unfold prunable
  cases named : journal.entries.getLast?.bind hostErrorMessage with
  | none => exact .inl rfl
  | some message =>
      obtain ⟨last, ends, -⟩ := Option.bind_eq_some_iff.mp named
      obtain ⟨init, split⟩ := List.getLast?_eq_some_iff.mp ends
      simp only [start init last split]
      split
      · exact .inl rfl
      · exact .inr ⟨init, last, split, rfl⟩

theorem resume_part {part : Bytes} (stored : Stored codec entries)
    (small : (render codec entries).length ≤ maxJournalBytes) (cut : part <+: render codec entries)
    (failure : Option Text) :
    ∃ journal, resume codec part failure = .ok (journal, render codec journal.entries) ∧
      journal.entries <+: entries ∧
      ∀ kept, kept <+: entries → render codec kept <+: part →
        kept.dropLast <+: journal.entries ∧ (failure = none → kept <+: journal.entries) := by
  obtain ⟨journal, file, loads, reads⟩ := load_part stored small cut
  have all : ∀ kept, kept <+: entries → render codec kept <+: part →
      kept.dropLast <+: journal.entries ∧ (failure = none → kept <+: journal.entries) := by
    intro kept one two
    have whole := reads.whole kept one two
    exact ⟨(List.dropLast_prefix kept).trans whole, fun _ => whole⟩
  have loaded' : load codec part = .ok (journal, render codec journal.entries) := by rw [loads, reads.file]
  unfold resume
  simp only [loaded', bind, Except.bind, pure, Except.pure]
  cases failure with
  | none => exact ⟨journal, rfl, reads.part, all⟩
  | some failureDetail =>
      rcases prunable_cases reads.lastLineStart failureDetail with same | ⟨init, last, split, cut'⟩
      · exact ⟨journal, by simp [same], reads.part, all⟩
      · refine ⟨pruned journal (render codec init).length, ?_, ?_, ?_⟩
        · simp [cut', split, pruned]
        · exact (List.dropLast_prefix _).trans reads.part
        · intro kept one two
          have whole := reads.whole kept one two
          refine ⟨?_, by simp⟩
          rw [split] at whole
          rcases List.prefix_concat_iff.mp whole with rfl | front
          · simp [pruned, split]
          · simpa [pruned, split] using (List.dropLast_prefix kept).trans front

end Parts

end Loading

end Journal

end GrokPi.Workflow
