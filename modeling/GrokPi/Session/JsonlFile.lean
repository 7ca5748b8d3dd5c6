import GrokPi.Shared.Runs
import GrokPi.Shared.TornLog
import GrokPi.Shared.Utf8
import GrokPi.Shared.Json
import GrokPi.Shared.TextLines

set_option autoImplicit false

namespace GrokPi.Session

abbrev Bytes := List UInt8

abbrev newline : UInt8 := 10

def isAsciiWhitespace (byte : UInt8) : Bool :=
  byte == 9 || byte == 10 || byte == 12 || byte == 13 || byte == 32

inductive IoError where
  | storageFull
  | other
  deriving DecidableEq

abbrev IoResult : Type := Except IoError Unit

section Records

universe v

structure Serde (R : Type v) where
  members : R → List (Text × Json)
  ofJson : Json → Option R
  ofJson_members : ∀ record, ofJson (.object (members record)) = some record

namespace Serde

variable {R : Type v} (serde : Serde R)

def toVec (record : R) : Bytes := Text.asBytes (Json.object (serde.members record)).print

def trimAscii (line : Bytes) : Bytes := (line.dropWhile isAsciiWhitespace).rdropWhile isAsciiWhitespace

def fromSlice (line : Bytes) : Option R :=
  let line := trimAscii line
  let text := Text.fromUtf8Lossy line
  if Text.asBytes text = line then (Json.parse text).bind serde.ofJson else none

def fromStr (line : Text) : Option R := (Json.parse line).bind serde.ofJson

theorem toVec_head (record : R) : ∃ rest, serde.toVec record = 123 :: rest := ⟨_, rfl⟩

theorem toVec_last (record : R) : ∃ front, serde.toVec record = front ++ [125] := by
  refine ⟨Text.asBytes ('{' :: Json.printMembers (serde.members record)), ?_⟩
  have closing : Text.asBytes ['}'] = [125] := by decide
  rw [toVec, Json.print, Text.asBytes_append, closing]

theorem trimAscii_prefix (rest : Bytes) : trimAscii (123 :: rest) <+: 123 :: rest := by
  have start : isAsciiWhitespace 123 = false := by decide
  rw [trimAscii, List.dropWhile_cons_of_neg (by simp [start])]
  exact List.rdropWhile_prefix isAsciiWhitespace _

theorem trimAscii_toVec (record : R) : trimAscii (serde.toVec record) = serde.toVec record := by
  obtain ⟨rest, head⟩ := serde.toVec_head record
  obtain ⟨front, last⟩ := serde.toVec_last record
  have start : isAsciiWhitespace 123 = false := by decide
  have kept : (serde.toVec record).dropWhile isAsciiWhitespace = serde.toVec record := by
    rw [head, List.dropWhile_cons_of_neg (by simp [start])]
  rw [trimAscii, kept, last, List.rdropWhile_concat_neg isAsciiWhitespace front 125 (by decide)]

theorem fromSlice_toVec (record : R) : serde.fromSlice (serde.toVec record) = some record := by
  rw [fromSlice, trimAscii_toVec]
  simp [toVec, Text.fromUtf8Lossy_asBytes, Json.parse_print, serde.ofJson_members]

theorem fromSlice_torn (record : R) (front lost : Bytes) (split : serde.toVec record = front ++ lost) (torn : lost ≠ []) :
    serde.fromSlice front = none := by
  cases front with
  | nil => rfl
  | cons first tail =>
      obtain ⟨rest, head⟩ := serde.toVec_head record
      have brace : first = 123 := by
        rw [head] at split
        simpa using (congrArg List.head? split).symm
      obtain ⟨blanks, trimmed⟩ := trimAscii_prefix tail
      subst brace
      rw [fromSlice]
      by_cases text : Text.asBytes (Text.fromUtf8Lossy (trimAscii (123 :: tail))) = trimAscii (123 :: tail)
      · -- The trimmed piece is the text of a strict beginning of the object.
        have longer : serde.toVec record =
            Text.asBytes (Text.fromUtf8Lossy (trimAscii (123 :: tail))) ++ (blanks ++ lost) := by
          rw [text, split, ← List.append_assoc, trimmed]
        obtain ⟨more, whole, left⟩ := Text.asBytes_split longer
        have cut : more ≠ [] := by
          intro none'
          rw [none', Text.asBytes_nil] at left
          exact torn (List.append_eq_nil_iff.mp left).2
        have unread : Json.parse (Text.fromUtf8Lossy (trimAscii (123 :: tail))) = none := Json.parse_torn whole cut
        simp [text, unread]
      · simp [text]

def codec : TornLog.LineCodec UInt8 R where
  separator := newline
  encode := serde.toVec
  decode := serde.fromSlice
  decode_encode := serde.fromSlice_toVec
  one_line := fun _ member => Json.print_one_line _ (Text.newline_mem_asBytes member)
  blank := rfl
  torn := serde.fromSlice_torn

end Serde

structure SessionUpdateEnvelope where
  timestamp : Nat
  method : Text
  params : Json

namespace SessionUpdateEnvelope

def members (envelope : SessionUpdateEnvelope) : List (Text × Json) :=
  [("timestamp".toList, .number (.ofNat envelope.timestamp)), ("method".toList, .string envelope.method),
    ("params".toList, envelope.params)]

def ofJson (json : Json) : Option SessionUpdateEnvelope := do
  let method ← (json.get "method".toList).bind Json.asText
  let params ← json.get "params".toList
  some
    { timestamp := ((json.get "timestamp".toList).bind Json.asNat).getD 0
      method, params }

theorem ofJson_members (envelope : SessionUpdateEnvelope) : ofJson (.object envelope.members) = some envelope := by
  have timestamp : (Json.object envelope.members).get "timestamp".toList = some (.number (.ofNat envelope.timestamp)) := rfl
  have method : (Json.object envelope.members).get "method".toList = some (.string envelope.method) := rfl
  have params : (Json.object envelope.members).get "params".toList = some envelope.params := rfl
  rw [ofJson, timestamp, method, params]
  simp [Json.asNat, Json.asText]

def serde : Serde SessionUpdateEnvelope where
  members := members
  ofJson := ofJson
  ofJson_members := ofJson_members

end SessionUpdateEnvelope

end Records

section Files

/-- A file that is there or not, and how many of its bytes are on stable media. -/
structure Contents where
  present : Bool
  bytes : Bytes
  synced : Nat

def Contents.absent : Contents :=
  { present := false
    bytes := []
    synced := 0 }

/-- What a name stands for, and what it may stand for again behind a power loss while its directory is not synced. -/
structure File extends Contents where
  replaced : List Contents

def File.new : File :=
  { Contents.absent with
    replaced := [] }

inductive AppendDurability where
  | buffered
  | durable
  deriving DecidableEq

/-- What was committed is in the file, and a later sync may still make it durable. -/
inductive AppendLineError where
  | notCommitted (error : IoError)
  | committed (error : IoError)

structure AppendFaults where
  -- The lock, and the file that is created when it is not there.
  opened : Option IoError
  -- The length and the last byte.
  looked : Option IoError
  -- A write that fails has written some of its bytes.
  written : Option (Nat × IoError)
  flushed : Option IoError
  fileSynced : Option IoError
  parentSynced : Option IoError

/-- A replacement fails before the rename, or behind it, when the directory is not synced. -/
inductive ReplaceFault where
  | kept (error : IoError)
  | unsynced (error : IoError)

universe v

variable {R : Type v} (codec : TornLog.LineCodec UInt8 R)

namespace File

def syncFile (file : File) : File := { file with synced := file.bytes.length }

def syncParent (file : File) : File := { file with replaced := [] }

def openCreate (file : File) : File :=
  if file.present then file
  else
    { file with
      present := true
      replaced := file.toContents :: file.replaced }

def appended (file : File) (record : R) (written : Nat) : File :=
  { file.openCreate with bytes := TornLog.append codec file.bytes record written }

def lineLength (file : File) (record : R) : Nat := (TornLog.heal codec file.bytes (TornLog.line codec record)).length

def appendJsonlLine (file : File) (record : R) (durability : AppendDurability) (faults : AppendFaults) :
    Except AppendLineError Unit × File :=
  match faults.opened, faults.looked with
  | some error, _ => (.error (.notCommitted error), file)
  | none, some error => (.error (.notCommitted error), file.openCreate)
  | none, none =>
      match faults.written with
      | some (written, error) =>
          (.error (.notCommitted error), file.appended codec record (min written (file.lineLength codec record - 1)))
      | none =>
          let file := file.appended codec record (file.lineLength codec record)
          match faults.flushed, durability with
          | some error, _ => (.error (.committed error), file)
          | none, .buffered => (.ok (), file)
          | none, .durable =>
              match faults.fileSynced, faults.parentSynced with
              | some error, _ => (.error (.committed error), file)
              | none, some error => (.error (.committed error), file.syncFile)
              | none, none => (.ok (), file.syncFile.syncParent)

def writeJsonl (file : File) (records : List R) (fault : Option ReplaceFault) : IoResult × File :=
  let written : File :=
    { present := true
      bytes := TornLog.render codec records
      synced := (TornLog.render codec records).length
      replaced := file.toContents :: file.replaced }
  match fault with
  | some (.kept error) => (.error error, file)
  | some (.unsynced error) => (.error error, written)
  | none => (.ok (), written.syncParent)

/-- `read_updates_jsonl`: lines that cannot be read are skipped. -/
def read (file : File) : List R := TornLog.read codec file.bytes

/-- The first line that cannot be read fails the whole file. -/
def readJsonl (serde : Serde R) (file : File) : Except IoError (List R) :=
  if !file.present then .ok []
  else
    let contents := Text.fromUtf8Lossy file.bytes
    if Text.asBytes contents = file.bytes then
      let lines := (Text.lines contents).filter fun line => !line.trim.isEmpty
      match lines.mapM serde.fromStr with
      | some items => .ok items
      | none => .error .other
    else .error .other

def certain (file : File) : List R :=
  if file.replaced.isEmpty then TornLog.read codec (file.bytes.take file.synced) else []

def powerLoss (file : File) (renamesLost kept : Nat) : File :=
  let left := (file.toContents :: file.replaced).getD renamesLost file.toContents
  { left with
    bytes := left.bytes.take (left.synced + kept)
    replaced := [] }

end File

end Files

end GrokPi.Session
