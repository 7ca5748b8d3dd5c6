import GrokPi.Rollback.Journal
import GrokPi.Shared.Json

set_option autoImplicit false

namespace GrokPi.Rollback

section Records

def Tool.name : Tool → Text
  | .write => "write".toList
  | .edit => "edit".toList

def Tool.ofName (name : Text) : Option Tool := [Tool.write, .edit].find? fun tool => tool.name = name

def MutationState.name : MutationState → Text
  | .prepared => "prepared".toList
  | .committed => "committed".toList
  | .unbound => "unbound".toList
  | .reconciled => "reconciled".toList

def MutationState.ofName (name : Text) : Option MutationState :=
  [MutationState.prepared, .committed, .unbound, .reconciled].find? fun state => state.name = name

def TransactionState.name : TransactionState → Text
  | .prepared => "prepared".toList
  | .committed => "committed".toList
  | .compensating => "compensating".toList
  | .failed => "failed".toList

def TransactionState.ofName (name : Text) : Option TransactionState :=
  [TransactionState.prepared, .committed, .compensating, .failed].find? fun state => state.name = name

def StateRef.ofText (text : Text) : Option StateRef :=
  if text = "absent".toList then some .absent
  else if "blob:".toList.isPrefixOf text then
    let hex := text.drop 5
    if size : hex.length = 64 then some (.blob { hex, size }) else none
  else none

def MutationRecord.toJson (m : MutationRecord) : Json :=
  .object <|
    [("sequence".toList, .number (.ofNat m.sequence)),
      ("operationId".toList, .string m.operationId),
      ("piSessionId".toList, .string m.piSessionId),
      ("toolCallId".toList, .string m.toolCallId),
      ("tool".toList, .string m.tool.name),
      ("canonicalPath".toList, .string m.canonicalPath),
      ("before".toList, .string m.before.toText),
      ("after".toList, .string m.after.toText),
      ("state".toList, .string m.state.name),
      ("toolReportedError".toList, .bool m.toolReportedError),
      ("preparedAt".toList, .string m.preparedAt)] ++
    match m.treeEntryId with
    | some id => [("treeEntryId".toList, Json.string id)]
    | none => []

def RollbackTransaction.toJson (tx : RollbackTransaction) : Json :=
  .object
    [("transactionId".toList, .string tx.transactionId),
      ("targetEntryId".toList, .string tx.targetEntryId),
      ("sourceLeafId".toList, .string tx.sourceLeafId),
      ("plannedPaths".toList, .array (tx.plannedPaths.map Json.string)),
      ("state".toList, .string tx.state.name),
      ("createdAt".toList, .string tx.createdAt)]

def JournalRecord.toJson : JournalRecord → Json
  | .mutation record => record.toJson
  | .transaction record => record.toJson

def textField (json : Json) (name : String) : Option Text := (json.get name.toList).bind Json.asText

def MutationRecord.ofJson (json : Json) : Option MutationRecord := do
  let sequence ← (json.get "sequence".toList).bind Json.asNat
  let operationId ← textField json "operationId"
  let piSessionId ← textField json "piSessionId"
  let toolCallId ← textField json "toolCallId"
  let tool ← (textField json "tool").bind Tool.ofName
  let canonicalPath ← textField json "canonicalPath"
  let before ← (textField json "before").bind StateRef.ofText
  let after ← (textField json "after").bind StateRef.ofText
  let state ← (textField json "state").bind MutationState.ofName
  let toolReportedError ← (json.get "toolReportedError".toList).bind Json.asBool
  let preparedAt ← textField json "preparedAt"
  some
    { sequence, operationId, piSessionId
      treeEntryId := textField json "treeEntryId"
      toolCallId, tool, canonicalPath, before, after, state, toolReportedError, preparedAt }

def RollbackTransaction.ofJson (json : Json) : Option RollbackTransaction := do
  let transactionId ← textField json "transactionId"
  let targetEntryId ← textField json "targetEntryId"
  let sourceLeafId ← textField json "sourceLeafId"
  let plannedPaths ← (json.get "plannedPaths".toList).bind Json.asItems
  let plannedPaths ← plannedPaths.mapM Json.asText
  let state ← (textField json "state").bind TransactionState.ofName
  let createdAt ← textField json "createdAt"
  some { transactionId, targetEntryId, sourceLeafId, plannedPaths, state, createdAt }

def JournalRecord.ofJson (json : Json) : Option JournalRecord :=
  if (json.get "operationId".toList).isSome then (MutationRecord.ofJson json).map .mutation
  else (RollbackTransaction.ofJson json).map .transaction

@[simp] theorem tool_ofName (tool : Tool) : Tool.ofName tool.name = some tool := by
  cases tool <;> decide

@[simp] theorem mutationState_ofName (state : MutationState) :
    MutationState.ofName state.name = some state := by
  cases state <;> decide

@[simp] theorem transactionState_ofName (state : TransactionState) :
    TransactionState.ofName state.name = some state := by
  cases state <;> decide

@[simp] theorem stateRef_ofText (ref : StateRef) : StateRef.ofText ref.toText = some ref := by
  cases ref with
  | absent => decide
  | blob digest =>
      have other : "blob:".toList ++ digest.hex ≠ "absent".toList := by
        intro same
        exact absurd (congrArg List.head? same) (by simp)
      change StateRef.ofText ("blob:".toList ++ digest.hex) = _
      rw [StateRef.ofText, if_neg other]
      simp [digest.size]

theorem mapM_decode {α β : Type} (encode : α → β) (decode : β → Option α)
    (inverse : ∀ value, decode (encode value) = some value) (values : List α) :
    (values.map encode).mapM decode = some values := by
  induction values with
  | nil => rfl
  | cons value rest ih =>
      rw [List.map_cons, List.mapM_cons, inverse, ih]
      rfl

theorem mutation_ofJson (m : MutationRecord) : JournalRecord.ofJson m.toJson = some (.mutation m) := by
  obtain ⟨sequence, operationId, piSessionId, treeEntryId, toolCallId, tool, canonicalPath, before,
    after, state, toolReportedError, preparedAt⟩ := m
  cases treeEntryId <;>
    simp [JournalRecord.ofJson, MutationRecord.ofJson, MutationRecord.toJson, textField, Json.get,
      Json.asNat, Json.asText, Json.asBool]

theorem transaction_ofJson (tx : RollbackTransaction) :
    JournalRecord.ofJson tx.toJson = some (.transaction tx) := by
  have paths := mapM_decode Json.string Json.asText (fun _ => rfl) tx.plannedPaths
  simp [JournalRecord.ofJson, RollbackTransaction.ofJson, RollbackTransaction.toJson, textField,
    Json.get, Json.asText, Json.asItems, paths]

theorem record_ofJson (record : JournalRecord) : JournalRecord.ofJson record.toJson = some record := by
  cases record with
  | mutation m => exact mutation_ofJson m
  | transaction tx => exact transaction_ofJson tx

theorem record_object (record : JournalRecord) : ∃ members, record.toJson = .object members := by
  cases record with
  | mutation m => exact ⟨_, rfl⟩
  | transaction tx => exact ⟨_, rfl⟩

end Records

section Lines

def splitLines : Text → List Text
  | [] => [[]]
  | c :: rest =>
      if c = '\n' then [] :: splitLines rest
      else
        match splitLines rest with
        | line :: more => (c :: line) :: more
        | [] => [[c]]

def isBlank (c : Char) : Bool :=
  let n := c.toNat
  (9 ≤ n && n ≤ 13) || n == 0x20 || n == 0xA0 || n == 0x1680 || (0x2000 ≤ n && n ≤ 0x200A) ||
    n == 0x2028 || n == 0x2029 || n == 0x202F || n == 0x205F || n == 0x3000 || n == 0xFEFF

def recordText (record : JournalRecord) : Text := record.toJson.print

def line (record : JournalRecord) : Text := recordText record ++ ['\n']

def render (records : List JournalRecord) : Text := records.flatMap line

/-- One line that is no record hides all the others. -/
def readJournalRecords (file : Text) : List JournalRecord :=
  (((splitLines file).filter fun line => !line.all isBlank).mapM fun line =>
    (Json.parse line).bind JournalRecord.ofJson).getD []

theorem splitLines_line {text : Text} (oneLine : '\n' ∉ text) (rest : Text) :
    splitLines (text ++ '\n' :: rest) = text :: splitLines rest := by
  induction text with
  | nil => simp [splitLines]
  | cons c text ih =>
      have ⟨other, later⟩ := not_or.mp (mt List.mem_cons.mpr oneLine)
      simp [splitLines, Ne.symm other, ih later]

theorem splitLines_last {text : Text} (oneLine : '\n' ∉ text) : splitLines text = [text] := by
  induction text with
  | nil => rfl
  | cons c text ih =>
      have ⟨other, later⟩ := not_or.mp (mt List.mem_cons.mpr oneLine)
      simp [splitLines, Ne.symm other, ih later]

theorem recordText_one_line (record : JournalRecord) : '\n' ∉ recordText record :=
  Json.print_one_line _

theorem recordText_head (record : JournalRecord) : ∃ rest, recordText record = '{' :: rest := by
  obtain ⟨members, same⟩ := record_object record
  exact ⟨_, by rw [recordText, same]; rfl⟩

theorem recordText_parse (record : JournalRecord) :
    (Json.parse (recordText record)).bind JournalRecord.ofJson = some record := by
  rw [recordText, Json.parse_print]
  exact record_ofJson record

theorem splitLines_render (records : List JournalRecord) (tail : Text) :
    splitLines (render records ++ tail) = records.map recordText ++ splitLines tail := by
  induction records with
  | nil => rfl
  | cons record rest ih =>
      simp only [render, line, List.flatMap_cons, List.append_assoc, List.map_cons,
        List.cons_append, List.nil_append] at ih ⊢
      rw [splitLines_line (recordText_one_line record), ih]

theorem read_render_append (records : List JournalRecord) {tail : Text} (oneLine : '\n' ∉ tail) :
    readJournalRecords (render records ++ tail) =
      if tail.all isBlank then records
      else (((Json.parse tail).bind JournalRecord.ofJson).map fun last => records ++ [last]).getD [] := by
  have kept : (records.map recordText).filter (fun line => !line.all isBlank) = records.map recordText := by
    rw [List.filter_eq_self]
    intro text member
    obtain ⟨record, _, rfl⟩ := List.mem_map.mp member
    obtain ⟨rest, head⟩ := recordText_head record
    simp [head, isBlank]
  have read := mapM_decode recordText (fun line => (Json.parse line).bind JournalRecord.ofJson)
    recordText_parse records
  rw [readJournalRecords, splitLines_render, splitLines_last oneLine, List.filter_append, kept,
    List.mapM_append, read]
  by_cases blank : tail.all isBlank = true
  · simp [blank]
  · rw [if_neg blank]
    simp only [List.filter_cons, Bool.not_eq_true _ ▸ blank, List.filter_nil]
    cases last : (Json.parse tail).bind JournalRecord.ofJson <;> simp [last]

@[simp] theorem read_render (records : List JournalRecord) :
    readJournalRecords (render records) = records := by
  have read := @read_render_append records [] (by simp)
  simpa using read

theorem read_torn (records : List JournalRecord) (record : JournalRecord) {torn lost : Text}
    (split : line record = torn ++ lost) (torn' : lost ≠ []) :
    readJournalRecords (render records ++ torn) =
      if torn = [] then records
      else if lost = ['\n'] then records ++ [record]
      else [] := by
  -- The last line of a crash: nothing, a part of a record, or a record without its newline.
  obtain ⟨kept, last, rfl⟩ := List.eq_nil_or_concat lost |>.resolve_left torn'
  simp only [line, List.concat_eq_append, ← List.append_assoc] at split
  have ⟨text, newline⟩ := List.append_inj' split rfl
  cases newline
  have oneLine : '\n' ∉ torn := fun within =>
    recordText_one_line record (text ▸ List.mem_append_left _ within)
  rw [read_render_append records oneLine]
  by_cases none' : torn = []
  · simp [none']
  · obtain ⟨rest, head⟩ := recordText_head record
    obtain ⟨c, tail, rfl⟩ := List.exists_cons_of_ne_nil none'
    have brace : c = '{' := by
      rw [text, List.cons_append] at head
      exact (List.cons.inj head).1
    have some' : (c :: tail).all isBlank = false := by simp [brace, isBlank]
    rw [if_neg (by simp [some']), if_neg none']
    by_cases whole : kept = []
    · rw [whole, List.append_nil] at text
      simp [whole, ← text, recordText_parse]
    · obtain ⟨members, object⟩ := record_object record
      have none'' : Json.parse (c :: tail) = none := by
        rw [recordText, object] at text
        exact Json.parse_torn text whole
      simp [none'', whole]

end Lines

end GrokPi.Rollback
