import GrokPi.Shared.Utf8
import GrokPi.Workflow.Journal

set_option autoImplicit false

namespace GrokPi.Workflow

def JournalEntry.toJson (entry : JournalEntry) : Json :=
  .object
    [("seq".toList, .number (.ofNat entry.seq)),
      ("kind".toList, .string entry.kind),
      ("req_hash".toList, .string entry.reqHash),
      ("result".toList, entry.result),
      ("at_ms".toList, .number (.ofNat entry.atMs))]

def JournalEntry.ofJson (json : Json) : Option JournalEntry := do
  let seq ← (json.get "seq".toList).bind Json.asNat
  let kind ← (json.get "kind".toList).bind Json.asText
  let reqHash ← (json.get "req_hash".toList).bind Json.asText
  let result ← json.get "result".toList
  let atMs ← (json.get "at_ms".toList).bind Json.asNat
  some { seq, kind, reqHash, result, atMs }

theorem entry_ofJson (entry : JournalEntry) : JournalEntry.ofJson entry.toJson = some entry := by
  simp [JournalEntry.ofJson, JournalEntry.toJson, Json.get, Json.asNat, Json.asText]

def JournalEntry.encode (entry : JournalEntry) : Bytes := Text.asBytes entry.toJson.print

def JournalEntry.decode (bytes : Bytes) : Except Text JournalEntry :=
  let text := Text.fromUtf8Lossy bytes
  if Text.asBytes text = bytes then
    match (Json.parse text).bind JournalEntry.ofJson with
    | some entry => .ok entry
    | none => .error "not a journal entry".toList
  else .error "not UTF-8".toList

theorem entry_decode (entry : JournalEntry) : JournalEntry.decode entry.encode = .ok entry := by
  simp [JournalEntry.decode, JournalEntry.encode, Text.fromUtf8Lossy_asBytes, Json.parse_print, entry_ofJson]

theorem entry_torn (entry : JournalEntry) (part lost : Bytes) (split : entry.encode = part ++ lost)
    (torn : lost ≠ []) : (JournalEntry.decode part).toOption = none := by
  unfold JournalEntry.decode
  by_cases text : Text.asBytes (Text.fromUtf8Lossy part) = part
  · rw [JournalEntry.encode] at split
    have ⟨more, whole, lost'⟩ := Text.asBytes_split (text.symm ▸ split)
    have cut : more ≠ [] := by
      intro none'
      exact torn (by rw [lost', none']; rfl)
    have unread : Json.parse (Text.fromUtf8Lossy part) = none := Json.parse_torn whole cut
    simp [text, unread, Except.toOption]
  · simp [text, Except.toOption]

/-- The journal's lines as JSON texts whose numbers and depth the parser does not limit. -/
def jsonCodec : EntryCodec where
  encode := JournalEntry.encode
  decode := JournalEntry.decode
  oneLine := fun entry member => Json.print_one_line _ (Text.newline_mem_asBytes member)
  visible := by
    intro entry
    have head : ∃ rest, entry.encode = 123 :: rest := ⟨_, rfl⟩
    have ⟨rest, bytes⟩ := head
    simp [bytes, isAsciiWhitespace]
  torn := entry_torn

theorem jsonCodec_readable (entry : JournalEntry) : Journal.Readable jsonCodec entry := entry_decode entry

end GrokPi.Workflow
