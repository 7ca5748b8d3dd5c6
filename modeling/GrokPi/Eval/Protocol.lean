import Mathlib
import GrokPi.Shared.JsonWidth

set_option autoImplicit false

namespace GrokPi.Eval

open Text

section Reader

def isTrimmed (c : Char) : Bool :=
  (9 ≤ c.toNat && c.toNat ≤ 13) || c.toNat = 32 || c.toNat = 0xA0 || c.toNat = 0x1680 ||
    (0x2000 ≤ c.toNat && c.toNat ≤ 0x200A) || c.toNat = 0x2028 || c.toNat = 0x2029 ||
    c.toNat = 0x202F || c.toNat = 0x205F || c.toNat = 0x3000 || c.toNat = 0xFEFF

def trimmed (line : Text) : Text := (line.dropWhile isTrimmed).rdropWhile isTrimmed

/-- `protocolBuffer`, and the messages that reached `handleHostCall` or
`handleEvalResult`. -/
structure ProtocolReader where
  protocolBuffer : Text
  handled : List Json

def ProtocolReader.fresh : ProtocolReader := ⟨[], []⟩

/-- A line that is no JSON resets the kernel, and with it the buffer. -/
def handleProtocolMessage (reader : ProtocolReader) (line : Text) : ProtocolReader :=
  match Json.parse line with
  | none => { reader with protocolBuffer := [] }
  | some message => { reader with handled := reader.handled ++ [message] }

def cutLine : Text → Option (Text × Text)
  | [] => none
  | c :: rest =>
      if c = '\n' then some ([], rest)
      else (cutLine rest).map fun found => (c :: found.1, found.2)

-- A line takes at least its newline from the buffer, so its length bounds the rounds.
def cutLines : Nat → ProtocolReader → ProtocolReader
  | 0, reader => reader
  | fuel + 1, reader =>
      match cutLine reader.protocolBuffer with
      | none => reader
      | some (line, rest) =>
          let reader := { reader with protocolBuffer := rest }
          cutLines fuel
            (if (trimmed line).isEmpty then reader else handleProtocolMessage reader line)

/-- The text a chunk adds; `chunk.toString("utf8")` decodes it alone. -/
def consumeText (reader : ProtocolReader) (text : Text) : ProtocolReader :=
  let reader := { reader with protocolBuffer := reader.protocolBuffer ++ text }
  cutLines reader.protocolBuffer.length reader

def consumeProtocol (reader : ProtocolReader) (chunk : List UInt8) : ProtocolReader :=
  consumeText reader (fromUtf8Lossy chunk)

def receive (chunks : List (List UInt8)) : ProtocolReader :=
  chunks.foldl consumeProtocol .fresh

end Reader

section Worker

/-- A message as a worker sends it: its JSON text on one line, with the wide characters
of its strings unescaped. -/
structure WorkerMessage where
  text : Text
  value : Json
  reads : Json.parse text = some value
  oneLine : '\n' ∉ text
  unescaped : wide text = Json.wideIn value

def WorkerMessage.stringify (value : Json) : WorkerMessage where
  text := Json.print value
  value := value
  reads := Json.parse_print value
  oneLine := Json.print_one_line value
  unescaped := Json.print_wide value

def lineText (messages : List WorkerMessage) : Text :=
  messages.flatMap fun message => message.text ++ ['\n']

def stream (messages : List WorkerMessage) : List UInt8 := asBytes (lineText messages)

@[simp] theorem lineText_nil : lineText [] = [] := rfl

@[simp] theorem lineText_cons (message : WorkerMessage) (rest : List WorkerMessage) :
    lineText (message :: rest) = message.text ++ '\n' :: lineText rest := by
  simp [lineText]

end Worker

section Cutting

theorem cutLine_none {text : Text} : cutLine text = none ↔ '\n' ∉ text := by
  induction text with
  | nil => simp [cutLine]
  | cons c text ih =>
      by_cases newline : c = '\n'
      · simp [cutLine, newline]
      · simp [cutLine, newline, ih, Ne.symm newline]

theorem cutLine_some {text line rest : Text} :
    cutLine text = some (line, rest) ↔ text = line ++ '\n' :: rest ∧ '\n' ∉ line := by
  induction text generalizing line with
  | nil => simp [cutLine]
  | cons c text ih =>
      by_cases newline : c = '\n'
      · subst newline
        simp only [cutLine, if_true, Option.some.injEq, Prod.mk.injEq]
        constructor
        · rintro ⟨rfl, rfl⟩
          exact ⟨rfl, by simp⟩
        · rintro ⟨split, clean⟩
          cases line with
          | nil => simpa using split
          | cons d line =>
              rw [List.cons_append, List.cons.injEq] at split
              refine absurd ?_ clean
              rw [← split.1]
              exact List.mem_cons_self
      · simp only [cutLine, newline, if_false, Option.map_eq_some_iff, Prod.exists,
          Prod.mk.injEq]
        constructor
        · rintro ⟨front, back, found, rfl, rfl⟩
          obtain ⟨split, clean⟩ := ih.mp found
          exact ⟨by rw [split]; rfl, by simp [clean, Ne.symm newline]⟩
        · rintro ⟨split, clean⟩
          cases line with
          | nil =>
              rw [List.nil_append, List.cons.injEq] at split
              exact absurd split.1 newline
          | cons d line =>
              rw [List.cons_append, List.cons.injEq] at split
              obtain ⟨rfl, split⟩ := split
              have later : '\n' ∉ line := fun member => clean (List.mem_cons_of_mem _ member)
              exact ⟨line, rest, ih.mpr ⟨split, later⟩, rfl, rfl⟩

theorem handleProtocolMessage_shorter (reader : ProtocolReader) (line : Text) :
    (handleProtocolMessage reader line).protocolBuffer.length ≤
      reader.protocolBuffer.length := by
  unfold handleProtocolMessage
  split <;> simp

theorem cutLines_clean (fuel : Nat) (reader : ProtocolReader)
    (enough : reader.protocolBuffer.length ≤ fuel) :
    '\n' ∉ (cutLines fuel reader).protocolBuffer := by
  induction fuel generalizing reader with
  | zero =>
      have empty : reader.protocolBuffer = [] := List.length_eq_zero_iff.mp (by omega)
      simp [cutLines, empty]
  | succ fuel ih =>
      simp only [cutLines]
      split
      · rename_i none
        exact cutLine_none.mp none
      · rename_i line rest found
        have split := (cutLine_some.mp found).1
        rw [split, List.length_append, List.length_cons] at enough
        apply ih
        split_ifs
        · simp only
          omega
        · have shorter := handleProtocolMessage_shorter
            { reader with protocolBuffer := rest } line
          simp only at shorter
          omega

end Cutting


section Whole

theorem trimmed_parsed {text : Text} {message : Json} (read : Json.parse text = some message) :
    (trimmed text).isEmpty = false := by
  -- A text that parses has a character that `trim` keeps.
  have kept : ∃ c ∈ text, isTrimmed c = false := by
    simp only [Json.parse, Json.value] at read
    cases stop : Json.skipSpace text with
    | nil => simp [stop] at read
    | cons c tail =>
        refine ⟨c, (List.dropWhile_sublist _).subset (by
          rw [← Json.skipSpace, stop]
          exact List.mem_cons_self), ?_⟩
        rw [stop] at read
        simp only at read
        -- the first character of a value is one of a few
        split_ifs at read with isText isArray isObject isNull isTrue isFalse
        any_goals (subst_vars; decide)
        by_cases number : Json.isNumberChar c = true
        · rw [Bool.eq_false_iff]
          intro blank
          simp only [isTrimmed, Bool.or_eq_true, Bool.and_eq_true, decide_eq_true_eq] at blank
          simp only [Json.isNumberChar, Bool.or_eq_true, decide_eq_true_eq] at number
          rcases number with ((((digit | rfl) | rfl) | rfl) | rfl) | rfl
          · simp only [Char.isDigit, Bool.and_eq_true, decide_eq_true_eq] at digit
            have low : 48 ≤ c.toNat := digit.1
            have high : c.toNat ≤ 57 := digit.2
            omega
          all_goals revert blank; decide
        · have none : Json.numberToken (c :: tail) = none := by
            simp [Json.numberToken, number, Json.isNumber]
          rw [none] at read
          cases read
  obtain ⟨c, member, isKept⟩ := kept
  rw [Bool.eq_false_iff, ne_eq, List.isEmpty_iff]
  intro empty
  rw [trimmed, List.rdropWhile_eq_nil_iff] at empty
  have front : c ∈ text.dropWhile isTrimmed := by
    rw [← @List.takeWhile_append_dropWhile _ isTrimmed text, List.mem_append] at member
    rcases member with early | late
    · have blank := List.mem_takeWhile_imp early
      rw [isKept] at blank
      cases blank
    · exact late
  have blank := empty c front
  rw [isKept] at blank
  cases blank

theorem cutLine_line (message : WorkerMessage) (rest : Text) :
    cutLine (message.text ++ '\n' :: rest) = some (message.text, rest) :=
  cutLine_some.mpr ⟨rfl, message.oneLine⟩

theorem cutLines_reads (fuel : Nat) (reader : ProtocolReader) (later : List WorkerMessage)
    (missing : Text) (expected : reader.protocolBuffer ++ missing = lineText later) :
    ∃ whole rest, later = whole ++ rest ∧
      (cutLines fuel reader).handled = reader.handled ++ whole.map (·.value) ∧
      (cutLines fuel reader).protocolBuffer ++ missing = lineText rest := by
  induction fuel generalizing reader later with
  | zero => exact ⟨[], later, rfl, by simp [cutLines], expected⟩
  | succ fuel ih =>
      simp only [cutLines]
      split
      · exact ⟨[], later, rfl, by simp, expected⟩
      · rename_i line rest found
        obtain ⟨split, clean⟩ := cutLine_some.mp found
        cases later with
        | nil => simp [split] at expected
        | cons message later =>
            have cut := cutLine_line message (lineText later)
            rw [← lineText_cons, ← expected, split, List.append_assoc, List.cons_append,
              cutLine_some.mpr ⟨rfl, clean⟩, Option.some.injEq, Prod.mk.injEq] at cut
            obtain ⟨rfl, left⟩ := cut
            have handed : handleProtocolMessage { reader with protocolBuffer := rest }
                message.text = ⟨rest, reader.handled ++ [message.value]⟩ := by
              simp [handleProtocolMessage, message.reads]
            rw [trimmed_parsed message.reads, if_neg (by simp), handed]
            obtain ⟨whole, after, same, handled, buffer⟩ :=
              ih ⟨rest, reader.handled ++ [message.value]⟩ later left
            exact ⟨message :: whole, after, by rw [same]; rfl, by simp [handled], buffer⟩

theorem consumeText_reads {reader : ProtocolReader} {text missing : Text}
    {later : List WorkerMessage}
    (expected : reader.protocolBuffer ++ (text ++ missing) = lineText later) :
    ∃ whole rest, later = whole ++ rest ∧
      (consumeText reader text).handled = reader.handled ++ whole.map (·.value) ∧
      (consumeText reader text).protocolBuffer ++ missing = lineText rest :=
  cutLines_reads _ _ later missing (by simpa using expected)

theorem consumeText_clean (reader : ProtocolReader) (text : Text) :
    '\n' ∉ (consumeText reader text).protocolBuffer :=
  cutLines_clean _ _ (Nat.le_refl _)

theorem foldl_reads (texts : List Text) (reader : ProtocolReader) (later : List WorkerMessage)
    (clean : '\n' ∉ reader.protocolBuffer)
    (expected : reader.protocolBuffer ++ texts.flatten = lineText later) :
    (texts.foldl consumeText reader).handled = reader.handled ++ later.map (·.value) := by
  induction texts generalizing reader later with
  | nil =>
      rw [List.flatten_nil, List.append_nil] at expected
      cases later with
      | nil => simp
      | cons message later =>
          rw [expected, lineText_cons] at clean
          simp at clean
  | cons text texts ih =>
      rw [List.flatten_cons] at expected
      obtain ⟨whole, rest, rfl, handled, buffer⟩ := consumeText_reads expected
      rw [List.foldl_cons, ih _ rest (consumeText_clean reader text) buffer, handled]
      simp

theorem receive_texts {messages : List WorkerMessage} {texts : List Text}
    (split : texts.flatten = lineText messages) :
    (receive (texts.map asBytes)).handled = messages.map (·.value) := by
  have decoded : ∀ reader text, consumeProtocol reader (asBytes text) = consumeText reader text :=
    fun reader text => by rw [consumeProtocol, fromUtf8Lossy_asBytes]
  rw [receive, List.foldl_map]
  simp only [decoded]
  have read := foldl_reads texts .fresh messages (by simp [ProtocolReader.fresh])
    (by simpa [ProtocolReader.fresh] using split)
  simpa [ProtocolReader.fresh] using read

end Whole

section Accounting

/-- Each line of the decoded text was handed on, is in the buffer or was lost. Where none
was lost, no wide character was lost either. -/
def Account (reader : ProtocolReader) (fed : Text) : Prop :=
  reader.handled.length + newlines reader.protocolBuffer < newlines fed ∨
    (reader.handled.length + newlines reader.protocolBuffer = newlines fed ∧
      wide fed ≤ wide reader.protocolBuffer + (reader.handled.map Json.wideIn).sum)

theorem newlines_line (line rest : Text) (clean : '\n' ∉ line) :
    newlines (line ++ '\n' :: rest) = newlines rest + 1 := by
  have none : newlines line = 0 := List.count_eq_zero.mpr clean
  rw [newlines_append, none, newlines, List.count_cons_self, newlines]
  omega

theorem wide_line (line rest : Text) :
    wide (line ++ '\n' :: rest) = wide line + wide rest := by
  rw [wide_append, Json.narrow_cons (by decide)]

theorem cutLines_account (fuel : Nat) (reader : ProtocolReader) (fed : Text)
    (account : Account reader fed) : Account (cutLines fuel reader) fed := by
  induction fuel generalizing reader with
  | zero => exact account
  | succ fuel ih =>
      simp only [cutLines]
      split
      · exact account
      · rename_i line rest found
        obtain ⟨split, clean⟩ := cutLine_some.mp found
        have lines := newlines_line line rest clean
        have width := wide_line line rest
        rw [← split] at lines width
        apply ih
        have counts : reader.handled.length + newlines reader.protocolBuffer ≤ newlines fed :=
          account.elim Nat.le_of_lt fun whole => whole.1.le
        -- a blank or a broken line is lost, any other one is handed on
        split_ifs
        · refine Or.inl ?_
          simp only
          omega
        · unfold handleProtocolMessage
          cases parsed : Json.parse line with
          | none =>
              refine Or.inl ?_
              simp only [newlines_nil]
              omega
          | some message =>
              have found := Json.parse_wide parsed
              simp only [Account, List.length_append, List.length_singleton, List.map_append,
                List.map_cons, List.map_nil, List.sum_append, List.sum_cons, List.sum_nil]
              rcases account with lost | ⟨kept, wideKept⟩
              · exact Or.inl (by omega)
              · exact Or.inr ⟨by omega, by omega⟩

theorem consumeText_account {reader : ProtocolReader} {fed : Text}
    (account : Account reader fed) (text : Text) :
    Account (consumeText reader text) (fed ++ text) := by
  apply cutLines_account
  simp only [Account, newlines_append, wide_append] at account ⊢
  omega

theorem cutLines_suffix (fuel : Nat) (reader : ProtocolReader) :
    (cutLines fuel reader).protocolBuffer <:+ reader.protocolBuffer := by
  induction fuel generalizing reader with
  | zero => exact List.suffix_refl _
  | succ fuel ih =>
      simp only [cutLines]
      split
      · exact List.suffix_refl _
      · rename_i line rest found
        have split := (cutLine_some.mp found).1
        refine (ih _).trans ?_
        have shorter : rest <:+ reader.protocolBuffer :=
          ⟨line ++ ['\n'], by rw [split]; simp⟩
        split_ifs
        · exact shorter
        · unfold handleProtocolMessage
          split
          · exact List.nil_suffix
          · exact shorter

theorem receive_account (chunks : List (List UInt8)) (reader : ProtocolReader) (fed : Text)
    (account : Account reader fed) (rest : reader.protocolBuffer <:+ fed)
    (clean : '\n' ∉ reader.protocolBuffer) :
    Account (chunks.foldl consumeProtocol reader) (fed ++ decodedPieces chunks) ∧
      (chunks.foldl consumeProtocol reader).protocolBuffer <:+ fed ++ decodedPieces chunks ∧
      '\n' ∉ (chunks.foldl consumeProtocol reader).protocolBuffer := by
  induction chunks generalizing reader fed with
  | nil => simpa using ⟨account, rest, clean⟩
  | cons chunk chunks ih =>
      have longer : reader.protocolBuffer ++ fromUtf8Lossy chunk <:+
          fed ++ fromUtf8Lossy chunk := by
        obtain ⟨front, whole⟩ := rest
        exact ⟨front, by rw [← whole, List.append_assoc]⟩
      rw [List.foldl_cons, decodedPieces_cons, ← List.append_assoc]
      exact ih _ _ (consumeText_account account _) ((cutLines_suffix _ _).trans longer)
        (consumeText_clean reader _)

theorem lineText_newlines (messages : List WorkerMessage) :
    newlines (lineText messages) = messages.length := by
  induction messages with
  | nil => rfl
  | cons message rest ih =>
      rw [lineText_cons, newlines_line _ _ message.oneLine, ih, List.length_cons]

theorem lineText_wide (messages : List WorkerMessage) :
    wide (lineText messages) = ((messages.map (·.value)).map Json.wideIn).sum := by
  induction messages with
  | nil => rfl
  | cons message rest ih =>
      rw [lineText_cons, wide_line, ih, message.unescaped]
      simp

theorem stream_ends (messages : List WorkerMessage) :
    stream messages = [] ∨ (stream messages).getLast? = some 10 := by
  cases messages with
  | nil => exact Or.inl rfl
  | cons message rest =>
      right
      have ends : (lineText (message :: rest)).getLast? = some '\n' := by
        induction rest generalizing message with
        | nil => simp
        | cons next rest ih =>
            rw [lineText_cons, List.getLast?_append_of_ne_nil _ (by simp)]
            rw [List.getLast?_cons, ih next]
            rfl
      obtain ⟨front, whole⟩ := List.getLast?_eq_some_iff.mp ends
      rw [stream, whole, asBytes_append]
      exact List.getLast?_concat

end Accounting

/-- The messages reach the handler unchanged and in order exactly when every chunk is
UTF-8 by itself, which means that no chunk ends inside a character. -/
theorem protocol_framing_iff (messages : List WorkerMessage) (chunks : List (List UInt8))
    (split : chunks.flatten = stream messages) :
    (receive chunks).handled = messages.map (·.value) ↔
      ∀ chunk ∈ chunks, ∃ text, chunk = asBytes text := by
  constructor
  · intro unchanged
    apply pieces_clean split
    intro chunk member byte head
    by_contra inside
    have follow : isFollow byte = true := by simpa using inside
    obtain ⟨bytes, rfl⟩ : ∃ bytes, chunk = byte :: bytes := by
      cases chunk with
      | nil => simp at head
      | cons first bytes =>
          rw [List.head?_cons, Option.mem_def, Option.some.injEq] at head
          exact ⟨bytes, by rw [head]⟩
    -- a chunk that starts inside a character adds a wide character to the text
    have more := leads_lt_pieces member follow
    rw [split, stream, asBytes_leads, lineText_wide] at more
    obtain ⟨account, rest, clean⟩ := receive_account chunks .fresh []
      (Or.inr ⟨rfl, Nat.le_refl _⟩) (List.suffix_refl _) (by simp [ProtocolReader.fresh])
    rw [List.nil_append, ← receive] at account rest
    rw [← receive] at clean
    have empty : (receive chunks).protocolBuffer = [] := by
      rcases stream_ends messages with none | ends
      · rw [pieces_empty (split.trans none)] at rest
        exact List.suffix_nil.mp rest
      · rw [← split] at ends
        have last := pieces_end_in_newline ends
        by_contra left
        obtain ⟨front, whole⟩ := rest
        rw [← whole, List.getLast?_append_of_ne_nil _ left] at last
        exact clean (List.mem_of_getLast? last)
    have lines : newlines (decodedPieces chunks) = messages.length := by
      rw [newlines_pieces, split, stream, asBytes_newlines, lineText_newlines]
    rw [Account, empty, unchanged, lines] at account
    simp only [newlines_nil, wide_nil, List.length_map] at account
    omega
  · intro texts
    choose! part parts using texts
    have isMap : (chunks.map part).map asBytes = chunks := by
      rw [List.map_map]
      exact (List.map_congr_left fun chunk member => (parts chunk member).symm).trans
        (List.map_id chunks)
    have bytes : asBytes (chunks.map part).flatten = asBytes (lineText messages) := by
      rw [asBytes_flatten, isMap, split, stream]
    rw [← isMap]
    apply receive_texts
    rw [← fromUtf8Lossy_asBytes (chunks.map part).flatten, bytes, fromUtf8Lossy_asBytes]

def evalReply (id value : Text) : WorkerMessage :=
  .stringify (.object [("id".toList, .string id), ("ok".toList, .bool true), ("value".toList, .string value)])

theorem cut_replies_framed :
    let messages := [evalReply ['1'] ['é'], evalReply ['2'] "10 €".toList]
    let text := lineText messages
    (receive [asBytes (text.take 12), asBytes ((text.drop 12).take 31), asBytes (text.drop 43)]).handled =
      messages.map (·.value) := by
  intro messages text
  have whole : text.take 12 ++ ((text.drop 12).take 31 ++ text.drop 43) = text := by
    have last : text.drop 43 = (text.drop 12).drop 31 := by rw [List.drop_drop]
    rw [last, List.take_append_drop, List.take_append_drop]
  refine (protocol_framing_iff messages _ ?_).mpr ?_
  · rw [List.flatten_cons, List.flatten_cons, List.flatten_singleton, ← asBytes_append, ← asBytes_append, whole]
    rfl
  · simp only [List.forall_mem_cons, List.not_mem_nil, false_implies, implies_true, and_true]
    exact ⟨⟨_, rfl⟩, ⟨_, rfl⟩, _, rfl⟩

theorem split_letter_changed :
    ¬ ∀ (messages : List WorkerMessage) (chunks : List (List UInt8)),
      chunks.flatten = stream messages →
        (receive chunks).handled = messages.map (·.value) := by
  intro framed
  have unchanged := framed [evalReply ['1'] ['é']]
    [(stream [evalReply ['1'] ['é']]).take 30, (stream [evalReply ['1'] ['é']]).drop 30] (by simp)
  have printed := congrArg (List.map Json.print) unchanged
  revert printed
  decide +kernel

end GrokPi.Eval
