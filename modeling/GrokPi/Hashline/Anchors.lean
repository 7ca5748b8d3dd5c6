import GrokPi.Shared.Numerals
import GrokPi.Shared.TextLines
import GrokPi.Shared.Utf8

set_option autoImplicit false

namespace GrokPi.Hashline

section Hashing

def fnvOffset : UInt32 := 2166136261

def fnvPrime : UInt32 := 16777619

def mixWord (h word : UInt32) : UInt32 := (h ^^^ word) * fnvPrime

def fnv1a32 (data : List UInt8) : UInt32 := data.foldl (fun h byte => mixWord h byte.toUInt32) fnvOffset

def isAsciiWhitespace (byte : UInt8) : Bool := byte == 0x20 || byte == 0x09 || byte == 0x0A || byte == 0x0C || byte == 0x0D

-- A run of white space counts as one space.
def lineHashStep (state : UInt32 × Bool) (byte : UInt8) : UInt32 × Bool :=
  if isAsciiWhitespace byte then
    if state.2 then state else (mixWord state.1 0x20, true)
  else (mixWord state.1 byte.toUInt32, false)

def lineHash (line : Text) : UInt32 := ((Text.asBytes line.trim).foldl lineHashStep (fnvOffset, false)).1

def encodeHash (hash : UInt32) (len : Nat) : Text :=
  (List.range len).map fun i => Char.ofNat (hash.toNat / 2 ^ (i * 8) % 26 + 'a'.toNat)

end Hashing

section SplitLines

def splitLines (content : Text) : List Text :=
  if content = [] then [[]]
  else if Text.EndsInLine content then Text.lines content ++ [[]]
  else Text.lines content

def splitOnce (needle text : Text) : Option (Text × Text) :=
  (Text.find needle text).map fun at' => (text.take at', text.drop (at' + needle.length))

end SplitLines

section Schemes

structure Anchor where
  line : Nat
  localHash : Text
  context : Option Text
  deriving DecidableEq

structure ParsedAnchor where
  line : Nat
  localHash : Text
  context : Option Text
  deriving DecidableEq

def isHash (text : Text) : Bool := !text.isEmpty && text.all fun c => 'a' ≤ c && c ≤ 'z'

def ParsedAnchor.parse (s : Text) : Option ParsedAnchor := do
  let (lineText, rest) ← splitOnce [':'] s
  let line ← Text.parseUsize lineText
  if line = 0 then none
  else
    match splitOnce [':'] rest with
    | none => if isHash rest then some ⟨line, rest, none⟩ else none
    | some (localHash, context) =>
        if isHash localHash ∧ isHash context then some ⟨line, localHash, some context⟩ else none

inductive ValidationResult where
  | valid
  | stale
  | outOfRange
  deriving DecidableEq

inductive ShiftResult where
  | found (newLine : Nat)
  | ambiguous (candidates : List Nat)
  | notFound
  deriving DecidableEq

/-- A way to name lines by their content; what it finds is a line of the file. -/
structure AnchorScheme where
  name : Text
  hashLen : Nat
  generateAnchors : List Text → List Anchor
  validate : ParsedAnchor → List Text → ValidationResult
  findShifted : ParsedAnchor → List Text → Nat → ShiftResult
  anchors_length : ∀ lines, (generateAnchors lines).length = lines.length
  valid_inside : ∀ anchor lines, validate anchor lines = .valid → 0 < anchor.line ∧ anchor.line ≤ lines.length
  shifted_inside : ∀ anchor lines radius newLine, findShifted anchor lines radius = .found newLine →
    0 < newLine ∧ newLine ≤ lines.length

def defaultSearchRadius : Nat := 15

-- The sum for the end of the window wraps around.
def shiftCandidates (hashLen : Nat) (validate : ParsedAnchor → List Text → ValidationResult)
    (anchor : ParsedAnchor) (lines : List Text) (searchRadius : Nat) : List Nat :=
  let origIdx := anchor.line - 1
  let start := origIdx - searchRadius
  let stop := min ((origIdx + searchRadius + 1) % 2 ^ 64) lines.length
  (List.range' start (stop - start)).filter fun idx =>
    idx ≠ origIdx ∧ encodeHash (lineHash (lines.getD idx [])) hashLen = anchor.localHash ∧
      (anchor.context.isSome → validate ⟨idx + 1, anchor.localHash, anchor.context⟩ lines = .valid)

def findShiftedGeneric (hashLen : Nat) (validate : ParsedAnchor → List Text → ValidationResult)
    (anchor : ParsedAnchor) (lines : List Text) (searchRadius : Nat) : ShiftResult :=
  match (shiftCandidates hashLen validate anchor lines searchRadius).map (· + 1) with
  | [] => .notFound
  | [newLine] => .found newLine
  | candidates => .ambiguous candidates

theorem findShiftedGeneric_inside {hashLen : Nat} {validate : ParsedAnchor → List Text → ValidationResult}
    {anchor : ParsedAnchor} {lines : List Text} {searchRadius newLine : Nat}
    (found : findShiftedGeneric hashLen validate anchor lines searchRadius = .found newLine) :
    0 < newLine ∧ newLine ≤ lines.length := by
  unfold findShiftedGeneric at found
  split at found
  · simp at found
  next candidate one =>
    obtain rfl : candidate = newLine := by simpa using found
    obtain ⟨idx, within, rfl⟩ := List.mem_map.mp (one ▸ List.mem_singleton_self candidate)
    have bounds := List.mem_range'_1.mp (List.mem_of_mem_filter within)
    omega
  · simp at found

def validateAt (lines : List Text) (anchor : ParsedAnchor) (fresh : Nat → Text → Bool) : ValidationResult :=
  if anchor.line = 0 ∨ lines.length < anchor.line then .outOfRange
  else if fresh (anchor.line - 1) (lines.getD (anchor.line - 1) []) then .valid
  else .stale

theorem validateAt_inside {lines : List Text} {anchor : ParsedAnchor} {fresh : Nat → Text → Bool}
    (valid : validateAt lines anchor fresh = .valid) : 0 < anchor.line ∧ anchor.line ≤ lines.length := by
  unfold validateAt at valid
  split at valid
  · simp at valid
  · omega

structure ContentOnly where
  hashLen : Nat
  within : 0 < hashLen ∧ hashLen ≤ 4

def ContentOnly.validate (self : ContentOnly) (anchor : ParsedAnchor) (lines : List Text) : ValidationResult :=
  validateAt lines anchor fun _ line => anchor.localHash = encodeHash (lineHash line) self.hashLen

def ContentOnly.generateAnchors (self : ContentOnly) (lines : List Text) : List Anchor :=
  lines.mapIdx fun i line => ⟨i + 1, encodeHash (lineHash line) self.hashLen, none⟩

def ContentOnly.scheme (self : ContentOnly) : AnchorScheme where
  name := "content_only_v1".toList
  hashLen := self.hashLen
  generateAnchors := self.generateAnchors
  validate := self.validate
  findShifted := findShiftedGeneric self.hashLen self.validate
  anchors_length := fun _ => List.length_mapIdx
  valid_inside := fun _ _ valid => validateAt_inside valid
  shifted_inside := fun _ _ _ _ found => findShiftedGeneric_inside found

structure ChunkFingerprint where
  hashLen : Nat
  chunkSize : Nat
  within : 0 < hashLen ∧ hashLen ≤ 4
  positive : 0 < chunkSize

def chunkFingerprintOf (hashLen chunkSize : Nat) (lines : List Text) (chunkIdx : Nat) : Text :=
  let chunk := (lines.drop (chunkIdx * chunkSize)).take chunkSize
  encodeHash (chunk.foldl (fun combined line => mixWord combined (lineHash line))
    (fnv1a32 (Text.asBytes "chunk".toList))) hashLen

def ChunkFingerprint.chunkFingerprint (self : ChunkFingerprint) (lines : List Text) (lineIdx : Nat) : Text :=
  chunkFingerprintOf self.hashLen self.chunkSize lines (lineIdx / self.chunkSize)

-- An anchor without a fingerprint is stale: it would be checked for its content only.
def ChunkFingerprint.validate (self : ChunkFingerprint) (anchor : ParsedAnchor) (lines : List Text) :
    ValidationResult :=
  validateAt lines anchor fun idx line =>
    anchor.localHash = encodeHash (lineHash line) self.hashLen ∧
      anchor.context = some (self.chunkFingerprint lines idx)

def ChunkFingerprint.generateAnchors (self : ChunkFingerprint) (lines : List Text) : List Anchor :=
  let numChunks := (lines.length + self.chunkSize - 1) / self.chunkSize
  let chunkFps := (List.range numChunks).map (chunkFingerprintOf self.hashLen self.chunkSize lines)
  lines.mapIdx fun i line =>
    ⟨i + 1, encodeHash (lineHash line) self.hashLen, some (chunkFps.getD (i / self.chunkSize) [])⟩

def ChunkFingerprint.scheme (self : ChunkFingerprint) : AnchorScheme where
  name := "chunk_v1".toList
  hashLen := self.hashLen
  generateAnchors := self.generateAnchors
  validate := self.validate
  findShifted := findShiftedGeneric self.hashLen self.validate
  anchors_length := fun _ => List.length_mapIdx
  valid_inside := fun _ _ valid => validateAt_inside valid
  shifted_inside := fun _ _ _ _ found => findShiftedGeneric_inside found

structure CheckpointChain where
  hashLen : Nat
  checkpointInterval : Nat
  within : 0 < hashLen ∧ hashLen ≤ 4
  positive : 0 < checkpointInterval

def checkpointStart : UInt32 := fnv1a32 (Text.asBytes "ckpt".toList)

def CheckpointChain.checkpointFingerprint (self : CheckpointChain) (lines : List Text) (lineIdx : Nat) : Text :=
  let first := lineIdx / self.checkpointInterval * self.checkpointInterval
  let chained := (lines.drop first).take (lineIdx + 1 - first)
  encodeHash (chained.foldl (fun chain line => mixWord chain (lineHash line)) checkpointStart) self.hashLen

def CheckpointChain.validate (self : CheckpointChain) (anchor : ParsedAnchor) (lines : List Text) :
    ValidationResult :=
  validateAt lines anchor fun idx line =>
    anchor.localHash = encodeHash (lineHash line) self.hashLen ∧
      anchor.context = some (self.checkpointFingerprint lines idx)

def CheckpointChain.anchorsFrom (self : CheckpointChain) : Nat → UInt32 → List Text → List Anchor
  | _, _, [] => []
  | i, chain, line :: rest =>
      -- The chain begins anew at each checkpoint.
      let start := if i % self.checkpointInterval = 0 then checkpointStart else chain
      let chain' := mixWord start (lineHash line)
      ⟨i + 1, encodeHash (lineHash line) self.hashLen, some (encodeHash chain' self.hashLen)⟩ ::
        self.anchorsFrom (i + 1) chain' rest

def CheckpointChain.generateAnchors (self : CheckpointChain) (lines : List Text) : List Anchor :=
  self.anchorsFrom 0 checkpointStart lines

theorem CheckpointChain.anchorsFrom_length (self : CheckpointChain) (lines : List Text) (i : Nat)
    (chain : UInt32) : (self.anchorsFrom i chain lines).length = lines.length := by
  induction lines generalizing i chain with
  | nil => rfl
  | cons line rest ih => simp [anchorsFrom, ih]

def CheckpointChain.scheme (self : CheckpointChain) : AnchorScheme where
  name := "checkpoint_v1".toList
  hashLen := self.hashLen
  generateAnchors := self.generateAnchors
  validate := self.validate
  findShifted := findShiftedGeneric self.hashLen self.validate
  anchors_length := fun lines => self.anchorsFrom_length lines 0 checkpointStart
  valid_inside := fun _ _ valid => validateAt_inside valid
  shifted_inside := fun _ _ _ _ found => findShiftedGeneric_inside found

end Schemes

end GrokPi.Hashline
