import GrokPi.Hashline.ShiftedAnchors
import GrokPi.Hashline.Snapshot
import GrokPi.Shared.TextSearch

set_option autoImplicit false

namespace GrokPi.Hashline

section Parsing

theorem splitOnce_behind {d : Char} {tail front : Text} (once : d ∉ tail) (free : d ∉ front) (back : Text) :
    splitOnce (d :: tail) (front ++ (d :: tail ++ back)) = some (front, back) := by
  have absent : ¬ (d :: tail) <:+: front := fun within => free (within.subset List.mem_cons_self)
  rw [splitOnce, Text.find_behind once absent, Option.map_some, List.take_left, ← List.append_assoc,
    ← List.length_append, List.drop_left]

theorem splitOnce_free {d : Char} {tail text : Text} (free : d ∉ text) : splitOnce (d :: tail) text = none := by
  have absent : ¬ (d :: tail) <:+: text := fun within => free (within.subset List.mem_cons_self)
  rw [splitOnce, Text.find_eq_none.mpr absent, Option.map_none]

theorem number_digits (n : Nat) : ∀ c ∈ number n, c.isDigit = true := Text.toDigits_isDigit n

def IsLetter (c : Char) : Prop := 'a' ≤ c ∧ c ≤ 'z'

theorem isHash_iff (text : Text) : isHash text = true ↔ text ≠ [] ∧ ∀ c ∈ text, IsLetter c := by
  simp [isHash, IsLetter]

theorem isLetter_ofNat {k : Nat} (small : k < 26) : IsLetter (Char.ofNat (k + 'a'.toNat)) := by
  unfold IsLetter
  interval_cases k <;> decide

theorem encodeHash_isHash (hash : UInt32) {len : Nat} (positive : 0 < len) : isHash (encodeHash hash len) = true := by
  rw [isHash_iff]
  constructor
  · intro none'
    have count := congrArg List.length none'
    simp [encodeHash] at count
    omega
  · intro c member
    obtain ⟨i, -, rfl⟩ := List.mem_map.mp member
    exact isLetter_ofNat (Nat.mod_lt _ (by decide))

structure Anchor.Hashed (anchor : Anchor) : Prop where
  localHash : isHash anchor.localHash = true
  context : ∀ context ∈ anchor.context, isHash context = true

def Anchor.render (anchor : Anchor) : Text := number anchor.line ++ ':' :: anchor.suffix

theorem letters_free {text : Text} {c : Char} (hash : isHash text = true) (other : ¬ IsLetter c) : c ∉ text :=
  fun member => other (((isHash_iff text).mp hash).2 c member)

variable {anchor : Anchor}

theorem parse_render (hashed : anchor.Hashed) (positive : 0 < anchor.line)
    (small : anchor.line < 2 ^ 64) :
    ParsedAnchor.parse anchor.render = some ⟨anchor.line, anchor.localHash, anchor.context⟩ := by
  have colon : ':' ∉ number anchor.line := fun member => absurd (number_digits _ _ member) (by decide)
  have front : splitOnce [':'] anchor.render = some (number anchor.line, anchor.suffix) :=
    splitOnce_behind (by simp) colon anchor.suffix
  have noLetter : ¬ IsLetter ':' := by
    unfold IsLetter
    decide
  have localHash := hashed.localHash
  have line : Text.parseUsize (number anchor.line) = some anchor.line := Text.parseUsize_toDigits small
  simp only [ParsedAnchor.parse, front, line, Option.bind_eq_bind, Option.bind_some,
    if_neg positive.ne']
  cases given : anchor.context with
  | none =>
      have whole : splitOnce [':'] anchor.suffix = none := by
        rw [Anchor.suffix, given]
        exact splitOnce_free (letters_free localHash noLetter)
      rw [whole, Anchor.suffix, given]
      simp [localHash]
  | some context =>
      have split : splitOnce [':'] anchor.suffix = some (anchor.localHash, context) := by
        rw [Anchor.suffix, given]
        exact splitOnce_behind (by simp) (letters_free localHash noLetter) context
      rw [split]
      simp [localHash, hashed.context context given]

theorem render_free (hashed : anchor.Hashed) {c : Char} (digit : c.isDigit = false)
    (colon : c ≠ ':') (letter : ¬ IsLetter c) : c ∉ anchor.render := by
  rw [Anchor.render, List.mem_append, List.mem_cons, not_or, not_or]
  refine ⟨fun member => ?_, colon, ?_⟩
  · rw [number_digits _ _ member] at digit
    cases digit
  · have localHash := letters_free hashed.localHash letter
    cases given : anchor.context with
    | none => simpa [Anchor.suffix, given] using localHash
    | some context =>
        simpa [Anchor.suffix, given, colon] using
          ⟨localHash, letters_free (hashed.context context given) letter⟩

theorem arrow_free (hashed : anchor.Hashed) : '\u2192' ∉ anchor.render := by
  apply render_free hashed (by decide) (by decide)
  unfold IsLetter
  decide

theorem anchorOnly_render (hashed : anchor.Hashed) : anchorOnly anchor.render = anchor.render := by
  have dash : '-' ∉ anchor.render := by
    apply render_free hashed (by decide) (by decide)
    unfold IsLetter
    decide
  have noArrow : splitOnce arrow anchor.render = none := splitOnce_free (arrow_free hashed)
  have noDash : splitOnce "->".toList anchor.render = none := splitOnce_free dash
  rw [anchorOnly, noArrow, noDash]
  rfl

theorem anchorOnly_line (hashed : anchor.Hashed) (content : Text) :
    anchorOnly (anchor.render ++ arrow ++ content) = anchor.render := by
  have split : splitOnce arrow (anchor.render ++ (arrow ++ content)) = some (anchor.render, content) :=
    splitOnce_behind (by simp) (arrow_free hashed) content
  rw [List.append_assoc, anchorOnly, split]
  rfl

end Parsing

section Fingerprints

variable {lines : List Text}

def anchorAt (hashLen : Nat) (fingerprint : Nat → Text) (i : Nat) (line : Text) : Anchor :=
  ⟨i + 1, encodeHash (lineHash line) hashLen, some (fingerprint i)⟩

theorem ChunkFingerprint.anchors_getElem? (self : ChunkFingerprint) (lines : List Text) (i : Nat) :
    (self.generateAnchors lines)[i]? =
      lines[i]?.map (anchorAt self.hashLen (self.chunkFingerprint lines) i) := by
  simp only [generateAnchors, List.getElem?_mapIdx]
  cases here : lines[i]? with
  | none => rfl
  | some line =>
      have inside := (List.getElem?_eq_some_iff.mp here).1
      have chunk : i / self.chunkSize < (lines.length + self.chunkSize - 1) / self.chunkSize := by
        have positive := self.positive
        rw [Nat.div_lt_iff_lt_mul positive, ← Nat.succ_le_iff]
        have exact' := Nat.div_add_mod (lines.length + self.chunkSize - 1) self.chunkSize
        have short := Nat.mod_lt (lines.length + self.chunkSize - 1) positive
        rw [Nat.mul_comm]
        omega
      simp [anchorAt, chunkFingerprint, chunk]

namespace CheckpointChain

variable (self : CheckpointChain)

def chainBefore (lines : List Text) (i : Nat) : UInt32 :=
  ((lines.drop (i / self.checkpointInterval * self.checkpointInterval)).take
    (i - i / self.checkpointInterval * self.checkpointInterval)).foldl
      (fun chain line => mixWord chain (lineHash line)) checkpointStart

theorem chainBefore_checkpoint {i : Nat} (checkpoint : i % self.checkpointInterval = 0) :
    self.chainBefore lines i = checkpointStart := by
  have first := Nat.div_mul_cancel (Nat.dvd_of_mod_eq_zero checkpoint)
  rw [chainBefore, first, Nat.sub_self]
  rfl

theorem chain_through {i : Nat} {line : Text} (here : lines[i]? = some line) :
    ((lines.drop (i / self.checkpointInterval * self.checkpointInterval)).take
      (i + 1 - i / self.checkpointInterval * self.checkpointInterval)).foldl
        (fun chain line => mixWord chain (lineHash line)) checkpointStart =
      mixWord (self.chainBefore lines i) (lineHash line) := by
  have first := Nat.div_mul_le_self i self.checkpointInterval
  have last : (lines.drop (i / self.checkpointInterval * self.checkpointInterval))[
      i - i / self.checkpointInterval * self.checkpointInterval]? = some line := by
    rw [List.getElem?_drop, Nat.add_sub_cancel' first, here]
  rw [Nat.sub_add_comm first, List.take_add_one, last]
  simp only [Option.toList_some, List.foldl_append, List.foldl_cons, List.foldl_nil]
  rfl

theorem checkpointFingerprint_eq {i : Nat} {line : Text} (here : lines[i]? = some line) :
    self.checkpointFingerprint lines i =
      encodeHash (mixWord (self.chainBefore lines i) (lineHash line)) self.hashLen := by
  rw [checkpointFingerprint, self.chain_through here]

theorem chainBefore_next {i : Nat} {line : Text} (here : lines[i]? = some line)
    (within : (i + 1) % self.checkpointInterval ≠ 0) :
    self.chainBefore lines (i + 1) = mixWord (self.chainBefore lines i) (lineHash line) := by
  have same : (i + 1) / self.checkpointInterval = i / self.checkpointInterval := by
    rw [Nat.succ_div, if_neg fun divides => within (Nat.mod_eq_zero_of_dvd divides), Nat.add_zero]
  rw [chainBefore, same, self.chain_through here]

theorem anchorsFrom_getElem? {rest : List Text} {start : Nat} {chain : UInt32} (left : lines.drop start = rest)
    (chained : start % self.checkpointInterval ≠ 0 → chain = self.chainBefore lines start) (i : Nat) :
    (self.anchorsFrom start chain rest)[i]? =
      rest[i]?.map (anchorAt self.hashLen (self.checkpointFingerprint lines) (start + i)) := by
  induction rest generalizing start chain i with
  | nil => rfl
  | cons line rest ih =>
      have here : lines[start]? = some line := by
        rw [← List.head?_drop, left]
        rfl
      have begins : (if start % self.checkpointInterval = 0 then checkpointStart else chain) =
          self.chainBefore lines start := by
        split
        next checkpoint => exact (self.chainBefore_checkpoint checkpoint).symm
        next between => exact chained between
      rw [anchorsFrom]
      simp only [begins]
      cases i with
      | zero => simp [anchorAt, self.checkpointFingerprint_eq here]
      | succ i =>
          have next : lines.drop (start + 1) = rest := by
            rw [← List.drop_drop, left]
            rfl
          have later := ih next (fun within => (self.chainBefore_next here within).symm) i
          rw [List.getElem?_cons_succ, List.getElem?_cons_succ, later, Nat.add_right_comm, Nat.add_assoc]

theorem anchors_getElem? (lines : List Text) (i : Nat) :
    (self.generateAnchors lines)[i]? =
      lines[i]?.map (anchorAt self.hashLen (self.checkpointFingerprint lines) i) := by
  have from0 := @anchorsFrom_getElem? lines self lines 0 checkpointStart rfl
    (fun within => absurd (Nat.zero_mod _) within) i
  rwa [Nat.zero_add] at from0

end CheckpointChain

theorem mem_anchors {hashLen : Nat} {fingerprint : Nat → Text} {anchors : List Anchor}
    (each : ∀ i, anchors[i]? = lines[i]?.map (anchorAt hashLen fingerprint i)) (anchor : ParsedAnchor) :
    Anchor.mk anchor.line anchor.localHash anchor.context ∈ anchors ↔
      validateAt lines anchor (fun idx line => anchor.localHash = encodeHash (lineHash line) hashLen ∧
        anchor.context = some (fingerprint idx)) = .valid := by
  rw [List.mem_iff_getElem?]
  obtain ⟨line, localHash, context⟩ := anchor
  cases line with
  | zero => simp [each, anchorAt, validateAt]
  | succ idx =>
      have valid := @validateAt_valid ⟨idx + 1, localHash, context⟩ lines
        (fun idx line => localHash = encodeHash (lineHash line) hashLen ∧ context = some (fingerprint idx)) idx
      rw [ParsedAnchor.at'] at valid
      rw [valid]
      constructor
      · rintro ⟨i, here⟩
        rw [each, Option.map_eq_some_iff] at here
        obtain ⟨text, found, same⟩ := here
        simp only [anchorAt, Anchor.mk.injEq, Nat.add_right_cancel_iff] at same
        obtain ⟨rfl, rfl, rfl⟩ := same
        obtain ⟨inside, same⟩ := List.getElem?_eq_some_iff.mp found
        simp [inside, same]
      · rintro ⟨inside, fresh⟩
        rw [decide_eq_true_eq] at fresh
        refine ⟨idx, ?_⟩
        rw [each, List.getElem?_eq_getElem inside]
        simp [anchorAt, fresh, inside]

end Fingerprints

section Reading

variable {lines : List Text} {scheme : AnchorScheme}

def AnchorScheme.Known (scheme : AnchorScheme) : Prop :=
  (∃ self : ContentOnly, scheme = self.scheme) ∨ (∃ self : ChunkFingerprint, scheme = self.scheme) ∨
    ∃ self : CheckpointChain, scheme = self.scheme

structure TakesOwn (scheme : AnchorScheme) (lines : List Text) (i : Nat) (anchor : Anchor) : Prop where
  made : (scheme.generateAnchors lines)[i]? = some anchor
  line : anchor.line = i + 1
  hashed : anchor.Hashed
  taken : scheme.validate ⟨anchor.line, anchor.localHash, anchor.context⟩ lines = .valid

theorem takes_own {hashLen : Nat} {fingerprint : Nat → Text} (positive : 0 < hashLen)
    (each : ∀ i, (scheme.generateAnchors lines)[i]? = lines[i]?.map (anchorAt hashLen fingerprint i))
    (letters : ∀ i, isHash (fingerprint i) = true)
    (takes : ∀ anchor : ParsedAnchor,
      Anchor.mk anchor.line anchor.localHash anchor.context ∈ scheme.generateAnchors lines →
        scheme.validate anchor lines = .valid) {i : Nat} (inside : i < lines.length) :
    TakesOwn scheme lines i (anchorAt hashLen fingerprint i lines[i]) := by
  have made : (scheme.generateAnchors lines)[i]? = some (anchorAt hashLen fingerprint i lines[i]) := by
    rw [each, List.getElem?_eq_getElem inside, Option.map_some]
  refine ⟨made, rfl, ⟨encodeHash_isHash _ positive, ?_⟩, takes _ (List.mem_of_getElem? made)⟩
  intro context given
  obtain rfl := Option.some.inj given
  exact letters i

theorem known_takes (known : scheme.Known) {i : Nat} (inside : i < lines.length) :
    ∃ anchor, TakesOwn scheme lines i anchor := by
  rcases known with ⟨self, rfl⟩ | ⟨self, rfl⟩ | ⟨self, rfl⟩
  · have valid := (@validateAt_valid ⟨i + 1, encodeHash (lineHash lines[i]) self.hashLen, none⟩ lines
      (fun _ line => encodeHash (lineHash lines[i]) self.hashLen = encodeHash (lineHash line) self.hashLen) i).mpr
      ⟨inside, by simp [inside]⟩
    refine ⟨⟨i + 1, encodeHash (lineHash lines[i]) self.hashLen, none⟩, ?_, rfl, ⟨?_, by simp⟩, valid⟩
    · change (self.generateAnchors lines)[i]? = _
      rw [ContentOnly.generateAnchors, List.getElem?_mapIdx, List.getElem?_eq_getElem inside]
      rfl
    · exact encodeHash_isHash _ self.within.1
  · refine ⟨_, takes_own self.within.1 (self.anchors_getElem? lines) (fun i => ?_) (fun anchor => ?_) inside⟩
    · exact encodeHash_isHash _ self.within.1
    · exact (mem_anchors (self.anchors_getElem? lines) anchor).mp
  · refine ⟨_, takes_own self.within.1 (self.anchors_getElem? lines) (fun i => ?_) (fun anchor => ?_) inside⟩
    · exact encodeHash_isHash _ self.within.1
    · exact (mem_anchors (self.anchors_getElem? lines) anchor).mp

theorem validateAnchor_render {anchor : Anchor} {i : Nat} (own : TakesOwn scheme lines i anchor)
    (small : i + 1 < 2 ^ 64) {text : Text} (names : anchorOnly text = anchor.render) :
    validateAnchor text lines scheme = .ok i := by
  have parsed := parse_render own.hashed (by rw [own.line]; omega) (by rwa [own.line])
  have taken := own.taken
  simp only [validateAnchor, names, parsed, Option.some_or, taken]
  rw [own.line, Nat.add_sub_cancel]

structure AcceptedAt (lines : List Text) (scheme : AnchorScheme) (rendered : Text) (idx : Nat) : Prop where
  bare : ∃ anchor content, splitOnce arrow rendered = some (anchor, content) ∧
    validateAnchor anchor lines scheme = .ok idx ∧
      ∀ other, validateAnchor (anchor ++ arrow ++ other) lines scheme = .ok idx
  whole : validateAnchor rendered lines scheme = .ok idx

theorem accepted_of_own {anchor : Anchor} {i : Nat} (own : TakesOwn scheme lines i anchor)
    (small : i + 1 < 2 ^ 64) (content : Text) :
    AcceptedAt lines scheme (anchor.render ++ arrow ++ content) i := by
  have line := fun other => validateAnchor_render own small (anchorOnly_line own.hashed other)
  refine ⟨⟨anchor.render, content, ?_, validateAnchor_render own small (anchorOnly_render own.hashed), line⟩,
    line content⟩
  rw [List.append_assoc]
  exact splitOnce_behind (by simp) (arrow_free own.hashed) content

theorem filter_range'_lt (start count bound : Nat) :
    (List.range' start count).filter (· < bound) = List.range' start (min count (bound - start)) := by
  induction count generalizing start with
  | zero => simp
  | succ count ih =>
      rw [List.range'_succ, List.filter_cons, ih]
      by_cases inside : start < bound
      · have more : min (count + 1) (bound - start) = min count (bound - (start + 1)) + 1 := by omega
        rw [if_pos (by simpa using inside), more, List.range'_succ]
      · rw [if_neg (by simpa using inside), show bound - start = 0 by omega, show bound - (start + 1) = 0 by omega]
        simp

def shownLine (scheme : AnchorScheme) (lines : List Text) (idx : Nat) : Text :=
  number (idx + 1) ++ ':' :: ((scheme.generateAnchors lines).getD idx noAnchor).suffix ++ arrow ++ lines.getD idx []

theorem formatHashlineContent_eq (content : Text) (offset limit : Nat) (scheme : AnchorScheme) :
    formatHashlineContent content offset limit scheme =
      Text.joinLines ((List.range' (offset - 1) (min limit ((splitLines content).length - (offset - 1)))).map
        (shownLine scheme (splitLines content))) := by
  unfold formatHashlineContent
  simp only [filter_range'_lt]
  rfl

theorem shownLine_eq {anchor : Anchor} {i : Nat} (own : TakesOwn scheme lines i anchor) :
    shownLine scheme lines i = anchor.render ++ arrow ++ lines.getD i [] := by
  rw [shownLine, List.getD_eq_getElem?_getD, own.made, Option.getD_some, Anchor.render, own.line]

theorem shownLine_unsplit (known : scheme.Known) {content : Text} {i : Nat}
    (inside : i < (splitLines content).length) : '\n' ∉ shownLine scheme (splitLines content) i := by
  obtain ⟨anchor, own⟩ := known_takes known inside
  have front : '\n' ∉ anchor.render := by
    apply render_free own.hashed (by decide) (by decide)
    unfold IsLetter
    decide
  have text : '\n' ∉ (splitLines content).getD i [] := by
    rw [List.getD_eq_getElem?_getD, List.getElem?_eq_getElem inside]
    exact splitLines_unsplit content _ (List.getElem_mem inside)
  rw [shownLine_eq own]
  simp only [List.mem_append, not_or]
  exact ⟨⟨front, by decide⟩, text⟩

theorem rendered_line (known : scheme.Known) {content : Text} {offset limit i : Nat} {rendered : Text}
    (shown : formatHashlineContent content offset limit scheme ≠ [])
    (here : (rawLines (formatHashlineContent content offset limit scheme))[i]? = some rendered) :
    rendered = shownLine scheme (splitLines content) (offset - 1 + i) ∧
      offset - 1 + i < (splitLines content).length := by
  -- Each line of the output is the anchor of its line, an arrow and the line.
  rw [formatHashlineContent_eq] at here shown
  generalize counted : min limit ((splitLines content).length - (offset - 1)) = count at here shown
  have some' : (List.range' (offset - 1) count).map (shownLine scheme (splitLines content)) ≠ [] := by
    intro none'
    rw [none'] at shown
    exact shown Text.joinLines_nil
  have unsplit : ∀ line ∈ (List.range' (offset - 1) count).map (shownLine scheme (splitLines content)),
      '\n' ∉ line := by
    intro line member
    obtain ⟨idx, within, rfl⟩ := List.mem_map.mp member
    apply shownLine_unsplit known
    have bounds := List.mem_range'_1.mp within
    omega
  rw [rawLines_joinLines some' unsplit, List.getElem?_map, Option.map_eq_some_iff] at here
  obtain ⟨idx, found, rfl⟩ := here
  have short := (List.getElem?_eq_some_iff.mp found).1
  rw [List.length_range'] at short
  rw [List.getElem?_range' short, Option.some.injEq, Nat.one_mul] at found
  subst found
  exact ⟨rfl, by omega⟩

theorem rawLines_length (content : Text) : (rawLines content).length ≤ content.length + 1 := by
  induction content with
  | nil => simp [rawLines]
  | cons c rest ih =>
      unfold rawLines at ih ⊢
      rw [List.splitOn_cons_eq_if_modifyHead, List.length_cons]
      split
      · rw [List.length_cons]
        omega
      · rw [List.length_modifyHead]
        omega

/-- What the read tool shows the edit tool accepts, and a context scheme accepts the anchors that it makes and
no others. -/
theorem read_anchors_accepted :
    (∀ scheme : AnchorScheme, scheme.Known → ∀ content offset limit, content.length < 2 ^ 63 →
      formatHashlineContent content offset limit scheme ≠ [] → ∀ i rendered,
        (rawLines (formatHashlineContent content offset limit scheme))[i]? = some rendered →
          AcceptedAt (splitLines content) scheme rendered (offset - 1 + i)) ∧
    (∀ (self : ChunkFingerprint) (lines : List Text),
      (∀ anchor, self.validate anchor lines = .valid ↔
        Anchor.mk anchor.line anchor.localHash anchor.context ∈ self.generateAnchors lines) ∧
      ∀ i, (self.generateAnchors lines)[i]? =
        lines[i]?.map (anchorAt self.hashLen (self.chunkFingerprint lines) i)) ∧
    ∀ (self : CheckpointChain) (lines : List Text),
      (∀ anchor, self.validate anchor lines = .valid ↔
        Anchor.mk anchor.line anchor.localHash anchor.context ∈ self.generateAnchors lines) ∧
      ∀ i, (self.generateAnchors lines)[i]? =
        lines[i]?.map (anchorAt self.hashLen (self.checkpointFingerprint lines) i) := by
  refine ⟨?_, fun self lines => ⟨fun anchor => ?_, self.anchors_getElem? lines⟩,
    fun self lines => ⟨fun anchor => ?_, self.anchors_getElem? lines⟩⟩
  · intro scheme known content offset limit short shown i rendered here
    obtain ⟨rfl, inside⟩ := rendered_line known shown here
    obtain ⟨anchor, own⟩ := known_takes known inside
    rw [shownLine_eq own]
    apply accepted_of_own own
    rw [splitLines_eq, dropReturns_length] at inside
    have count := rawLines_length content
    omega
  · exact (mem_anchors (self.anchors_getElem? lines) anchor).symm
  · exact (mem_anchors (self.anchors_getElem? lines) anchor).symm

theorem read_anchors_accepted_arrow :
    AcceptedAt (splitLines ['a', '\n', '\u2192', ':']) chunkScheme
      (shownLine chunkScheme (splitLines ['a', '\n', '\u2192', ':']) 1) 1 :=
  read_anchors_accepted.1 chunkScheme (Or.inr (Or.inl ⟨⟨3, 50, by decide, by decide⟩, rfl⟩)) ['a', '\n', '\u2192', ':']
    2 5 (by decide) (by decide +kernel) 0 _ (by decide +kernel)

end Reading

end GrokPi.Hashline
