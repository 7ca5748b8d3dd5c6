import GrokPi.Hashline.Edits

set_option autoImplicit false

namespace GrokPi.Hashline

section Window

variable {anchor : ParsedAnchor} {lines : List Text} {radius : Nat} {hashLen : Nat}
  {validate : ParsedAnchor → List Text → ValidationResult}

def ParsedAnchor.at' (anchor : ParsedAnchor) (idx : Nat) : ParsedAnchor :=
  ⟨idx + 1, anchor.localHash, anchor.context⟩

def acceptedNearby (scheme : AnchorScheme) (anchor : ParsedAnchor) (lines : List Text) (radius : Nat) : List Nat :=
  ((List.range lines.length).filter fun idx =>
    idx ≠ anchor.line - 1 ∧ anchor.line - 1 ≤ idx + radius ∧ idx ≤ anchor.line - 1 + radius ∧
      scheme.validate (anchor.at' idx) lines = .valid).map (· + 1)

structure SuggestsAccepted (scheme : AnchorScheme) (anchor : ParsedAnchor) (lines : List Text) (radius : Nat) :
    Prop where
  found : ∀ newLine, scheme.findShifted anchor lines radius = .found newLine ↔
    acceptedNearby scheme anchor lines radius = [newLine]
  ambiguous : ∀ candidates, scheme.findShifted anchor lines radius = .ambiguous candidates ↔
    acceptedNearby scheme anchor lines radius = candidates ∧ 2 ≤ candidates.length
  notFound : scheme.findShifted anchor lines radius = .notFound ↔
    acceptedNearby scheme anchor lines radius = []

/-- The end of the window is far enough below the largest machine integer, or it cuts nothing off. -/
def NothingCut (scheme : AnchorScheme) (anchor : ParsedAnchor) (lines : List Text) (radius : Nat) : Prop :=
  ∀ newLine ∈ acceptedNearby scheme anchor lines radius, newLine ≤ (anchor.line - 1 + radius + 1) % 2 ^ 64

def NoTwin (hashLen : Nat) (anchor : ParsedAnchor) (lines : List Text) (radius : Nat) : Prop :=
  ∀ idx, idx < lines.length → idx ≠ anchor.line - 1 → anchor.line - 1 ≤ idx + radius →
    idx < (anchor.line - 1 + radius + 1) % 2 ^ 64 →
      encodeHash (lineHash (lines.getD idx [])) hashLen ≠ anchor.localHash

theorem mem_shiftCandidates {idx : Nat} :
    idx ∈ shiftCandidates hashLen validate anchor lines radius ↔
      (idx < lines.length ∧ idx ≠ anchor.line - 1 ∧ anchor.line - 1 ≤ idx + radius ∧
        idx < (anchor.line - 1 + radius + 1) % 2 ^ 64) ∧
      encodeHash (lineHash (lines.getD idx [])) hashLen = anchor.localHash ∧
      (anchor.context.isSome → validate (anchor.at' idx) lines = .valid) := by
  simp only [shiftCandidates, List.mem_filter, List.mem_range'_1, decide_eq_true_eq, ParsedAnchor.at']
  constructor
  · rintro ⟨⟨above, below⟩, apart, hash, context⟩
    exact ⟨by omega, hash, context⟩
  · rintro ⟨inside, hash, context⟩
    exact ⟨by omega, inside.2.1, hash, context⟩

variable {scheme : AnchorScheme}

theorem mem_acceptedNearby {newLine : Nat} : newLine ∈ acceptedNearby scheme anchor lines radius ↔
      ∃ idx, newLine = idx + 1 ∧ idx < lines.length ∧ idx ≠ anchor.line - 1 ∧ anchor.line - 1 ≤ idx + radius ∧
        idx ≤ anchor.line - 1 + radius ∧ scheme.validate (anchor.at' idx) lines = .valid := by
  simp only [acceptedNearby, List.mem_map, List.mem_filter, List.mem_range, decide_eq_true_eq]
  constructor
  · rintro ⟨idx, inside, rfl⟩
    exact ⟨idx, rfl, inside⟩
  · rintro ⟨idx, rfl, inside⟩
    exact ⟨idx, inside, rfl⟩

theorem suggests_iff (search : scheme.findShifted = findShiftedGeneric hashLen scheme.validate) :
    SuggestsAccepted scheme anchor lines radius ↔
      (shiftCandidates hashLen scheme.validate anchor lines radius).map (· + 1) =
        acceptedNearby scheme anchor lines radius := by
  have answer : scheme.findShifted anchor lines radius = findShiftedGeneric hashLen scheme.validate anchor lines radius := by
    rw [search]
  unfold findShiftedGeneric at answer
  generalize (shiftCandidates hashLen scheme.validate anchor lines radius).map (· + 1) = candidates at answer
  constructor
  · intro suggests
    rcases candidates with _ | ⟨newLine, _ | ⟨second, rest⟩⟩
    · exact (suggests.notFound.mp answer).symm
    · exact ((suggests.found newLine).mp answer).symm
    · exact ((suggests.ambiguous _).mp answer).1.symm
  · rintro rfl
    rcases shape : acceptedNearby scheme anchor lines radius with _ | ⟨newLine, _ | ⟨second, rest⟩⟩
    · rw [shape] at answer
      exact ⟨by simp [answer, shape], by simp [answer, shape], by simp [answer, shape]⟩
    · rw [shape] at answer
      refine ⟨by simp [answer, shape], ?_, by simp [answer, shape]⟩
      intro candidates
      rw [answer, shape]
      refine iff_of_false (by simp) ?_
      rintro ⟨rfl, short⟩
      simp at short
    · rw [shape] at answer
      refine ⟨by simp [answer, shape], ?_, by simp [answer, shape]⟩
      intro candidates
      rw [answer, shape, ShiftResult.ambiguous.injEq]
      refine (and_iff_left_of_imp ?_).symm
      rintro rfl
      simp

theorem suggests_generic (search : scheme.findShifted = findShiftedGeneric hashLen scheme.validate)
    (hashed : ∀ idx, scheme.validate (anchor.at' idx) lines = .valid →
      encodeHash (lineHash (lines.getD idx [])) hashLen = anchor.localHash) :
    SuggestsAccepted scheme anchor lines radius ↔
      NothingCut scheme anchor lines radius ∧
        ∀ idx ∈ shiftCandidates hashLen scheme.validate anchor lines radius,
          scheme.validate (anchor.at' idx) lines = .valid := by
  -- The cheap test keeps every line that is accepted, so the lists differ by what is cut off and by what is not
  -- looked at again.
  rw [suggests_iff search]
  have candidates : ∀ newLine,
      newLine ∈ (shiftCandidates hashLen scheme.validate anchor lines radius).map (· + 1) ↔
        ∃ idx, newLine = idx + 1 ∧ idx ∈ shiftCandidates hashLen scheme.validate anchor lines radius := by
    intro newLine
    simp [eq_comm, and_comm]
  constructor
  · intro same
    constructor
    · intro newLine accepted
      rw [← same, candidates] at accepted
      obtain ⟨idx, rfl, member⟩ := accepted
      exact (mem_shiftCandidates.mp member).1.2.2.2
    · intro idx member
      have accepted := (candidates (idx + 1)).mpr ⟨idx, rfl, member⟩
      rw [same, mem_acceptedNearby] at accepted
      obtain ⟨other, sameLine, -, -, -, -, valid⟩ := accepted
      rwa [Nat.succ_injective sameLine]
  · intro ⟨uncut, valid⟩
    have climbs : ∀ {indices : List Nat}, indices.Pairwise (· < ·) → (indices.map (· + 1)).Pairwise (· < ·) :=
      fun ascending => List.pairwise_map.mpr (ascending.imp Nat.succ_lt_succ)
    refine List.Pairwise.eq_of_mem_iff (climbs (List.Pairwise.filter _ List.pairwise_lt_range'))
      (climbs (List.Pairwise.filter _ List.pairwise_lt_range)) ?_
    intro newLine
    rw [candidates]
    constructor
    · rintro ⟨idx, rfl, member⟩
      obtain ⟨⟨inside, apart, above, below⟩, -⟩ := mem_shiftCandidates.mp member
      have inWindow : idx ≤ anchor.line - 1 + radius := by omega
      exact mem_acceptedNearby.mpr ⟨idx, rfl, inside, apart, above, inWindow, valid idx member⟩
    · intro accepted
      have bound := uncut newLine accepted
      obtain ⟨idx, rfl, inside, apart, above, below, valid⟩ := mem_acceptedNearby.mp accepted
      exact ⟨idx, rfl, mem_shiftCandidates.mpr ⟨⟨inside, apart, above, bound⟩, hashed idx valid, fun _ => valid⟩⟩

theorem validateAt_valid {fresh : Nat → Text → Bool} {idx : Nat} :
    validateAt lines (anchor.at' idx) fresh = .valid ↔
      idx < lines.length ∧ fresh idx (lines.getD idx []) = true := by
  simp only [validateAt, ParsedAnchor.at', Nat.add_sub_cancel]
  by_cases inside : idx < lines.length
  · rw [if_neg (by omega)]
    simp [inside]
  · rw [if_pos (by omega)]
    simp [inside]

theorem suggests_contextual {contextOf : Nat → Text}
    (search : scheme.findShifted = findShiftedGeneric hashLen scheme.validate)
    (accepts : ∀ idx, scheme.validate (anchor.at' idx) lines = .valid ↔
      idx < lines.length ∧ encodeHash (lineHash (lines.getD idx [])) hashLen = anchor.localHash ∧
        anchor.context = some (contextOf idx)) :
    SuggestsAccepted scheme anchor lines radius ↔
      NothingCut scheme anchor lines radius ∧
        (anchor.context.isSome = true ∨ NoTwin hashLen anchor lines radius) := by
  -- A scheme that wants a context takes no anchor without one.
  rw [suggests_generic search fun idx valid => ((accepts idx).mp valid).2.1]
  apply and_congr_right
  intro _
  constructor
  · intro valid
    by_contra neither
    rw [not_or] at neither
    obtain ⟨bare, twins⟩ := neither
    apply twins
    intro idx inside apart above below hash
    have taken := valid idx (mem_shiftCandidates.mpr ⟨⟨inside, apart, above, below⟩, hash, fun some' => absurd some' bare⟩)
    rw [accepts] at taken
    exact bare (by rw [taken.2.2, Option.isSome_some])
  · intro either idx member
    obtain ⟨⟨inside, apart, above, below⟩, hash, checked⟩ := mem_shiftCandidates.mp member
    rcases either with some' | noTwin
    · exact checked some'
    · exact absurd hash (noTwin idx inside apart above below)

/-- An anchor without a context is searched for by its hash alone, also where the scheme would refuse it. -/
theorem shifted_suggests_accepted_iff (anchor : ParsedAnchor) (lines : List Text) (radius : Nat) :
    (∀ self : ContentOnly, SuggestsAccepted self.scheme anchor lines radius ↔
      NothingCut self.scheme anchor lines radius) ∧
    (∀ self : ChunkFingerprint, SuggestsAccepted self.scheme anchor lines radius ↔
      NothingCut self.scheme anchor lines radius ∧
        (anchor.context.isSome = true ∨ NoTwin self.hashLen anchor lines radius)) ∧
    ∀ self : CheckpointChain, SuggestsAccepted self.scheme anchor lines radius ↔
      NothingCut self.scheme anchor lines radius ∧
        (anchor.context.isSome = true ∨ NoTwin self.hashLen anchor lines radius) := by
  refine ⟨?_, ?_, ?_⟩
  · intro self
    have accepts : ∀ idx, self.scheme.validate (anchor.at' idx) lines = .valid ↔
        idx < lines.length ∧ anchor.localHash = encodeHash (lineHash (lines.getD idx [])) self.hashLen := by
      intro idx
      change self.validate (anchor.at' idx) lines = .valid ↔ _
      rw [ContentOnly.validate, validateAt_valid, decide_eq_true_eq]
      rfl
    have search : self.scheme.findShifted = findShiftedGeneric self.hashLen self.scheme.validate := rfl
    rw [suggests_generic search fun idx valid => ((accepts idx).mp valid).2.symm]
    apply and_iff_left
    intro idx member
    obtain ⟨⟨inside, -⟩, hash, -⟩ := mem_shiftCandidates.mp member
    exact (accepts idx).mpr ⟨inside, hash.symm⟩
  · intro self
    have search : self.scheme.findShifted = findShiftedGeneric self.hashLen self.scheme.validate := rfl
    apply suggests_contextual search
    intro idx
    change self.validate (anchor.at' idx) lines = .valid ↔ _
    rw [ChunkFingerprint.validate, validateAt_valid, decide_eq_true_eq, eq_comm]
    rfl
  · intro self
    have search : self.scheme.findShifted = findShiftedGeneric self.hashLen self.scheme.validate := rfl
    apply suggests_contextual search
    intro idx
    change self.validate (anchor.at' idx) lines = .valid ↔ _
    rw [CheckpointChain.validate, validateAt_valid, decide_eq_true_eq, eq_comm]
    rfl

theorem three_letters : 0 < 3 ∧ 3 ≤ 4 := by decide

def chunkScheme : AnchorScheme := ChunkFingerprint.scheme ⟨3, 50, three_letters, by decide⟩

def bareAnchor : ParsedAnchor := ⟨1, encodeHash (lineHash ['x']) 3, none⟩

theorem bare_anchor_misled : ¬ SuggestsAccepted chunkScheme bareAnchor [['a'], ['x']] defaultSearchRadius := by
  intro suggests
  have accepted := (suggests.found 2).mp (by decide +kernel)
  exact absurd accepted (by decide +kernel)

end Window

end GrokPi.Hashline
