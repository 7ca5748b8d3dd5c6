import GrokPi.Hashline.Snapshot

set_option autoImplicit false

namespace GrokPi.Hashline

open Text (lines joinLines EndsInLine Firm)

section Joined

def dropFinalBlank (parts : List Text) : List Text := if parts.getLast? = some [] then parts.dropLast else parts

theorem dropFinalBlank_concat (front : List Text) (last : Text) :
    dropFinalBlank (front ++ [last]) = if last = [] then front else front ++ [last] := by
  simp [dropFinalBlank]

theorem lines_splitLines (content : Text) : lines content = dropFinalBlank (splitLines content) := by
  unfold dropFinalBlank splitLines
  by_cases empty : content = []
  · simp [empty, lines, Text.splitInclusive]
  · by_cases ended : EndsInLine content
    · rw [if_neg empty, if_pos ended, List.getLast?_concat, if_pos rfl, List.dropLast_concat]
    · rw [if_neg empty, if_neg ended, if_neg (Text.lines_firm ended)]

variable {parts : List Text}

theorem lines_joined (some' : parts ≠ []) (unsplit : ∀ line ∈ parts, '\n' ∉ line) :
    lines (joinLines parts) = dropFinalBlank (dropReturns parts) := by
  rw [lines_splitLines, splitLines_joinLines some' unsplit]

theorem dropReturns_concat (front : List Text) (last : Text) :
    dropReturns (front ++ [last]) = front.map dropReturn ++ [last] := by
  induction front with
  | nil => rfl
  | cons first rest ih =>
      rw [List.map_cons, List.cons_append, List.cons_append, ← ih]
      cases rest <;> rfl

theorem map_dropReturn (parts : List Text) :
    parts.map dropReturn = parts ↔ ∀ line ∈ parts, line.getLast? ≠ some '\r' := by
  simp only [← dropReturn_eq_self]
  constructor
  · intro same
    exact List.map_inj_left.mp (same.trans (List.map_id parts).symm)
  · intro each
    exact (List.map_inj_left.mpr each).trans (List.map_id parts)

theorem lines_joined_ended (unsplit : ∀ line ∈ parts, '\n' ∉ line) :
    lines (joinLines (parts ++ [[]])) = parts.map dropReturn := by
  have clean : ∀ line ∈ parts ++ [[]], '\n' ∉ line := by
    intro line member
    rcases List.mem_append.mp member with within | last
    · exact unsplit line within
    · simp [List.mem_singleton.mp last]
  rw [lines_joined (by simp) clean, dropReturns_concat, dropFinalBlank_concat, if_pos rfl]

theorem endsInLine_joined (some' : parts ≠ []) : EndsInLine (joinLines (parts ++ [[]])) := by
  have shape : joinLines (parts ++ [[]]) = joinLines parts ++ ['\n'] := by
    have whole := Text.unlines_eq_joinLines (List.append_ne_nil_of_left_ne_nil some' [[]])
    rw [Text.unlines, List.flatMap_append, ← Text.unlines, Text.unlines_eq_joinLines some'] at whole
    exact (List.append_cancel_right whole).symm
  rw [shape]
  simp [EndsInLine]

theorem lines_joined_unended {front : List Text} {last : Text}
    (unsplit : ∀ line ∈ front ++ [last], '\n' ∉ line) :
    lines (joinLines (front ++ [last])) = front ++ [last] ↔
      last ≠ [] ∧ ∀ line ∈ front, line.getLast? ≠ some '\r' := by
  -- Of lines without a final line feed, an empty last one is lost.
  rw [lines_joined (by simp) unsplit, dropReturns_concat, dropFinalBlank_concat, ← map_dropReturn]
  by_cases blank : last = []
  · refine iff_of_false (fun same => ?_) fun clean => clean.1 blank
    have count := congrArg List.length same
    simp [blank] at count
  · simp [blank]

theorem lines_joined_blank (some' : parts ≠ []) (unsplit : ∀ line ∈ parts, '\n' ∉ line) :
    lines (joinLines ([] :: parts)) = parts ↔ ∀ line ∈ parts, line = [] := by
  -- Behind an empty line stand as many lines as before only where all of them are empty.
  obtain ⟨front, last, rfl⟩ := List.eq_nil_or_concat' parts |>.resolve_left some'
  have clean : ∀ line ∈ ([] :: front) ++ [last], '\n' ∉ line := by
    intro line member
    rcases List.mem_cons.mp member with rfl | within
    · simp
    · exact unsplit line within
  rw [← List.cons_append, lines_joined (by simp) clean, dropReturns_concat, dropFinalBlank_concat]
  constructor
  · intro same
    have blank : last = [] := by
      by_contra inked
      have count := congrArg List.length same
      simp [inked] at count
    subst blank
    rw [if_pos rfl, List.map_cons] at same
    -- Each line is the one in front of it, without its carriage return.
    have each : ∀ (i : Nat) (line : Text), (front ++ [[]])[i]? = some line → line = [] := by
      intro i
      induction i with
      | zero =>
          intro line here
          rw [← same] at here
          exact (Option.some.inj here).symm
      | succ i ih =>
          intro line here
          rw [← same, List.getElem?_cons_succ, List.getElem?_map] at here
          obtain ⟨before, found, rfl⟩ := Option.map_eq_some_iff.mp here
          have inFront : (front ++ [[]])[i]? = some before := by
            rw [List.getElem?_append_left (List.getElem?_eq_some_iff.mp found).1, found]
          rw [ih before inFront]
          rfl
    intro line member
    obtain ⟨i, here⟩ := List.getElem?_of_mem member
    exact each i line here
  · intro blank
    have all : ∀ line ∈ front, line = [] := fun line member => blank line (List.mem_append_left _ member)
    rw [blank last (by simp), List.eq_replicate_of_mem all, if_pos rfl, ← List.replicate_succ']
    simp [dropReturn, List.replicate_succ]

end Joined

section EndOfFile

variable {content inserted : Text}

/-- The batch goes through, the new text has the old lines and behind them the inserted ones, and a final
line feed stays. -/
def AppendsLines (content inserted filePath : Text) (scheme : AnchorScheme) : Prop :=
  ∃ report newContent details,
    applyEdits content [.insertAfter "EOF".toList inserted] filePath scheme =
        ⟨.editsApplied report, some newContent, details⟩ ∧
      lines newContent = lines content ++ lines inserted ∧ (EndsInLine content → EndsInLine newContent)

/-- Whether the lines of the two texts can stand one after the other, by how the file ends. -/
def FitsBehind (content inserted : Text) : Prop :=
  if content = [] then ∀ line ∈ lines inserted, line = []
  else if EndsInLine content then ∀ line ∈ lines content ++ lines inserted, line.getLast? ≠ some '\r'
  else Firm (lines inserted) ∧ ∀ line ∈ (lines content ++ lines inserted).dropLast, line.getLast? ≠ some '\r'

def eofLine (content : Text) : Nat :=
  if 1 < (splitLines content).length ∧ (splitLines content).getLast? = some [] then (splitLines content).length - 1
  else (splitLines content).length

theorem eofLine_split (content : Text) :
    ((splitLines content).take (eofLine content), (splitLines content).drop (eofLine content)) =
      if content = [] then ([[]], [])
      else if EndsInLine content then (lines content, [[]])
      else (lines content, []) := by
  unfold eofLine splitLines
  by_cases empty : content = []
  · simp [empty]
  · by_cases ended : EndsInLine content
    · have some' : 0 < (lines content).length := by
        apply List.length_pos_of_ne_nil
        intro none'
        rw [lines, List.map_eq_nil_iff, Text.splitInclusive_eq_nil] at none'
        exact empty none'
      simp only [if_neg empty, if_pos ended]
      rw [if_pos ⟨by simpa using some', by simp⟩]
      simp
    · simp only [if_neg empty, if_neg ended]
      rw [if_neg fun both => Text.lines_firm ended both.2]
      simp

theorem applyEdits_eof (plain : detectAnchorPrefixInContent inserted = none) (some' : inserted ≠ [])
    (filePath : Text) (scheme : AnchorScheme) :
    ∃ report details, applyEdits content [.insertAfter "EOF".toList inserted] filePath scheme =
      ⟨.editsApplied report,
        some (joinLines ((splitLines content).take (eofLine content) ++ lines inserted ++
          (splitLines content).drop (eofLine content))), details⟩ := by
  have resolved : resolveOps [.insertAfter "EOF".toList inserted] (splitLines content) scheme =
      .ok [⟨0, eofLine content, eofLine content, lines inserted⟩] := by
    have point : insertionPoint "EOF".toList (splitLines content) scheme = .ok (eofLine content) := by
      unfold insertionPoint eofLine
      rw [if_neg (by decide), if_pos rfl]
      split <;> rfl
    have one : resolveOp (.insertAfter "EOF".toList inserted) 0 (splitLines content) scheme =
        .ok ⟨0, eofLine content, eofLine content, lines inserted⟩ := by
      simp only [resolveOp, point, checkContent, plain, if_neg some']
      rfl
    simp only [resolveOps, resolveOpsFrom, one]
  have clear : checkOverlaps [⟨0, eofLine content, eofLine content, lines inserted⟩] = none := by
    simp [checkOverlaps, rangesByStart, ResolvedOp.isInsertion, overlappingWindow, insertionInside]
  unfold applyEdits applyBatch
  simp only [resolved, clear]
  exact ⟨_, _, rfl⟩

/-- An empty file has one empty line, which stays in front; carriage returns and an empty last line that end
up at a line feed are lost. -/
theorem eof_insertion_appends_iff (plain : detectAnchorPrefixInContent inserted = none) (some' : inserted ≠ [])
    (filePath : Text) (scheme : AnchorScheme) :
    AppendsLines content inserted filePath scheme ↔ FitsBehind content inserted := by
  obtain ⟨report, details, applied⟩ := @applyEdits_eof content inserted plain some' filePath scheme
  have only : ∀ newContent, newContent = joinLines ((splitLines content).take (eofLine content) ++ lines inserted ++
      (splitLines content).drop (eofLine content)) →
      (AppendsLines content inserted filePath scheme ↔
        lines newContent = lines content ++ lines inserted ∧ (EndsInLine content → EndsInLine newContent)) := by
    rintro newContent rfl
    unfold AppendsLines
    rw [applied]
    constructor
    · rintro ⟨_, _, _, same, appended⟩
      cases same
      exact appended
    · exact fun appended => ⟨_, _, _, rfl, appended⟩
  have unsplit := lines_unsplit inserted
  have insertedSome : lines inserted ≠ [] := by
    intro none'
    rw [lines, List.map_eq_nil_iff, Text.splitInclusive_eq_nil] at none'
    exact some' none'
  have unsplitBoth : ∀ line ∈ lines content ++ lines inserted, '\n' ∉ line := by
    intro line member
    rcases List.mem_append.mp member with old | new
    · exact lines_unsplit content line old
    · exact unsplit line new
  have parts := eofLine_split content
  rw [only _ rfl, FitsBehind]
  split
  next empty =>
    rw [if_pos empty, Prod.mk.injEq] at parts
    rw [parts.1, parts.2, List.append_nil, empty, ← lines_joined_blank insertedSome unsplit]
    exact and_iff_left fun ended => by cases ended
  next inked =>
    rw [if_neg inked] at parts
    split
    next ended =>
      rw [if_pos ended, Prod.mk.injEq] at parts
      rw [parts.1, parts.2, lines_joined_ended unsplitBoth, map_dropReturn]
      exact and_iff_left fun _ => endsInLine_joined (List.append_ne_nil_of_right_ne_nil _ insertedSome)
    next unended =>
      rw [if_neg unended, Prod.mk.injEq] at parts
      obtain ⟨front, last, shape⟩ := List.eq_nil_or_concat' (lines inserted) |>.resolve_left insertedSome
      rw [shape, ← List.append_assoc] at unsplitBoth
      rw [parts.1, parts.2, List.append_nil, shape, ← List.append_assoc, lines_joined_unended unsplitBoth,
        List.dropLast_concat, Firm, List.getLast?_concat]
      rw [show (some last ≠ some ([] : Text)) = (last ≠ []) by simp]
      exact and_iff_left fun ended => absurd ended unended

theorem eof_insertion_appends_line : AppendsLines ['a', '\n'] ['b'] [] headlineScheme := by
  apply (eof_insertion_appends_iff (by decide) (by decide) [] headlineScheme).mpr
  rw [FitsBehind, if_neg (by decide), if_pos (by decide)]
  decide +kernel

theorem eof_insertion_below_blank :
    detectAnchorPrefixInContent ['x'] = none ∧ ¬ AppendsLines [] ['x'] [] headlineScheme := by
  refine ⟨by decide +kernel, ?_⟩
  rintro ⟨report, newContent, details, applied, same, -⟩
  have made := (congrArg ApplyResult.newContent applied).symm.trans
    (show _ = some ['\n', 'x'] by decide +kernel)
  rw [Option.some.inj made] at same
  exact absurd same (by decide)

end EndOfFile

end GrokPi.Hashline
