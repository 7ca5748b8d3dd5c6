import GrokPi.Shared.TextSearch

set_option autoImplicit false

namespace GrokPi.Compaction

open Text

def openAnalysis : Text := '<' :: "analysis>".toList

def closeAnalysis : Text := '<' :: "/analysis>".toList

def openSummary : Text := '<' :: "summary>".toList

def closeSummary : Text := '<' :: "/summary>".toList

def openRequest : Text := '<' :: "summary_request>".toList

def closeRequest : Text := '<' :: "/summary_request>".toList

def between (text : Text) (start stop : Nat) : Option Text :=
  if start ≤ stop then some ((text.take stop).drop start) else none

def isLeading (result : Text) (start : Nat) : Option Bool :=
  match find openSummary result with
  | some sp =>
      if start < sp then some true
      else (between result (sp + openSummary.length) start).map fun front => front.trim.isEmpty
  | none => some (Text.trim (result.take start)).isEmpty

def stripAnalysis (result : Text) : Option Text :=
  match _found : find openAnalysis result with
  | none => some result
  | some start =>
      match isLeading result start with
      | none => none
      | some false => some result
      | some true =>
          match find closeAnalysis (result.drop start) with
          | some rel =>
              stripAnalysis
                (result.take start ++ result.drop (start + rel + closeAnalysis.length))
          | none =>
              let dropTo :=
                match find openSummary (result.drop start) with
                | some rel => start + rel
                | none => result.length
              some (result.take start ++ result.drop dropTo)
termination_by result.length
decreasing_by
  have inside := prefix_drop_length (find_some _found) (List.cons_ne_nil _ _)
  have one : 0 < openAnalysis.length := Nat.succ_pos _
  have other : 0 < closeAnalysis.length := Nat.succ_pos _
  rw [List.length_append, List.length_take, List.length_drop]
  omega

def stripLeadingScratchpad (inner : Text) : Text :=
  let s := inner.trim
  let lead := s.dropWhile (· ∈ ['#', '*', '-', '>', ' ', '\t'])
  let peeled :=
    if (lead.head?.map Char.isDigit).getD false then s
    else
      match rfind closeAnalysis s with
      | some pos => Text.trimStart (s.drop (pos + closeAnalysis.length))
      | none => s
  if openSummary.isPrefixOf peeled then Text.trimStart (peeled.drop openSummary.length) else peeled

def extractSummary (result : Text) : Option Text :=
  match find openSummary result, rfind closeSummary result with
  | some start, some stop =>
      if start < stop then
        (between result (start + openSummary.length) stop).map fun inner =>
          result.take start ++ "Summary:\n".toList ++ stripLeadingScratchpad inner.trim ++
            result.drop (stop + closeSummary.length)
      else some result
  | _, _ => some result

def zeroWidthSpace : Char := '\u200b'

def neutralize (token text : Text) : Text :=
  replace text token (token.take 1 ++ zeroWidthSpace :: token.drop 1)

def controlTokens : List Text :=
  [closeSummary, openSummary, closeAnalysis, openAnalysis, closeRequest, openRequest]

def neutralizeCompactionControlTokens (text : Text) : Text :=
  controlTokens.foldl (fun text token => neutralize token text) text

def blankLine : Text := ['\n', '\n']

def blankRun : Text := '\n' :: blankLine

def collapseBlankRuns (result : Text) : Text :=
  match _found : find blankRun result with
  | none => result
  | some _ => collapseBlankRuns (replace result blankRun blankLine)
termination_by result.length
decreasing_by
  have present : blankRun <:+: result := by
    by_contra absent
    rw [find_eq_none.mpr absent] at _found
    cases _found
  exact replace_length_lt (List.cons_ne_nil _ _) (Nat.lt_succ_self _) present

def formatCompactSummary (summary : Text) : Option Text := do
  let stripped ← stripAnalysis summary
  let extracted ← extractSummary stripped
  some (Text.trim (collapseBlankRuns (neutralizeCompactionControlTokens extracted)))

section Slices

theorem isLeading_some {result : Text} {start : Nat} (found : find openAnalysis result = some start) :
    ∃ leading, isLeading result start = some leading := by
  -- An analysis that does not come first comes behind the summary tag, not inside it.
  unfold isLeading
  cases summary : find openSummary result with
  | none => exact ⟨_, rfl⟩
  | some sp =>
      simp only
      split
      next => exact ⟨_, rfl⟩
      next behind =>
        have here := find_some found
        have there := find_some summary
        have differ : sp ≠ start := by
          rintro rfl
          obtain ⟨back, whole⟩ := here
          obtain ⟨back', whole'⟩ := there
          rw [← whole] at whole'
          simp [openAnalysis, openSummary] at whole'
        have apart : sp + openSummary.length ≤ start :=
          @matches_apart _ '<' "summary>".toList "analysis>".toList sp start (by decide) there here
            (by omega)
        exact ⟨_, by rw [between, if_pos apart]; rfl⟩

theorem stripAnalysis_some (result : Text) : ∃ stripped, stripAnalysis result = some stripped := by
  induction result using stripAnalysis.induct with
  | case1 result none' =>
      rw [stripAnalysis]
      split
      next => exact ⟨_, rfl⟩
      next start found => rw [none'] at found; cases found
  | case2 result start found outside =>
      obtain ⟨leading, some'⟩ := isLeading_some found
      rw [outside] at some'
      cases some'
  | case3 result start found trailing =>
      rw [stripAnalysis]
      split
      next => exact ⟨_, rfl⟩
      next start' found' =>
        cases found.symm.trans found'
        exact ⟨result, by rw [trailing]⟩
  | case4 result start found leading rel closed ih =>
      obtain ⟨stripped, rest⟩ := ih
      rw [stripAnalysis]
      split
      next => exact ⟨_, rfl⟩
      next start' found' =>
        cases found.symm.trans found'
        exact ⟨stripped, by simp only [leading, closed, rest]⟩
  | case5 result start found leading unclosed =>
      rw [stripAnalysis]
      split
      next => exact ⟨_, rfl⟩
      next start' found' =>
        cases found.symm.trans found'
        exact ⟨_, by simp only [leading, unclosed]; rfl⟩

theorem extractSummary_some (result : Text) :
    ∃ extracted, extractSummary result = some extracted := by
  unfold extractSummary
  split
  next start stop opened closed =>
    split
    next before =>
      have apart : start + openSummary.length ≤ stop :=
        @matches_apart _ '<' "summary>".toList "/summary>".toList start stop (by decide)
          (find_some opened) (rfind_some closed) before
      exact ⟨_, by rw [between, if_pos apart]; rfl⟩
    next => exact ⟨_, rfl⟩
  next => exact ⟨_, rfl⟩

end Slices

section Tokens

theorem controlTokens_shape {token : Text} (member : token ∈ controlTokens) :
    ∃ name, token = '<' :: name ∧ name ≠ [] ∧ '<' ∉ name ∧ zeroWidthSpace ∉ name ∧ '\n' ∉ name := by
  simp only [controlTokens, List.mem_cons, List.not_mem_nil, or_false] at member
  rcases member with rfl | rfl | rfl | rfl | rfl | rfl <;> exact ⟨_, rfl, by decide⟩

theorem neutralize_absent {token : Text} (member : token ∈ controlTokens) (text : Text) :
    ¬token <:+: neutralize token text := by
  obtain ⟨name, rfl, some', once, unmarked, -⟩ := controlTokens_shape member
  exact marked_absent once (by decide) some' unmarked text

theorem neutralize_keeps {token other text : Text} (member : token ∈ controlTokens)
    (member' : other ∈ controlTokens) (present : other <:+: neutralize token text) :
    other <:+: text := by
  obtain ⟨name, rfl, some', once, unmarked, -⟩ := controlTokens_shape member
  obtain ⟨name', rfl, some'', once', unmarked', -⟩ := controlTokens_shape member'
  exact marked_keeps (List.cons_ne_nil _ _) once (by decide) some'' unmarked' once' present

theorem foldl_neutralize {tokens : List Text} (among : tokens ⊆ controlTokens) {token text : Text}
    (member : token ∈ controlTokens)
    (present : token <:+: tokens.foldl (fun text token => neutralize token text) text) :
    token <:+: text ∧ token ∉ tokens := by
  induction tokens generalizing text with
  | nil => exact ⟨present, List.not_mem_nil⟩
  | cons first rest ih =>
      have first' : first ∈ controlTokens := among List.mem_cons_self
      obtain ⟨within, later⟩ := ih (fun _ member => among (List.mem_cons_of_mem _ member)) present
      refine ⟨neutralize_keeps first' member within, ?_⟩
      rw [List.mem_cons, not_or]
      refine ⟨fun same => ?_, later⟩
      subst same
      exact neutralize_absent first' text within

theorem neutralizeCompactionControlTokens_absent {token : Text} (member : token ∈ controlTokens)
    (text : Text) : ¬token <:+: neutralizeCompactionControlTokens text :=
  fun present => (foldl_neutralize (List.Subset.refl _) member present).2 member

theorem neutralizeCompactionControlTokens_same {text : Text}
    (clean : ∀ token ∈ controlTokens, ¬token <:+: text) :
    neutralizeCompactionControlTokens text = text := by
  unfold neutralizeCompactionControlTokens
  generalize controlTokens = tokens at clean
  induction tokens with
  | nil => rfl
  | cons first rest ih =>
      rw [List.foldl_cons, neutralize, replace_untouched (clean first List.mem_cons_self)]
      exact ih fun token member => clean token (List.mem_cons_of_mem _ member)

end Tokens

section BlankRuns

theorem collapseBlankRuns_absent (text : Text) : ¬blankRun <:+: collapseBlankRuns text := by
  induction text using collapseBlankRuns.induct with
  | case1 result none' =>
      rw [collapseBlankRuns]
      split
      next found => exact find_eq_none.mp found
      next start found => rw [none'] at found; cases found
  | case2 result start found ih =>
      rw [collapseBlankRuns]
      split
      next none' => rw [found] at none'; cases none'
      next => exact ih

theorem collapseBlankRuns_keeps {name text : Text} (unbroken : '\n' ∉ name)
    (present : ('<' :: name) <:+: collapseBlankRuns text) : ('<' :: name) <:+: text := by
  induction text using collapseBlankRuns.induct with
  | case1 result none' =>
      rw [collapseBlankRuns] at present
      split at present
      next => exact present
      next start found => rw [none'] at found; cases found
  | case2 result start found ih =>
      rw [collapseBlankRuns] at present
      split at present
      next none' => rw [found] at none'; cases none'
      next =>
        exact infix_of_replace (List.cons_ne_nil _ _) unbroken
          (fun back => infix_behind (by decide)) (ih present)

theorem collapseBlankRuns_same {text : Text} (clean : ¬blankRun <:+: text) :
    collapseBlankRuns text = text := by
  rw [collapseBlankRuns]
  split
  next => rfl
  next start found => rw [find_eq_none.mpr clean] at found; cases found

end BlankRuns

structure Defused (text : Text) : Prop where
  tokens : ∀ token ∈ controlTokens, ¬token <:+: text
  lines : ¬blankRun <:+: text
  trimmed : text.trim = text

theorem formatCompactSummary_defused {text : Text} (defused : Defused text) :
    formatCompactSummary text = some text := by
  have stripped : stripAnalysis text = some text := by
    rw [stripAnalysis]
    split
    next => rfl
    next start found =>
      rw [find_eq_none.mpr (defused.tokens openAnalysis (by simp [controlTokens]))] at found
      cases found
  have extracted : extractSummary text = some text := by
    rw [extractSummary, find_eq_none.mpr (defused.tokens openSummary (by simp [controlTokens]))]
  simp only [formatCompactSummary, stripped, extracted, Option.bind_eq_bind, Option.bind_some,
    neutralizeCompactionControlTokens_same defused.tokens, collapseBlankRuns_same defused.lines,
    defused.trimmed]

theorem compact_summary_is_defused (summary : Text) :
    ∃ output, formatCompactSummary summary = some output ∧ Defused output ∧
      formatCompactSummary output = some output := by
  obtain ⟨stripped, strips⟩ := stripAnalysis_some summary
  obtain ⟨extracted, extracts⟩ := extractSummary_some stripped
  have defused : Defused
      (Text.trim (collapseBlankRuns (neutralizeCompactionControlTokens extracted))) :=
    { tokens := fun token member present => by
        have collapsed := present.trans (trim_within _)
        obtain ⟨name, rfl, -, -, -, unbroken⟩ := controlTokens_shape member
        exact neutralizeCompactionControlTokens_absent member extracted
          (collapseBlankRuns_keeps unbroken collapsed)
      lines := fun present => collapseBlankRuns_absent _ (present.trans (trim_within _))
      trimmed := trim_trim _ }
  refine ⟨_, ?_, defused, formatCompactSummary_defused defused⟩
  simp only [formatCompactSummary, strips, extracts, Option.bind_eq_bind, Option.bind_some]

end GrokPi.Compaction
