import GrokPi.Chat.Conversation
import GrokPi.Shared.TextSearch

set_option autoImplicit false

namespace GrokPi.Chat

def openTag : Text := "<memory-context>".toList

def closeTag : Text := "</memory-context>".toList

def trimEndNewlines (text : Text) : Text := text.rdropWhile (· = '\n')

def upsertMemoryReminderText (systemPrompt reminder : Text) : Bool × Text :=
  let existingStart := (Text.find openTag systemPrompt).map fun idx => (trimEndNewlines (systemPrompt.take idx)).length
  let updated :=
    match existingStart with
    | some start =>
        let before := trimEndNewlines (systemPrompt.take start)
        if before.isEmpty then reminder else before ++ '\n' :: '\n' :: reminder
    | none =>
        if systemPrompt.trimEnd = reminder then systemPrompt
        else if systemPrompt.isEmpty then reminder
        else trimEndNewlines systemPrompt ++ '\n' :: '\n' :: reminder
  (systemPrompt ≠ updated, updated)

def injectMemoryReminder (items : List ConversationItem) (reminder : Text) : Bool × List ConversationItem :=
  let reminder := reminder.trim
  if reminder.isEmpty then (false, items)
  else
    match items with
    | .system content :: rest =>
        let (changed, updated) := upsertMemoryReminderText content reminder
        (changed, .system updated :: rest)
    | items => (true, .system reminder :: items)

def injectAll (items : List ConversationItem) (reminders : List Text) : List ConversationItem :=
  reminders.foldl (fun items reminder => (injectMemoryReminder items reminder).2) items

structure IsSection (text : Text) : Prop where
  opened : openTag <+: text
  closed : closeTag <:+ text

structure Prompt where
  before : Text
  held : Option (Text × Text)

def Prompt.text (prompt : Prompt) : Text :=
  match prompt.held with
  | none => prompt.before
  | some (held, following) => prompt.before ++ held ++ following

def Prompt.following (prompt : Prompt) : Text := (prompt.held.map Prod.snd).getD []

def Upserted (prompt : Prompt) (reminder updated : Text) : Prop :=
  ∃ before following, updated = before ++ reminder ++ following ∧
    trimEndNewlines before = trimEndNewlines prompt.before ∧
    following.dropWhile (· = '\n') = prompt.following.dropWhile (· = '\n') ∧
    ¬ openTag <:+: before ∧ ¬ openTag <:+: following

section Newlines

variable {text gap : Text}

def Newlines (gap : Text) : Prop := ∀ c ∈ gap, c = '\n'

theorem split_newlines (text : Text) : ∃ gap, Newlines gap ∧ text = trimEndNewlines text ++ gap := by
  refine ⟨text.rtakeWhile (· = '\n'), ?_, List.rdropWhile_append_rtakeWhile.symm⟩
  intro c member
  simpa using List.mem_rtakeWhile_imp member

theorem trimEndNewlines_append (newlines : Newlines gap) : trimEndNewlines (text ++ gap) = trimEndNewlines text := by
  induction gap using List.reverseRecOn with
  | nil => rw [List.append_nil]
  | append_singleton gap c ih =>
      have last : c = '\n' := newlines c (by simp)
      rw [← List.append_assoc, trimEndNewlines, List.rdropWhile_concat_pos _ _ _ (by simp [last])]
      exact ih fun c member => newlines c (List.mem_append_left _ member)

theorem trimEndNewlines_trim (text : Text) : trimEndNewlines (trimEndNewlines text) = trimEndNewlines text := by
  obtain ⟨gap, newlines, whole⟩ := split_newlines text
  conv_rhs => rw [whole]
  exact (trimEndNewlines_append newlines).symm

theorem trimEndNewlines_initial (text : Text) : trimEndNewlines text <+: text := List.rdropWhile_prefix _ _

end Newlines

section Upsert

variable {prompt reminder front gap : Text}

theorem openTag_cons : openTag = '<' :: "memory-context>".toList := rfl

theorem openTag_concat : openTag = "<memory-context".toList ++ ['>'] := rfl

theorem closeTag_concat : closeTag = "</memory-context".toList ++ ['>'] := rfl

theorem once : '<' ∉ "memory-context>".toList := by decide

theorem free_gap (free : ¬ openTag <:+: front) (newlines : Newlines gap) : ¬ openTag <:+: front ++ gap := by
  intro present
  rw [openTag_concat] at present free
  refine free (Text.infix_before ?_ present)
  intro member
  have same := newlines '>' member
  exact absurd same (by decide)

def frontOf (prompt : Text) : Text :=
  match Text.find openTag prompt with
  | some idx => prompt.take idx
  | none => prompt

def stem (prompt : Text) : Text := trimEndNewlines (frontOf prompt)

theorem frontOf_free (prompt : Text) : ¬ openTag <:+: frontOf prompt := by
  rw [frontOf]
  split
  next found => exact Text.find_first found
  next missing => exact Text.find_eq_none.mp missing

theorem stem_trim (prompt : Text) : trimEndNewlines (stem prompt) = stem prompt := trimEndNewlines_trim _

theorem stem_free (prompt : Text) : ¬ openTag <:+: stem prompt :=
  fun present => frontOf_free prompt (present.trans (trimEndNewlines_initial _).isInfix)

theorem frontOf_section (free : ¬ openTag <:+: front) (opened : openTag <+: reminder) (following : Text) :
    frontOf (front ++ reminder ++ following) = front := by
  obtain ⟨inner, rfl⟩ := opened
  have found : Text.find openTag (front ++ (openTag ++ inner) ++ following) = some front.length := by
    rw [List.append_assoc, List.append_assoc]
    exact Text.find_behind once free (inner ++ following)
  rw [frontOf, found]
  dsimp only
  rw [List.append_assoc, List.take_left]

theorem stem_section (free : ¬ openTag <:+: front) (opened : openTag <+: reminder) (following : Text) :
    stem (front ++ reminder ++ following) = trimEndNewlines front := by
  rw [stem, frontOf_section free opened]

theorem stem_plain (free : ¬ openTag <:+: prompt) : stem prompt = trimEndNewlines prompt := by
  rw [stem, frontOf, Text.find_eq_none.mpr free]

theorem trim_reminder (valid : IsSection reminder) : reminder.trim = reminder ∧ reminder ≠ [] := by
  obtain ⟨⟨inner, rfl⟩, closed⟩ := valid
  -- A section starts and ends in a bracket, so nothing is trimmed.
  have last : (openTag ++ inner).getLast? = some '>' := by
    obtain ⟨outer, whole⟩ := closed
    rw [← whole, closeTag_concat, ← List.append_assoc]
    exact List.getLast?_concat
  have trimmed := @Text.trim_inked (openTag ++ inner) '<' '>' rfl (by decide) last (by decide) []
  rw [List.append_nil] at trimmed
  exact ⟨trimmed (by simp), by simp [openTag_cons]⟩

theorem upsert_eq (opened : openTag <+: reminder) :
    ∃ gap, Newlines gap ∧ gap.length ≤ 2 ∧ (upsertMemoryReminderText prompt reminder).2 = stem prompt ++ gap ++ reminder := by
  have empty : Newlines [] := by simp [Newlines]
  have two : Newlines ['\n', '\n'] := by simp [Newlines]
  cases found : Text.find openTag prompt with
  | some idx =>
      have front : stem prompt = trimEndNewlines (prompt.take idx) := by
        rw [stem, frontOf, found]
      have start : prompt.take (trimEndNewlines (prompt.take idx)).length = trimEndNewlines (prompt.take idx) :=
        (List.prefix_iff_eq_take.mp ((trimEndNewlines_initial _).trans (List.take_prefix _ _))).symm
      have updated : (upsertMemoryReminderText prompt reminder).2 =
          if (stem prompt).isEmpty then reminder else stem prompt ++ '\n' :: '\n' :: reminder := by
        simp only [upsertMemoryReminderText, found, Option.map_some]
        rw [start, trimEndNewlines_trim, front]
      rw [updated]
      split
      next none' => exact ⟨[], empty, by simp, by rw [List.isEmpty_iff.mp none']; rfl⟩
      next => exact ⟨['\n', '\n'], two, by simp, by simp⟩
  | none =>
      have front : stem prompt = trimEndNewlines prompt := by
        rw [stem, frontOf, found]
      have other : prompt.trimEnd ≠ reminder := by
        intro same
        have within : openTag <:+: prompt :=
          (same ▸ opened.isInfix).trans (List.rdropWhile_prefix _ _).isInfix
        exact Text.find_eq_none.mp found within
      have updated : (upsertMemoryReminderText prompt reminder).2 =
          if prompt.isEmpty then reminder else stem prompt ++ '\n' :: '\n' :: reminder := by
        simp only [upsertMemoryReminderText, found, Option.map_none, if_neg other, front]
      rw [updated]
      split
      next none' =>
        refine ⟨[], empty, by simp, ?_⟩
        rw [front, List.isEmpty_iff.mp none']
        rfl
      next => exact ⟨['\n', '\n'], two, by simp, by simp⟩

theorem injectAll_eq {reminders : List Text} (valid : ∀ reminder ∈ reminders, IsSection reminder) {last : Text}
    (final : reminders.getLast? = some last) (content : Text) (rest : List ConversationItem) :
    ∃ gap, Newlines gap ∧ gap.length ≤ 2 ∧
      injectAll (.system content :: rest) reminders = .system (stem content ++ gap ++ last) :: rest := by
  -- Any number of reminders later the last one stands behind the same stem.
  induction reminders generalizing content with
  | nil => cases final
  | cons reminder later ih =>
      have own := valid reminder List.mem_cons_self
      obtain ⟨trimmed, some'⟩ := trim_reminder own
      obtain ⟨gap, newlines, short, updated⟩ := @upsert_eq content reminder own.opened
      have step : injectAll (.system content :: rest) (reminder :: later) =
          injectAll (.system (stem content ++ gap ++ reminder) :: rest) later := by
        rw [injectAll, List.foldl_cons, ← injectAll]
        simp only [injectMemoryReminder, trimmed, List.isEmpty_iff, some', if_false, updated]
      rw [step]
      cases later with
      | nil =>
          rw [List.getLast?_singleton] at final
          obtain rfl := Option.some.inj final
          exact ⟨gap, newlines, short, rfl⟩
      | cons next others =>
          rw [List.getLast?_cons_cons] at final
          obtain ⟨gap', newlines', short', whole⟩ :=
            ih (fun reminder member => valid reminder (List.mem_cons_of_mem _ member)) final
              (stem content ++ gap ++ reminder)
          -- The next reminder cuts the prompt at the section that this one left.
          have same := stem_section (free_gap (stem_free content) newlines) own.opened []
          rw [List.append_nil, trimEndNewlines_append newlines, stem_trim] at same
          rw [same] at whole
          exact ⟨gap', newlines', short', whole⟩

end Upsert

section Preserved

variable {prompt : Prompt} {last gap : Text}

theorem prompt_front (free : ¬ openTag <:+: prompt.before) (held : ∀ section' ∈ prompt.held, IsSection section'.1) :
    stem prompt.text = trimEndNewlines prompt.before := by
  cases section' : prompt.held with
  | none =>
      rw [Prompt.text, section']
      exact stem_plain free
  | some parts =>
      rw [Prompt.text, section']
      exact stem_section free (held parts section').opened parts.2

theorem stem_cut (present : openTag <:+: prompt.before) :
    (stem prompt.text).length + openTag.length ≤ (trimEndNewlines prompt.before).length := by
  cases found : Text.find openTag prompt.before with
  | none => exact absurd present (Text.find_eq_none.mp found)
  | some idx =>
      have front : frontOf prompt.text = prompt.before.take idx := by
        have first : Text.find openTag prompt.text = some idx := by
          rw [Prompt.text]
          cases prompt.held with
          | none => exact found
          | some parts =>
              dsimp only
              rw [List.append_assoc]
              exact Text.find_append found _
        have inside := Text.prefix_drop_length (Text.find_some found) (by simp [openTag_cons])
        rw [frontOf, first]
        rw [Prompt.text]
        cases prompt.held with
        | none => rfl
        | some parts =>
            dsimp only
            rw [List.append_assoc, List.take_append_of_le_length (by omega)]
      -- The tag ends in no newline, so trimming keeps it.
      have kept : idx + openTag.length ≤ (trimEndNewlines prompt.before).length := by
        obtain ⟨gap, newlines, whole⟩ := split_newlines prompt.before
        obtain ⟨back, tag⟩ := Text.find_some found
        by_contra short
        have place : prompt.before[idx + 15]? = some '>' := by
          rw [← List.getElem?_drop, ← tag]
          rfl
        have size : openTag.length = 16 := rfl
        rw [whole, List.getElem?_append_right (by omega)] at place
        exact absurd (newlines '>' (List.mem_of_getElem? place)) (by decide)
      have shorter : (stem prompt.text).length ≤ idx := by
        rw [stem, front]
        exact (trimEndNewlines_initial _).length_le.trans (by simp)
      omega

theorem newlines_iff (text : Text) : text.dropWhile (· = '\n') = [] ↔ Newlines text := by
  rw [List.dropWhile_eq_nil_iff, Newlines]
  simp

theorem behind_newlines {gap gap' text following : Text} (newlines : Newlines gap) (newlines' : Newlines gap')
    (inked : ∃ rest, text = '<' :: rest) (same : gap ++ text = gap' ++ text ++ following) : following = [] := by
  obtain ⟨rest, rfl⟩ := inked
  have drop : ∀ {gap : Text}, Newlines gap → ∀ back, (gap ++ '<' :: back).dropWhile (· = '\n') = '<' :: back := by
    intro gap newlines back
    rw [List.dropWhile_append_of_pos fun c member => decide_eq_true (newlines c member)]
    rfl
  have cut := congrArg (List.dropWhile (· = '\n')) same
  rw [List.append_assoc, List.cons_append, drop newlines, drop newlines'] at cut
  simpa using cut

theorem memory_reminder_iff (prompt : Prompt) (held : ∀ section' ∈ prompt.held, IsSection section'.1)
    {reminders : List Text} (valid : ∀ reminder ∈ reminders, IsSection reminder) {last : Text}
    (final : reminders.getLast? = some last) (rest : List ConversationItem) :
    (∃ updated, injectAll (.system prompt.text :: rest) reminders = .system updated :: rest ∧
      Upserted prompt last updated) ↔
        ¬ openTag <:+: prompt.before ∧ Newlines prompt.following := by
  obtain ⟨gap, newlines, short, whole⟩ := injectAll_eq valid final prompt.text rest
  obtain ⟨inner, opened⟩ := (valid last (List.mem_of_getLast? final)).opened
  constructor
  · rintro ⟨updated, injected, before, following, split, front, back, _, _⟩
    rw [whole] at injected
    obtain rfl : stem prompt.text ++ gap ++ last = updated := by simpa using injected
    obtain ⟨gap', newlines', before'⟩ := split_newlines before
    -- Cut at a tag further up, the prompt would be too short to be kept.
    have long : (trimEndNewlines prompt.before).length ≤ before.length := by
      rw [← front]
      exact (trimEndNewlines_initial before).length_le
    have free : ¬ openTag <:+: prompt.before := by
      intro present
      have cut := stem_cut present
      have lengths := congrArg List.length split
      simp only [List.length_append] at lengths
      have size : openTag.length = 16 := rfl
      omega
    refine ⟨free, ?_⟩
    rw [prompt_front free held, before', front, List.append_assoc, List.append_assoc, List.append_assoc] at split
    have nothing := behind_newlines newlines newlines' ⟨_, opened.symm⟩
      ((List.append_cancel_left split).trans (List.append_assoc _ _ _).symm)
    rw [← newlines_iff, ← back, nothing]
    rfl
  · rintro ⟨free, blank⟩
    refine ⟨_, whole, stem prompt.text ++ gap, [], by simp, ?_, ?_, free_gap (stem_free _) newlines, ?_⟩
    · rw [trimEndNewlines_append newlines, stem_trim, prompt_front free held]
    · rw [(newlines_iff _).mpr blank]
      rfl
    · intro present
      exact absurd (List.infix_nil.mp present) (by simp [openTag_cons])

def note (text : Text) : Text := openTag ++ text ++ closeTag

theorem note_section (text : Text) : IsSection (note text) := by
  rw [note, List.append_assoc]
  exact ⟨List.prefix_append _ _, (List.suffix_append _ _).trans (List.suffix_append _ _)⟩

theorem notes_upserted :
    ∃ updated, injectAll [.system "Be brief.".toList] [note "tea".toList, note "coffee".toList] = [.system updated] ∧
      Upserted { before := "Be brief.".toList, held := none } (note "coffee".toList) updated :=
  (memory_reminder_iff { before := "Be brief.".toList, held := none } (by simp)
    (by simp [note_section]) rfl []).mpr
      ⟨Text.find_eq_none.mp (by decide), by simp [Newlines, Prompt.following]⟩

theorem following_text_lost :
    ¬ ∀ (prompt : Prompt) (reminder : Text), ¬ openTag <:+: prompt.before →
      (∀ section' ∈ prompt.held, IsSection section'.1) → IsSection reminder →
        ∃ updated, injectAll [.system prompt.text] [reminder] = [.system updated] ∧ Upserted prompt reminder updated := by
  intro preserved
  obtain ⟨updated, injected, _, following, split, _, back, _, _⟩ :=
    preserved { before := "Be brief.".toList, held := some (note "tea".toList, "Use tools.".toList) } (note "tea".toList)
      (Text.find_eq_none.mp (by decide)) (by simp [note_section]) (note_section _)
  have cut : injectAll [.system ("Be brief.".toList ++ note "tea".toList ++ "Use tools.".toList)] [note "tea".toList] =
      [.system ("Be brief.\n\n".toList ++ note "tea".toList)] := by decide
  have updated_eq : "Be brief.\n\n".toList ++ note "tea".toList = updated := by
    simpa using cut.symm.trans injected
  have dropped : 'U' ∈ following.dropWhile (· = '\n') := by
    rw [back]
    decide
  have member : 'U' ∈ updated := by
    rw [split]
    exact List.mem_append_right _ ((List.dropWhile_suffix _).mem dropped)
  rw [← updated_eq] at member
  exact absurd member (by decide)

end Preserved

end GrokPi.Chat
