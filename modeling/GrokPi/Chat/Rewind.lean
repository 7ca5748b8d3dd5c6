import GrokPi.Chat.Conversation
import GrokPi.Shared.Numbering

set_option autoImplicit false

namespace GrokPi.Chat

open Numbering

def ConversationItem.promptIndex : ConversationItem → Option Nat
  | .user item => item.promptIndex
  | _ => none

structure UnmarkedCount where
  nextUnmarkedIndex : Nat := 0
  seenUnmarkedPreamble : Bool := false

-- The first user item that nothing synthesized is the preamble and opens no turn.
def UnmarkedCount.number (count : UnmarkedCount) (user : UserItem) : Option Nat × UnmarkedCount :=
  let turn := (some count.nextUnmarkedIndex,
    { count with nextUnmarkedIndex := count.nextUnmarkedIndex + 1 })
  match user.syntheticReason with
  | none =>
      if count.seenUnmarkedPreamble then turn else (none, { count with seenUnmarkedPreamble := true })
  | some reason => if reason.startsPromptTurn then turn else (none, count)

def legacyIndex (count : UnmarkedCount) : ConversationItem → Option Nat × UnmarkedCount
  | .user user => count.number user
  | _ => (none, count)

def conversationTruncateLegacy (conversation : List ConversationItem) (targetPromptIndex : Nat) :
    Nat :=
  keep legacyIndex targetPromptIndex {} conversation

def conversationTruncateMarkersOnly (conversation : List ConversationItem)
    (targetPromptIndex : Nat) : Nat :=
  keep (fun state item => (item.promptIndex, state)) targetPromptIndex () conversation

structure ProgressiveCount where
  unmarked : UnmarkedCount := {}
  seenMarker : Bool := false

def progressiveIndex (count : ProgressiveCount) : ConversationItem → Option Nat × ProgressiveCount
  | .user user =>
      match user.promptIndex with
      | some index => (some index, { count with seenMarker := true })
      | none =>
          if count.seenMarker then (none, count)
          else
            ((count.unmarked.number user).1,
              { count with unmarked := (count.unmarked.number user).2 })
  | _ => (none, count)

def conversationTruncateProgressive (conversation : List ConversationItem)
    (targetPromptIndex : Nat) : Nat :=
  keep progressiveIndex targetPromptIndex {} conversation

def countUntilMarker : Bool → List ConversationItem → Nat
  | _, [] => 0
  | seenUnmarkedPreamble, item :: rest =>
      match item with
      | .user user =>
          if user.promptIndex.isSome then 0
          else
            match user.syntheticReason with
            | none =>
                if seenUnmarkedPreamble then countUntilMarker true rest + 1
                else countUntilMarker true rest
            | some reason =>
                if reason.startsPromptTurn then countUntilMarker seenUnmarkedPreamble rest + 1
                else countUntilMarker seenUnmarkedPreamble rest
      | _ => countUntilMarker seenUnmarkedPreamble rest

def countLegacyTurnsUntilMarker (conversation : List ConversationItem) : Nat :=
  countUntilMarker false conversation

def firstMarker (conversation : List ConversationItem) : Option Nat :=
  conversation.findSome? ConversationItem.promptIndex

def conversationTruncateForPrompt (conversation : List ConversationItem) (targetPromptIndex : Nat) :
    Nat :=
  match firstMarker conversation with
  | none => conversationTruncateLegacy conversation targetPromptIndex
  | some firstMarkerIdx =>
      if countLegacyTurnsUntilMarker conversation ≠ firstMarkerIdx then
        conversationTruncateMarkersOnly conversation targetPromptIndex
      else conversationTruncateProgressive conversation targetPromptIndex

def rewind (conversation : List ConversationItem) (targetPromptIndex : Nat) :
    List ConversationItem :=
  conversation.take (conversationTruncateForPrompt conversation targetPromptIndex)

section Unmarked

def Unmarked (items : List ConversationItem) : Prop :=
  ∀ item ∈ items, item.promptIndex = none

variable {items : List ConversationItem}

theorem firstMarker_unmarked (unmarked : Unmarked items) : firstMarker items = none :=
  List.findSome?_eq_none_iff.mpr unmarked

theorem firstMarker_split {conversation : List ConversationItem} {marker : Nat}
    (found : firstMarker conversation = some marker) :
    ∃ front item rest, conversation = front ++ item :: rest ∧ Unmarked front ∧
      item.promptIndex = some marker := by
  obtain ⟨front, item, rest, split, marked, unmarked⟩ := List.findSome?_eq_some_iff.mp found
  exact ⟨front, item, rest, split, unmarked, marked⟩

variable {front : List ConversationItem} {item : ConversationItem}

theorem firstMarker_append {marker : Nat} (rest : List ConversationItem) (unmarked : Unmarked front)
    (marked : item.promptIndex = some marker) : firstMarker (front ++ item :: rest) = some marker := by
  have nothing := firstMarker_unmarked unmarked
  simp only [firstMarker] at nothing ⊢
  rw [List.findSome?_append, nothing, Option.none_or, List.findSome?_cons, marked]

theorem countUntilMarker_append (seen : Bool) {marker : Nat} (rest : List ConversationItem)
    (unmarked : Unmarked front) (marked : item.promptIndex = some marker) :
    countUntilMarker seen (front ++ item :: rest) = countUntilMarker seen front := by
  induction front generalizing seen with
  | nil =>
      cases item with
      | user user =>
          have some' : user.promptIndex = some marker := marked
          simp [countUntilMarker, some']
      | _ => simp [ConversationItem.promptIndex] at marked
  | cons first front ih =>
      have later : Unmarked front := fun item member => unmarked item (List.mem_cons_of_mem _ member)
      cases first with
      | user user => simp only [List.cons_append, countUntilMarker, ih _ later]
      | _ => simp only [List.cons_append, countUntilMarker, ih _ later]

theorem keep_legacy_lt_iff (count : UnmarkedCount) {target : Nat}
    (unmarked : Unmarked items) (behind : count.nextUnmarkedIndex ≤ target) :
    keep legacyIndex target count items < items.length ↔
      target < count.nextUnmarkedIndex + countUntilMarker count.seenUnmarkedPreamble items := by
  induction items generalizing count with
  | nil => simpa [countUntilMarker] using behind
  | cons item rest ih =>
      have later : Unmarked rest := fun item member => unmarked item (List.mem_cons_of_mem _ member)
      rw [keep_cons]
      cases item with
      | user user =>
          have none' : user.promptIndex = none := unmarked (.user user) List.mem_cons_self
          have turn : (if reaches target (some count.nextUnmarkedIndex) then 0
                else keep legacyIndex target
                  { count with nextUnmarkedIndex := count.nextUnmarkedIndex + 1 } rest + 1) <
                rest.length + 1 ↔
              target < count.nextUnmarkedIndex +
                (countUntilMarker count.seenUnmarkedPreamble rest + 1) := by
            simp only [reaches, decide_eq_true_eq]
            split
            next reached => omega
            next below =>
              have step := ih { count with nextUnmarkedIndex := count.nextUnmarkedIndex + 1 } later
                (Nat.lt_of_not_le below)
              simp only at step
              omega
          have still : ∀ preamble : Bool, (if reaches target none then 0
                else keep legacyIndex target
                  { count with seenUnmarkedPreamble := preamble } rest + 1) < rest.length + 1 ↔
              target < count.nextUnmarkedIndex + countUntilMarker preamble rest := by
            intro preamble
            have step := ih { count with seenUnmarkedPreamble := preamble } later behind
            simp only [reaches, Bool.false_eq_true, if_false] at step ⊢
            omega
          obtain ⟨content, synthetic, generation, index⟩ := user
          simp only at none'
          subst none'
          cases synthetic with
          | none =>
              simp only [legacyIndex, UnmarkedCount.number, countUntilMarker, Option.isSome_none,
                Bool.false_eq_true, if_false, List.length_cons]
              split
              next preamble => simpa [preamble] using turn
              next => exact still true
          | some reason =>
              simp only [legacyIndex, UnmarkedCount.number, countUntilMarker, Option.isSome_none,
                Bool.false_eq_true, if_false, List.length_cons]
              split
              next => exact turn
              next => exact still count.seenUnmarkedPreamble
      | _ =>
          have step := ih count later behind
          simp only [legacyIndex, reaches, Bool.false_eq_true, if_false, List.length_cons,
            countUntilMarker]
          omega

theorem keep_progressive_unmarked (target : Nat) (unmarked : Unmarked items) :
    keep progressiveIndex target {} items = keep legacyIndex target {} items := by
  refine keep_follow progressiveIndex (fun count => { unmarked := count }) target {} items ?_
  intro item member count
  have none' := unmarked item member
  cases item with
  | user user =>
      have none'' : user.promptIndex = none := none'
      simp [progressiveIndex, legacyIndex, none'']
  | _ => rfl

theorem truncate_markersOnly (target : Nat) {marker : Nat} (rest : List ConversationItem)
    (unmarked : Unmarked front) (marked : item.promptIndex = some marker) :
    conversationTruncateMarkersOnly (front ++ item :: rest) target =
      front.length +
        (if target ≤ marker then 0 else conversationTruncateMarkersOnly rest target + 1) := by
  unfold conversationTruncateMarkersOnly
  induction front with
  | nil => simp [keep_cons, marked, reaches]
  | cons first front ih =>
      have later : Unmarked front := fun item member => unmarked item (List.mem_cons_of_mem _ member)
      rw [List.cons_append, keep_cons, unmarked first List.mem_cons_self, ih later, List.length_cons,
        reaches, if_neg Bool.false_ne_true]
      exact Nat.add_right_comm ..

end Unmarked

section Compose

variable (conversation : List ConversationItem)

theorem conversationTruncateForPrompt_le (target : Nat) :
    conversationTruncateForPrompt conversation target ≤ conversation.length := by
  unfold conversationTruncateForPrompt
  split
  · exact keep_le_length ..
  · split
    · exact keep_le_length ..
    · exact keep_le_length ..

theorem conversationTruncateForPrompt_mono {earlier later : Nat} (before : earlier ≤ later) :
    conversationTruncateForPrompt conversation earlier ≤
      conversationTruncateForPrompt conversation later := by
  -- The rule is chosen by the conversation alone, so a later target never keeps less.
  unfold conversationTruncateForPrompt
  split
  · exact keep_mono _ before _ _
  · split
    · exact keep_mono _ before _ _
    · exact keep_mono _ before _ _

theorem truncate_unmarked (target : Nat) {items : List ConversationItem} (unmarked : Unmarked items) :
    conversationTruncateForPrompt items target = keep legacyIndex target {} items := by
  simp only [conversationTruncateForPrompt, firstMarker_unmarked unmarked,
    conversationTruncateLegacy]

theorem truncate_marked (target count : Nat) {front : List ConversationItem}
    {item : ConversationItem} {marker : Nat} (rest : List ConversationItem)
    (unmarked : Unmarked front) (marked : item.promptIndex = some marker)
    (kept : front.length < count) :
    conversationTruncateForPrompt ((front ++ item :: rest).take count) target =
      min (conversationTruncateForPrompt (front ++ item :: rest) target) count := by
  -- While its first marker is still there, a rewound conversation is cut by the rule of the whole.
  have shorter : (front ++ item :: rest).take count =
      front ++ item :: rest.take (count - front.length - 1) := by
    obtain ⟨extra, rfl⟩ : ∃ extra, count = front.length + (extra + 1) :=
      ⟨count - front.length - 1, by omega⟩
    rw [List.take_length_add_append, List.take_succ_cons]
    congr 3
    omega
  have markers := firstMarker_append (rest.take (count - front.length - 1)) unmarked marked
  have turns := countUntilMarker_append false (rest.take (count - front.length - 1)) unmarked marked
  rw [← shorter] at markers turns
  simp only [conversationTruncateForPrompt, markers, firstMarker_append rest unmarked marked,
    countLegacyTurnsUntilMarker, turns, countUntilMarker_append false rest unmarked marked]
  split
  · exact keep_take ..
  · exact keep_take ..

/-- The unmarked front is cut by a rule of its own once the markers behind it are gone. It comes
out as before if its turns lead up to the first marker, or if it has too few of them. -/
def FrontKept (earlier later : Nat) : Prop :=
  ∀ marker, firstMarker conversation = some marker →
    countLegacyTurnsUntilMarker conversation = marker ∨ marker < later ∨
      countLegacyTurnsUntilMarker conversation ≤ earlier

theorem truncate_rewound_iff {earlier later : Nat} (before : earlier ≤ later) :
    conversationTruncateForPrompt (rewind conversation later) earlier =
        conversationTruncateForPrompt conversation earlier ↔
      FrontKept conversation earlier later := by
  have mono := conversationTruncateForPrompt_mono conversation before
  unfold rewind
  cases found : firstMarker conversation with
  | none =>
      have unmarked : Unmarked conversation := List.findSome?_eq_none_iff.mp found
      have shorter : Unmarked (conversation.take (conversationTruncateForPrompt conversation later)) :=
        fun item member => unmarked item (List.mem_of_mem_take member)
      refine iff_of_true ?_ (fun marker found' => by rw [found] at found'; cases found')
      rw [truncate_unmarked earlier shorter, keep_take, ← truncate_unmarked earlier unmarked]
      exact Nat.min_eq_left mono
  | some marker =>
      obtain ⟨front, item, rest, rfl, unmarked, marked⟩ := firstMarker_split found
      have turns := countUntilMarker_append false rest unmarked marked
      have same (kept : front.length <
          conversationTruncateForPrompt (front ++ item :: rest) later) :
          conversationTruncateForPrompt ((front ++ item :: rest).take
            (conversationTruncateForPrompt (front ++ item :: rest) later)) earlier =
          conversationTruncateForPrompt (front ++ item :: rest) earlier := by
        rw [truncate_marked earlier _ rest unmarked marked kept]
        exact Nat.min_eq_left mono
      have kept : FrontKept (front ++ item :: rest) earlier later ↔
          countUntilMarker false front = marker ∨ marker < later ∨
            countUntilMarker false front ≤ earlier := by
        simp only [FrontKept, found, Option.some.injEq, forall_eq', countLegacyTurnsUntilMarker, turns]
      rw [kept]
      by_cases contiguous : countUntilMarker false front = marker
      next =>
        refine iff_of_true ?_ (.inl contiguous)
        by_cases marked' : front.length < conversationTruncateForPrompt (front ++ item :: rest) later
        next => exact same marked'
        next =>
          -- The cut lies in the front, where both rules number the items alike.
          have inside := Nat.le_of_not_lt marked'
          have rule (target : Nat) : conversationTruncateForPrompt (front ++ item :: rest) target =
              keep progressiveIndex target {} (front ++ item :: rest) := by
            simp only [conversationTruncateForPrompt, found, countLegacyTurnsUntilMarker, turns,
              contiguous, ne_eq, not_true_eq_false, if_false, conversationTruncateProgressive]
          have short : Unmarked (front.take
              (conversationTruncateForPrompt (front ++ item :: rest) later)) :=
            fun item member => unmarked item (List.mem_of_mem_take member)
          have legacy : keep legacyIndex earlier {} front =
              min (conversationTruncateForPrompt (front ++ item :: rest) earlier) front.length := by
            rw [rule, ← keep_take, List.take_left, keep_progressive_unmarked earlier unmarked]
          rw [List.take_append_of_le_length inside, truncate_unmarked earlier short, keep_take, legacy]
          omega
      next =>
        have rule (target : Nat) : conversationTruncateForPrompt (front ++ item :: rest) target =
            conversationTruncateMarkersOnly (front ++ item :: rest) target := by
          simp only [conversationTruncateForPrompt, found, countLegacyTurnsUntilMarker, turns, ne_eq,
            contiguous, not_false_eq_true, if_true]
        by_cases past : marker < later
        next =>
          refine iff_of_true (same ?_) (.inr (.inl past))
          rw [rule, truncate_markersOnly later rest unmarked marked, if_neg (Nat.not_le.mpr past)]
          omega
        next =>
          have cut : conversationTruncateForPrompt (front ++ item :: rest) later = front.length := by
            rw [rule, truncate_markersOnly later rest unmarked marked,
              if_pos (Nat.le_of_not_lt past), Nat.add_zero]
          have cut' : conversationTruncateForPrompt (front ++ item :: rest) earlier = front.length := by
            rw [rule, truncate_markersOnly earlier rest unmarked marked,
              if_pos (Nat.le_trans before (Nat.le_of_not_lt past)), Nat.add_zero]
          have turned := keep_legacy_lt_iff {} unmarked (Nat.zero_le earlier)
          have within := keep_le_length legacyIndex earlier {} front
          rw [cut, cut', List.take_left, truncate_unmarked earlier unmarked]
          simp only [Nat.zero_add] at turned
          omega

/-- Rewinding twice is rewinding once exactly while the unmarked front is kept, and a later target
never cuts further in front. -/
theorem rewinds_compose_iff {earlier later : Nat} (before : earlier ≤ later) :
    conversationTruncateForPrompt conversation earlier ≤
        conversationTruncateForPrompt conversation later ∧
      (rewind (rewind conversation later) earlier = rewind conversation earlier ↔
        FrontKept conversation earlier later) := by
  have mono := conversationTruncateForPrompt_mono conversation before
  refine ⟨mono, ?_⟩
  rw [← truncate_rewound_iff conversation before]
  constructor
  · intro composed
    have lengths := congrArg List.length composed
    have first := conversationTruncateForPrompt_le (rewind conversation later) earlier
    have second := conversationTruncateForPrompt_le conversation earlier
    simp only [rewind, List.length_take] at lengths first
    simp only [rewind]
    omega
  · intro same
    have within := conversationTruncateForPrompt_le conversation later
    rw [rewind, same]
    simp only [rewind, List.take_take, Nat.min_eq_left mono]

end Compose

section Cases

def prompt (text : String) (promptIndex : Option Nat) : ConversationItem :=
  .user
    { content := [.text text.toList]
      syntheticReason := none
      cwdGeneration := none
      promptIndex := promptIndex }

def upgraded : List ConversationItem :=
  [.system "System".toList, prompt "<user_info>preamble</user_info>" none, prompt "old P0" none,
    prompt "old P1" none, prompt "new P2" (some 2), prompt "!pwd phantom" none,
    prompt "new P3" (some 3)]

theorem upgraded_rewinds_compose :
    conversationTruncateForPrompt upgraded 1 ≤ conversationTruncateForPrompt upgraded 2 ∧
      rewind (rewind upgraded 2) 1 = rewind upgraded 1 :=
  have composes := rewinds_compose_iff upgraded (show 1 ≤ 2 by decide)
  ⟨composes.1, composes.2.mpr (fun marker found => .inl (by cases found; decide))⟩

def rebuilt : List ConversationItem :=
  [.system "SP".toList, prompt "<user_info>rebuilt</user_info>" none,
    prompt "carried last user query" none, prompt "P11" (some 11), prompt "P12" (some 12)]

/-- Once the markers are gone, the carried query counts as the first turn. -/
theorem rebuilt_rewinds_do_not_compose :
    ¬∀ (conversation : List ConversationItem) (earlier later : Nat), earlier ≤ later →
      rewind (rewind conversation later) earlier = rewind conversation earlier := by
  intro claim
  exact absurd (claim rebuilt 0 11 (by decide)) (by decide)

end Cases

end GrokPi.Chat
