import GrokPi.Adapter.QueueBridge
import GrokPi.Shared.GreedyClaims

set_option autoImplicit false

namespace GrokPi.QueueBridge

variable {Value : Type}

abbrev Key := Text × QueueLane

def QueueEntry.key (entry : QueueEntry Value) : Key := (entry.executionText, entry.lane)

def ReservedPrompt.key (item : ReservedPrompt Value) : Key := (item.executionText, item.lane)

/-- Where an entry of the new queue takes its identity from. -/
inductive Source (Value : Type) where
  | previous (entry : QueueEntry Value)
  | reservation (item : ReservedPrompt Value)
  | fresh (id : Text)

def Source.entry (key : Key) : Source Value → QueueEntry Value
  | .previous entry => entry
  | .reservation item =>
      { id := item.id
        executionText := key.1
        displayText := item.displayText
        images := item.images
        version := 0
        lane := key.2
        origin := item.origin }
  | .fresh id =>
      { id := id
        executionText := key.1
        displayText := key.1
        images := []
        version := 0
        lane := key.2
        origin := .pi }

def QueueMirror.sources (mirror : QueueMirror Value) :
    List (QueueEntry Value × Bool) → List Key → List (Key × Source Value)
  | _, [] => []
  | previous, (text, lane) :: rest =>
      match claimPrevious text lane previous with
      | some (entry, marked) => ((text, lane), .previous entry) :: mirror.sources marked rest
      | none =>
          match findReserved text lane mirror.reserved with
          | some (item, others) =>
              ((text, lane), .reservation item) :: { mirror with reserved := others }.sources previous rest
          | none =>
              let (id, bumped) := mirror.nextId "pi-queue".toList
              ((text, lane), .fresh id) :: bumped.sources previous rest

def exactKeys (sources : List (Key × Source Value)) : List Key :=
  sources.filterMap fun (key, source) =>
    match source with
    | .reservation item => if item.key = key then some key else none
    | _ => none

def takenReservations (sources : List (Key × Source Value)) : List (ReservedPrompt Value) :=
  sources.filterMap fun (_, source) =>
    match source with
    | .reservation item => some item
    | _ => none

def unused (previous : List (QueueEntry Value × Bool)) : List (QueueEntry Value) :=
  (previous.filter fun (_, used) => !used).map Prod.fst

section Claiming

variable {previous marked : List (QueueEntry Value × Bool)} {entry : QueueEntry Value} {text : Text}
  {lane : QueueLane}

theorem unused_cons (head : QueueEntry Value) (used : Bool) (rest : List (QueueEntry Value × Bool)) :
    unused ((head, used) :: rest) = if used then unused rest else head :: unused rest := by
  cases used <;> rfl

theorem unused_fresh (entries : List (QueueEntry Value)) : unused (entries.map (·, false)) = entries := by
  induction entries with
  | nil => rfl
  | cons entry rest ih => rw [List.map_cons, unused_cons, ih, if_neg Bool.false_ne_true]

theorem fits_iff (used : Bool) (candidate : QueueEntry Value) (text : Text) (lane : QueueLane) :
    (!used && candidate.lane == lane && candidate.executionText == text) = true ↔
      used = false ∧ candidate.key = (text, lane) := by
  rw [Bool.and_eq_true, Bool.and_eq_true, Bool.not_eq_true', beq_iff_eq, beq_iff_eq, QueueEntry.key, Prod.mk.injEq]
  tauto

theorem claimPrevious_unused (found : claimPrevious text lane previous = some (entry, marked)) :
    ∃ before after, unused previous = before ++ entry :: after ∧ unused marked = before ++ after ∧
      entry.key = (text, lane) ∧ ∀ other ∈ before, other.key ≠ (text, lane) := by
  induction previous generalizing marked with
  | nil => cases found
  | cons head rest ih =>
      obtain ⟨candidate, used⟩ := head
      by_cases fits : (!used && candidate.lane == lane && candidate.executionText == text) = true
      · rw [claimPrevious, if_pos fits, Option.some.injEq, Prod.mk.injEq] at found
        obtain ⟨rfl, rfl⟩ := found
        obtain ⟨rfl, same⟩ := (fits_iff _ _ _ _).mp fits
        exact ⟨[], unused rest, rfl, rfl, same, by simp⟩
      · rw [claimPrevious, if_neg fits, Option.map_eq_some_iff] at found
        obtain ⟨⟨claimed, later⟩, found, same⟩ := found
        obtain ⟨rfl, rfl⟩ := Prod.mk.inj same
        obtain ⟨before, after, whole, left, own, others⟩ := ih found
        cases used with
        | true => exact ⟨before, after, by rw [unused_cons, if_pos rfl, whole], by rw [unused_cons, if_pos rfl, left], own, others⟩
        | false =>
            refine ⟨candidate :: before, after, ?_, ?_, own, ?_⟩
            · rw [unused_cons, if_neg Bool.false_ne_true, whole]
              rfl
            · rw [unused_cons, if_neg Bool.false_ne_true, left]
              rfl
            · intro other member
              rcases List.mem_cons.mp member with rfl | later
              · intro same
                exact fits ((fits_iff _ _ _ _).mpr ⟨rfl, same⟩)
              · exact others other later

theorem claimPrevious_unclaimed (missing : claimPrevious text lane previous = none) :
    ∀ other ∈ unused previous, other.key ≠ (text, lane) := by
  induction previous with
  | nil => simp [unused]
  | cons head rest ih =>
      obtain ⟨candidate, used⟩ := head
      by_cases fits : (!used && candidate.lane == lane && candidate.executionText == text) = true
      · rw [claimPrevious, if_pos fits] at missing
        cases missing
      · rw [claimPrevious, if_neg fits, Option.map_eq_none_iff] at missing
        intro other member
        rw [unused_cons] at member
        split at member
        · exact ih missing other member
        · rcases List.mem_cons.mp member with rfl | later
          · intro same
            exact fits ((fits_iff _ _ _ _).mpr ⟨by simpa using ‹¬used = true›, same⟩)
          · exact ih missing other later

theorem exact_iff (item : ReservedPrompt Value) (text : Text) (lane : QueueLane) :
    (item.lane == lane && item.executionText == text) = true ↔ item.key = (text, lane) := by
  rw [Bool.and_eq_true, beq_iff_eq, beq_iff_eq, ReservedPrompt.key, Prod.mk.injEq, and_comm]

variable {reserved : List (ReservedPrompt Value)} {item : ReservedPrompt Value}

theorem keys_eraseP {fits : ReservedPrompt Value → Bool} (found : reserved.find? fits = some item)
    (same : ∀ other, other.key = item.key → fits other = true) :
    (reserved.eraseP fits).map ReservedPrompt.key = (reserved.map ReservedPrompt.key).erase item.key := by
  induction reserved with
  | nil => cases found
  | cons head rest ih =>
      by_cases here : fits head = true
      · rw [List.find?_cons_of_pos here] at found
        obtain rfl := Option.some.inj found
        rw [List.eraseP_cons_of_pos here, List.map_cons, List.erase_cons_head]
      · rw [List.find?_cons_of_neg here] at found
        have other : head.key ≠ item.key := fun equal => here (same head equal)
        rw [List.eraseP_cons_of_neg here, List.map_cons, List.map_cons, List.erase_cons_tail (by simpa using other),
          ih found]

theorem perm_eraseP {fits : ReservedPrompt Value → Bool} (found : reserved.find? fits = some item) :
    reserved.Perm (item :: reserved.eraseP fits) := by
  induction reserved with
  | nil => cases found
  | cons head rest ih =>
      by_cases here : fits head = true
      · rw [List.find?_cons_of_pos here] at found
        obtain rfl := Option.some.inj found
        rw [List.eraseP_cons_of_pos here]
      · rw [List.find?_cons_of_neg here] at found
        rw [List.eraseP_cons_of_neg here]
        exact ((ih found).cons head).trans (List.Perm.swap _ _ _)

theorem findReserved_perm {reserved others : List (ReservedPrompt Value)}
    (found : findReserved text lane reserved = some (item, others)) : reserved.Perm (item :: others) := by
  simp only [findReserved] at found
  split at found
  next first exact =>
    obtain ⟨rfl, rfl⟩ := Prod.mk.inj (Option.some.inj found)
    exact perm_eraseP exact
  next =>
    obtain ⟨first, sameLane, same⟩ := Option.map_eq_some_iff.mp found
    obtain ⟨rfl, rfl⟩ := Prod.mk.inj same
    exact perm_eraseP sameLane

theorem ofKind_keys (reserved : List (ReservedPrompt Value)) (text : Text) (lane : QueueLane) :
    GreedyClaims.ofKind Prod.snd (reserved.map ReservedPrompt.key) (text, lane) =
      (reserved.find? fun item => item.lane == lane).map ReservedPrompt.key := by
  rw [GreedyClaims.ofKind, List.find?_map]
  rfl

theorem findReserved_exact (held : (text, lane) ∈ reserved.map ReservedPrompt.key) :
    ∃ item others, findReserved text lane reserved = some (item, others) ∧ item.key = (text, lane) ∧
      others.map ReservedPrompt.key = (reserved.map ReservedPrompt.key).erase (text, lane) := by
  obtain ⟨item, member, named⟩ := List.mem_map.mp held
  cases found : reserved.find? fun item => item.lane == lane && item.executionText == text with
  | none => exact absurd ((exact_iff item text lane).mpr named) (List.find?_eq_none.mp found item member)
  | some first =>
      have own := (exact_iff first text lane).mp (List.find?_some found :)
      refine ⟨first, _, by rw [findReserved, found], own, ?_⟩
      rw [keys_eraseP found fun other equal => (exact_iff other text lane).mpr (equal.trans own), own]

theorem findReserved_fallback (missing : (text, lane) ∉ reserved.map ReservedPrompt.key) :
    match GreedyClaims.ofKind Prod.snd (reserved.map ReservedPrompt.key) (text, lane) with
    | none => findReserved text lane reserved = none
    | some key => ∃ item others, findReserved text lane reserved = some (item, others) ∧ item.key = key ∧
        others.map ReservedPrompt.key = (reserved.map ReservedPrompt.key).erase key := by
  have inexact : (reserved.find? fun item => item.lane == lane && item.executionText == text) = none := by
    rw [List.find?_eq_none]
    intro item member fits
    exact missing (List.mem_map.mpr ⟨item, member, (exact_iff item text lane).mp fits⟩)
  rw [ofKind_keys]
  cases found : reserved.find? fun item => item.lane == lane with
  | none => simp only [Option.map_none, findReserved, inexact, found]
  | some first =>
      refine ⟨first, reserved.eraseP fun item => item.lane == lane, ?_, rfl, ?_⟩
      · simp only [findReserved, inexact, found, Option.map_some]
      · refine keys_eraseP found ?_
        intro other equal
        have lanes : other.lane = first.lane := congrArg Prod.snd equal
        have here : first.lane = lane := by simpa using List.find?_some found
        rw [beq_iff_eq, lanes, here]

end Claiming

section Update

variable (mirror : QueueMirror Value) (previous : List (QueueEntry Value × Bool)) (desired : List Key)

theorem mirrorEntries_sources :
    (mirror.mirrorEntries previous desired).1 =
      (mirror.sources previous desired).map fun (key, source) => source.entry key := by
  induction desired generalizing mirror previous with
  | nil => rfl
  | cons head rest ih =>
      obtain ⟨text, lane⟩ := head
      rw [QueueMirror.mirrorEntries, QueueMirror.sources]
      cases claimPrevious text lane previous with
      | some claimed =>
          dsimp only
          rw [List.map_cons, ih]
          rfl
      | none =>
          dsimp only
          cases findReserved text lane mirror.reserved with
          | some found =>
              dsimp only
              rw [List.map_cons, ih]
              rfl
          | none =>
              dsimp only
              rw [List.map_cons, ih]
              rfl

def ofKey (key : Key) (entries : List (QueueEntry Value)) : List (QueueEntry Value) :=
  entries.filter fun entry => entry.key = key

theorem mirrorEntries_kept (key : Key) :
    (ofKey key (mirror.mirrorEntries previous desired).1).take (ofKey key (unused previous)).length =
      (ofKey key (unused previous)).take (ofKey key (mirror.mirrorEntries previous desired).1).length := by
  induction desired generalizing mirror previous with
  | nil => simp [QueueMirror.mirrorEntries, ofKey]
  | cons head rest ih =>
      obtain ⟨text, lane⟩ := head
      rw [QueueMirror.mirrorEntries]
      cases claim : claimPrevious text lane previous with
      | some claimed =>
          obtain ⟨entry, marked⟩ := claimed
          obtain ⟨before, after, whole, left, own, others⟩ := claimPrevious_unused claim
          have later := ih mirror marked
          dsimp only
          -- One entry of the key is there on both sides, or the key is another one.
          by_cases same : key = (text, lane)
          · have skipped : ofKey key before = [] := by
              rw [ofKey, List.filter_eq_nil_iff]
              intro other member fits
              exact others other member ((of_decide_eq_true fits).trans same)
            have olds : ofKey key (unused previous) = entry :: ofKey key (unused marked) := by
              rw [whole, left, ofKey, ofKey, List.filter_append, List.filter_append, ← ofKey, skipped,
                List.filter_cons_of_pos (by simpa using own.trans same.symm)]
              rfl
            have news : ∀ entries, ofKey key (entry :: entries) = entry :: ofKey key entries :=
              fun _ => List.filter_cons_of_pos (decide_eq_true (own.trans same.symm))
            rw [olds, news, List.length_cons, List.length_cons, List.take_succ_cons, List.take_succ_cons, later]
          · have other : ¬ entry.key = key := fun equal => same (equal.symm.trans own)
            have olds : ofKey key (unused previous) = ofKey key (unused marked) := by
              rw [whole, left, ofKey, ofKey, List.filter_append, List.filter_append,
                List.filter_cons_of_neg (by simpa using other)]
            have news : ∀ entries, ofKey key (entry :: entries) = ofKey key entries :=
              fun _ => List.filter_cons_of_neg (by simpa using other)
            rw [olds, news, later]
      | none =>
          -- A new entry of another key does not count; of its own key no old entry is left.
          have step : ∀ (made : QueueEntry Value) (mirror' : QueueMirror Value), made.key = (text, lane) →
              (ofKey key (made :: (mirror'.mirrorEntries previous rest).1)).take (ofKey key (unused previous)).length =
                (ofKey key (unused previous)).take
                  (ofKey key (made :: (mirror'.mirrorEntries previous rest).1)).length := by
            intro made mirror' own
            by_cases same : key = (text, lane)
            · have gone : ofKey key (unused previous) = [] := by
                rw [ofKey, List.filter_eq_nil_iff]
                intro other member fits
                exact claimPrevious_unclaimed claim other member ((of_decide_eq_true fits).trans same)
              rw [gone, List.take_nil]
              rfl
            · have other : ¬ made.key = key := fun equal => same (equal.symm.trans own)
              have news : ofKey key (made :: (mirror'.mirrorEntries previous rest).1) =
                  ofKey key (mirror'.mirrorEntries previous rest).1 :=
                List.filter_cons_of_neg (by simpa using other)
              rw [news]
              exact ih mirror' previous
          dsimp only
          cases findReserved text lane mirror.reserved with
          | some found => exact step _ _ rfl
          | none => exact step _ _ rfl

theorem exactKeys_own {key : Key} {item : ReservedPrompt Value} (own : item.key = key)
    (later : List (Key × Source Value)) :
    exactKeys ((key, .reservation item) :: later) = key :: exactKeys later :=
  List.filterMap_cons_some (if_pos own)

theorem exactKeys_other {key : Key} {item : ReservedPrompt Value} (other : item.key ≠ key)
    (later : List (Key × Source Value)) : exactKeys ((key, .reservation item) :: later) = exactKeys later :=
  List.filterMap_cons_none (if_neg other)

theorem sources_taken : (takenReservations (mirror.sources previous desired)).Subperm mirror.reserved := by
  induction desired generalizing mirror previous with
  | nil => exact List.nil_subperm
  | cons head rest ih =>
      obtain ⟨text, lane⟩ := head
      rw [QueueMirror.sources]
      cases claimPrevious text lane previous with
      | some claimed => exact ih mirror claimed.2
      | none =>
          dsimp only
          cases found : findReserved text lane mirror.reserved with
          | some reservation =>
              obtain ⟨item, others⟩ := reservation
              have later := ih { mirror with reserved := others } previous
              exact ((List.subperm_cons item).mpr later).trans (findReserved_perm found).symm.subperm
          | none => exact ih _ previous

theorem exactKeys_sources :
    exactKeys (mirror.sources previous desired) =
      GreedyClaims.exactClaims Prod.snd (mirror.reserved.map ReservedPrompt.key)
        (desired.diff ((unused previous).map QueueEntry.key)) := by
  induction desired generalizing mirror previous with
  | nil =>
      rw [List.nil_diff]
      rfl
  | cons head rest ih =>
      obtain ⟨text, lane⟩ := head
      rw [QueueMirror.sources]
      cases claim : claimPrevious text lane previous with
      | some claimed =>
          obtain ⟨entry, marked⟩ := claimed
          obtain ⟨before, after, whole, left, own, others⟩ := claimPrevious_unused claim
          have absent : (text, lane) ∉ before.map QueueEntry.key := by
            intro member
            obtain ⟨other, within, same⟩ := List.mem_map.mp member
            exact others other within same
          have keys : (unused previous).map QueueEntry.key =
              before.map QueueEntry.key ++ (text, lane) :: after.map QueueEntry.key := by
            rw [whole, List.map_append, List.map_cons, own]
          have rest' : (unused marked).map QueueEntry.key =
              ((unused previous).map QueueEntry.key).erase (text, lane) := by
            rw [keys, left, List.map_append, List.erase_append_right _ absent, List.erase_cons_head]
          dsimp only
          rw [List.cons_diff_of_mem (by rw [keys]; simp), ← rest', ← ih]
          rfl
      | none =>
          have absent : (text, lane) ∉ (unused previous).map QueueEntry.key := by
            intro member
            obtain ⟨other, within, same⟩ := List.mem_map.mp member
            exact claimPrevious_unclaimed claim other within same
          rw [List.cons_diff_of_not_mem absent, GreedyClaims.exactClaims]
          dsimp only
          by_cases held : (text, lane) ∈ mirror.reserved.map ReservedPrompt.key
          · obtain ⟨item, others, found, own, keys⟩ := findReserved_exact held
            rw [if_pos held, found]
            dsimp only
            rw [exactKeys_own own, ih, keys]
          · have fallback := findReserved_fallback held
            rw [if_neg held]
            cases kind : GreedyClaims.ofKind Prod.snd (mirror.reserved.map ReservedPrompt.key) (text, lane) with
            | none =>
                rw [kind] at fallback
                rw [fallback]
                dsimp only
                exact ih _ previous
            | some key =>
                rw [kind] at fallback
                obtain ⟨item, others, found, own, keys⟩ := fallback
                -- What the lane falls back on has another text.
                have apart : item.key ≠ (text, lane) := by
                  intro same
                  rw [← same, own] at held
                  exact held (GreedyClaims.ofKind_mem kind)
                rw [found]
                dsimp only
                rw [exactKeys_other apart, ih, keys]

end Update

section Identities

variable (mirror : QueueMirror Value) (steering followUp : List Text)

def QueueMirror.newKeys : List Key := (desiredEntries steering followUp).diff (mirror.piEntries.map QueueEntry.key)

def QueueMirror.updateSources : List (Key × Source Value) :=
  mirror.sources (mirror.piEntries.map (·, false)) (desiredEntries steering followUp)

structure KeepsIdentities (updated : List (QueueEntry Value)) : Prop where
  texts : updated.map QueueEntry.key = desiredEntries steering followUp
  sources : updated = (mirror.updateSources steering followUp).map fun (key, source) => source.entry key
  kept : ∀ key, (ofKey key updated).take (ofKey key mirror.piEntries).length =
    (ofKey key mirror.piEntries).take (ofKey key updated).length
  reservations : ∀ key, (exactKeys (mirror.updateSources steering followUp)).count key =
    min ((mirror.reserved.map ReservedPrompt.key).count key) ((mirror.newKeys steering followUp).count key)
  once : (takenReservations (mirror.updateSources steering followUp)).Subperm mirror.reserved

theorem identities_kept_iff :
    KeepsIdentities mirror steering followUp (mirror.applyQueueUpdate steering followUp).2.piEntries ↔
      GreedyClaims.Spares Prod.snd (mirror.reserved.map ReservedPrompt.key) (mirror.newKeys steering followUp) := by
  have entries : (mirror.applyQueueUpdate steering followUp).2.piEntries =
      (mirror.mirrorEntries (mirror.piEntries.map (·, false)) (desiredEntries steering followUp)).1 := rfl
  have claims : exactKeys (mirror.updateSources steering followUp) =
      GreedyClaims.exactClaims Prod.snd (mirror.reserved.map ReservedPrompt.key) (mirror.newKeys steering followUp) := by
    rw [QueueMirror.updateSources, exactKeys_sources, unused_fresh, QueueMirror.newKeys]
  rw [entries, ← GreedyClaims.exactClaims_iff]
  constructor
  · intro keeps key
    rw [← claims]
    exact keeps.reservations key
  · intro claimed
    have kept := mirrorEntries_kept mirror (mirror.piEntries.map (·, false)) (desiredEntries steering followUp)
    rw [unused_fresh] at kept
    refine ⟨?_, mirrorEntries_sources _ _ _, kept, ?_, sources_taken _ _ _⟩
    · exact (mirrorEntries_mirrors mirror (mirror.piEntries.map (·, false)) (desiredEntries steering followUp)).entries
    · intro key
      rw [claims]
      exact claimed key

def reservedPrompt : QueueMirror Nat :=
  QueueMirror.empty.reserve
    { id := "client-1".toList
      executionText := "x".toList
      displayText := "x".toList
      images := []
      lane := .steering
      origin := .client }

theorem earlier_text_takes_reservation :
    ¬ ∀ (mirror : QueueMirror Nat) (steering followUp : List Text),
      KeepsIdentities mirror steering followUp (mirror.applyQueueUpdate steering followUp).2.piEntries := by
  intro keeps
  have claimed := (keeps reservedPrompt ["y".toList, "x".toList] []).reservations ("x".toList, .steering)
  revert claimed
  decide

end Identities

end GrokPi.QueueBridge
