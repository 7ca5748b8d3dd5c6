import GrokPi.Delivery.Lifecycle

set_option autoImplicit false

namespace GrokPi.Delivery

variable {Identity Source Content Completion PromptId Epoch Error : Type}
variable [DecidableEq Identity] [DecidableEq PromptId] [DecidableEq Epoch]

namespace History

variable (history : History Identity Source Content Completion PromptId Epoch)

def committedTo (binding : TurnBinding PromptId Epoch) : List (DeliveryMessage Identity Source Content) :=
  (history.committed.filter (·.1 = binding)).map Prod.snd

def acceptedFor (binding : TurnBinding PromptId Epoch) : List (DeliveryMessage Identity Source Content) :=
  (history.accepted.filter (·.binding = binding)).map (·.message)

end History

namespace MessageDeliveryLifecycle

variable (lifecycle : MessageDeliveryLifecycle Identity Source Content Completion PromptId Epoch)

def undelivered (binding : TurnBinding PromptId Epoch) : List (DeliveryMessage Identity Source Content) :=
  (lifecycle.slots.filter fun slot => slot.stage ≠ .delivered && slot.owned.binding = binding).map
    (·.owned.message)

def Staged : Prop :=
  lifecycle.slots.Pairwise fun first second =>
    first.owned.binding = second.owned.binding → second.stage.rank ≤ first.stage.rank

end MessageDeliveryLifecycle

structure History.Conserved (history : History Identity Source Content Completion PromptId Epoch) :
    Prop where
  identities : (history.lifecycle.slots.map (·.owned.message.identity)).Nodup
  balance : history.accepted.Perm
    (history.fallbacks ++ history.completions ++ history.lifecycle.slots.map (·.owned))
  handed : ∀ message ∈ history.handed,
    (∃ owned ∈ history.completions, owned.message = message) ∨
      ∃ slot ∈ history.lifecycle.slots, slot.stage ≠ .pending ∧ slot.owned.message = message
  staged : history.lifecycle.Staged
  order : ∀ binding, (history.committedTo binding ++ history.lifecycle.undelivered binding).Sublist
    (history.acceptedFor binding)

section Moves

variable {stage next : Stage} {binding : TurnBinding PromptId Epoch}
variable (slot : DeliverySlot Identity Source Content Completion PromptId Epoch)
variable {lifecycle : MessageDeliveryLifecycle Identity Source Content Completion PromptId Epoch}

omit [DecidableEq Identity]

@[simp] theorem slot_moveTo_owned : (slot.moveTo stage next binding).owned = slot.owned := by
  unfold DeliverySlot.moveTo
  split <;> rfl

theorem slot_moveTo_stage :
    (slot.moveTo stage next binding).stage =
      if slot.owned.binding = binding ∧ slot.stage = stage then next else slot.stage := by
  unfold DeliverySlot.moveTo
  by_cases here : slot.owned.binding = binding <;> by_cases at_stage : slot.stage = stage <;>
    simp [here, at_stage]

theorem moveTo_owned :
    (lifecycle.moveTo stage next binding).slots.map (·.owned) = lifecycle.slots.map (·.owned) := by
  simp [MessageDeliveryLifecycle.moveTo, Function.comp_def]

omit [DecidableEq PromptId] [DecidableEq Epoch] in
theorem rank_injective {first second : Stage} (same : first.rank = second.rank) : first = second := by
  cases first <;> cases second <;> first | rfl | cases same

omit [DecidableEq PromptId] [DecidableEq Epoch] in
theorem raise_mono {first second : Stage} (up : next.rank = stage.rank + 1)
    (ordered : second.rank ≤ first.rank) :
    (if second = stage then next else second).rank ≤ (if first = stage then next else first).rank := by
  by_cases firstMoves : first = stage
  · by_cases secondMoves : second = stage
    · simp [firstMoves, secondMoves]
    · simp only [firstMoves, secondMoves, if_true, if_false] at ordered ⊢
      omega
  · by_cases secondMoves : second = stage
    · have apart : first.rank ≠ stage.rank := fun same => firstMoves (rank_injective same)
      simp only [firstMoves, secondMoves, if_true, if_false] at ordered ⊢
      omega
    · simpa only [firstMoves, secondMoves, if_false] using ordered

theorem moveTo_staged (up : next.rank = stage.rank + 1) (staged : lifecycle.Staged) :
    (lifecycle.moveTo stage next binding).Staged := by
  -- A whole stage of a turn moves up to the next one.
  unfold MessageDeliveryLifecycle.Staged MessageDeliveryLifecycle.moveTo
  rw [List.pairwise_map]
  refine staged.imp ?_
  intro first second ordered same
  simp only [slot_moveTo_owned] at same
  have before := ordered same
  -- Slots of one turn are both of the moved turn or neither is.
  by_cases moved : first.owned.binding = binding
  · have alike : second.owned.binding = binding := same ▸ moved
    simpa only [slot_moveTo_stage, moved, alike, true_and] using raise_mono up before
  · have apart : second.owned.binding ≠ binding := same ▸ moved
    simpa only [slot_moveTo_stage, moved, apart, false_and, if_false] using before

theorem moveTo_of_none (none : (lifecycle.messagesAt stage binding).isEmpty = true) :
    lifecycle.moveTo stage next binding = lifecycle := by
  -- With no slot at the stage there is nothing to move.
  simp only [MessageDeliveryLifecycle.messagesAt, List.isEmpty_iff, List.map_eq_nil_iff,
    List.filter_eq_nil_iff] at none
  have kept : lifecycle.slots.map (DeliverySlot.moveTo stage next binding) = lifecycle.slots := by
    conv_rhs => rw [← List.map_id lifecycle.slots]
    apply List.map_congr_left
    intro slot member
    simp only [DeliverySlot.moveTo, none slot member]
    rfl
  exact congrArg MessageDeliveryLifecycle.mk kept

theorem beginDelivery_eq :
    lifecycle.beginDelivery binding =
      (lifecycle.messagesAt .pending binding, lifecycle.moveTo .pending .projecting binding) := by
  simp only [MessageDeliveryLifecycle.beginDelivery, MessageDeliveryLifecycle.pendingMessages]
  by_cases none : (lifecycle.messagesAt .pending binding).isEmpty = true
  · simp only [none, if_true, moveTo_of_none none]
  · simp only [none, Bool.false_eq_true, if_false]

theorem finishDelivery_cases
    (commit : List (DeliveryMessage Identity Source Content) → Except Error Unit) :
    (∃ error, lifecycle.finishDelivery binding commit = (.error error, lifecycle)) ∨
      lifecycle.finishDelivery binding commit =
        (.ok (lifecycle.messagesAt .projecting binding),
          lifecycle.moveTo .projecting .delivered binding) := by
  -- Either the commit fails and nothing changes, or the projecting messages are delivered.
  simp only [MessageDeliveryLifecycle.finishDelivery]
  split
  next none => exact Or.inr (by rw [moveTo_of_none none])
  next =>
    cases commit (lifecycle.messagesAt .projecting binding) with
    | error error => exact Or.inl ⟨error, rfl⟩
    | ok _ => exact Or.inr rfl

theorem undelivered_moveTo (open_stage : stage ≠ .delivered) (still : next ≠ .delivered)
    (other : TurnBinding PromptId Epoch) :
    (lifecycle.moveTo stage next binding).undelivered other = lifecycle.undelivered other := by
  simp only [MessageDeliveryLifecycle.undelivered, MessageDeliveryLifecycle.moveTo, List.filter_map,
    List.map_map]
  congr 1
  · funext slot
    simp
  · apply List.filter_congr
    intro slot _
    by_cases moves : slot.owned.binding = binding ∧ slot.stage = stage
    · simp [slot_moveTo_stage, moves, still, open_stage]
    · simp [slot_moveTo_stage, moves]

omit [DecidableEq PromptId] [DecidableEq Epoch] in
theorem filter_append_filter_not {α : Type} (holds : α → Bool) {values : List α}
    (front : values.Pairwise fun first second => holds second = true → holds first = true) :
    values = values.filter holds ++ values.filter (!holds ·) := by
  induction front with
  | nil => rfl
  | @cons head rest before _ ih =>
      cases here : holds head with
      | true => simpa [here] using ih
      | false =>
          have none : ∀ value ∈ rest, holds value = false := by
            intro value member
            cases later : holds value with
            | false => rfl
            | true => exact absurd (before value member later) (by simp [here])
          have rest_eq : rest.filter (!holds ·) = rest := by
            simpa [List.filter_eq_self] using none
          have nothing : rest.filter holds = [] := by
            simpa [List.filter_eq_nil_iff] using none
          simp [here, rest_eq, nothing]

theorem undelivered_eq (staged : lifecycle.Staged) :
    lifecycle.undelivered binding =
      lifecycle.messagesAt .projecting binding ++ lifecycle.messagesAt .pending binding := by
  have front : (lifecycle.slots.filter fun slot =>
      slot.stage ≠ .delivered && slot.owned.binding = binding).Pairwise fun first second =>
        decide (second.stage = .projecting) = true → decide (first.stage = .projecting) = true := by
    refine (staged.filter _).imp_of_mem ?_
    intro first second firstMember secondMember ordered projecting
    simp only [List.mem_filter, Bool.and_eq_true, decide_eq_true_eq] at firstMember secondMember projecting ⊢
    have rank := ordered (firstMember.2.2.trans secondMember.2.2.symm)
    cases at_stage : first.stage with
    | projecting => rfl
    | delivered => exact absurd at_stage firstMember.2.1
    | pending => simp [projecting, at_stage, Stage.rank] at rank
  unfold MessageDeliveryLifecycle.undelivered MessageDeliveryLifecycle.messagesAt
  rw [filter_append_filter_not _ front, List.map_append, List.filter_filter, List.filter_filter]
  congr 2
  · apply List.filter_congr
    intro slot _
    cases slot.stage <;> simp
  · apply List.filter_congr
    intro slot _
    cases slot.stage <;> simp

theorem undelivered_delivered (other : TurnBinding PromptId Epoch) :
    (lifecycle.moveTo .projecting .delivered binding).undelivered other =
      if other = binding then lifecycle.messagesAt .pending binding else lifecycle.undelivered other := by
  simp only [MessageDeliveryLifecycle.undelivered, MessageDeliveryLifecycle.moveTo,
    MessageDeliveryLifecycle.messagesAt, List.filter_map, List.map_map, Function.comp_def,
    slot_moveTo_owned, slot_moveTo_stage]
  split
  next same =>
    congr 1
    apply List.filter_congr
    intro slot _
    by_cases here : slot.owned.binding = binding <;> cases slot.stage <;> simp [here, same]
  next differ =>
    congr 1
    apply List.filter_congr
    intro slot _
    by_cases here : slot.owned.binding = other
    · have apart : slot.owned.binding ≠ binding := here ▸ differ
      simp [here, differ]
    · simp [here]

end Moves

section Steps

variable {history : History Identity Source Content Completion PromptId Epoch}
variable {lifecycle : MessageDeliveryLifecycle Identity Source Content Completion PromptId Epoch}
variable {binding : TurnBinding PromptId Epoch}

omit [DecidableEq PromptId] [DecidableEq Epoch] in
theorem admitPending_ok {message : DeliveryMessage Identity Source Content} {completion : Completion}
    {next : MessageDeliveryLifecycle Identity Source Content Completion PromptId Epoch}
    (accepts : lifecycle.admitPending binding message completion = .ok next) :
    (∀ slot ∈ lifecycle.slots, slot.owned.message.identity ≠ message.identity) ∧
      next.slots = lifecycle.slots ++ [⟨.pending, ⟨binding, message, completion⟩⟩] := by
  -- An accepted message takes the last slot.
  unfold MessageDeliveryLifecycle.admitPending at accepts
  split at accepts
  · cases accepts
  next absent =>
    cases accepts
    exact ⟨by simpa using absent, rfl⟩

theorem admitPending_conserved (conserved : history.Conserved) (binding : TurnBinding PromptId Epoch)
    (message : DeliveryMessage Identity Source Content) (completion : Completion) :
    (history.step (.admitPending binding message completion :
      Operation Identity Source Content Completion PromptId Epoch Error)).Conserved := by
  cases outcome : history.lifecycle.admitPending binding message completion with
  | error _ => simpa only [History.step, outcome] using conserved
  | ok next =>
      obtain ⟨absent, slots⟩ := admitPending_ok outcome
      simp only [History.step, outcome]
      constructor
      · simp only [slots, List.map_append, List.map_cons, List.map_nil]
        refine List.Nodup.append conserved.identities (List.nodup_singleton _) ?_
        simpa [List.disjoint_singleton] using absent
      · simp only [slots, List.map_append, List.map_cons, List.map_nil, ← List.append_assoc]
        exact conserved.balance.append_right _
      · intro handed member
        rcases conserved.handed handed member with left | ⟨slot, held, begun, same⟩
        · exact Or.inl left
        · exact Or.inr ⟨slot, by simp [slots, held], begun, same⟩
      · unfold MessageDeliveryLifecycle.Staged
        rw [slots, List.pairwise_append]
        refine ⟨conserved.staged, List.pairwise_singleton _ _, ?_⟩
        rintro slot _ last new _
        rw [List.mem_singleton.mp new]
        exact Nat.zero_le _
      · intro turn
        have accepted : History.acceptedFor
              { history with
                lifecycle := next
                accepted := history.accepted ++ [⟨binding, message, completion⟩] } turn =
            history.acceptedFor turn ++ if binding = turn then [message] else [] := by
          by_cases here : binding = turn <;> simp [History.acceptedFor, List.filter_append, here]
        have undelivered : next.undelivered turn =
            history.lifecycle.undelivered turn ++ if binding = turn then [message] else [] := by
          by_cases here : binding = turn <;>
            simp [MessageDeliveryLifecycle.undelivered, slots, List.filter_append, here]
        rw [accepted, undelivered, ← List.append_assoc]
        exact (conserved.order turn).append (List.Sublist.refl _)

omit [DecidableEq Identity] in
theorem moved_identities (conserved : history.Conserved) {stage next : Stage} :
    ((history.lifecycle.moveTo stage next binding).slots.map (·.owned.message.identity)).Nodup := by
  have same : (history.lifecycle.moveTo stage next binding).slots.map (·.owned.message.identity) =
      history.lifecycle.slots.map (·.owned.message.identity) := by
    simp [MessageDeliveryLifecycle.moveTo, Function.comp_def]
  exact same ▸ conserved.identities

omit [DecidableEq Identity] in
theorem moved_handed {stage next : Stage}
    (begun : next ≠ .pending) {message : DeliveryMessage Identity Source Content}
    (held : ∃ slot ∈ lifecycle.slots, slot.stage ≠ .pending ∧ slot.owned.message = message) :
    ∃ slot ∈ (lifecycle.moveTo stage next binding).slots,
      slot.stage ≠ .pending ∧ slot.owned.message = message := by
  -- A slot past pending stays past pending.
  obtain ⟨slot, member, past, same⟩ := held
  refine ⟨slot.moveTo stage next binding, List.mem_map_of_mem member, ?_, by simpa using same⟩
  rw [slot_moveTo_stage]
  split
  · exact begun
  · exact past

theorem beginDelivery_conserved (conserved : history.Conserved) (binding : TurnBinding PromptId Epoch) :
    (history.step (.beginDelivery binding :
      Operation Identity Source Content Completion PromptId Epoch Error)).Conserved := by
  simp only [History.step, beginDelivery_eq]
  constructor
  · exact moved_identities conserved
  · simpa only [moveTo_owned] using conserved.balance
  · intro message member
    rcases List.mem_append.mp member with earlier | now
    · exact (conserved.handed message earlier).imp id (moved_handed (by decide))
    · obtain ⟨slot, here, same⟩ := List.mem_map.mp now
      simp only [List.mem_filter, Bool.and_eq_true, decide_eq_true_eq] at here
      refine Or.inr ⟨slot.moveTo .pending .projecting binding, List.mem_map_of_mem here.1, ?_, ?_⟩
      · simp [slot_moveTo_stage, here.2]
      · simpa using same
  · exact moveTo_staged rfl conserved.staged
  · intro turn
    rw [undelivered_moveTo (by decide) (by decide)]
    exact conserved.order turn

theorem finishDelivery_conserved (conserved : history.Conserved) (binding : TurnBinding PromptId Epoch)
    (commit : List (DeliveryMessage Identity Source Content) → Except Error Unit) :
    (history.step (.finishDelivery binding commit)).Conserved := by
  rcases @finishDelivery_cases _ _ _ _ _ _ _ _ _ binding history.lifecycle commit with
    ⟨error, failed⟩ | delivered
  · simpa only [History.step, failed] using conserved
  · simp only [History.step, delivered]
    constructor
    · exact moved_identities conserved
    · simpa only [moveTo_owned] using conserved.balance
    · intro message member
      exact (conserved.handed message member).imp id (moved_handed (by decide))
    · exact moveTo_staged rfl conserved.staged
    · intro turn
      have before := conserved.order turn
      rw [undelivered_delivered]
      by_cases here : turn = binding
      · subst here
        rw [undelivered_eq conserved.staged, ← List.append_assoc] at before
        have committed : ∀ messages : List (DeliveryMessage Identity Source Content),
            ((history.committed ++ messages.map (turn, ·)).filter (·.1 = turn)).map Prod.snd =
              history.committedTo turn ++ messages := by
          intro messages
          simp [History.committedTo, List.filter_append, List.filter_map, Function.comp_def]
        simpa only [History.committedTo, History.acceptedFor, committed, if_true] using before
      · have committed : ∀ messages : List (DeliveryMessage Identity Source Content),
            ((history.committed ++ messages.map (binding, ·)).filter (·.1 = turn)).map Prod.snd =
              history.committedTo turn := by
          intro messages
          simp [History.committedTo, List.filter_append, List.filter_map, Function.comp_def,
            Ne.symm here]
        simpa only [History.committedTo, History.acceptedFor, committed, here, if_false] using before

theorem transition_conserved (conserved : history.Conserved) (target : TerminalTarget PromptId Epoch)
    (cause : TerminalCause) :
    (history.step (.transition target cause :
      Operation Identity Source Content Completion PromptId Epoch Error)).Conserved := by
  simp only [History.step, MessageDeliveryLifecycle.transition]
  constructor
  · exact conserved.identities.sublist (List.filter_sublist.map _)
  · refine conserved.balance.trans ?_
    have stays := List.filter_append_perm target.covers history.lifecycle.slots
    have leaves := List.filter_append_perm (fun slot => slot.stage = .pending && cause.fallsBack)
      (history.lifecycle.slots.filter target.covers)
    have slots := ((leaves.append_right _).trans stays).map (·.owned)
    simp only [List.map_append] at slots
    refine (List.Perm.append_left _ slots.symm).trans ?_
    simp only [← Multiset.coe_eq_coe, ← Multiset.coe_add]
    abel
  · intro message member
    rcases conserved.handed message member with ⟨owned, left, same⟩ | ⟨slot, held, begun, same⟩
    · exact Or.inl ⟨owned, List.mem_append_left _ left, same⟩
    · by_cases covered : target.covers slot = true
      · refine Or.inl ⟨slot.owned, List.mem_append_right _ (List.mem_map_of_mem ?_), same⟩
        simp [held, covered, begun]
      · exact Or.inr ⟨slot, by simp [held, covered], begun, same⟩
  · exact conserved.staged.filter _
  · intro turn
    refine List.Sublist.trans ?_ (conserved.order turn)
    exact (List.Sublist.refl _).append ((List.filter_sublist.filter _).map _)

theorem step_conserved (conserved : history.Conserved)
    (operation : Operation Identity Source Content Completion PromptId Epoch Error) :
    (history.step operation).Conserved := by
  cases operation with
  | admitPending binding message completion =>
      exact admitPending_conserved conserved binding message completion
  | beginDelivery binding => exact beginDelivery_conserved conserved binding
  | finishDelivery binding commit => exact finishDelivery_conserved conserved binding commit
  | transition target cause => exact transition_conserved conserved target cause

end Steps

end GrokPi.Delivery
