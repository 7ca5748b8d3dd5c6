import GrokPi.Delivery.Conservation

set_option autoImplicit false

namespace GrokPi.Delivery

variable {Identity Source Content Completion PromptId Epoch Error : Type}
variable [DecidableEq Identity] [DecidableEq PromptId] [DecidableEq Epoch] {Other : Type}

def DeliveryMessage.mapContent (f : Content → Other) (message : DeliveryMessage Identity Source Content) :
    DeliveryMessage Identity Source Other :=
  { identity := message.identity
    source := message.source
    content := f message.content }

def OwnedDelivery.mapContent (f : Content → Other)
    (owned : OwnedDelivery Identity Source Content Completion PromptId Epoch) :
    OwnedDelivery Identity Source Other Completion PromptId Epoch :=
  { binding := owned.binding
    message := owned.message.mapContent f
    completion := owned.completion }

def DeliverySlot.mapContent (f : Content → Other)
    (slot : DeliverySlot Identity Source Content Completion PromptId Epoch) :
    DeliverySlot Identity Source Other Completion PromptId Epoch :=
  { stage := slot.stage
    owned := slot.owned.mapContent f }

def MessageDeliveryLifecycle.mapContent (f : Content → Other)
    (lifecycle : MessageDeliveryLifecycle Identity Source Content Completion PromptId Epoch) :
    MessageDeliveryLifecycle Identity Source Other Completion PromptId Epoch :=
  { slots := lifecycle.slots.map (·.mapContent f) }

def History.mapContent (f : Content → Other)
    (history : History Identity Source Content Completion PromptId Epoch) :
    History Identity Source Other Completion PromptId Epoch :=
  { lifecycle := history.lifecycle.mapContent f
    accepted := history.accepted.map (·.mapContent f)
    handed := history.handed.map (·.mapContent f)
    committed := history.committed.map fun (binding, message) => (binding, message.mapContent f)
    fallbacks := history.fallbacks.map (·.mapContent f)
    completions := history.completions.map (·.mapContent f) }

def Operation.stamp (number : Nat) :
    Operation Identity Source Content Completion PromptId Epoch Error →
      Operation Identity Source (Nat × Content) Completion PromptId Epoch Error
  | .admitPending binding message completion =>
      .admitPending binding (message.mapContent (number, ·)) completion
  | .beginDelivery binding => .beginDelivery binding
  | .finishDelivery binding commit =>
      .finishDelivery binding fun messages => commit (messages.map (·.mapContent Prod.snd))
  | .transition target cause => .transition target cause

def stampFrom : Nat → List (Operation Identity Source Content Completion PromptId Epoch Error) →
    List (Operation Identity Source (Nat × Content) Completion PromptId Epoch Error)
  | _, [] => []
  | number, operation :: rest => operation.stamp number :: stampFrom (number + 1) rest

section Unseen

variable (lifecycle : MessageDeliveryLifecycle Identity Source Content Completion PromptId Epoch)
variable (f : Content → Other)

end Unseen

def NumberedBelow (number : Nat)
    (history : History Identity Source (Nat × Content) Completion PromptId Epoch) : Prop :=
  (history.accepted.map (·.message.content.1)).Pairwise (· < ·) ∧
    ∀ owned ∈ history.accepted, owned.message.content.1 < number

theorem step_accepted {number : Nat}
    (history : History Identity Source (Nat × Content) Completion PromptId Epoch)
    (operation : Operation Identity Source Content Completion PromptId Epoch Error) :
    (history.step (operation.stamp number)).accepted = history.accepted ∨
      ∃ owned : OwnedDelivery Identity Source (Nat × Content) Completion PromptId Epoch,
        owned.message.content.1 = number ∧
          (history.step (operation.stamp number)).accepted = history.accepted ++ [owned] := by
  cases operation with
  | admitPending binding message completion =>
      simp only [Operation.stamp, History.step]
      cases history.lifecycle.admitPending binding (message.mapContent (number, ·)) completion with
      | error _ => exact Or.inl rfl
      | ok next => exact Or.inr ⟨⟨binding, message.mapContent (number, ·), completion⟩, rfl, rfl⟩
  | beginDelivery binding => exact Or.inl rfl
  | finishDelivery binding commit =>
      left
      simp only [Operation.stamp, History.step]
      split <;> rfl
  | transition target cause => exact Or.inl rfl

theorem NumberedBelow.step {number : Nat}
    {history : History Identity Source (Nat × Content) Completion PromptId Epoch}
    (numbered : NumberedBelow number history)
    (operation : Operation Identity Source Content Completion PromptId Epoch Error) :
    NumberedBelow (number + 1) (history.step (operation.stamp number)) := by
  obtain ⟨increasing, below⟩ := numbered
  unfold NumberedBelow
  rcases step_accepted history operation with same | ⟨owned, is_number, added⟩
  · rw [same]
    exact ⟨increasing, fun owned member => Nat.lt_succ_of_lt (below owned member)⟩
  · rw [added]
    constructor
    · rw [List.map_append, List.pairwise_append]
      refine ⟨increasing, List.pairwise_singleton _ _, ?_⟩
      intro earlier member last here
      obtain ⟨before, held, rfl⟩ := List.mem_map.mp member
      obtain rfl : last = owned.message.content.1 := by simpa using here
      exact is_number ▸ below before held
    · intro other member
      rcases List.mem_append.mp member with earlier | last
      · exact Nat.lt_succ_of_lt (below other earlier)
      · obtain rfl : other = owned := by simpa using last
        omega

theorem NumberedBelow.run {number : Nat}
    {history : History Identity Source (Nat × Content) Completion PromptId Epoch}
    (numbered : NumberedBelow number history)
    (operations : List (Operation Identity Source Content Completion PromptId Epoch Error)) :
    (((Runs.run History.step history (stampFrom number operations)).accepted).map
      (·.message.content.1)).Pairwise (· < ·) := by
  induction operations generalizing number history with
  | nil => exact numbered.1
  | cons operation rest ih => exact ih (numbered.step operation)

end GrokPi.Delivery
