import GrokPi.Shared.Runs

set_option autoImplicit false

namespace GrokPi.Delivery

structure TurnBinding (PromptId Epoch : Type) where
  promptId : PromptId
  epoch : Epoch
  deriving DecidableEq

structure DeliveryMessage (Identity Source Content : Type) where
  identity : Identity
  source : Source
  content : Content
  deriving DecidableEq

structure OwnedDelivery (Identity Source Content Completion PromptId Epoch : Type) where
  binding : TurnBinding PromptId Epoch
  message : DeliveryMessage Identity Source Content
  completion : Completion
  deriving DecidableEq

inductive Stage where
  | pending
  | projecting
  | delivered
  deriving DecidableEq

def Stage.rank : Stage → Nat
  | .pending => 0
  | .projecting => 1
  | .delivered => 2

structure DeliverySlot (Identity Source Content Completion PromptId Epoch : Type) where
  stage : Stage
  owned : OwnedDelivery Identity Source Content Completion PromptId Epoch
  deriving DecidableEq

inductive TerminalCause where
  | completion
  | softCancel
  | rewind
  | hardTeardown
  | actorDrop
  deriving DecidableEq

def TerminalCause.fallsBack (cause : TerminalCause) : Bool :=
  cause = .completion || cause = .softCancel || cause = .rewind

inductive TerminalTarget (PromptId Epoch : Type) where
  | turn (binding : TurnBinding PromptId Epoch)
  | all

structure TerminalTransition (Identity Source Content Completion PromptId Epoch : Type) where
  fallbacks : List (OwnedDelivery Identity Source Content Completion PromptId Epoch)
  completions : List (OwnedDelivery Identity Source Content Completion PromptId Epoch)

structure MessageDeliveryLifecycle (Identity Source Content Completion PromptId Epoch : Type) where
  slots : List (DeliverySlot Identity Source Content Completion PromptId Epoch)

variable {Identity Source Content Completion PromptId Epoch Error : Type}
variable [DecidableEq Identity] [DecidableEq PromptId] [DecidableEq Epoch]

def TerminalTarget.covers (target : TerminalTarget PromptId Epoch)
    (slot : DeliverySlot Identity Source Content Completion PromptId Epoch) : Bool :=
  match target with
  | .turn binding => slot.owned.binding = binding
  | .all => true

def DeliverySlot.moveTo (stage next : Stage) (binding : TurnBinding PromptId Epoch)
    (slot : DeliverySlot Identity Source Content Completion PromptId Epoch) :
    DeliverySlot Identity Source Content Completion PromptId Epoch :=
  if slot.stage = stage && slot.owned.binding = binding then { slot with stage := next } else slot

namespace MessageDeliveryLifecycle

variable (lifecycle : MessageDeliveryLifecycle Identity Source Content Completion PromptId Epoch)

def admitPending (binding : TurnBinding PromptId Epoch)
    (message : DeliveryMessage Identity Source Content) (completion : Completion) :
    Except (DeliveryMessage Identity Source Content)
      (MessageDeliveryLifecycle Identity Source Content Completion PromptId Epoch) :=
  if lifecycle.slots.any (·.owned.message.identity = message.identity) then .error message
  else
    .ok { slots := lifecycle.slots ++ [{ stage := .pending
                                         owned := { binding := binding
                                                    message := message
                                                    completion := completion } }] }

def messagesAt (stage : Stage) (binding : TurnBinding PromptId Epoch) :
    List (DeliveryMessage Identity Source Content) :=
  (lifecycle.slots.filter fun slot => slot.stage = stage && slot.owned.binding = binding).map
    (·.owned.message)

def moveTo (stage next : Stage) (binding : TurnBinding PromptId Epoch) :
    MessageDeliveryLifecycle Identity Source Content Completion PromptId Epoch :=
  { slots := lifecycle.slots.map (DeliverySlot.moveTo stage next binding) }

def pendingMessages (binding : TurnBinding PromptId Epoch) :
    List (DeliveryMessage Identity Source Content) :=
  lifecycle.messagesAt .pending binding

def beginDelivery (binding : TurnBinding PromptId Epoch) :
    List (DeliveryMessage Identity Source Content) ×
      MessageDeliveryLifecycle Identity Source Content Completion PromptId Epoch :=
  let messages := lifecycle.pendingMessages binding
  if messages.isEmpty then (messages, lifecycle)
  else (messages, lifecycle.moveTo .pending .projecting binding)

def finishDelivery (binding : TurnBinding PromptId Epoch)
    (commit : List (DeliveryMessage Identity Source Content) → Except Error Unit) :
    Except Error (List (DeliveryMessage Identity Source Content)) ×
      MessageDeliveryLifecycle Identity Source Content Completion PromptId Epoch :=
  let messages := lifecycle.messagesAt .projecting binding
  if messages.isEmpty then (.ok messages, lifecycle)
  else
    match commit messages with
    | .error error => (.error error, lifecycle)
    | .ok _ => (.ok messages, lifecycle.moveTo .projecting .delivered binding)

def transition (target : TerminalTarget PromptId Epoch) (cause : TerminalCause) :
    TerminalTransition Identity Source Content Completion PromptId Epoch ×
      MessageDeliveryLifecycle Identity Source Content Completion PromptId Epoch :=
  let leaving := lifecycle.slots.filter target.covers
  let goesBack := fun slot : DeliverySlot Identity Source Content Completion PromptId Epoch =>
    slot.stage = .pending && cause.fallsBack
  ({ fallbacks := (leaving.filter goesBack).map (·.owned)
     completions := (leaving.filter (!goesBack ·)).map (·.owned) },
    { slots := lifecycle.slots.filter (!target.covers ·) })

end MessageDeliveryLifecycle

/-- One call to the lifecycle; the caller's commit may fail as it likes. -/
inductive Operation (Identity Source Content Completion PromptId Epoch Error : Type) where
  | admitPending (binding : TurnBinding PromptId Epoch)
      (message : DeliveryMessage Identity Source Content) (completion : Completion)
  | beginDelivery (binding : TurnBinding PromptId Epoch)
  | finishDelivery (binding : TurnBinding PromptId Epoch)
      (commit : List (DeliveryMessage Identity Source Content) → Except Error Unit)
  | transition (target : TerminalTarget PromptId Epoch) (cause : TerminalCause)

structure History (Identity Source Content Completion PromptId Epoch : Type) where
  lifecycle : MessageDeliveryLifecycle Identity Source Content Completion PromptId Epoch
  accepted : List (OwnedDelivery Identity Source Content Completion PromptId Epoch)
  handed : List (DeliveryMessage Identity Source Content)
  committed : List (TurnBinding PromptId Epoch × DeliveryMessage Identity Source Content)
  fallbacks : List (OwnedDelivery Identity Source Content Completion PromptId Epoch)
  completions : List (OwnedDelivery Identity Source Content Completion PromptId Epoch)

def History.empty : History Identity Source Content Completion PromptId Epoch :=
  { lifecycle := { slots := [] }
    accepted := []
    handed := []
    committed := []
    fallbacks := []
    completions := [] }

def History.step (history : History Identity Source Content Completion PromptId Epoch) :
    Operation Identity Source Content Completion PromptId Epoch Error →
      History Identity Source Content Completion PromptId Epoch
  | .admitPending binding message completion =>
      match history.lifecycle.admitPending binding message completion with
      | .error _ => history
      | .ok lifecycle =>
          { history with
            lifecycle := lifecycle
            accepted := history.accepted ++ [{ binding := binding
                                               message := message
                                               completion := completion }] }
  | .beginDelivery binding =>
      let (messages, lifecycle) := history.lifecycle.beginDelivery binding
      { history with lifecycle := lifecycle, handed := history.handed ++ messages }
  | .finishDelivery binding commit =>
      match history.lifecycle.finishDelivery binding commit with
      | (.error _, lifecycle) => { history with lifecycle := lifecycle }
      | (.ok messages, lifecycle) =>
          { history with
            lifecycle := lifecycle
            committed := history.committed ++ messages.map (binding, ·) }
  | .transition target cause =>
      let (left, lifecycle) := history.lifecycle.transition target cause
      { history with
        lifecycle := lifecycle
        fallbacks := history.fallbacks ++ left.fallbacks
        completions := history.completions ++ left.completions }

def History.run (operations : List (Operation Identity Source Content Completion PromptId Epoch Error)) :
    History Identity Source Content Completion PromptId Epoch :=
  Runs.run History.step .empty operations

end GrokPi.Delivery
