import Noddde.Brokers.KafkaConsumer
import Noddde.Brokers.RabbitMqConsumer
/-!
# Redeliveries of one message

Deliveries of a single message one after another, as each broker makes them until the
message is done with.
-/

namespace Noddde.Brokers

/-- What becomes of a message after a delivery. -/
inductive Fate where
  | redelivered
  | settled
  /-- Parked, dead-lettered or terminated. -/
  | givenUp
  | stopped
  deriving DecidableEq, Repr

structure Outcome where
  called : List Handler
  fate : Fate

section Sequence

variable {σ : Type} (deliver : σ → Nat → σ × Outcome) (s : σ)

/-- What the consumer remembers before the delivery `n`, the first one being `0`. -/
def stateAt : Nat → σ
  | 0 => s
  | n + 1 => (deliver (stateAt n) n).1

def outcomeAt (n : Nat) : Outcome := (deliver (stateAt deliver s n) n).2

/-- The message is given up after deliveries of which exactly `m` call handlers. -/
def GivesUpAfter (m : Nat) : Prop :=
  ∃ n, (∀ k < n, (outcomeAt deliver s k).fate = .redelivered) ∧
    (outcomeAt deliver s n).fate = .givenUp ∧
    ((List.range (n + 1)).filter fun k => (outcomeAt deliver s k).called ≠ []).length = m

end Sequence

variable {N : Type} [Json.Number N]

namespace KafkaEventBus

def fate (handled : Handled) : Fate :=
  match handled.settlement with
  | .ok () => if handled.parked then .givenUp else .settled
  | .error reason => if reason.retriable then .redelivered else .stopped

/-- The delivery `n` of the message at `location`. -/
def deliver (maxRetries : Option Nat) (location : Location) (body : Option (Json N))
    (deliveries : Nat → Delivery) (deliveryCounts : Location → Nat) (n : Nat) :
    (Location → Nat) × Outcome :=
  let handled := handleMessageAt maxRetries location (deliveries n) deliveryCounts body
  (handled.deliveryCounts, ⟨handled.called, fate handled⟩)

end KafkaEventBus

namespace RabbitMqEventBus

/-- `_processDelivery`, to its end. -/
def deliver (maxRetries : Option Nat) (retryKey : String) (body : Option (Json N))
    (handlers : Nat → List Handler) (deliveryCounts : DeliveryCounts) (n : Nat) :
    DeliveryCounts × Outcome :=
  let counted := countDelivery maxRetries retryKey deliveryCounts
  if counted.2 then (counted.1, ⟨[], .givenUp⟩)
  else
    match body with
    | none => (pruneCount maxRetries retryKey counted.1, ⟨[], .settled⟩)
    | some event =>
        match (fanOut event (handlers n)).bind (rethrow ()) with
        | .ok () =>
            (pruneCount maxRetries retryKey counted.1, ⟨calledBy (handlers n), .settled⟩)
        | .error _ => (counted.1, ⟨calledBy (handlers n), .redelivered⟩)

end RabbitMqEventBus

namespace NatsEventBus

/-- An iteration of the loop in `_consumeSubscription`, with the delivery count that the server
reports. -/
def consume (maxRetries : Option Nat) (deliveryCount : Nat) (handlers : List Handler)
    (body : Option (Json N)) : Outcome :=
  match body with
  -- a poison message is terminated
  | none => ⟨[], .givenUp⟩
  | some event =>
      match (Json.parse event.stringify : Option (Json N)) with
      | none => ⟨[], .stopped⟩
      | some event =>
          let called := calledBy handlers
          match (fanOut event handlers).bind (rethrow ()) with
          | .ok () => ⟨called, .settled⟩
          | .error err =>
              match err.print with
              -- the log entry throws, and the loop ends
              | .error _ => ⟨called, .stopped⟩
              | .ok () =>
                  if maxRetries.any (· ≤ deliveryCount) then ⟨called, .givenUp⟩
                  else ⟨called, .redelivered⟩

/-- The server counts the deliveries from one. -/
def deliver (maxRetries : Option Nat) (body : Option (Json N))
    (handlers : Nat → List Handler) (_ : Unit) (n : Nat) : Unit × Outcome :=
  ((), consume maxRetries (n + 1) (handlers n) body)

end NatsEventBus

end Noddde.Brokers
