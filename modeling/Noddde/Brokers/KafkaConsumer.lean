import Noddde.Brokers.FanOut
import Noddde.Async.Machine
import Mathlib.Logic.Function.Basic
/-!
# Consumption from Kafka

`eachMessage` of the consumer loop, the part of `_handleMessage` that counts the
attempts of a message and parks it, and a consumer that restarts from the committed
offsets.
-/

namespace Noddde.Brokers.KafkaEventBus

variable {N : Type} [Json.Number N]

structure TopicPartition where
  topic : String
  partition : Nat
  deriving DecidableEq, Repr

structure Location where
  source : TopicPartition
  offset : Nat
  deriving DecidableEq, Repr

/-- A value is `null` or the text of the message. -/
abbrev Log := TopicPartition → List (Option JsString)

/-- One call of `eachMessage`, seen from outside: the handlers registered for the event,
how the publication on the DLQ topic settles, should it come to one, and how the commit
of the offset does. -/
structure Delivery where
  handlers : List Handler
  parkToDlq : Settlement := .ok ()
  commitOffsets : Settlement := .ok ()

def DEFAULT_MAX_RETRIES : Nat := 5

def markRetriable : Reason → Reason
  | .error message _ => .error message true
  | err => err

/-! ## `_handleMessage` with a location -/

/-- What `_handleMessage` leaves: an absent entry of `_deliveryCounts` is zero. -/
structure Handled where
  deliveryCounts : Location → Nat
  called : List Handler := []
  parked : Bool := false
  settlement : Settlement

/-- The part after the loop over the results. -/
def countAttempt (maxRetries : Option Nat) (location : Location) (delivery : Delivery)
    (deliveryCounts : Location → Nat) (firstRejection : Reason) : Handled :=
  let called := calledBy delivery.handlers
  if firstRejection = .undefined then { deliveryCounts, called, settlement := .ok () }
  else
    let attempt := deliveryCounts location + 1
    let counted := Function.update deliveryCounts location attempt
    let failed : Handled :=
      { deliveryCounts := counted, called, settlement := .error (markRetriable firstRejection) }
    if attempt ≤ maxRetries.getD DEFAULT_MAX_RETRIES then failed
    else
      match delivery.parkToDlq with
      | .error _ => failed
      | .ok () =>
          { deliveryCounts := Function.update counted location 0
            called
            parked := true
            settlement := .ok () }

/-- `_handleMessage` with a location.  `body` is what `JSON.parse` makes of the text; `none`
if it throws. -/
def handleMessageAt (maxRetries : Option Nat) (location : Location) (delivery : Delivery)
    (deliveryCounts : Location → Nat) (body : Option (Json N)) : Handled :=
  match body with
  -- an error of the parking is swallowed
  | none => { deliveryCounts, parked := delivery.parkToDlq.isOk, settlement := .ok () }
  | some event =>
      match fanOut event delivery.handlers with
      | .error thrown =>
          { deliveryCounts
            called := calledBy delivery.handlers
            settlement := .error thrown }
      | .ok firstRejection =>
          countAttempt maxRetries location delivery deliveryCounts firstRejection

/-! ## The consumer -/

/-- What an observer notes of a delivery: the handlers registered, whether a copy was parked
and the offset committed, and how `eachMessage` settled. -/
structure Record where
  location : Location
  handlers : List Handler
  parked : Bool
  committed : Bool
  settlement : Settlement

/-- The consumer and the offsets that the broker keeps for its group.  `history` is a
history variable. -/
structure Consumer where
  deliveryCounts : Location → Nat := fun _ => 0
  committed : TopicPartition → Nat := fun _ => 0
  position : TopicPartition → Nat := fun _ => 0
  /-- What crashed the consumer loop, which does not run then. -/
  crashed : Option Reason := none
  history : List Record := []

namespace Consumer

/-- `eachMessage` once `_handleMessage` has settled: commit the offset, and prune the count. -/
def commit (location : Location) (delivery : Delivery) (handled : Handled)
    (consumer : Consumer) : Consumer :=
  let settlement := handled.settlement.bind fun _ => delivery.commitOffsets
  let consumer :=
    { consumer with
      history :=
        { location
          handlers := delivery.handlers
          parked := handled.parked
          committed := settlement.isOk
          settlement } :: consumer.history }
  match settlement with
  | .error reason =>
      { consumer with deliveryCounts := handled.deliveryCounts, crashed := some reason }
  | .ok () =>
      { consumer with
        deliveryCounts := Function.update handled.deliveryCounts location 0
        committed := Function.update consumer.committed location.source (location.offset + 1)
        position := Function.update consumer.position location.source (location.offset + 1) }

/-- `eachMessage`, on a message that is no tombstone. -/
def eachMessage (maxRetries : Option Nat) (location : Location) (delivery : Delivery)
    (body : Option (Json N)) (consumer : Consumer) : Consumer :=
  consumer.commit location delivery
    (handleMessageAt maxRetries location delivery consumer.deliveryCounts body)

inductive Action where
  | deliver (source : TopicPartition) (delivery : Delivery)
  | rebalance (source : TopicPartition)
  /-- The consumer restarts after an error that is flagged retriable. -/
  | restart

variable (N) in
def step (log : Log) (maxRetries : Option Nat) (consumer : Consumer) : Action → Option Consumer
  | .deliver source delivery =>
      if consumer.crashed.isSome then none
      else
        let offset := consumer.position source
        match (log source)[offset]? with
        | none => none
        | some none =>
            some { consumer with
              position := Function.update consumer.position source (offset + 1) }
        | some (some rawValue) =>
            some (consumer.eachMessage maxRetries ⟨source, offset⟩ delivery
              (Json.parse rawValue : Option (Json N)))
  | .rebalance source =>
      if consumer.crashed.isSome then none
      else some { consumer with
        position := Function.update consumer.position source (consumer.committed source) }
  | .restart =>
      match consumer.crashed with
      | some reason =>
          if reason.retriable
          then some { consumer with crashed := none, position := consumer.committed }
          else none
      | none => none

end Consumer

end Noddde.Brokers.KafkaEventBus
