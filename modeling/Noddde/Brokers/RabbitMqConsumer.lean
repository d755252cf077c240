import Noddde.Brokers.FanOut
import Noddde.Async.Machine
import Mathlib.Logic.Function.Basic
/-!
# Consumption from RabbitMQ

The callback that `_setupConsumer` hands to `channel.consume`, with the promise chains of the
aggregates, and `_processDelivery` with its counter.  Deliveries are numbered in the order
in which the broker makes them, over all queues of the bus.
-/

namespace Noddde.Brokers.RabbitMqEventBus

variable (N : Type) [Json.Number N]

/-- A message of a queue.  A redelivery is of the same copy; `messageId` and the body are
those of the published event. -/
structure Message where
  eventName : String
  copy : Nat
  messageId : Option String
  content : JsString
  digest : String
  deriving DecidableEq

def Message.retryKey (message : Message) : String := message.messageId.getD message.digest

/-- `event.metadata?.aggregateId` of the body, if it is there. -/
def aggregateId (content : JsString) : Option (Json N) :=
  (Json.parse content).bind fun event =>
    Json.optionalProperty "aggregateId" (event.property "metadata")

def peekAggregateId (content : JsString) : Option JsString :=
  (aggregateId N content).bind Json.toText

/-! ## The counter -/

/-- An absent entry of `_deliveryCounts` is zero. -/
abbrev DeliveryCounts := String → Nat

/-- The counts after the check of `maxRetries`, and whether the message has exceeded it. -/
def countDelivery (maxRetries : Option Nat) (retryKey : String)
    (deliveryCounts : DeliveryCounts) : DeliveryCounts × Bool :=
  match maxRetries with
  | none => (deliveryCounts, false)
  | some maxRetries =>
      let count := deliveryCounts retryKey + 1
      if count > maxRetries then (Function.update deliveryCounts retryKey 0, true)
      else (Function.update deliveryCounts retryKey count, false)

/-- After an acknowledgement. -/
def pruneCount (maxRetries : Option Nat) (retryKey : String) (deliveryCounts : DeliveryCounts) :
    DeliveryCounts :=
  if maxRetries.isSome then Function.update deliveryCounts retryKey 0 else deliveryCounts

inductive Verdict where
  | acked
  | nacked
  | deadLettered
  deriving DecidableEq, Repr

/-- What `_processDelivery` does once `_handleMessage` has settled.  An error of `ack` or
`nack` is swallowed. -/
def verdict : Except Reason Handled → Verdict
  | .ok _ => .acked
  | .error _ => .nacked

/-! ## The consumer -/

inductive Phase where
  | waiting (prior : Option Nat)
  | handling
  | processed (verdict : Verdict)
  deriving DecidableEq, Repr

structure Delivery where
  message : Message
  phase : Phase
  /-- The handlers registered when its processing began, and what became of their calls. -/
  handlers : List Handler := []
  call : Call Handled := {}
  returned : Bool := false

/-- What an observer notes of `_processDelivery`. -/
inductive Event where
  | began (d : Nat) (message : Message)
  /-- With the handlers that were registered. -/
  | ended (d : Nat) (message : Message) (handlers : List Handler) (verdict : Verdict)
  deriving DecidableEq

/-- `history` is a history variable, the latest event first. -/
structure Consumer where
  arrived : Nat := 0
  deliveries : Nat → Option Delivery := fun _ => none
  aggregateChains : JsString → Option Nat := fun _ => none
  deliveryCounts : DeliveryCounts := fun _ => 0
  history : List Event := []

namespace Consumer

/-- The deliveries whose processing began. -/
def started (consumer : Consumer) : List Nat :=
  consumer.history.filterMap fun event =>
    match event with
    | .began d _ => some d
    | .ended _ _ _ _ => none

def set (d : Nat) (delivery : Delivery) (consumer : Consumer) : Consumer :=
  { consumer with deliveries := Function.update consumer.deliveries d (some delivery) }

def processDelivery (maxRetries : Option Nat) (d : Nat) (delivery : Delivery)
    (handlers : List Handler) (consumer : Consumer) : Consumer :=
  let counted := countDelivery maxRetries delivery.message.retryKey consumer.deliveryCounts
  let consumer :=
    { consumer with
      deliveryCounts := counted.1
      history := .began d delivery.message :: consumer.history }
  if counted.2 then
    { consumer with
      history := .ended d delivery.message [] .deadLettered :: consumer.history }.set d
      { delivery with phase := .processed .deadLettered }
  else
    consumer.set d
      { delivery with
        phase := .handling
        handlers
        call := handleMessage N handlers delivery.message.content }

/-- `_processDelivery`, from the settlement of `_handleMessage` on. -/
def finish (maxRetries : Option Nat) (d : Nat) (delivery : Delivery)
    (outcome : Except Reason Handled) (consumer : Consumer) : Consumer :=
  { consumer with
    deliveryCounts :=
      match verdict outcome with
      | .acked =>
          pruneCount maxRetries delivery.message.retryKey consumer.deliveryCounts
      | _ => consumer.deliveryCounts
    history := .ended d delivery.message delivery.handlers (verdict outcome) :: consumer.history
    }.set d { delivery with phase := .processed (verdict outcome) }

def isProcessed (consumer : Consumer) (d : Nat) : Bool :=
  match consumer.deliveries d with
  | some delivery =>
      match delivery.phase with
      | .processed _ => true
      | _ => false
  | none => false

inductive Action where
  /-- The broker makes a delivery.  The handlers matter if its processing begins at once. -/
  | deliver (message : Message) (handlers : List Handler)
  | start (d : Nat) (handlers : List Handler)
  | handle (d : Nat) (action : Brokers.Action)
  | finish (d : Nat)
  | leave (d : Nat)

def step (maxRetries : Option Nat) (consumer : Consumer) : Action → Option Consumer
  | .deliver message handlers =>
      let d := consumer.arrived
      let consumer := { consumer with arrived := d + 1 }
      match peekAggregateId N message.content with
      | none =>
          some (consumer.processDelivery N maxRetries d { message, phase := .waiting none }
            handlers)
      | some aggregateId =>
          some ({ consumer with
            aggregateChains := Function.update consumer.aggregateChains aggregateId (some d)
            }.set d { message, phase := .waiting (consumer.aggregateChains aggregateId) })
  | .start d handlers => do
      let delivery ← consumer.deliveries d
      match delivery.phase with
      | .waiting prior =>
          if prior.all consumer.isProcessed
          then some (consumer.processDelivery N maxRetries d delivery handlers)
          else none
      | _ => none
  | .handle d action => do
      let delivery ← consumer.deliveries d
      let event ← (Json.parse delivery.message.content : Option (Json N))
      let call ← RabbitMqEventBus.step N event delivery.call action
      match delivery.phase with
      | .waiting _ => none
      | _ => some (consumer.set d { delivery with call })
  | .finish d => do
      let delivery ← consumer.deliveries d
      let outcome ← delivery.call.outcome
      if delivery.phase = .handling
      then some (consumer.finish maxRetries d delivery outcome)
      else none
  | .leave d => do
      let delivery ← consumer.deliveries d
      if consumer.isProcessed d ∧ delivery.returned = false then
        let consumer := consumer.set d { delivery with returned := true }
        match peekAggregateId N delivery.message.content with
        | none => some consumer
        | some aggregateId =>
            if consumer.aggregateChains aggregateId = some d
            then some { consumer with
              aggregateChains := Function.update consumer.aggregateChains aggregateId none }
            else some consumer
      else none

/-- The consumer, reached by deliveries and steps of their processing in any order. -/
abbrev Reached (maxRetries : Option Nat) (consumer : Consumer) : Prop :=
  Machine.Reaches (step N maxRetries) {} consumer

end Consumer

end Noddde.Brokers.RabbitMqEventBus
