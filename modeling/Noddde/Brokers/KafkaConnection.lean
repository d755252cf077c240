import Noddde.Data.InsertionMap
import Noddde.Async.Machine
/-!
# Connecting to Kafka

`connect()` of the Kafka bus, one awaited promise after another, and `on()`, on a bus that
is not closed.  The consumer object knows which topics it has subscribed to; the bus keeps
a set of its own.
-/

namespace Noddde.Brokers.KafkaEventBus

structure Config where
  clientId : String
  topicPrefix : Option String
  warmupOnConnect : Bool

namespace Config

variable (config : Config)

def warmupEventName : String := "__noddde_warmup_" ++ config.clientId

def topicName (eventName : String) : String := config.topicPrefix.getD "" ++ eventName

end Config

inductive AdminCall where
  | connect
  | createTopics
  /-- In the `finally` block: whether the topics were created. -/
  | disconnect (created : Bool)
  deriving DecidableEq, Repr

inductive Phase where
  | connectProducer
  | connectConsumer
  | provisionWarmupTopic (call : AdminCall)
  | provisionTopics (pending : List String) (call : AdminCall)
  | subscribe (index : Nat) (topic : String)
  | run
  /-- `FETCH_START`, or its timeout. -/
  | fetchStart
  | warmup
  deriving DecidableEq, Repr

/-- A consumer object of kafkajs.  `inherited` is a history variable: what the set of the
bus held when the consumer was made. -/
structure ConsumerObject where
  subscribed : List String := []
  running : Bool := false
  inherited : List String
  deriving DecidableEq, Repr

/-- `H` are the handlers.  `resolved` is a history variable: a call of `connect()` has
resolved. -/
structure Bus (H : Type) where
  handlers : InsertionMap String (List H) := ∅
  subscribedTopics : List String := []
  provisionedTopics : List String := []
  consumer : Option ConsumerObject := none
  connected : Bool := false
  connecting : Option Phase := none
  resolved : Bool := false

namespace Bus

variable {H : Type} (config : Config) (warmupHandler : H) (bus : Bus H)

def await (phase : Phase) : Bus H := { bus with connecting := some phase }

/-- The `finally` block, after a failure. -/
def reject : Bus H := { bus with connecting := none }

def resolve : Bus H := { bus with connecting := none, resolved := true }

/-- The next key, from an index on, whose topic is not in the set. -/
def nextTopic : List String → Nat → Option (Nat × String)
  | [], _ => none
  | eventName :: rest, index =>
      if config.topicName eventName ∈ bus.subscribedTopics then nextTopic rest (index + 1)
      else some (index, config.topicName eventName)

/-- The loop over the handler map, from an index on.  After it, `consumer.run()` is called. -/
def subscribeFrom (index : Nat) : Bus H :=
  match bus.nextTopic config (bus.handlers.keys.drop index) index with
  | some (index, topic) => bus.await (.subscribe index topic)
  | none => bus.await .run

def provisionTopics : Bus H :=
  let names := bus.handlers.keys.filter fun name => name ≠ config.warmupEventName
  let pending := (names.map config.topicName).filter fun topic => topic ∉ bus.provisionedTopics
  if pending = [] then bus.subscribeFrom config 0
  else bus.await (.provisionTopics pending .connect)

/-- `_provisionWarmupTopic`, after the calls of the admin client. -/
def registerWarmupHandler : Bus H :=
  let existingHandlers := (bus.handlers.get config.warmupEventName).getD []
  { bus with
    provisionedTopics := config.topicName config.warmupEventName :: bus.provisionedTopics
    handlers := bus.handlers.set config.warmupEventName (existingHandlers ++ [warmupHandler]) }

/-- What an admin call leads to, with what comes after the last one. -/
def settleAdmin (phase : AdminCall → Phase) (done : Bus H) (ok : Bool) : AdminCall → Bus H
  | .connect => if ok then bus.await (phase .createTopics) else bus.reject
  | .createTopics => bus.await (phase (.disconnect ok))
  | .disconnect created => if ok && created then done else bus.reject

def updateConsumer (f : ConsumerObject → ConsumerObject) : Bus H :=
  { bus with consumer := bus.consumer.map f }

/-- The end of `_runConsumerLoop`, and what follows in `connect()`. -/
def finishRun : Bus H :=
  let bus := { bus with connected := true }
  if config.warmupOnConnect then bus.await .warmup else bus.resolve

def settle (ok : Bool) : Phase → Bus H
  | .connectProducer => if ok then bus.await .connectConsumer else bus.reject
  | .connectConsumer =>
      if ok then
        if config.warmupOnConnect then bus.await (.provisionWarmupTopic .connect)
        else bus.provisionTopics config
      else bus.reject
  | .provisionWarmupTopic call =>
      bus.settleAdmin .provisionWarmupTopic
        ((bus.registerWarmupHandler config warmupHandler).provisionTopics config) ok call
  | .provisionTopics pending call =>
      bus.settleAdmin (.provisionTopics pending)
        ({ bus with provisionedTopics := pending ++ bus.provisionedTopics }.subscribeFrom config 0)
        ok call
  | .subscribe index topic =>
      if ok then
        let bus := bus.updateConsumer fun consumer =>
          { consumer with subscribed := topic :: consumer.subscribed }
        { bus with subscribedTopics := topic :: bus.subscribedTopics }.subscribeFrom config
          (index + 1)
      else bus.reject
  | .run =>
      if ok then
        let bus := bus.updateConsumer fun consumer => { consumer with running := true }
        if bus.subscribedTopics = [] then bus.finishRun config else bus.await .fetchStart
      else bus.reject
  -- a race with a timer: it cannot reject
  | .fetchStart => bus.finishRun config
  | .warmup => if ok then bus.resolve else bus.reject

def connect : Bus H :=
  if bus.connected then { bus with resolved := true }
  else
    match bus.connecting with
    | some _ => bus
    | none =>
        { bus with consumer := some { inherited := bus.subscribedTopics } }.await .connectProducer

/-- A call of `on()`: `false` if it throws. -/
def on (eventName : String) (handler : H) : Bool × Bus H :=
  if (bus.connected || bus.connecting.isSome) &&
      decide (config.topicName eventName ∉ bus.subscribedTopics) then (false, bus)
  else
    let existing := (bus.handlers.get eventName).getD []
    (true, { bus with handlers := bus.handlers.set eventName (existing ++ [handler]) })

inductive Action (H : Type) where
  | connect
  | on (eventName : String) (handler : H)
  | settle (ok : Bool)

def step : Action H → Option (Bus H)
  | .connect => some bus.connect
  | .on eventName handler => some (bus.on config eventName handler).2
  | .settle ok => bus.connecting.map fun phase => bus.settle config warmupHandler ok phase

/-- The bus, reached by calls and by what they await, in any order. -/
abbrev Reached : Prop :=
  Machine.Reaches (step config warmupHandler) {} bus

end Bus

end Noddde.Brokers.KafkaEventBus
