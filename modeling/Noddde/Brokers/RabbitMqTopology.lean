import Noddde.Async.Machine
import Noddde.Data.InsertionMap
import Noddde.Data.Json
import Noddde.Data.WordPattern
/-!
# Exchange, queues and handlers of the RabbitMQ bus

The buses of a deployment publish to one exchange.  Each has a queue for every event name
that has handlers, bound by that name, and hands what it gets from the queue to those
handlers.  Nothing fails here, and each consumer has been set up.
-/

namespace Noddde.Brokers.RabbitMqEventBus.Topology

inductive ExchangeType where
  | topic
  | fanout
  deriving DecidableEq, Repr

def dot : UInt16 := 0x2E

/-! ## The broker -/

/-- The empty key has no words. -/
def words (key : JsString) : List JsString :=
  if key = [] then [] else key.splitOn dot

/-- A word of a binding key. -/
def readWord (word : JsString) : PatternWord JsString :=
  if word = Json.ascii "*" then .one
  else if word = Json.ascii "#" then .any
  else .word word

def ExchangeType.Routes (exchangeType : ExchangeType) (bindingKey routingKey : JsString) : Prop :=
  match exchangeType with
  | .topic => PatternWord.Matches ((words bindingKey).map readWord) (words routingKey)
  | .fanout => True

instance (exchangeType : ExchangeType) (bindingKey routingKey : JsString) :
    Decidable (exchangeType.Routes bindingKey routingKey) :=
  match exchangeType with
  | .topic => PatternWord.decidableMatches _ _
  | .fanout => isTrue trivial

/-- The consumer of a bus for one event name. -/
structure Consumer where
  queuePrefix : JsString
  eventName : JsString
  deriving DecidableEq

/-- `${this._queuePrefix}.${eventName}` -/
def Consumer.queueName (consumer : Consumer) : JsString :=
  consumer.queuePrefix ++ dot :: consumer.eventName

structure Broker where
  queues : List JsString := []
  bindings : List (JsString × JsString) := []
  consumers : List (JsString × Consumer) := []

namespace Broker

variable (broker : Broker)

def assertQueue (queueName : JsString) : Broker :=
  if broker.queues.contains queueName then broker
  else { broker with queues := broker.queues ++ [queueName] }

def bindQueue (queueName bindingKey : JsString) : Broker :=
  if broker.bindings.contains (queueName, bindingKey) then broker
  else { broker with bindings := broker.bindings ++ [(queueName, bindingKey)] }

def consume (queueName : JsString) (consumer : Consumer) : Broker :=
  { broker with consumers := broker.consumers ++ [(queueName, consumer)] }

def setupConsumer (consumer : Consumer) : Broker :=
  let queueName := consumer.queueName
  ((broker.assertQueue queueName).bindQueue queueName consumer.eventName).consume queueName
    consumer

/-- The queues that get a copy of a message. -/
def route (exchangeType : ExchangeType) (routingKey : JsString) : List JsString :=
  broker.queues.filter fun queueName =>
    ∃ binding ∈ broker.bindings,
      binding.1 = queueName ∧ exchangeType.Routes binding.2 routingKey

end Broker

/-! ## The buses -/

variable {H : Type}

def on (handlers : InsertionMap JsString (List H)) (eventName : JsString) (handler : H) :
    InsertionMap JsString (List H) :=
  match handlers.get eventName with
  | some existing => handlers.set eventName (existing ++ [handler])
  | none => handlers.set eventName [handler]

/-- The handler map after some calls of `on()`. -/
def registered (calls : List (JsString × H)) : InsertionMap JsString (List H) :=
  calls.foldl (fun handlers call => on handlers call.1 call.2) ∅

/-- Some buses by their queue prefixes, with the calls of `on()` on each, and the type that
their exchange has. -/
structure Deployment (H : Type) where
  exchangeType : ExchangeType
  buses : InsertionMap JsString (List (JsString × H))

namespace Deployment

variable (deployment : Deployment H)

def handlersOf (queuePrefix : JsString) : InsertionMap JsString (List H) :=
  registered ((deployment.buses.get queuePrefix).getD [])

/-- Every bus runs `_setupConsumer` for every event name. -/
def consumers : List Consumer :=
  deployment.buses.keys.flatMap fun queuePrefix =>
    (deployment.handlersOf queuePrefix).keys.map fun eventName => { queuePrefix, eventName }

def broker : Broker := deployment.consumers.foldl Broker.setupConsumer {}

/-- The queues that get a published event. -/
def route (eventName : JsString) : List JsString :=
  deployment.broker.route deployment.exchangeType eventName

end Deployment

/-! ## Messages -/

/-- A handler that was registered for `eventName` is called with the event of this number. -/
structure Invocation (H : Type) where
  queuePrefix : JsString
  eventName : JsString
  handler : H
  event : Nat

structure State (H : Type) where
  published : List JsString := []
  queued : List (JsString × Nat) := []
  handed : List (Invocation H) := []

inductive Action where
  | publish (eventName : JsString)
  | deliver (index : Nat) (consumer : Consumer)

variable (deployment : Deployment H)

/-- `dispatch`, with the name of the event as routing key. -/
def State.publish (s : State H) (eventName : JsString) : State H :=
  { s with
    published := s.published ++ [eventName]
    queued := s.queued ++
      (deployment.route eventName).map fun queueName => (queueName, s.published.length) }

/-- `_handleMessage` of the consumer, that calls the handlers of the name of its queue. -/
def State.handleMessage (s : State H) (consumer : Consumer) (event : Nat) : State H :=
  { s with
    handed := s.handed ++
      (((deployment.handlersOf consumer.queuePrefix).get consumer.eventName).getD []).map
        fun handler =>
          { queuePrefix := consumer.queuePrefix
            eventName := consumer.eventName
            handler
            event } }

def step (s : State H) : Action → Option (State H)
  | .publish eventName => some (s.publish deployment eventName)
  | .deliver index consumer =>
      match s.queued[index]? with
      | none => none
      | some (queueName, event) =>
          if (queueName, consumer) ∈ deployment.broker.consumers then
            some { s.handleMessage deployment consumer event with
              queued := s.queued.eraseIdx index }
          else none

/-- The handlers, registered on a bus for a name, that have been called with an event. -/
def State.handedTo (s : State H) (queuePrefix eventName : JsString) (event : Nat) : List H :=
  (s.handed.filter fun invocation => invocation.queuePrefix = queuePrefix ∧
    invocation.eventName = eventName ∧ invocation.event = event).map Invocation.handler

/-- Handlers are called only with events of their name, and once all queues are empty, every
published event has been handed once to each handler of its name on each bus. -/
structure State.Delivered (deployment : Deployment H) (s : State H) : Prop where
  named : ∀ invocation ∈ s.handed, s.published[invocation.event]? = some invocation.eventName
  once : s.queued = [] → ∀ (event : Nat) (eventName : JsString),
    s.published[event]? = some eventName → ∀ (queuePrefix : JsString) (handlers : List H),
      (deployment.handlersOf queuePrefix).get eventName = some handlers →
        s.handedTo queuePrefix eventName event = handlers

def Publishes (Names : JsString → Prop) : State H → Action → Prop
  | _, .publish eventName => Names eventName
  | _, .deliver .. => True

/-- Each consumer of a queue that has a binding for the name is one for the name. -/
def Disciplined (eventName : JsString) : Prop :=
  ∀ bound ∈ deployment.consumers, deployment.exchangeType.Routes bound.eventName eventName →
    ∀ consumer ∈ deployment.consumers, consumer.queueName = bound.queueName →
      consumer.eventName = eventName

end Noddde.Brokers.RabbitMqEventBus.Topology
