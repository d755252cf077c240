import Mathlib.Logic.Function.Basic
import Noddde.Async.Machine
/-!
# The connections of the RabbitMQ bus

`connect()`, the reconnection in the background, `on()` and `close()`, one awaited promise
after another, with the connections and channels they open.  Times are left out: a backoff
ends at any time.
-/

namespace Noddde.Brokers.RabbitMqEventBus

structure Resilience where
  maxAttempts : Option Nat := none
  maxRetries : Option Nat := none

/-- What `_setupConsumer` awaits. -/
inductive SetupStep where
  | assertDeadLetterExchange
  | assertDeadLetterQueue
  | bindDeadLetterQueue
  | assertQueue
  | bindQueue
  | consume
  deriving DecidableEq, Repr

namespace SetupStep

def first (resilience : Resilience) : SetupStep :=
  match resilience.maxRetries with
  | some _ => .assertDeadLetterExchange
  | none => .assertQueue

def next : SetupStep → Option SetupStep
  | .assertDeadLetterExchange => some .assertDeadLetterQueue
  | .assertDeadLetterQueue => some .bindDeadLetterQueue
  | .bindDeadLetterQueue => some .assertQueue
  | .assertQueue => some .bindQueue
  | .bindQueue => some .consume
  | .consume => none

end SetupStep

/-- A call of `_setupConsumer`, with the channel it has captured. -/
structure Setup where
  eventName : String
  channel : Nat
  awaits : SetupStep
  deriving DecidableEq, Repr

structure ConnectionObject where
  isOpen : Bool := false
  listening : Bool := false
  deriving DecidableEq, Repr

structure ChannelObject where
  connection : Nat := 0
  isOpen : Bool := false
  listening : Bool := false
  consumers : List String := []
  deriving DecidableEq, Repr

namespace ConnectionObject

def listen (object : ConnectionObject) : ConnectionObject := { object with listening := true }

def close (object : ConnectionObject) : ConnectionObject := { object with isOpen := false }

end ConnectionObject

namespace ChannelObject

def listen (object : ChannelObject) : ChannelObject := { object with listening := true }

/-- The consumers of a channel end with it. -/
def close (object : ChannelObject) : ChannelObject :=
  { object with isOpen := false, consumers := [] }

/-- `consume` has resolved. -/
def addConsumer (eventName : String) (object : ChannelObject) : ChannelObject :=
  if object.isOpen then { object with consumers := eventName :: object.consumers } else object

end ChannelObject

inductive LoopKind where
  | connectWithRetry (attempt : Nat)
  | reconnectPersistently
  deriving DecidableEq, Repr

/-- What a loop awaits, with the connection and the channel of its attempt. -/
inductive LoopPhase where
  | connect
  | createConfirmChannel (connection : Nat)
  | prefetch (connection channel : Nat)
  | assertExchange (connection channel : Nat)
  /-- `_setupConsumer` for the key at the index of the handler map. -/
  | setupConsumer (connection channel index : Nat) (setup : Setup)
  /-- In the `catch` block of `_connectWithRetry`: whether it caught an
  `ExchangeTypeMismatchError`. -/
  | close (connection : Nat) (mismatch : Bool)
  | backoff
  deriving DecidableEq, Repr

structure Loop where
  kind : LoopKind
  phase : LoopPhase
  deriving DecidableEq, Repr

inductive CloseStep where
  | channel (channel : Nat)
  | connection (connection : Nat)
  deriving DecidableEq, Repr

/-- How an awaited promise settles: whether the error is the mismatch of an exchange type. -/
inductive Answer where
  | resolved
  | rejected (mismatch : Bool)
  deriving DecidableEq, Repr

/-- `handlers` are the keys of the handler map.  The tables hold the objects made so far, by
their numbers. -/
structure Bus where
  handlers : List String := []
  connection : Option Nat := none
  channel : Option Nat := none
  connected : Bool := false
  closed : Bool := false
  reconnecting : Bool := false
  connections : Nat → ConnectionObject := fun _ => {}
  connectionsMade : Nat := 0
  channels : Nat → ChannelObject := fun _ => {}
  channelsMade : Nat := 0
  loops : List Loop := []
  setups : List Setup := []
  closing : Option CloseStep := none

namespace Bus

variable (resilience : Resilience) (bus : Bus)

/-! ## Connections and channels -/

def isOpen (connection : Nat) : Bool := (bus.connections connection).isOpen

def updateConnection (connection : Nat) (f : ConnectionObject → ConnectionObject) : Bus :=
  { bus with
    connections :=
      Function.update bus.connections connection (f (bus.connections connection)) }

def updateChannel (channel : Nat) (f : ChannelObject → ChannelObject) : Bus :=
  { bus with channels := Function.update bus.channels channel (f (bus.channels channel)) }

/-- The channels of a connection close with it. -/
def closeConnection (connection : Nat) : Bus :=
  { bus.updateConnection connection .close with
    channels := fun channel =>
      if (bus.channels channel).connection = connection then (bus.channels channel).close
      else bus.channels channel }

/-- `amqplib.connect` has resolved. -/
def addConnection : Bus :=
  { bus with
    connection := some bus.connectionsMade
    connections := Function.update bus.connections bus.connectionsMade { isOpen := true }
    connectionsMade := bus.connectionsMade + 1 }

/-- `createConfirmChannel` has resolved. -/
def addChannel (connection : Nat) : Bus :=
  { bus with
    channel := some bus.channelsMade
    channels := Function.update bus.channels bus.channelsMade
      { connection, isOpen := bus.isOpen connection }
    channelsMade := bus.channelsMade + 1 }

/-! ## The loops -/

def await (i : Nat) (loop : Loop) : Bus := { bus with loops := bus.loops.set i loop }

def endLoop (i : Nat) : Bus := { bus with loops := bus.loops.eraseIdx i }

/-- The call of `_setupConsumer` for the key at an index: none if there is no such key, or no
channel, where it returns at once. -/
def nextSetup (index : Nat) : Option Setup :=
  match bus.handlers[index]?, bus.channel with
  | some eventName, some channel =>
      some { eventName, channel, awaits := SetupStep.first resilience }
  | _, _ => none

/-- The end of an attempt that succeeds. -/
def complete (i : Nat) (connection channel : Nat) : LoopKind → Bus
  | .connectWithRetry _ =>
      { (bus.updateConnection connection .listen).updateChannel channel .listen with
        connected := true }.endLoop i
  -- then the `finally` of `_handleUnexpectedClose`
  | .reconnectPersistently => { bus with connected := true, reconnecting := false }.endLoop i

/-- The loop over the handlers, from an index on. -/
def setUpFrom (i : Nat) (kind : LoopKind) (connection channel index : Nat) : Bus :=
  match bus.nextSetup resilience index with
  | some setup => bus.await i ⟨kind, .setupConsumer connection channel index setup⟩
  | none => bus.complete i connection channel kind

/-- The end of the `catch` block of `_connectWithRetry`. -/
def afterCleanup (i attempt : Nat) (mismatch : Bool) : Bus :=
  let bus := { bus with connection := none, channel := none }
  if mismatch then bus.endLoop i
  else if attempt + 1 < resilience.maxAttempts.getD 3 then
    bus.await i ⟨.connectWithRetry attempt, .backoff⟩
  else bus.endLoop i

def stopReconnecting (i : Nat) : Bus := { bus with reconnecting := false }.endLoop i

/-- The `catch` block, with the connection of the attempt. -/
def attemptFails (i : Nat) (connection : Option Nat) (mismatch : Bool) : LoopKind → Bus
  | .connectWithRetry attempt =>
      match connection with
      | some connection => bus.await i ⟨.connectWithRetry attempt, .close connection mismatch⟩
      | none => bus.afterCleanup resilience i attempt mismatch
  | .reconnectPersistently =>
      if bus.closed then bus.stopReconnecting i else bus.await i ⟨.reconnectPersistently, .backoff⟩

/-- The reconnection adds its listeners as soon as there is something to listen to. -/
def listenEarly (kind : LoopKind) (listen : Bus → Bus) : Bus :=
  match kind with
  | .connectWithRetry _ => bus
  | .reconnectPersistently => listen bus

def resolve (i : Nat) (kind : LoopKind) : LoopPhase → Bus
  | .connect =>
      let made := bus.connectionsMade
      (bus.addConnection.listenEarly kind fun bus => bus.updateConnection made .listen).await i
        ⟨kind, .createConfirmChannel made⟩
  | .createConfirmChannel connection =>
      (bus.addChannel connection).await i ⟨kind, .prefetch connection bus.channelsMade⟩
  | .prefetch connection channel => bus.await i ⟨kind, .assertExchange connection channel⟩
  | .assertExchange connection channel =>
      (bus.listenEarly kind fun bus => bus.updateChannel channel .listen).setUpFrom resilience i
        kind connection channel 0
  | .setupConsumer connection channel index setup =>
      match setup.awaits.next with
      | some awaits =>
          bus.await i ⟨kind, .setupConsumer connection channel index { setup with awaits }⟩
      | none =>
          (bus.updateChannel setup.channel (.addConsumer setup.eventName)).setUpFrom resilience i
            kind connection channel (index + 1)
  | .close connection mismatch =>
      match kind with
      | .connectWithRetry attempt =>
          (bus.closeConnection connection).afterCleanup resilience i attempt mismatch
      | .reconnectPersistently => bus
  | .backoff =>
      match kind with
      | .connectWithRetry attempt => bus.await i ⟨.connectWithRetry (attempt + 1), .connect⟩
      | .reconnectPersistently =>
          if bus.closed then bus.stopReconnecting i
          else bus.await i ⟨.reconnectPersistently, .connect⟩

def reject (i : Nat) (kind : LoopKind) (mismatch : Bool) : LoopPhase → Bus
  | .connect => bus.attemptFails resilience i none false kind
  | .createConfirmChannel connection | .prefetch connection _
  | .setupConsumer connection _ _ _ => bus.attemptFails resilience i (some connection) false kind
  | .assertExchange connection _ =>
      bus.attemptFails resilience i (some connection) mismatch kind
  -- the rejection of `close` is caught, and a timer does not reject
  | .close connection mismatch => bus.resolve resilience i kind (.close connection mismatch)
  | .backoff => bus.resolve resilience i kind .backoff

def settle (i : Nat) (loop : Loop) : Answer → Bus
  | .resolved => bus.resolve resilience i loop.kind loop.phase
  | .rejected mismatch => bus.reject resilience i loop.kind mismatch loop.phase

/-! ## The methods -/

def connect : Bus :=
  if bus.connected || resilience.maxAttempts.getD 3 == 0 then bus
  else { bus with loops := bus.loops ++ [⟨.connectWithRetry 0, .connect⟩] }

/-- The call of `_setupConsumer` by `on()`: without a channel it returns at once. -/
def startSetup (eventName : String) : Bus :=
  let started := bus.channel.map fun channel =>
    { eventName, channel, awaits := SetupStep.first resilience }
  { bus with setups := bus.setups ++ started.toList }

/-- A call of `on()`: `false` if it throws. -/
def on (eventName : String) : Bool × Bus :=
  if bus.closed then (false, bus)
  else if eventName ∈ bus.handlers then (true, bus)
  else
    let bus := { bus with handlers := bus.handlers ++ [eventName] }
    (true, if bus.connected then bus.startSetup resilience eventName else bus)

/-- Whether `dispatch()` throws, without a broker. -/
def dispatchThrows : Bool := !bus.connected || bus.channel.isNone

def settleSetup (j : Nat) (setup : Setup) (ok : Bool) : Bus :=
  if ok then
    match setup.awaits.next with
    | some awaits => { bus with setups := bus.setups.set j { setup with awaits } }
    | none =>
        { bus.updateChannel setup.channel (.addConsumer setup.eventName) with
          setups := bus.setups.eraseIdx j }
  else { bus with setups := bus.setups.eraseIdx j }

/-- What is left of `close()` when the channel is closed. -/
def closeRest : Option CloseStep := bus.connection.map CloseStep.connection

def close : Bus :=
  if bus.closed then bus
  else
    { bus with
      closed := true
      connected := false
      handlers := []
      closing := (bus.channel.map CloseStep.channel).or bus.closeRest }

def settleClose : CloseStep → Bus
  | .channel channel =>
      { bus.updateChannel channel .close with channel := none, closing := bus.closeRest }
  | .connection connection =>
      { bus.closeConnection connection with connection := none, closing := none }

def handleUnexpectedClose : Bus :=
  if bus.reconnecting then bus
  else
    { bus with
      reconnecting := true
      connected := false
      loops := bus.loops ++ [⟨.reconnectPersistently, .connect⟩] }

def notify (listening : Bool) : Bus :=
  if listening && !bus.closed then bus.handleUnexpectedClose else bus

/-- Whether anything hears that a connection closes: its channels close first. -/
def heard (connection : Nat) : Bool :=
  (bus.connections connection).listening ||
    (List.range bus.channelsMade).any fun channel =>
      (bus.channels channel).connection == connection && (bus.channels channel).isOpen &&
        (bus.channels channel).listening

inductive Action where
  | connect
  | on (eventName : String)
  | close
  | settle (i : Nat) (answer : Answer)
  | settleSetup (j : Nat) (ok : Bool)
  | settleClose
  | connectionCloses (connection : Nat)
  | channelCloses (channel : Nat)
  deriving DecidableEq

def step : Action → Option Bus
  | .connect => some (bus.connect resilience)
  | .on eventName => some (bus.on resilience eventName).2
  | .close => some bus.close
  | .settle i answer => bus.loops[i]?.map fun loop => bus.settle resilience i loop answer
  | .settleSetup j ok => bus.setups[j]?.map fun setup => bus.settleSetup j setup ok
  | .settleClose => bus.closing.map bus.settleClose
  | .connectionCloses connection =>
      if bus.isOpen connection then
        some ((bus.closeConnection connection).notify (bus.heard connection))
      else none
  | .channelCloses channel =>
      if (bus.channels channel).isOpen then
        some ((bus.updateChannel channel .close).notify (bus.channels channel).listening)
      else none

/-- Whether the attempt of a loop succeeds as soon as what it awaits resolves. -/
def lastAwait : LoopPhase → Bool
  | .assertExchange _ _ => (bus.nextSetup resilience 0).isNone
  | .setupConsumer _ _ index setup =>
      setup.awaits.next.isNone && (bus.nextSetup resilience (index + 1)).isNone
  | _ => false

end Bus

end Noddde.Brokers.RabbitMqEventBus
