import Noddde.Async.Machine
import Noddde.Brokers.NatsNames
import Noddde.Data.InsertionMap
/-!
# Connecting to NATS

`connect()` of the NATS bus, one awaited promise after another, any number of calls at a
time, and `on()` between them, on a bus that is not closed.  The connections that are opened
are numbered.
-/

namespace Noddde.Brokers.NatsEventBus

inductive Phase where
  | connect
  | jetstreamManager
  | streamInfo
  | streamAdd
  | subscribe (index : Nat) (eventName : JsString) (js : Nat)
  deriving DecidableEq, Repr

/-- `H` are the handlers. -/
structure Bus (H : Type) where
  handlers : InsertionMap JsString (List H) := ∅
  subscribedEventNames : List JsString := []
  /-- The client of the connection of this number.  It is set together with `_connected`. -/
  js : Option Nat := none
  connecting : List Phase := []
  creating : List (JsString × Nat) := []
  /-- How many connections have been opened. -/
  connections : Nat := 0
  subscriptions : List (JsString × Nat) := []
  /-- History: a call of `connect()` has resolved. -/
  resolved : Bool := false
  /-- History: the event names that a call of `connect()` had still to subscribe when it
  threw, up to the next `on()` that subscribes them and the next connection. -/
  thrown : List JsString := []

namespace Bus

variable {H : Type} (config : Config) (bus : Bus H)

/-- The call at an index of the list goes on to await something else. -/
def await (call : Nat) (phase : Phase) : Bus H :=
  { bus with connecting := bus.connecting.set call phase }

def resolve (call : Nat) : Bus H :=
  { bus with connecting := bus.connecting.eraseIdx call, resolved := true }

/-- It throws, with the keys from an index on still to be subscribed. -/
def reject (call : Nat) (index : Nat) : Bus H :=
  { bus with
    connecting := bus.connecting.eraseIdx call
    thrown := bus.handlers.keys.drop index ++ bus.thrown }

/-- The loop of `_activateSubscriptions`, from an index on: the iterator sees the keys that
are added meanwhile. -/
def activateSubscriptions (call : Nat) (index : Nat) : Bus H :=
  match bus.js with
  -- `_createSubscriptionForEvent` returns at once
  | none =>
      { bus with
        subscribedEventNames :=
          bus.handlers.keys.drop index ++ bus.subscribedEventNames }.resolve call
  | some js =>
      match bus.handlers.keys[index]? with
      | none => bus.resolve call
      | some eventName =>
          { bus with
            subscribedEventNames := eventName :: bus.subscribedEventNames }.await call
              (.subscribe index eventName js)

/-- A new connection takes the place of the last one. -/
def opened : Bus H :=
  { bus with js := some bus.connections, connections := bus.connections + 1, thrown := [] }

def settle (call : Nat) (ok : Bool) : Phase → Bus H
  | .connect =>
      if ok then
        -- an empty name configures no stream
        if config.streamName.getD [] ≠ [] then bus.opened.await call .jetstreamManager
        else bus.opened.activateSubscriptions call 0
      else { bus with connecting := bus.connecting.eraseIdx call }
  | .jetstreamManager => if ok then bus.await call .streamInfo else bus.reject call 0
  | .streamInfo =>
      if ok then bus.activateSubscriptions call 0
      else
        match config.buildSubjectsForStream with
        | .ok _ => bus.await call .streamAdd
        | .error _ => bus.reject call 0
  | .streamAdd => if ok then bus.activateSubscriptions call 0 else bus.reject call 0
  | .subscribe index eventName js =>
      if ok then
        { bus with
          subscriptions := (eventName, js) :: bus.subscriptions }.activateSubscriptions call
            (index + 1)
      else bus.reject call index

def connect : Bus H :=
  if bus.js.isSome then { bus with resolved := true }
  else { bus with connecting := bus.connecting ++ [.connect] }

def on (eventName : JsString) (handler : H) : Bus H :=
  let existing := (bus.handlers.get eventName).getD []
  let handlers := bus.handlers.set eventName (existing ++ [handler])
  match bus.js with
  | none => { bus with handlers }
  | some js =>
      if bus.subscribedEventNames.contains eventName then { bus with handlers }
      else
        { bus with
          handlers
          subscribedEventNames := eventName :: bus.subscribedEventNames
          creating := bus.creating ++ [(eventName, js)]
          thrown := bus.thrown.filter (· ≠ eventName) }

/-- The subscription that `on()` is creating is live, or the error is logged. -/
def settleCreating (index : Nat) (ok : Bool) (subscription : JsString × Nat) : Bus H :=
  { bus with
    creating := bus.creating.eraseIdx index
    subscriptions :=
      if ok then subscription :: bus.subscriptions else bus.subscriptions }

inductive Action (H : Type) where
  | connect
  | on (eventName : JsString) (handler : H)
  | settle (call : Nat) (ok : Bool)
  | settleCreating (index : Nat) (ok : Bool)

def step : Action H → Option (Bus H)
  | .connect => some bus.connect
  | .on eventName handler => some (bus.on eventName handler)
  | .settle call ok => bus.connecting[call]?.map fun phase => bus.settle config call ok phase
  | .settleCreating index ok => bus.creating[index]?.map fun subscription =>
      bus.settleCreating index ok subscription

/-- There is one live subscription for each event name on the connection of the bus, or the
call that had to create it has thrown. -/
def Subscribed : Prop :=
  ∀ eventName ∈ bus.handlers.keys,
    (∃ js, bus.js = some js ∧ bus.subscriptions.count (eventName, js) = 1) ∨
      eventName ∈ bus.thrown

/-- `connect()` is not called twice before there is a connection; `on()` brings no event name
that is not in the set while a call of `connect()` creates subscriptions; and the
subscriptions that `on()` creates do not fail. -/
def Orderly : Action H → Prop
  | .connect => bus.js = none → bus.connecting = []
  | .on eventName _ => bus.js ≠ none → bus.connecting ≠ [] →
      eventName ∈ bus.subscribedEventNames
  | .settle _ _ => True
  | .settleCreating _ ok => ok = true

instance : (action : Action H) → Decidable (bus.Orderly action)
  | .connect => inferInstanceAs (Decidable (_ → _))
  | .on _ _ => inferInstanceAs (Decidable (_ → _ → _))
  | .settle _ _ => isTrue trivial
  | .settleCreating _ ok => inferInstanceAs (Decidable (ok = true))

end Bus

end Noddde.Brokers.NatsEventBus
