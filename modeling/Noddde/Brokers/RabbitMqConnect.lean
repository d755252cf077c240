import Mathlib.Algebra.Group.Nat.Defs
import Noddde.Adapters.Driver
import Noddde.Brokers.RabbitMqConnection
/-!
# The initial connect of the RabbitMQ bus

`connect()` and `_connectWithRetry` without anything that interferes: one attempt after
another, and in an attempt one awaited promise after another.
-/

namespace Noddde.Brokers.RabbitMqEventBus

open Adapters

variable {X : Type}

/-! ## Errors -/

def isExchangeTypeMismatch (message : String) : Bool :=
  (includes message "PRECONDITION_FAILED" || includes message "PRECONDITION-FAILED") &&
    matchesAny ["inequivalent arg 'type' for exchange"] message

inductive ConnectError (X : Type) where
  | thrown (error : X)
  | exchangeTypeMismatch (exchangeName exchangeType : String) (cause : X)

/-- `error instanceof ExchangeTypeMismatchError` -/
def ConnectError.isMismatch : ConnectError X → Bool
  | .thrown _ => false
  | .exchangeTypeMismatch .. => true

/-! ## An attempt -/

structure ConnectConfig where
  exchangeName : String := "noddde.events"
  exchangeType : String := "topic"
  maxAttempts : Option Int := none
  initialDelayMs : Option Nat := none
  maxDelayMs : Option Nat := none
  maxRetries : Option Nat := none

inductive Await where
  | connect
  | createConfirmChannel
  | prefetch
  | assertExchange
  | setupConsumer (eventName : String) (step : SetupStep)
  deriving DecidableEq, Repr

/-- What `_setupConsumer` awaits, in order. -/
def setupSteps (maxRetries : Option Nat) : List SetupStep :=
  (match maxRetries with
    | some _ => [.assertDeadLetterExchange, .assertDeadLetterQueue, .bindDeadLetterQueue]
    | none => []) ++ [.assertQueue, .bindQueue, .consume]

def setupAwaits (config : ConnectConfig) (handlers : List String) : List Await :=
  [.createConfirmChannel, .prefetch, .assertExchange] ++
    handlers.flatMap fun eventName =>
      (setupSteps config.maxRetries).map (.setupConsumer eventName)

/-- What becomes of the bus when an awaited promise resolves. -/
def Await.resolve (bus : Bus) : Await → Bus
  | .connect => bus.addConnection
  | .createConfirmChannel => bus.connection.elim bus bus.addChannel
  | .setupConsumer eventName .consume =>
      bus.channel.elim bus fun channel => bus.updateChannel channel (.addConsumer eventName)
  | .prefetch | .assertExchange | .setupConsumer _ _ => bus

/-- What is thrown when an awaited promise rejects. -/
def Await.error (config : ConnectConfig) (message : X → String) (e : X) :
    Await → ConnectError X
  | .assertExchange =>
      if isExchangeTypeMismatch (message e) then
        .exchangeTypeMismatch config.exchangeName config.exchangeType e
      else .thrown e
  | .connect | .createConfirmChannel | .prefetch | .setupConsumer _ _ => .thrown e

/-- How the awaited promises of an attempt settle. -/
abbrev Answers (X : Type) := Await → Except X Unit

section

variable (config : ConnectConfig) (message : X → String)

/-- The `try` block, up to the listeners. -/
def setUp (answers : Answers X) : List Await → Bus → Except (ConnectError X) Unit × Bus
  | [], bus => (.ok (), bus)
  | await :: rest, bus =>
      match answers await with
      | .ok () => setUp answers rest (await.resolve bus)
      | .error e => (.error (await.error config message e), bus)

/-- The listeners are added when everything is set up. -/
def established (connection : Nat) (bus : Bus) : Bus :=
  let bus := bus.updateConnection connection .listen
  { bus.channel.elim bus fun channel => bus.updateChannel channel .listen with connected := true }

/-- The `catch` block: a connection that closes tells its listeners. -/
def cleanUp (opened : Option Nat) (bus : Bus) : Bus :=
  let bus := opened.elim bus fun connection =>
    (bus.closeConnection connection).notify (bus.heard connection)
  { bus with connection := none, channel := none }

/-- The body of the loop. -/
def attemptOnce (answers : Answers X) (bus : Bus) : Except (ConnectError X) Unit × Bus :=
  match answers .connect with
  | .error e => (.error (Await.connect.error config message e), cleanUp none bus)
  | .ok () =>
      let connection := bus.connectionsMade
      match setUp config message answers (setupAwaits config bus.handlers)
          (Await.connect.resolve bus) with
      | (.ok (), bus) => (.ok (), established connection bus)
      | (.error e, bus) => (.error e, cleanUp (some connection) bus)

/-! ## The loop -/

/-- How `connect()` settles, after how many attempts and which delays between them. -/
structure Connected (X : Type) where
  outcome : Except (Option (ConnectError X)) Unit
  attempts : Nat
  delays : List Nat := []
  bus : Bus

def backoff (attempt : Nat) : Nat :=
  min (config.initialDelayMs.getD 1000 * 2 ^ attempt) (config.maxDelayMs.getD 30000)

/-- `for (let attempt = 0; attempt < maxAttempts; attempt++)`, with as many attempts left.
Behind the loop `lastError` is thrown. -/
def connectWithRetry (answers : Nat → Answers X) :
    Nat → Nat → Option (ConnectError X) → List Nat → Bus → Connected X
  | 0, attempt, lastError, delays, bus => ⟨.error lastError, attempt, delays, bus⟩
  | remaining + 1, attempt, _, delays, bus =>
      match attemptOnce config message (answers attempt) bus with
      | (.ok (), bus) => ⟨.ok (), attempt + 1, delays, bus⟩
      | (.error e, bus) =>
          if e.isMismatch then ⟨.error (some e), attempt + 1, delays, bus⟩
          else
            connectWithRetry answers remaining (attempt + 1) (some e)
              (if remaining = 0 then delays else delays ++ [backoff config attempt]) bus

def maxAttempts : Int := config.maxAttempts.getD 3

def connect (answers : Nat → Answers X) (bus : Bus) : Connected X :=
  if bus.connected then ⟨.ok (), 0, [], bus⟩
  else connectWithRetry config message answers (maxAttempts config).toNat 0 none [] bus

end

end Noddde.Brokers.RabbitMqEventBus
