import Noddde.Data.JsonText
/-!
# Fan-out of a message to the handlers of an event

The part of `_handleMessage` that the three broker buses share: parse the body,
call every registered handler, wait for all that the calls returned, and find the
first rejection.
-/

namespace Noddde.Brokers

variable {N α : Type}

/-! ## Handlers -/

/-- What is thrown, or what a promise is rejected with. -/
inductive Reason where
  | undefined
  | error (message : String) (retriable : Bool)
  | value (text : String) (retriable : Bool)
  /-- A value other than an `Error` whose conversion to a string throws. -/
  | unprintable (retriable : Bool) (thrown : Reason)
  deriving DecidableEq, Repr

/-- The property `retriable` of what was thrown. -/
def Reason.retriable : Reason → Bool
  | .undefined => false
  | .error _ retriable => retriable
  | .value _ retriable => retriable
  | .unprintable retriable _ => retriable

def typeError : Reason := .error "TypeError" false

def syntaxError : Reason := .error "SyntaxError" false

abbrev Settlement := Except Reason Unit

inductive Behaviour where
  | throws (reason : Reason)
  /-- It returns a promise, or no promise at all.  `atOnce` tells whether what it
  returns has settled by then. -/
  | returns (settlement : Settlement) (atOnce : Bool)
  deriving DecidableEq

structure Handler where
  name : String
  behaviour : Behaviour
  deriving DecidableEq

/-- What a call of the handler of this name returned. -/
structure Promise where
  handlerName : String
  settlement : Settlement
  settled : Bool

def Behaviour.settlement : Behaviour → Settlement
  | .throws reason => .error reason
  | .returns settlement _ => settlement

/-- `handlers.map((handler) => handler(event))`: the promises, and what the call that
ended the loop has thrown. -/
def callAll : List Handler → List Promise × Option Reason
  | [] => ([], none)
  | handler :: rest =>
      match handler.behaviour with
      | .throws reason => ([], some reason)
      | .returns settlement atOnce =>
          (⟨handler.name, settlement, atOnce⟩ :: (callAll rest).1, (callAll rest).2)

def calledBy : List Handler → List Handler
  | [] => []
  | handler :: rest =>
      match handler.behaviour with
      | .throws _ => [handler]
      | .returns _ _ => handler :: calledBy rest

/-! ## The loop over the results -/

section Results

variable [Json.Number N]

/-- `event.name` -/
def eventName : Json N → Except Reason (Option (Json N))
  | .null => .error typeError
  | event => .ok (event.property "name")

/-- `${event.name}` -/
def printName (event : Json N) : Except Reason Unit := do
  match ← eventName event with
  | none => pure ()
  | some name => if name.toText.isSome then pure () else throw typeError

/-- `String(err)`, and the fields of an `Error`. -/
def Reason.print : Reason → Except Reason Unit
  | .unprintable _ thrown => .error thrown
  | _ => .ok ()

/-- The log entry of a rejection, up to the call of the logger. -/
def report (event : Json N) (handlerName : String) (err : Reason) : Except Reason Unit := do
  let named := handlerName ≠ "handler" ∧ handlerName ≠ ""
  if ¬ named then
    let _ ← eventName event
  err.print
  printName event

/-- The loop over the results.  `undefined` stands for no rejection so far. -/
def findFirstRejection (event : Json N) (firstRejection : Reason) :
    List Promise → Except Reason Reason
  | [] => .ok firstRejection
  | promise :: rest =>
      match promise.settlement with
      | .ok () => findFirstRejection event firstRejection rest
      | .error err => do
          report event promise.handlerName err
          findFirstRejection event (if firstRejection = .undefined then err else firstRejection)
            rest

end Results

/-- `if (firstRejection !== undefined) throw firstRejection` -/
def rethrow (result : α) (firstRejection : Reason) : Except Reason α :=
  if firstRejection = .undefined then .ok result else .error firstRejection

/-- What `await Promise.allSettled(…)` and the loop after it come to once every promise has
settled. -/
def fanOut [Json.Number N] (event : Json N) (handlers : List Handler) : Except Reason Reason :=
  match (callAll handlers).2 with
  | some thrown => .error thrown
  | none => findFirstRejection event .undefined (callAll handlers).1

/-! ## One call of `_handleMessage` -/

/-- A call under way: the handlers called, the promises, and how the call has settled. -/
structure Call (α : Type) where
  called : List Handler := []
  promises : List Promise := []
  outcome : Option (Except Reason α) := none

inductive Action where
  | settle (i : Nat)
  | resume

section Steps

/-- The segment up to the `await`.  `skip` is how the call settles on a body that is
not JSON. -/
def start (skip : Except Reason α) (handlers : List Handler) : Option (Json N) → Call α
  | none => { outcome := some skip }
  | some _ =>
      { called := calledBy handlers
        promises := (callAll handlers).1
        outcome := (callAll handlers).2.map .error }

def settle (i : Nat) (promises : List Promise) : List Promise :=
  promises.modify i fun promise => { promise with settled := true }

variable [Json.Number N]

def finish (result : α) (event : Json N) (promises : List Promise) : Except Reason α :=
  (findFirstRejection event .undefined promises).bind (rethrow result)

def Call.step (result : α) (event : Json N) (call : Call α) : Action → Option (Call α)
  | .settle i =>
      match call.promises[i]? with
      | some promise =>
          if promise.settled then none
          else some { call with promises := settle i call.promises }
      | none => none
  | .resume =>
      if call.outcome.isNone ∧ ∀ promise ∈ call.promises, promise.settled = true then
        some { call with outcome := some (finish result event call.promises) }
      else none

end Steps

/-! ## The three buses

`N` are the numbers that `JSON.parse` reads. -/

section Buses

variable (N) [Json.Number N]

namespace KafkaEventBus

/-- Without a location. -/
def handleMessage (handlers : List Handler) (rawValue : JsString) : Call Unit :=
  start (.ok ()) handlers (Json.parse rawValue : Option (Json N))

def step (event : Json N) : Call Unit → Action → Option (Call Unit) := Call.step () event

end KafkaEventBus

namespace RabbitMqEventBus

structure Handled where
  poisoned : Bool
  deriving DecidableEq

def handleMessage (handlers : List Handler) (content : JsString) : Call Handled :=
  start (.ok { poisoned := true }) handlers (Json.parse content : Option (Json N))

def step (event : Json N) : Call Handled → Action → Option (Call Handled) :=
  Call.step { poisoned := false } event

end RabbitMqEventBus

namespace NatsEventBus

def handleMessage (handlers : List Handler) (messageData : JsString) : Call Unit :=
  start (.error syntaxError) handlers (Json.parse messageData : Option (Json N))

def step (event : Json N) : Call Unit → Action → Option (Call Unit) := Call.step () event

end NatsEventBus

end Buses

end Noddde.Brokers
