import Mathlib.Logic.Function.Basic
import Noddde.Async.Machine
/-!
# EventEmitterEventBus

The loop of `dispatch` runs over the live array of the handlers of an event name, which
`on()` extends and `off()` splices while a handler is awaited.  Registrations are numbered,
since one function may be registered more than once.
-/

namespace Noddde.EventEmitterEventBus

/-- What a handler throws, or what its promise rejects with. -/
inductive Thrown where
  | error (message : String)
  | value (text : String)
  /-- A value that throws in its turn when it is converted to a string, or its fields read. -/
  | unprintable (thrown : Thrown)
  deriving DecidableEq, Repr

/-- The fields of the log entry, with `String(err)` for a value that is no `Error`. -/
def Thrown.print : Thrown → Except Thrown Unit
  | .unprintable thrown => .error thrown
  | _ => .ok ()

structure Registration (H : Type) where
  number : Nat
  handler : H
  deriving DecidableEq, Repr

/-- What an observer notes of a dispatch. -/
inductive Mark where
  | invoked (number : Nat)
  | settled (number : Nat)
  deriving DecidableEq, Repr

/-- A call of `dispatch`.  `index` is the position of the array iterator.  `throughout` and
`trace` are history variables: the registrations of its event name that were there when it
began and have been there ever since, and what happened so far. -/
structure Dispatch (H : Type) where
  eventName : String
  index : Nat := 0
  running : Option (Registration H) := none
  outcome : Option (Except Thrown Unit) := none
  throughout : List Nat
  trace : List Mark := []

structure Bus (H : Type) where
  handlers : String → List (Registration H) := fun _ => []
  registered : Nat := 0
  dispatches : List (Dispatch H) := []

variable {H : Type} [DecidableEq H]

/-- The next turn of the loop, over the array as it is now. -/
def Dispatch.advance (array : List (Registration H)) (dispatch : Dispatch H) : Dispatch H :=
  match array[dispatch.index]? with
  | some registration =>
      { dispatch with
        index := dispatch.index + 1
        running := some registration
        trace := dispatch.trace ++ [.invoked registration.number] }
  | none => { dispatch with running := none, outcome := some (.ok ()) }

def Dispatch.settle (array : List (Registration H)) (registration : Registration H)
    (result : Except Thrown Unit) (dispatch : Dispatch H) : Dispatch H :=
  let dispatch := { dispatch with trace := dispatch.trace ++ [Mark.settled registration.number] }
  match result with
  | .ok () => dispatch.advance array
  | .error thrown =>
      match thrown.print with
      | .ok () => dispatch.advance array
      | .error thrown => { dispatch with running := none, outcome := some (.error thrown) }

def Dispatch.lose (eventName : String) (number : Nat) (dispatch : Dispatch H) : Dispatch H :=
  if dispatch.outcome = none ∧ dispatch.eventName = eventName then
    { dispatch with throughout := dispatch.throughout.filter (· ≠ number) }
  else dispatch

namespace Bus

variable (bus : Bus H)

def on (eventName : String) (handler : H) : Bus H :=
  { bus with
    handlers := Function.update bus.handlers eventName
      (bus.handlers eventName ++ [⟨bus.registered, handler⟩])
    registered := bus.registered + 1 }

/-- `existing.indexOf(handler)`, the length if it is not there. -/
def indexOf (eventName : String) (handler : H) : Nat :=
  (bus.handlers eventName).findIdx fun registration => registration.handler = handler

def off (eventName : String) (handler : H) : Bus H :=
  let idx := bus.indexOf eventName handler
  match (bus.handlers eventName)[idx]? with
  | none => bus
  | some registration =>
      { bus with
        handlers := Function.update bus.handlers eventName
          ((bus.handlers eventName).eraseIdx idx)
        dispatches := bus.dispatches.map (Dispatch.lose eventName registration.number) }

def dispatch (eventName : String) : Bus H :=
  let array := bus.handlers eventName
  let call : Dispatch H := { eventName, throughout := array.map Registration.number }
  { bus with dispatches := bus.dispatches ++ [call.advance array] }

inductive Action (H : Type) where
  | on (eventName : String) (handler : H)
  | off (eventName : String) (handler : H)
  | dispatch (eventName : String)
  | settle (call : Nat) (result : Except Thrown Unit)

def step : Action H → Option (Bus H)
  | .on eventName handler => some (bus.on eventName handler)
  | .off eventName handler => some (bus.off eventName handler)
  | .dispatch eventName => some (bus.dispatch eventName)
  | .settle call result =>
      bus.dispatches[call]?.bind fun dispatch =>
        dispatch.running.map fun registration =>
          { bus with
            dispatches := bus.dispatches.set call
              (dispatch.settle (bus.handlers dispatch.eventName) registration result) }

end Bus

/-! ## What a dispatch promises -/

def invokedIn (trace : List Mark) : List Nat :=
  trace.filterMap fun mark =>
    match mark with
    | .invoked number => some number
    | .settled _ => none

/-- Invoked one after the other. -/
def inTurn (numbers : List Nat) : List Mark :=
  numbers.flatMap fun number => [Mark.invoked number, Mark.settled number]

/-- Whoever was registered throughout has been invoked once, in the order of registration,
nobody was invoked before the one before had settled, and the dispatch has resolved. -/
structure Dispatch.Delivered (dispatch : Dispatch H) : Prop where
  resolved : dispatch.outcome = some (.ok ())
  once : (invokedIn dispatch.trace).filter (· ∈ dispatch.throughout) = dispatch.throughout
  distinct : dispatch.throughout.Nodup
  inTurn : dispatch.trace = inTurn (invokedIn dispatch.trace)

/-- Every dispatch waits for a handler or has delivered its event. -/
def Bus.DeliversOnce (bus : Bus H) : Prop :=
  ∀ dispatch ∈ bus.dispatches, dispatch.running.isSome ∨ dispatch.Delivered

/-- No call of `off()` takes out, for a dispatch under way, a handler at which it has
already been while the next one is a handler that was there from its start; and what is
thrown can be printed. -/
def Bus.Undisturbed (bus : Bus H) : Bus.Action H → Prop
  | .off eventName handler => ∀ dispatch ∈ bus.dispatches, dispatch.outcome = none →
      dispatch.eventName = eventName → bus.indexOf eventName handler < dispatch.index →
        ∀ next ∈ (bus.handlers eventName)[dispatch.index]?, next.number ∉ dispatch.throughout
  | .settle _ (.error thrown) => thrown.print = .ok ()
  | _ => True

instance (bus : Bus H) (action : Bus.Action H) : Decidable (bus.Undisturbed action) :=
  match action with
  | .off eventName handler => inferInstanceAs (Decidable (∀ dispatch ∈ bus.dispatches,
      dispatch.outcome = none → dispatch.eventName = eventName →
        bus.indexOf eventName handler < dispatch.index →
          ∀ next ∈ (bus.handlers eventName)[dispatch.index]?, next.number ∉ dispatch.throughout))
  | .settle _ (.error thrown) => inferInstanceAs (Decidable (thrown.print = .ok ()))
  | .settle _ (.ok _) | .on _ _ | .dispatch _ => inferInstanceAs (Decidable True)

end Noddde.EventEmitterEventBus
