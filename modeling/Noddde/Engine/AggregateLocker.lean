import Mathlib.Logic.Function.Basic
import Noddde.Async.Machine
import Noddde.Core.Event
/-!
# InMemoryAggregateLocker by itself

The locker as a machine: calls of `acquire` and `release` and the expiry of timers, in any
order.  Calls of `acquire` are numbered in the order in which they are made, and a waiter
goes by the number of its call.
-/

namespace Noddde.InMemoryAggregateLocker

structure Request where
  aggregateName : String
  aggregateId : ID
  timeoutMs : Option Nat
  deriving DecidableEq, Repr

def Request.key (request : Request) : String :=
  compositeKey request.aggregateName request.aggregateId

/-- `timeoutMs && timeoutMs > 0` -/
def Request.timed (request : Request) : Bool := decide (0 < request.timeoutMs.getD 0)

def Request.timeoutError (request : Request) : Err :=
  .lockTimeout request.aggregateName request.aggregateId (request.timeoutMs.getD 0)

structure Entry where
  locked : Bool := false
  queue : List Nat := []
  deriving DecidableEq, Repr

/-- `settlements` and `released` are history variables: the calls of `resolve` and `reject`,
and the calls of `acquire` whose lock was given back, the latest last. -/
structure Locker where
  locks : String → Option Entry := fun _ => none
  requests : List Request := []
  timers : Nat → Bool := fun _ => false
  settlements : List (Nat × Except Err Unit) := []
  released : List Nat := []

namespace Locker

variable (locker : Locker)

def getEntry (key : String) : Entry := (locker.locks key).getD {}

def setEntry (key : String) (entry : Entry) : Locker :=
  { locker with locks := Function.update locker.locks key (some entry) }

def settle (call : Nat) (outcome : Except Err Unit) : Locker :=
  { locker with settlements := locker.settlements ++ [(call, outcome)] }

def setTimer (call : Nat) (running : Bool) : Locker :=
  { locker with timers := Function.update locker.timers call running }

def acquire (request : Request) : Locker :=
  let call := locker.requests.length
  let entry := locker.getEntry request.key
  let locker := { locker with requests := locker.requests ++ [request] }
  if entry.locked = false then
    (locker.setEntry request.key { entry with locked := true }).settle call (.ok ())
  else
    (locker.setEntry request.key { entry with queue := entry.queue ++ [call] }).setTimer call
      request.timed

def expire (call : Nat) (request : Request) : Locker :=
  let entry := locker.getEntry request.key
  let locker := locker.setTimer call false
  if call ∈ entry.queue then
    (locker.setEntry request.key { entry with queue := entry.queue.erase call }).settle call
      (.error request.timeoutError)
  else locker

/-- `waiter.resolve()`, which clears the timer if there is one. -/
def resolve (call : Nat) : Locker := (locker.setTimer call false).settle call (.ok ())

def release (key : String) : Locker :=
  match locker.locks key with
  | none => locker
  | some entry =>
      if entry.locked = false then locker
      else
        match entry.queue with
        | next :: rest => (locker.setEntry key { entry with queue := rest }).resolve next
        | [] => locker.setEntry key { entry with locked := false }

def releaseFor (call : Nat) (request : Request) : Locker :=
  { locker.release request.key with released := locker.released ++ [call] }

inductive Action where
  | acquire (request : Request)
  | expire (call : Nat)
  | release (call : Nat)

def step : Action → Option Locker
  | .acquire request => some (locker.acquire request)
  | .expire call =>
      (locker.requests[call]?).bind fun request =>
        if locker.timers call then some (locker.expire call request) else none
  | .release call => (locker.requests[call]?).map (locker.releaseFor call)

/-! ## Reading a state -/

def keyOf (call : Nat) : Option String := (locker.requests[call]?).map Request.key

def arrived (key : String) : List Nat :=
  (List.range locker.requests.length).filter fun call => locker.keyOf call = some key

def resolved : List Nat :=
  locker.settlements.filterMap fun settlement =>
    if settlement.2.isOk then some settlement.1 else none

def granted (key : String) : List Nat :=
  locker.resolved.filter fun call => locker.keyOf call = some key

def waiting (key : String) : List Nat := (locker.getEntry key).queue

def Settled (call : Nat) : Prop := call ∈ locker.settlements.map Prod.fst

instance (call : Nat) : Decidable (locker.Settled call) :=
  inferInstanceAs (Decidable (call ∈ locker.settlements.map Prod.fst))

/-- The call has resolved, and its lock was not released since. -/
def Holds (call : Nat) : Prop :=
  (call, .ok ()) ∈ locker.settlements ∧ call ∉ locker.released

/-- Locks are released by whoever holds them. -/
def ByHolder : Action → Prop
  | .release call => locker.Holds call
  | _ => True

instance (call : Nat) : Decidable (locker.Holds call) :=
  inferInstanceAs (Decidable (_ ∧ _))

instance (action : Action) : Decidable (locker.ByHolder action) :=
  match action with
  | .release call => inferInstanceAs (Decidable (locker.Holds call))
  | .acquire _ | .expire _ => inferInstanceAs (Decidable True)

end Locker

end Noddde.InMemoryAggregateLocker
