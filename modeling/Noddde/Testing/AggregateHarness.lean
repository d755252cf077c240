import Noddde.Engine.SagaExecutor
/-!
# testAggregate and testSaga

The harness folds the given events, hands the state to the command handler, and folds the
events that it returns.  The seed of both folds is an optional parameter with a default,
and so is the state of a saga.
-/

namespace Noddde.Testing

variable {ι J Infra : Type} [JsValue J]

/-! ## Aggregates -/

/-- The seed is `initialState ?? aggregate.initialState`. -/
def evolveAggregate (aggregate : Aggregate J Infra) (events : List (Event J))
    (initialState : Option J) : Except Err J :=
  aggregate.applyEvents (nullishCoalesce initialState aggregate.initialState) events

structure AggregateTestResult (J : Type) where
  events : List (Event J)
  state : J
  error : Option Err := none
  deriving DecidableEq

/-- A run of `testAggregate(aggregate).given(...events).when(command).execute()`. -/
structure AggregateTest (J : Type) where
  /-- The state that the command handler is given. -/
  decided : Option J
  /-- What the promise settles with. -/
  outcome : Except Err (AggregateTestResult J)

/-- Invoke the command handler and evolve its events. -/
def decideAndEvolve (aggregate : Aggregate J Infra)
    (handler : Command J → J → Infra → Except Err (OneOrMany (Event J)))
    (command : Command J) (priorState : J) (infra : Infra) :
    Except Err (List (Event J) × J) := do
  let events := (← handler command priorState infra).toArray
  let state ← evolveAggregate aggregate events (some priorState)
  pure (events, state)

def testAggregate (aggregate : Aggregate J Infra) (givenEvents : List (Event J))
    (command : Command J) (infra : Infra) : AggregateTest J :=
  match evolveAggregate aggregate givenEvents none with
  -- the first fold is outside of the `try`
  | .error error => { decided := none, outcome := .error error }
  | .ok priorState =>
      match aggregate.decide command.name with
      | none =>
          { decided := none
            outcome := .ok
              { events := []
                state := priorState
                error := some (.error "handler is not a function") } }
      | some handler =>
          { decided := some priorState
            outcome := .ok
              (match decideAndEvolve aggregate handler command priorState infra with
              | .ok (events, state) => { events, state }
              | .error error => { events := [], state := priorState, error := some error }) }

/-- Steps 1 to 4 of `executeLifecycle`, on the stream of the aggregate. -/
structure Lifecycle (J : Type) where
  /-- The state that the command handler is given. -/
  decided : Option J
  /-- The new events and the new state. -/
  outcome : Except Err (List (Event J) × J)

def executeLifecycle (aggregate : Aggregate J Infra) (aggregateName : String)
    (stored : List (Event J)) (command : Command J) (infra : Infra) : Lifecycle J :=
  match aggregate.replay stored with
  | .error error => { decided := none, outcome := .error error }
  | .ok currentState =>
      match aggregate.decide command.name with
      | none =>
          { decided := none
            outcome := .error (.error
              s!"No command handler found for command: {command.name} on aggregate: {aggregateName}") }
      | some handler =>
          { decided := some currentState
            outcome := do
              let newEvents := (← handler command currentState infra).toArray
              let newState ← aggregate.applyEvents currentState newEvents
              pure (newEvents, newState) }

/-- The same state for the command handler, and the same events and the same state, or an
error in both. -/
structure AggregateTest.Agrees (test : AggregateTest J) (engine : Lifecycle J) : Prop where
  decided : test.decided = engine.decided
  outcome : match engine.outcome with
    | .ok (events, state) => test.outcome = .ok { events, state }
    | .error _ => ∃ result, test.outcome = .ok result ∧ result.error.isSome

/-- The given events can be folded; and if the state after them is `null` or `undefined`,
the events of the command lead from there where they lead from the initial state. -/
def Sound (aggregate : Aggregate J Infra) (givenEvents : List (Event J)) (command : Command J)
    (infra : Infra) : Prop :=
  ∃ priorState, aggregate.replay givenEvents = .ok priorState ∧
    ∀ handler, aggregate.decide command.name = some handler →
      ∀ result, handler command priorState infra = .ok result →
        JsValue.isNullish priorState = true →
          (aggregate.applyEvents aggregate.initialState result.toArray).toOption =
            (aggregate.applyEvents priorState result.toArray).toOption

/-! ## Sagas -/

structure SagaTestResult (J : Type) where
  state : J
  commands : List (Command J)
  error : Option Err := none

/-- A run of `testSaga(saga).givenState(state).when(event).execute()`. -/
structure SagaTest (J : Type) where
  /-- The state that the handler is given. -/
  handled : Option J
  result : SagaTestResult J

def testSaga (saga : Saga J Infra) (currentState : Option J) (event : Event J)
    (infra : Infra) : SagaTest J :=
  let state := nullishCoalesce currentState saga.initialState
  match saga.on event.name with
  | none =>
      { handled := none
        result := { state, commands := [], error := some (.error "handler is not a function") } }
  | some onEntry =>
      { handled := some state
        result :=
          match onEntry.handle event state infra with
          | .ok reaction => { state := reaction.state, commands := reaction.commandList }
          | .error error => { state, commands := [], error := some error } }

def handled : Delivery.SagaExecutor.Phase J Infra → Option J
  | .loaded _ _ currentState _ => some currentState
  | _ => none

end Noddde.Testing
