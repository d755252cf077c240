import Noddde.Engine.Saga
import Noddde.Engine.ProjectionRebuild
/-!
# Live delivery

Root commands one after another on an event-sourced, in-memory domain.  A
published event is dispatched to its handlers in turn; a saga or a standalone
handler may dispatch further commands, whose events are published before the
handler returns.  The nested calls are kept on an explicit stack.
-/

namespace Noddde.Delivery

open ReadModel (Handler Registry)

variable {J Infra : Type}

/-! ## The domain -/

/-- What is left of a function that dispatches commands one after another, going on
from how each of them settled and from what it then reads. -/
inductive Script (J Infra : Type) where
  | dispatchCommand (command : Command J) (next : Except Err Unit → Infra → Script J Infra)
  | settle (outcome : Except Err Unit)

/-- Go on with `rest` once the function has settled. -/
def Script.andThen (rest : Except Err Unit → Infra → Script J Infra) :
    Script J Infra → Infra → Script J Infra
  | .dispatchCommand command next, _ =>
      .dispatchCommand command fun outcome infra => (next outcome infra).andThen rest infra
  | .settle outcome, infra => rest outcome infra

/-- `for (const command of commands) await commandBus.dispatch(command)` -/
def dispatchCommands : List (Command J) → Script J Infra
  | [] => .settle (.ok ())
  | command :: rest => .dispatchCommand command fun outcome _ =>
      match outcome with
      | .ok () => dispatchCommands rest
      | .error error => .settle (.error error)

inductive CommandHandler (J Infra : Type) where
  | aggregate (aggregateName : String)
  | standalone (handler : Command J → Infra → Script J Infra)

/-- The keys of the maps of the process model are distinct. -/
structure Domain (J Infra : Type) where
  readModel : ReadModel.Domain J Infra
  aggregates : String → Aggregate J Infra
  commandBus : String → Option (CommandHandler J Infra)
  sagas : String → Saga J Infra
  standaloneEventHandlers : String → Event J → Infra → Script J Infra
  sagaNames : (readModel.sagas.map Prod.fst).Nodup
  sagaEvents : ∀ saga ∈ readModel.sagas, saga.2.Nodup
  standaloneEvents : readModel.standaloneEventHandlers.Nodup

/-- What a step reads from outside. -/
structure Choice (J Infra : Type) where
  infra : Infra
  /-- The ids, times and contexts of the events of a command. -/
  metadata : Command J → (index : Nat) → EventMetadata
  /-- The idempotency store has the command. -/
  processed : Command J → Bool
  /-- What a thunk rejects with that the command enlists besides the save. -/
  rejects : Command J → Option Err

/-! ## The command lifecycle -/

/-- The instance whose stream an event belongs to. -/
def instance? (event : Event J) : Option (String × ID) :=
  event.metadata.bind fun metadata =>
    metadata.aggregateName.bind fun aggregateName =>
      metadata.aggregateId.map fun aggregateId => (aggregateName, aggregateId)

/-- `event.metadata?.sequenceNumber` -/
def sequenceNumber? (event : Event J) : Option Nat :=
  event.metadata.bind (·.sequenceNumber)

/-- Events of one instance that follow on its first `version` ones. -/
def Consecutive (aggregateName : String) (aggregateId : ID) :
    (version : Nat) → List (Event J) → Prop
  | _, [] => True
  | version, event :: rest =>
      instance? event = some (aggregateName, aggregateId) ∧
      sequenceNumber? event = some (version + 1) ∧
      Consecutive aggregateName aggregateId (version + 1) rest

structure Contribution (J : Type) where
  aggregateName : String
  aggregateId : ID
  events : List (Event J)
  expectedVersion : Nat
  rejects : Option Err
  consecutive : Consecutive aggregateName aggregateId expectedVersion events

def enrichFrom (metadata : Nat → EventMetadata) (aggregateName : String) (aggregateId : ID)
    (version : Nat) (eventVersion : String → Option SchemaVersion) :
    (index : Nat) → List (Event J) → List (Event J)
  | _, [] => []
  | index, event :: rest =>
      { event with
        metadata := some
          { metadata index with
            version := eventVersion event.name
            aggregateName := some aggregateName
            aggregateId := some aggregateId
            sequenceNumber := some (version + index + 1) } } ::
        enrichFrom metadata aggregateName aggregateId version eventVersion (index + 1) rest

theorem consecutive_enrichFrom (metadata : Nat → EventMetadata) (aggregateName : String)
    (aggregateId : ID) (version : Nat) (eventVersion : String → Option SchemaVersion) (index : Nat)
    (events : List (Event J)) :
    Consecutive aggregateName aggregateId (version + index)
      (enrichFrom metadata aggregateName aggregateId version eventVersion index events) := by
  induction events generalizing index with
  | nil => trivial
  | cons event rest ih => exact ⟨rfl, rfl, ih (index + 1)⟩

variable (domain : Domain J Infra)

/-- Load, decide, evolve and enrich.  A command that has been processed enlists
nothing. -/
def executeLifecycle (c : Choice J Infra) (store : EventStore J) (aggregateName : String)
    (command : Command J) : Except Err (Option (Contribution J)) :=
  if c.processed command then .ok none
  else do
    let aggregate := domain.aggregates aggregateName
    let aggregateId := command.targetAggregateId
    let stored := store.load aggregateName aggregateId
    let currentState ← aggregate.replayFrom aggregate.initialState stored
    match aggregate.decide command.name with
    | none => .error (.error
        s!"No command handler found for command: {command.name} on aggregate: {aggregateName}")
    | some handler => do
        let newEvents := (← handler command currentState c.infra).toArray
        let _ ← aggregate.applyEvents currentState newEvents
        .ok (some
          { aggregateName
            aggregateId
            events := enrichFrom (c.metadata command) aggregateName aggregateId stored.length
              aggregate.eventVersion 0 newEvents
            expectedVersion := stored.length
            rejects := c.rejects command
            consecutive := consecutive_enrichFrom (c.metadata command) aggregateName aggregateId
              stored.length aggregate.eventVersion 0 newEvents })

/-- The thunks of a unit of work in turn, up to the first that rejects; what has been
saved stays.  A commit answers the deferred events. -/
def commit : List (Contribution J) → EventStore J → Except Err (List (Event J)) × EventStore J
  | [], store => (.ok [], store)
  | contribution :: rest, store =>
      match store.save contribution.aggregateName contribution.aggregateId contribution.events
          contribution.expectedVersion with
      | .error error => (.error error, store)
      | .ok store =>
          match contribution.rejects with
          | some error => (.error error, store)
          | none =>
              let (events, store) := commit rest store
              (events.map (contribution.events ++ ·), store)

/-! ## The state -/

/-- An event that has been committed.  Its number and its trigger, the event to which a
handler reacted, are history variables. -/
structure Emitted (J : Type) where
  number : Nat
  trigger : Option (Emitted J)
  event : Event J

/-- The unit of work of an atomic saga, with the saga state that it saves first. -/
structure SagaUow (J : Type) where
  sagaName : String
  sagaId : ID
  state : J
  expectedVersion : Nat
  contributions : List (Contribution J) := []

inductive Frame (J Infra : Type) where
  /-- `for (const e of events) await eventBus.dispatch(e)` -/
  | publish (events : List (Emitted J))
  /-- `for (const handler of eventHandlers) await handler(event)` -/
  | dispatch (event : Emitted J) (handlers : List Handler)
  /-- A function that dispatches commands, in the scope of `uow` if there is one. -/
  | running (trigger : Option (Emitted J)) (uow : Option (SagaUow J)) (script : Script J Infra)

/-- `emitted`, `dispatched` and `received` are history variables, newest first. -/
structure State (J Infra : Type) where
  handlers : Registry
  eventStore : EventStore J := ∅
  sagaStore : StateStore J := ∅
  /-- The calls that have not returned, the innermost first. -/
  stack : List (Frame J Infra) := []
  emitted : Nat := 0
  dispatched : List (Emitted J) := []
  received : List (Handler × Emitted J) := []

def State.start : State J Infra := { handlers := domain.readModel.init }

def number (trigger : Option (Emitted J)) : (first : Nat) → List (Event J) → List (Emitted J)
  | _, [] => []
  | first, event :: rest => ⟨first, trigger, event⟩ :: number trigger (first + 1) rest

/-- The events of a commit are published before the caller goes on. -/
def State.publish (trigger : Option (Emitted J)) (events : List (Event J))
    (s : State J Infra) : State J Infra :=
  { s with
    stack := .publish (number trigger s.emitted events) :: s.stack
    emitted := s.emitted + events.length }

/-! ## Commands -/

/-- `commandBus.dispatch(command)` by the innermost function, which goes on with
`next`. -/
def dispatchCommand (c : Choice J Infra) (trigger : Option (Emitted J))
    (uow : Option (SagaUow J)) (command : Command J)
    (next : Except Err Unit → Infra → Script J Infra) (rest : List (Frame J Infra))
    (s : State J Infra) : State J Infra :=
  let goOn (uow : Option (SagaUow J)) (outcome : Except Err Unit) : List (Frame J Infra) :=
    .running trigger uow (next outcome c.infra) :: rest
  match domain.commandBus command.name with
  | none =>
      { s with
        stack := goOn uow
          (.error (.error s!"No handler registered for command: {command.name}")) }
  | some (.standalone handler) =>
      { s with
        stack :=
          .running trigger uow ((handler command c.infra).andThen next c.infra) :: rest }
  | some (.aggregate aggregateName) =>
      match executeLifecycle domain c s.eventStore aggregateName command with
      | .error error => { s with stack := goOn uow (.error error) }
      | .ok contribution =>
          match uow with
          | some uow =>
              { s with
                stack := goOn
                  (some { uow with
                    contributions := uow.contributions ++ contribution.toList })
                  (.ok ()) }
          | none =>
              match commit contribution.toList s.eventStore with
              | (.error error, eventStore) =>
                  { s with eventStore, stack := goOn none (.error error) }
              | (.ok events, eventStore) =>
                  { s with eventStore, stack := goOn none (.ok ()) }.publish trigger events

/-- Commit the unit of work of an atomic saga.  The bus logs an error. -/
def commitSaga (trigger : Option (Emitted J)) (uow : SagaUow J) (s : State J Infra) :
    State J Infra :=
  match s.sagaStore.save uow.sagaName uow.sagaId uow.state uow.expectedVersion with
  | .error _ => s
  | .ok sagaStore =>
      match commit uow.contributions s.eventStore with
      | (.error _, eventStore) => { s with sagaStore, eventStore }
      | (.ok events, eventStore) => { s with sagaStore, eventStore }.publish trigger events

/-! ## Handlers -/

/-- `SagaExecutor.execute`, up to the dispatch of its commands.  The bus logs an
error. -/
def executeSaga (c : Choice J Infra) (sagaName : String) (event : Emitted J)
    (s : State J Infra) : State J Infra :=
  let saga := domain.sagas sagaName
  match saga.on event.event.name with
  | none => s
  | some onEntry =>
      match onEntry.id event.event with
      | .error _ => s
      | .ok sagaId =>
          match bootstrap saga event.event (s.sagaStore.load sagaName sagaId) with
          | none => s
          | some (currentState, expectedVersion) =>
              match onEntry.handle event.event currentState c.infra with
              | .error _ => s
              | .ok reaction =>
                  let script := dispatchCommands reaction.commandList
                  match saga.atomicity.getD .atomic with
                  | .atomic =>
                      let uow : SagaUow J :=
                        { sagaName, sagaId, state := reaction.state, expectedVersion }
                      { s with stack := .running (some event) (some uow) script :: s.stack }
                  | .bestEffort =>
                      match s.sagaStore.save sagaName sagaId reaction.state
                          expectedVersion with
                      | .error _ => s
                      | .ok sagaStore =>
                          { s with
                            sagaStore
                            stack := .running (some event) none script :: s.stack }

/-- A call of a handler.  A projection updates its view and dispatches nothing. -/
def deliver (c : Choice J Infra) (handler : Handler) (event : Emitted J)
    (s : State J Infra) : State J Infra :=
  let s := { s with received := (handler, event) :: s.received }
  match handler with
  | .projection _ _ => s
  | .saga sagaName _ => executeSaga domain c sagaName event s
  | .standalone eventName =>
      { s with
        stack := .running (some event) none
          (domain.standaloneEventHandlers eventName event.event c.infra) :: s.stack }

/-! ## Steps -/

/-- The innermost call goes on. -/
def next (c : Choice J Infra) (s : State J Infra) : Option (State J Infra) :=
  match s.stack with
  | [] => none
  | .publish [] :: rest => some { s with stack := rest }
  | .publish (event :: events) :: rest => some
      { s with
        stack := .dispatch event (s.handlers event.event.name) :: .publish events :: rest
        dispatched := event :: s.dispatched }
  | .dispatch _ [] :: rest => some { s with stack := rest }
  | .dispatch event (handler :: handlers) :: rest =>
      some (deliver domain c handler event { s with stack := .dispatch event handlers :: rest })
  | .running trigger uow (.dispatchCommand command next) :: rest =>
      some (dispatchCommand domain c trigger uow command next rest s)
  | .running trigger (some uow) (.settle (.ok ())) :: rest =>
      some (commitSaga trigger uow { s with stack := rest })
  | .running _ _ (.settle _) :: rest => some { s with stack := rest }

inductive Action (J Infra : Type) where
  | command (command : Command J)
  /-- A call of `rebuildProjection` succeeds, while nothing else runs. -/
  | rebuild (name : String)
  | next (c : Choice J Infra)

/-- The registry once a rebuild has detached and attached the handlers. -/
def rebuilt (subscriptions : List (String × Handler)) (registry : Registry) : Registry :=
  subscriptions.foldl (fun registry subscription => registry.on subscription.1 subscription.2)
    (subscriptions.foldl (fun registry subscription =>
      registry.off subscription.1 subscription.2) registry)

def step (s : State J Infra) : Action J Infra → Option (State J Infra)
  | .command command =>
      if s.stack.isEmpty then some
        { s with
          stack := [.running none none
            (.dispatchCommand command fun outcome _ => .settle outcome)] }
      else none
  | .rebuild name =>
      if s.stack.isEmpty then
        some { s with handlers := rebuilt (domain.readModel.subscriptionsOf name) s.handlers }
      else none
  | .next c => next domain c s

end Noddde.Delivery
