import Noddde.Engine.Delivery
/-!
# Concurrent executions of a saga

Executions of one saga, segment by segment, on an `InMemorySagaPersistence` and units
of work whose commits are all-or-nothing: a commit runs all thunks or none, and nothing
happens in between.  The handlers of a published event are executions of their own.
-/

namespace Noddde.Delivery.SagaExecutor

variable {ι J Infra : Type}

/-! ## The state -/

/-- Where an execution has come to. -/
inductive Phase (J Infra : Type) where
  | called
  /-- The saga state is loaded, or the initial one taken. -/
  | loaded (onEntry : SagaHandler J Infra) (sagaId : ID) (currentState : J)
      (expectedVersion : Nat)
  /-- In the scope of the unit of work, which is then committed; `andThen` is what
  follows outside. -/
  | working (uow : SagaUow J) (script andThen : Script J Infra)
  /-- After a commit, its events are published and then `andThen` goes on. -/
  | publishing (events : List (Event J)) (andThen : Script J Infra)
  | settled (outcome : Except Err Unit)

/-- A commit that has succeeded: of the unit of work of an execution, or of one that
a command of its reaction has of its own. -/
structure Commit (ι J : Type) where
  execution : ι
  saga : Option (SagaUow J)
  contributions : List (Contribution J)

/-- `enlisted`, `commits` (newest first) and `published` are history variables. -/
structure State (ι J Infra : Type) where
  eventStore : EventStore J
  sagaStore : StateStore J := ∅
  executions : ι → Phase J Infra := fun _ => .called
  /-- What commands have enlisted into the unit of work of an execution. -/
  enlisted : ι → List (Contribution J) := fun _ => []
  commits : List (Commit ι J) := []
  published : ι → List (Event J) := fun _ => []

variable [DecidableEq ι]

def State.enter (i : ι) (phase : Phase J Infra) (s : State ι J Infra) : State ι J Infra :=
  { s with executions := Function.update s.executions i phase }

/-! ## Commits -/

/-- The unit of work of an execution: the save of the saga state, which was enlisted
first, and what the commands have enlisted. -/
def commitUow (uow : SagaUow J) (s : State ι J Infra) :
    Except Err (List (Event J) × EventStore J × StateStore J) :=
  match s.sagaStore.save uow.sagaName uow.sagaId uow.state uow.expectedVersion with
  | .error error => .error error
  | .ok sagaStore =>
      match Delivery.commit uow.contributions s.eventStore with
      | (.error error, _) => .error error
      | (.ok events, eventStore) => .ok (events, eventStore, sagaStore)

/-! ## The segments -/

variable (domain : Domain J Infra) (sagaName : String) (events : ι → Event J)

/-- Steps 1 to 4: look up, derive the id, load, bootstrap or resume. -/
def load (i : ι) (s : State ι J Infra) : State ι J Infra :=
  let saga := domain.sagas sagaName
  match saga.on (events i).name with
  | none => s.enter i (.settled (.ok ()))
  | some onEntry =>
      match onEntry.id (events i) with
      | .error error => s.enter i (.settled (.error error))
      | .ok sagaId =>
          match bootstrap saga (events i) (s.sagaStore.load sagaName sagaId) with
          | none => s.enter i (.settled (.ok ()))
          | some (currentState, expectedVersion) =>
              s.enter i (.loaded onEntry sagaId currentState expectedVersion)

/-- Step 5, and the set-up of the unit of work in the atomicity mode of the saga. -/
def handle (c : Choice J Infra) (i : ι) (onEntry : SagaHandler J Infra) (sagaId : ID)
    (currentState : J) (expectedVersion : Nat) (s : State ι J Infra) : State ι J Infra :=
  match onEntry.handle (events i) currentState c.infra with
  | .error error => s.enter i (.settled (.error error))
  | .ok reaction =>
      let uow : SagaUow J := { sagaName, sagaId, state := reaction.state, expectedVersion }
      let commands := dispatchCommands reaction.commandList
      match (domain.sagas sagaName).atomicity.getD .atomic with
      | .bestEffort => s.enter i (.working uow (.settle (.ok ())) commands)
      | .atomic => s.enter i (.working uow commands (.settle (.ok ())))

/-- A command in the scope of the unit of work of the execution. -/
def enlistCommand (c : Choice J Infra) (i : ι) (uow : SagaUow J) (command : Command J)
    (next : Except Err Unit → Infra → Script J Infra) (andThen : Script J Infra)
    (s : State ι J Infra) : State ι J Infra :=
  match domain.commandBus command.name with
  | none =>
      s.enter i (.working uow
        (next (.error (.error s!"No handler registered for command: {command.name}")) c.infra)
        andThen)
  | some (.standalone handler) =>
      s.enter i (.working uow ((handler command c.infra).andThen next c.infra) andThen)
  | some (.aggregate aggregateName) =>
      match executeLifecycle domain c s.eventStore aggregateName command with
      | .error error => s.enter i (.working uow (next (.error error) c.infra) andThen)
      | .ok contribution =>
          let contributions := uow.contributions ++ contribution.toList
          { s with enlisted := Function.update s.enlisted i contributions }.enter i
            (.working { uow with contributions } (next (.ok ()) c.infra) andThen)

/-- The commit of the unit of work of the execution; `rejects` is the error of the
transaction itself, if it fails. -/
def commit (rejects : Option Err) (i : ι) (uow : SagaUow J) (andThen : Script J Infra)
    (s : State ι J Infra) : State ι J Infra :=
  match rejects with
  | some error => s.enter i (.settled (.error error))
  | none =>
      match commitUow uow s with
      | .error error => s.enter i (.settled (.error error))
      | .ok (events, eventStore, sagaStore) =>
          { s with
            eventStore, sagaStore
            commits := ⟨i, some uow, uow.contributions⟩ :: s.commits }.enter i
            (.publishing events andThen)

/-- A command that has a unit of work of its own. -/
def executeCommand (c : Choice J Infra) (rejects : Option Err) (i : ι) (command : Command J)
    (next : Except Err Unit → Infra → Script J Infra) (s : State ι J Infra) :
    State ι J Infra :=
  let reject (error : Err) : State ι J Infra :=
    s.enter i (.publishing [] (next (.error error) c.infra))
  match domain.commandBus command.name with
  | none => reject (.error s!"No handler registered for command: {command.name}")
  | some (.standalone handler) =>
      s.enter i (.publishing [] ((handler command c.infra).andThen next c.infra))
  | some (.aggregate aggregateName) =>
      match executeLifecycle domain c s.eventStore aggregateName command, rejects with
      | .error error, _ => reject error
      | .ok _, some error => reject error
      | .ok contribution, none =>
          match Delivery.commit contribution.toList s.eventStore with
          | (.error error, _) => reject error
          | (.ok events, eventStore) =>
              { s with
                eventStore
                commits := ⟨i, none, contribution.toList⟩ :: s.commits }.enter i
                (.publishing events (next (.ok ()) c.infra))

/-! ## Steps -/

/-- The next segment of the execution `i`. -/
structure Action (ι J Infra : Type) where
  execution : ι
  choice : Choice J Infra
  /-- The transaction fails. -/
  rejects : Option Err

def step (s : State ι J Infra) (action : Action ι J Infra) : Option (State ι J Infra) :=
  let i := action.execution
  let c := action.choice
  match s.executions i with
  | .called => some (load domain sagaName events i s)
  | .loaded onEntry sagaId currentState expectedVersion =>
      some (handle domain sagaName events c i onEntry sagaId currentState expectedVersion s)
  | .working uow (.dispatchCommand command next) andThen =>
      some (enlistCommand domain c i uow command next andThen s)
  | .working uow (.settle (.ok ())) andThen => some (commit action.rejects i uow andThen s)
  | .working _ (.settle (.error error)) _ =>
      -- the unit of work is rolled back
      some (s.enter i (.settled (.error error)))
  | .publishing (event :: rest) andThen =>
      some ({ s with
        published := Function.update s.published i (event :: s.published i) }.enter i
        (.publishing rest andThen))
  | .publishing [] (.dispatchCommand command next) =>
      some (executeCommand domain c action.rejects i command next s)
  | .publishing [] (.settle outcome) => some (s.enter i (.settled outcome))
  | .settled _ => none

end Noddde.Delivery.SagaExecutor
