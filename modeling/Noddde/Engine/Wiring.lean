import Noddde.Engine.World
/-!
# The wiring of a domain

What the executors are constructed with: the aggregates, the kind of their
persistence, the concurrency strategies and the optional components.
-/

namespace Noddde

/-- The context that `withMetadataContext` or a provider supplies.  A key may be
absent, present with `undefined`, or present with a value. -/
structure MetadataContext where
  correlationId : Option (Option String) := none
  causationId : Option (Option String) := none
  userId : Option (Option ID) := none
  deriving DecidableEq, Repr

/-- `{ ...provider, ...override }` -/
def MetadataContext.merge (provider override : MetadataContext) : MetadataContext where
  correlationId := override.correlationId <|> provider.correlationId
  causationId := override.causationId <|> provider.causationId
  userId := override.userId <|> provider.userId

/-- What `AsyncLocalStorage` hands down to the code that runs inside a scope. -/
structure Ambient where
  uow : Option UowRef := none
  metadata : Option MetadataContext := none
  explicit : ∀ u ∈ uow, u.implicit = false := by decide

/-- `uowStorage.run(uow, ...)` -/
def Ambient.withinScope (ambient : Ambient) (n : Nat) : Ambient where
  uow := some (.scope n)
  metadata := ambient.metadata
  explicit := by simp [UowRef.implicit]

/-- `uowStorage.run(uow, () => metadataStorage.run(sagaCtx, ...))` -/
def Ambient.withinSaga (n : Nat) (sagaCtx : MetadataContext) : Ambient where
  uow := some (.saga n)
  metadata := some sagaCtx
  explicit := by simp [UowRef.implicit]

/-- The persistence that is wired to an aggregate. -/
inductive PersistenceKind where
  /-- `partialLoad`: it has `loadAfterVersion`. -/
  | eventSourced (partialLoad : Bool)
  | stateStored
  deriving DecidableEq, Repr

inductive BaseStrategy where
  | optimistic (maxRetries : Nat)
  | pessimistic (timeoutMs : Option Nat)
  deriving DecidableEq, Repr

inductive ConcurrencyStrategy where
  | base (strategy : BaseStrategy)
  | perAggregate (strategies : String → Option BaseStrategy) (defaultStrategy : BaseStrategy)

/-- A handler of a strong-consistency projection.  `reduce` answers `none` for
`DeleteView`. -/
structure ProjectionHandler (J Infra : Type) where
  id : Event J → Except Err ID
  reduce : Event J → J → Infra → Except Err (Option J)

structure Projection (J Infra : Type) where
  name : String
  on : String → Option (ProjectionHandler J Infra)
  initialView : J

/-- `strategy({ version, lastSnapshotVersion, eventsSinceSnapshot })` -/
abbrev SnapshotStrategy :=
  (version lastSnapshotVersion eventsSinceSnapshot : Nat) → Except Err Bool

inductive Atomicity where
  | atomic
  | bestEffort
  deriving DecidableEq, Repr

structure Reaction (J : Type) where
  state : J
  commands : Option (OneOrMany (Command J))

structure SagaHandler (J Infra : Type) where
  id : Event J → Except Err ID
  handle : Event J → J → Infra → Except Err (Reaction J)

structure Saga (J Infra : Type) where
  startedBy : List String
  initialState : J
  on : String → Option (SagaHandler J Infra)
  atomicity : Option Atomicity

inductive CommandHandler where
  | aggregate (aggregateName : String)
  | standalone
  deriving DecidableEq, Repr

structure Wiring (J Infra : Type) where
  aggregates : String → Aggregate J Infra
  sagas : String → Saga J Infra
  commandBus : String → Option CommandHandler
  persistence : String → Option PersistenceKind
  concurrency : ConcurrencyStrategy
  snapshots : String → Option SnapshotStrategy
  /-- An idempotency store, with its `ttlMs`. -/
  idempotency : Option (Option Nat)
  strongProjections : List (Projection J Infra)
  outbox : Bool
  metadataProvider : Option (Infra → Except Err MetadataContext)
  /-- `injectTraceContext()` -/
  traceContext : Infra → Option String × Option String
  uuidv7 : Nat → String
  /-- The locker may reject a release; the in-memory one does not. -/
  releaseMayReject : Bool
  /-- COMMIT and ROLLBACK of the unit of work may reject by themselves; those of
  the in-memory one do not. -/
  transactionMayReject : Bool

end Noddde
