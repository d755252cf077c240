import Noddde.Core.Event
/-!
# The components of a domain

`Domain.init` resolves every component from the wiring, from the persistence adapter or
to an in-memory default, and collects some of them; `shutdown` closes what it has
collected.
-/

namespace Noddde.Components

variable {κ : Type}

/-! ## The wiring -/

inductive Persistence (κ : Type) where
  | factory (build : Except Err κ)
  | shorthand (name : String)
  | object (persistence : κ)

inductive Concurrency (κ : Type) where
  | optimistic
  | pessimistic
  /-- `{ strategy: "pessimistic", locker }` -/
  | pessimisticWith (locker : Option κ)

structure AggregateWiring (κ : Type) where
  persistence : Option (Persistence κ) := none
  concurrency : Option (Concurrency κ) := none
  snapshots : Option (Option (Except Err κ)) := none

structure PersistenceAdapter (κ : Type) where
  self : κ
  eventSourcedPersistence : Option κ := none
  stateStoredPersistence : Option κ := none
  sagaPersistence : Option κ := none
  snapshotStore : Option κ := none
  outboxStore : Option κ := none
  idempotencyStore : Option κ := none
  aggregateLocker : Option κ := none

structure Buses (α : Type) where
  commandBus : α
  eventBus : α
  queryBus : α

inductive Aggregates (κ : Type) where
  | global (wiring : AggregateWiring κ)
  | perAggregate (wirings : List (String × AggregateWiring κ))

structure DomainWiring (κ : Type) where
  persistenceAdapter : Option (PersistenceAdapter κ) := none
  infrastructure : Except Err (List κ) := .ok []
  buses : Option (Except Err (Buses κ)) := none
  aggregates : Aggregates κ := .global {}
  sagaPersistence : Option (Except Err κ) := none
  idempotency : Option (Except Err κ) := none
  outbox : Option (Except Err κ) := none

/-- What `init` reads of the definition of the domain. -/
structure Definition where
  aggregateNames : List String
  hasSagas : Bool

/-- An object that the wiring provides, or a default that `init` makes. -/
inductive Component (κ : Type) where
  | provided (reference : κ)
  | inMemoryCommandBus
  | eventEmitterEventBus
  | inMemoryQueryBus
  | inMemoryAggregatePersistence
  | inMemorySagaPersistence
  deriving DecidableEq

/-! ## Domain.init -/

structure Resolved (κ : Type) where
  adapter : Option κ
  customInfra : List κ
  buses : Buses (Component κ)
  persistences : List (Component κ)
  snapshotStores : List κ
  sagaPersistence : Option (Component κ)
  lockers : List κ
  idempotencyStore : Option κ
  outboxStore : Option κ

section Init

variable (definition : Definition) (wiring : DomainWiring κ)

def resolveAggregatePersistence (aggregateName : String)
    (persistence : Option (Persistence κ)) (adapter : Option (PersistenceAdapter κ)) :
    Except Err (Option κ) :=
  match persistence with
  | none => .ok (adapter.bind (·.stateStoredPersistence))
  | some (.factory build) => build.map some
  | some (.object persistence) => .ok (some persistence)
  | some (.shorthand name) =>
      match adapter with
      | none => .error (.error
          s!"Aggregate \"{aggregateName}\": persistence shorthand '{name}' requires a persistenceAdapter in DomainWiring.")
      | some adapter =>
          if name = "event-sourced" then
            match adapter.eventSourcedPersistence with
            | some persistence => .ok (some persistence)
            | none => .error (.error
                s!"Aggregate \"{aggregateName}\": persistence '{name}' requested but the adapter does not provide eventSourcedPersistence.")
          else if name = "state-stored" then
            match adapter.stateStoredPersistence with
            | some persistence => .ok (some persistence)
            | none => .error (.error
                s!"Aggregate \"{aggregateName}\": persistence '{name}' requested but the adapter does not provide stateStoredPersistence.")
          else .error (.error
            s!"Aggregate \"{aggregateName}\": unknown persistence shorthand '{name}'.")

def resolvePerAggregate (wirings : List (String × AggregateWiring κ)) :
    Except Err (List (Component κ)) :=
  match wirings.find? fun entry => entry.1 ∉ definition.aggregateNames with
  | some (name, _) =>
      let registered := ", ".intercalate definition.aggregateNames
      .error (.error
        s!"Per-aggregate wiring references unknown aggregate: {name}. Registered aggregates: {registered}.")
  | none => do
      let resolved ← definition.aggregateNames.mapM fun name =>
        resolveAggregatePersistence name ((wirings.lookup name).bind (·.persistence))
          wiring.persistenceAdapter
      let missing := (definition.aggregateNames.zip resolved).filter fun entry =>
        entry.2.isNone
      let names := ", ".intercalate (missing.map Prod.fst)
      if missing.length = definition.aggregateNames.length then
        .ok [.inMemoryAggregatePersistence]
      else if 0 < missing.length ∧ wiring.persistenceAdapter.isNone then .error (.error
        s!"Per-aggregate persistence is missing entries for: {names}")
      else .ok (resolved.map fun persistence =>
        persistence.elim .inMemoryAggregatePersistence .provided)

/-- Step 4. -/
def resolvePersistences : Except Err (List (Component κ)) :=
  match wiring.aggregates with
  | .perAggregate wirings => resolvePerAggregate definition wiring wirings
  | .global aggregateWiring => do
      let resolved ← resolveAggregatePersistence "(global)" aggregateWiring.persistence
        wiring.persistenceAdapter
      .ok [resolved.elim .inMemoryAggregatePersistence .provided]

def aggregateWirings (global : String) : List (String × AggregateWiring κ) :=
  match wiring.aggregates with
  | .global aggregateWiring => [(global, aggregateWiring)]
  | .perAggregate wirings => wirings.map fun entry => (s!"Aggregate \"{entry.1}\":", entry.2)

/-- Step 4.5, for one aggregate wiring. -/
def resolveSnapshotStore (subject : String) (aggregateWiring : AggregateWiring κ) :
    Except Err (Option κ) :=
  match aggregateWiring.snapshots with
  | none => .ok none
  | some (some build) => build.map some
  | some none =>
      match wiring.persistenceAdapter.bind (·.snapshotStore) with
      | some store => .ok (some store)
      | none => .error (.error
          s!"{subject} snapshots.strategy is set but no snapshot store is available. Provide snapshots.store or use a persistenceAdapter with snapshotStore.")

/-- Step 5.6, for one aggregate wiring: the locker of the strategy, if it has one. -/
def resolveConcurrency (subject : String) (aggregateWiring : AggregateWiring κ) :
    Except Err (Option κ) :=
  let aggregateLocker := wiring.persistenceAdapter.bind (·.aggregateLocker)
  match aggregateWiring.concurrency with
  | none => .ok none
  | some .optimistic => .ok none
  | some .pessimistic =>
      match aggregateLocker with
      | some locker => .ok (some locker)
      | none => .error (.error
          s!"{subject} concurrency 'pessimistic' requires an aggregate locker. Provide a persistenceAdapter with aggregateLocker or use object form with explicit locker.")
  | some (.pessimisticWith locker) =>
      match locker <|> aggregateLocker with
      | some locker => .ok (some locker)
      | none => .error (.error
          s!"{subject} pessimistic concurrency requires a locker. Provide concurrency.locker or use a persistenceAdapter with aggregateLocker.")

/-- Step 5. -/
def resolveSagaPersistence : Except Err (Option (Component κ)) :=
  if definition.hasSagas then
    match wiring.sagaPersistence, wiring.persistenceAdapter.bind (·.sagaPersistence) with
    | some build, _ => build.map fun persistence => some (.provided persistence)
    | none, some persistence => .ok (some (.provided persistence))
    | none, none => .ok (some .inMemorySagaPersistence)
  else .ok none

def resolveStore (build : Option (Except Err κ)) (ofAdapter : Option κ) :
    Except Err (Option κ) :=
  match build with
  | some build => build.map some
  | none => .ok ofAdapter

def resolveBuses : Except Err (Buses (Component κ)) :=
  match wiring.buses with
  | none => .ok ⟨.inMemoryCommandBus, .eventEmitterEventBus, .inMemoryQueryBus⟩
  | some build => build.map fun buses =>
      ⟨.provided buses.commandBus, .provided buses.eventBus, .provided buses.queryBus⟩

def init : Except Err (Resolved κ) := do
  let customInfra ← wiring.infrastructure
  let buses ← resolveBuses wiring
  let persistences ← resolvePersistences definition wiring
  let snapshotStores ← (aggregateWirings wiring "Global").mapM fun entry =>
    resolveSnapshotStore wiring entry.1 entry.2
  let sagaPersistence ← resolveSagaPersistence definition wiring
  let lockers ← (aggregateWirings wiring "Aggregate \"(global)\":").mapM fun entry =>
    resolveConcurrency wiring entry.1 entry.2
  let idempotencyStore ← resolveStore wiring.idempotency
    (wiring.persistenceAdapter.bind (·.idempotencyStore))
  let outboxStore ← resolveStore wiring.outbox
    (wiring.persistenceAdapter.bind (·.outboxStore))
  .ok
    { adapter := wiring.persistenceAdapter.map (·.self)
      customInfra, buses, persistences
      snapshotStores := snapshotStores.reduceOption
      sagaPersistence
      lockers := lockers.reduceOption
      idempotencyStore, outboxStore }

end Init

namespace Resolved

variable (resolved : Resolved κ)

/-- `_allComponents`, as step 13 collects it. -/
def allComponents : List (Component κ) :=
  (resolved.adapter.toList ++ resolved.customInfra).map .provided ++
    [resolved.buses.commandBus, resolved.buses.eventBus, resolved.buses.queryBus] ++
    resolved.sagaPersistence.toList ++
    (resolved.outboxStore.toList ++ resolved.idempotencyStore.toList).map .provided

end Resolved

/-! ## Shutdown -/

/-- What is known of the objects: whether `isCloseable` accepts one, and the error with
which its `close()` rejects, if it does. -/
structure Objects (κ : Type) where
  closeable : κ → Bool
  closeRejects : κ → Option Err

def isCloseable (objects : Objects κ) : Component κ → Bool
  | .provided reference => objects.closeable reference
  | .eventEmitterEventBus => true
  | _ => false

def close (objects : Objects κ) (component : Component κ) : Except Err Unit :=
  if isCloseable objects component then
    match component with
    | .provided reference =>
        match objects.closeRejects reference with
        | some error => .error error
        | none => .ok ()
    | _ => .ok ()
  else .error (.error "close is not a function")

inductive Call (κ : Type) where
  | drainRelay
  | close (component : Component κ)
  deriving DecidableEq

/-- The loop over the closeables: its outcome, and the calls that it makes. -/
def closeAll (objects : Objects κ) : List (Component κ) → Except Err Unit × List (Call κ)
  | [] => (.ok (), [])
  | closeable :: rest =>
      let (outcome, calls) := closeAll objects rest
      match close objects closeable with
      | .ok () => (outcome, .close closeable :: calls)
      -- an error of `close()` is swallowed
      | .error _ => (outcome, .close closeable :: calls)

/-- `_performShutdown`, from phase 2 on.  The drain of the relay does not reject. -/
def performShutdown (objects : Objects κ) (resolved : Resolved κ) :
    Except Err Unit × List (Call κ) :=
  let drain := if resolved.outboxStore.isSome then [Call.drainRelay] else []
  let closeBus := Call.close resolved.buses.eventBus
  match close objects resolved.buses.eventBus with
  | .error error => (.error error, drain ++ [closeBus])
  | .ok () =>
      let closeables := (resolved.allComponents.filter (isCloseable objects)).reverse
      let (outcome, calls) := closeAll objects closeables
      (outcome, drain ++ closeBus :: calls)

end Noddde.Components
