import Noddde.Engine.MetadataEnricher
import Noddde.Engine.Concurrency
/-!
# CommandLifecycleExecutor

Load, decide, evolve, enrich, enlist, defer; then the commit of an implicit unit
of work, or the hand-over to the unit of work that the dispatch joined.
-/

namespace Noddde

variable {J Infra : Type} [JsValue J] (wiring : Wiring J Infra)

/-! ## Loading -/

abbrev Task.aggregate (task : Task J) : Aggregate J Infra :=
  wiring.aggregates task.aggregateName

variable (task : Task J) (uow : UowRef)

def rebuildState (start : J) (base : Nat) (events : List (Event J)) :
    Sync J (Loaded J) := do
  let version := base + events.length
  let loaded := ((task.aggregate wiring).replayFrom start events).map fun currentState =>
    { currentState, version, isEventSourced := true, lastSnapshotVersion := base }
  let stream ← .read fun w => w.eventStore.load task.aggregateName task.aggregateId
  note (.loadedEvents task uow loaded stream)
  .ofExcept loaded

def loadSnapshot : Eff J Infra (Option (Snapshot J)) :=
  match wiring.snapshots task.aggregateName with
  | none => pure none
  | some _ => Async.call fun _ => do
      let snapshot ← .read fun w =>
        w.snapshotStore.load task.aggregateName task.aggregateId
      note (.loadedSnapshot task uow snapshot)
      pure snapshot

def loadAfterSnapshot (persistence : PersistenceKind) (snapshot : Snapshot J) :
    Sync J (Loaded J) :=
  match persistence with
  | .eventSourced true => do
      let events ← .read fun w =>
        w.eventStore.loadAfterVersion task.aggregateName task.aggregateId
          snapshot.version
      rebuildState wiring task uow snapshot.state snapshot.version events
  | .eventSourced false => do
      let allEvents ← .read fun w =>
        w.eventStore.load task.aggregateName task.aggregateId
      rebuildState wiring task uow snapshot.state snapshot.version
        (allEvents.drop snapshot.version)
  | .stateStored => do
      let stateResult ← .read fun w =>
        StateStore.load w.stateStore task.aggregateName task.aggregateId
      match stateResult with
      | none => .raise (.error "Cannot read properties of null (reading 'slice')")
      | some _ => .raise (.error "allEvents.slice is not a function")

def loadFully (persistence : PersistenceKind) : Sync J (Loaded J) :=
  match persistence with
  | .eventSourced _ => do
      let events ← .read fun w =>
        w.eventStore.load task.aggregateName task.aggregateId
      rebuildState wiring task uow (task.aggregate wiring).initialState 0 events
  | .stateStored => do
      let stateResult ← .read fun w =>
        StateStore.load w.stateStore task.aggregateName task.aggregateId
      let version := (stateResult.map (·.version)).getD 0
      let currentState :=
        nullishCoalesce (stateResult.map (·.state)) (task.aggregate wiring).initialState
      let loaded : Loaded J :=
        { currentState, version, isEventSourced := false, lastSnapshotVersion := 0 }
      note (.loadedState task uow loaded)
      pure loaded

def load (persistence : PersistenceKind) : Eff J Infra (Loaded J) := do
  let snapshot ← loadSnapshot wiring task uow
  Async.call fun _ =>
    match snapshot with
    | some snapshot => loadAfterSnapshot wiring task uow persistence snapshot
    | none => loadFully wiring task uow persistence

/-! ## Deciding -/

def executeCommandHandler (loaded : Loaded J) : Eff J Infra (List (Event J)) :=
  match (task.aggregate wiring).decide task.command.name with
  | none => throw (.error
      s!"No command handler found for command: {task.command.name} on aggregate: {task.aggregateName}")
  | some handler =>
      Async.call fun c => do
        let newEvents :=
          (handler task.command loaded.currentState c.infra).map OneOrMany.toArray
        note (.decided task uow loaded.currentState newEvents)
        .ofExcept newEvents

/-! ## Contributing to the unit of work -/

/-- The strong-consistency part of `onEventsProduced`, for one projection. -/
def enlistViews (projection : Projection J Infra) : List (Event J) → Sync J Unit
  | [] => pure ()
  | event :: rest =>
      match projection.on event.name with
      | none => enlistViews projection rest
      | some handler => do
          let viewId ← .ofExcept (handler.id event)
          enlist uow (some task.dispatch) (.updateView projection.name viewId event)
          enlistViews projection rest

def enlistProjections (events : List (Event J)) : List (Projection J Infra) → Sync J Unit
  | [] => pure ()
  | projection :: rest => do
      enlistViews task uow projection events
      enlistProjections events rest

def outboxEntries (now : Nat) : List (Event J) → Sync J (List (OutboxEntry J))
  | [] => pure []
  | event :: rest => do
      let id ← uuidv7 wiring
      let entry : OutboxEntry J :=
        { id, event
          aggregateName := event.metadata.bind (·.aggregateName)
          aggregateId := (event.metadata.bind (·.aggregateId)).map ID.render
          createdAt := now
          publishedAt := none }
      let others ← outboxEntries now rest
      pure (entry :: others)

def onEventsProduced (events : List (Event J)) (c : Choice Infra) : Sync J Unit := do
  enlistProjections task uow events wiring.strongProjections
  if wiring.outbox ∧ events ≠ [] then do
    let entries ← outboxEntries wiring c.now events
    enlist uow (some task.dispatch) (.saveOutbox entries)
  else pure ()

/-- Steps 4 to 6.5 of the lifecycle, one synchronous segment: evolve, enrich,
enlist, defer.  It answers the new state. -/
def contribute (ambient : Ambient) (loaded : Loaded J) (newEvents : List (Event J))
    (c : Choice Infra) : Sync J J := do
  let newState ← .ofExcept
    ((task.aggregate wiring).applyEvents loaded.currentState newEvents)
  let enrichedEvents ← enrich wiring ambient c newEvents task.aggregateName
    task.aggregateId loaded.version task.command.name
    (task.aggregate wiring).eventVersion
  enlist uow (some task.dispatch)
    (if loaded.isEventSourced
      then .saveEvents task.aggregateName task.aggregateId enrichedEvents loaded.version
      else .saveState task.aggregateName task.aggregateId newState loaded.version)
  match task.command.commandId, wiring.idempotency with
  | some commandId, some _ =>
      enlist uow (some task.dispatch)
        (.saveIdempotency commandId task.aggregateName task.aggregateId)
  | _, _ => pure ()
  deferPublish uow enrichedEvents
  note (.contributed task uow loaded newEvents enrichedEvents)
  onEventsProduced wiring task uow enrichedEvents c
  pure newState

/-! ## The lifecycle -/

structure PendingSnapshot (J : Type) where
  aggregateName : String
  aggregateId : ID
  snapshot : Snapshot J

/-- Step 7: the snapshot that the strategy asks for. -/
def evaluateSnapshot (loaded : Loaded J) (newEvents : List (Event J)) (newState : J) :
    Except Err (Option (PendingSnapshot J)) :=
  if loaded.isEventSourced then
    match wiring.snapshots task.aggregateName with
    | none => .ok none
    | some strategy => do
        let newVersion := loaded.version + newEvents.length
        let due ← strategy newVersion loaded.lastSnapshotVersion
          (newVersion - loaded.lastSnapshotVersion)
        if due then
          .ok (some
            { aggregateName := task.aggregateName
              aggregateId := task.aggregateId
              snapshot := { state := newState, version := newVersion } })
        else .ok none
  else .ok none

def executeLifecycle (ambient : Ambient) (persistence : PersistenceKind) :
    Eff J Infra (Option (PendingSnapshot J)) := do
  let loaded ← load wiring task uow persistence
  let newEvents ← executeCommandHandler wiring task uow loaded
  let newState ← Async.call (contribute wiring task uow ambient loaded newEvents)
  Async.ofExcept (evaluateSnapshot wiring task loaded newEvents newState)

/-! ## Publishing -/

/-- `eventBus.dispatch(event)`: the call, and its settlement. -/
def busDispatch (publisher : Option UowRef) (event : Event J) : Eff J Infra Unit := do
  Async.call fun _ => note (.dispatchCalled publisher event)
  Async.call fun c =>
    match c.rejects with
    | none => note (.dispatchResolved publisher event)
    | some error => do
        note (.dispatchRejected publisher event error)
        .raise error

def onEventsDispatched (events : List (Event J)) : Eff J Infra Unit :=
  let eventIds := events.filterMap Event.eventId?
  if wiring.outbox ∧ eventIds ≠ [] then
    (Async.call fun c =>
      match c.rejects with
      | some error => .raise error
      | none => .modify fun w =>
          { w with
            outboxStore := w.outboxStore.markPublishedByEventIds c.now eventIds }).tryCatch
      fun _ => pure ()
  else pure ()

def publish (publisher : UowRef) (events : List (Event J)) : Eff J Infra Unit := do
  Async.forEach (busDispatch (some publisher)) events
  onEventsDispatched wiring events

/-! ## Execution -/

def attempt (ambient : Ambient) (persistence : PersistenceKind) (i : Nat) :
    Eff J Infra (UowRef × List (Event J) × Option (PendingSnapshot J)) := do
  let uow := UowRef.attempt task.dispatch i
  Async.call fun _ => createUow uow
  Async.tryCatch
    (do
      let snapshotResult ← executeLifecycle wiring task uow ambient persistence
      let events ← commit wiring uow
      pure (uow, events, snapshotResult))
    fun error => do
      tryRollback wiring uow
      throw error

def saveSnapshot (snapshotResult : Option (PendingSnapshot J)) : Eff J Infra Unit :=
  match snapshotResult with
  | none => pure ()
  | some pending =>
      -- best effort: a failing save is swallowed
      Async.call fun c =>
        match c.rejects with
        | some _ => pure ()
        | none => .modify fun w =>
            { w with
              snapshotStore := w.snapshotStore.save pending.aggregateName
                pending.aggregateId pending.snapshot }

def executeOwned (ambient : Ambient) (persistence : PersistenceKind) :
    Eff J Infra Unit := do
  -- `snapshotResult` keeps the value of the attempt that committed
  let (uow, events, snapshotResult) ← wiring.concurrency.execute wiring
    ⟨task.dispatch, none⟩ task.aggregateName task.aggregateId
    (attempt wiring task ambient persistence)
  saveSnapshot snapshotResult
  publish wiring uow events

/-- The lifecycle on a unit of work that the dispatch joins, under its lock. -/
def runLifecycleOn (ambient : Ambient) (persistence : PersistenceKind)
    (existingUow : UowRef) : Eff J Infra (Option (PendingSnapshot J)) :=
  let runLifecycle := executeLifecycle wiring task existingUow ambient persistence
  match wiring.concurrency.acquireForUow? task.dispatch task.aggregateName
      task.aggregateId existingUow with
  | some acquire => do
      acquire
      runLifecycle
  | none =>
      wiring.concurrency.execute wiring ⟨task.dispatch, some existingUow⟩
        task.aggregateName task.aggregateId fun _ => runLifecycle

/-- The snapshot is left to the commit of the owning unit of work. -/
def deferSnapshot (existingUow : UowRef) (snapshotResult : Option (PendingSnapshot J)) :
    Eff J Infra Unit :=
  match snapshotResult with
  | none => pure ()
  | some pending =>
      Async.call fun _ => onUowCommitted existingUow task.dispatch
        (.saveSnapshot pending.aggregateName pending.aggregateId pending.snapshot)

/-- The dispatch joins a unit of work that somebody else settles. -/
def executeJoined (ambient : Ambient) (persistence : PersistenceKind)
    (existingUow : UowRef) : Eff J Infra Unit := do
  let snapshotResult ← runLifecycleOn wiring task ambient persistence existingUow
  deferSnapshot task existingUow snapshotResult

/-- The fast path of a duplicate command. -/
def alreadyProcessed : Eff J Infra Bool :=
  match task.command.commandId, wiring.idempotency with
  | some commandId, some ttlMs =>
      Async.call fun c w =>
        let found := w.idempotencyStore.exists' ttlMs c.now commandId
        let w := { w with idempotencyStore := found.2 }
        (.ok found.1, if found.1 then w.note (.skipped task.dispatch) else w)
  | _, _ => pure false

def execute (ambient : Ambient) : Eff J Infra Unit := do
  let duplicate ← alreadyProcessed wiring task
  if duplicate then pure ()
  else
    match wiring.persistence task.aggregateName with
    | none => throw (.error
        s!"No persistence configured for aggregate \"{task.aggregateName}\"")
    | some persistence =>
        match ambient.uow with
        | none => executeOwned wiring task ambient persistence
        | some existingUow => executeJoined wiring task ambient persistence existingUow

/-- The dispatch as a whole: `execute`, with its start and its settlement.  A
dispatch can only join a unit of work that exists. -/
def dispatch (ambient : Ambient) : Eff J Infra Unit := do
  Async.await fun _ w =>
    if ∀ uow ∈ ambient.uow, (w.uows uow).created then
      some (.ok (), w.note (.started task ambient.uow))
    else none
  let outcome ← (execute wiring task ambient).attempt
  Async.call fun _ => do
    note (.settled task.dispatch (rejection outcome))
    .ofExcept outcome

end Noddde
