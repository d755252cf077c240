import Noddde.Engine.ReadModel
/-!
# Domain.rebuildProjection

The handlers of the projection are detached, its view store is truncated, the
event log is replayed into it, and the handlers are attached again, whatever
happened in between.
-/

namespace Noddde.ReadModel

variable {ι J Infra : Type}

/-! ## rebuildProjectionImpl -/

structure RebuildContext (J Infra : Type) where
  projectionName : String
  projection : Projection J Infra
  events : List (Event J)
  subscriptions : List (String × Handler)
  aggregateUpcasters : String → Option (UpcasterMap J)
  progressInterval : Nat
  /-- The view store, the reader and the progress callback may reject; in-memory ones
  do not. -/
  mayReject : Bool

/-- What a rebuild reports, its duration apart. -/
structure RebuildResult where
  eventsRead : Nat
  eventsApplied : Nat
  viewsDeleted : Nat
  deriving DecidableEq, Repr

variable [DecidableEq ι] [JsValue J] (ctx : RebuildContext J Infra)

/-- A call of code that may reject. -/
def attempting {α : Type} (c : Choice Infra) (m : Step ι J α) : Step ι J α :=
  match (if ctx.mayReject then c.rejects else none) with
  | some error => .raise error
  | none => m

def detach (i : ι) : Step ι J Unit :=
  .modify fun s =>
    { s with
      handlers := ctx.subscriptions.foldl (fun registry subscription =>
        registry.off subscription.1 subscription.2) s.handlers
      rebuilding := Function.update s.rebuilding i true }

def reattach (i : ι) : Step ι J Unit :=
  .modify fun s =>
    { s with
      handlers := ctx.subscriptions.foldl (fun registry subscription =>
        registry.on subscription.1 subscription.2) s.handlers
      rebuilding := Function.update s.rebuilding i false }

def truncate : Step ι J Unit :=
  .modify fun s => { s with views := Function.update s.views ctx.projectionName ∅ }

/-- The event in its current version, as far as its aggregate is known. -/
def upcastForReplay (event : Event J) : Except Err (Event J) :=
  match event.metadata.bind (·.aggregateName) with
  | none => .ok event
  | some aggregateName =>
      if aggregateName = "" then .ok event
      else
        match ctx.aggregateUpcasters aggregateName with
        | none => .ok event
        | some upcasters => upcastEvent event upcasters

/-- `handler.id ? handler.id(event) : event.metadata?.aggregateId` -/
def replayViewId (handler : EventHandler J Infra) (event : Event J) : Except Err ID :=
  match handler.id with
  | some id => id event
  | none =>
      match aggregateId? event with
      | some id => .ok id
      | none => .error (.error
          s!"rebuildProjection: cannot derive viewId for event '{event.name}'; projection.on['{event.name}'].id is required")

/-- `await onProgress?.({ eventsApplied })` -/
def reportProgress (eventsApplied : Nat) : Program ι J Infra Unit :=
  if eventsApplied % ctx.progressInterval = 0
  then Async.call fun c => attempting ctx c (pure ())
  else pure ()

def applyEvent (i : ι) (handler : EventHandler J Infra) (event : Event J)
    (result : RebuildResult) : Program ι J Infra RebuildResult := do
  let viewId ← Async.ofExcept (replayViewId handler event)
  let current ← Async.call fun c =>
    attempting ctx c (loadView i ctx.projectionName ctx.projection viewId)
  let next ← Async.call (reduceEvent i handler event current)
  Async.call fun c => attempting ctx c (writeView i ctx.projectionName viewId event next)
  let result : RebuildResult :=
    { result with
      eventsApplied := result.eventsApplied + 1
      viewsDeleted := result.viewsDeleted + if next.isNone then 1 else 0 }
  reportProgress ctx result.eventsApplied
  pure result

def replayEvent (i : ι) (stored : Event J) (result : RebuildResult) :
    Program ι J Infra RebuildResult := do
  let result := { result with eventsRead := result.eventsRead + 1 }
  let event ← Async.ofExcept (upcastForReplay ctx stored)
  match ctx.projection.on.get event.name with
  | none => pure result
  | some handler => applyEvent ctx i handler event result

/-- `for await (let event of eventReader.read())` -/
def replay (i : ι) : List (Event J) → RebuildResult → Program ι J Infra RebuildResult
  | [], result => do
      Async.call fun c => attempting ctx c (pure ())
      pure result
  | event :: rest, result => do
      Async.call fun c => attempting ctx c (pure ())
      let result ← replayEvent ctx i event result
      replay i rest result

def rebuildProjectionImpl (i : ι) : Program ι J Infra RebuildResult := do
  Async.call fun _ => detach ctx i
  Async.tryFinally
    (do
      Async.call fun c => attempting ctx c (truncate ctx)
      replay ctx i ctx.events ⟨0, 0, 0⟩)
    (Async.call fun _ => reattach ctx i)

/-! ## Domain.rebuildProjection -/

inductive Persistence (J : Type) where
  /-- `readable`: it has a `read` method. -/
  | eventSourced (readable : Bool) (store : EventStore J)
  | stateStored

/-- `InMemoryEventSourcedAggregatePersistence.read` -/
def read (store : EventStore J) : List (Event J) := store.values.flatten

/-- `p.read`, if it is a function. -/
def Persistence.read? : Persistence J → Option (List (Event J))
  | .eventSourced true store => some (read store)
  | _ => none

structure WriteSide (J : Type) where
  /-- The aggregates of the definition, with their upcasters. -/
  aggregates : List (String × Option (UpcasterMap J))
  /-- The persistence that an aggregate is resolved to, if it is. -/
  resolve : String → Option Nat
  persistence : Nat → Persistence J
  /-- What `persistenceAdapter.eventReader` yields, if there is one. -/
  eventReader : Option (List (Event J))

variable (writeSide : WriteSide J)

/-- The first persistence, in the order of the aggregates, that can be read. -/
def WriteSide.fallback : Option Nat :=
  (writeSide.aggregates.filterMap fun aggregate => writeSide.resolve aggregate.1).find?
    fun p => (writeSide.persistence p).read?.isSome

def WriteSide.resolveReader : Option (List (Event J)) :=
  match writeSide.eventReader with
  | some events => some events
  | none => writeSide.fallback.bind fun p => (writeSide.persistence p).read?

def WriteSide.upcasters (aggregateName : String) : Option (UpcasterMap J) :=
  (writeSide.aggregates.find? fun aggregate => aggregate.1 = aggregateName).bind Prod.snd

structure RebuildOptions where
  progressInterval : Option Nat
  mayReject : Bool

def projectionNotFound (name : String) : Err :=
  .error s!"Projection \"{name}\" is not registered in this domain."

def strongConsistencyRebuild (name : String) : Err :=
  .error s!"Projection \"{name}\" uses strong consistency and cannot be rebuilt. v1 supports eventual-consistency projections only."

def missingViewStoreFactory (name : String) : Err :=
  .error s!"Projection \"{name}\" has no viewStore factory configured. Set DomainWiring.projections[\"{name}\"].viewStore to enable rebuild."

def eventReaderUnavailable : Err :=
  .error "No EventReader is available. Provide a persistenceAdapter.eventReader or use InMemoryEventSourcedAggregatePersistence (which implements EventReader structurally)."

variable (domain : Domain J Infra)

/-- The handlers that a rebuild of the projection detaches. -/
def Domain.subscriptionsOf (domain : Domain J Infra) (name : String) :
    List (String × Handler) :=
  match domain.resolvedProjections.get name with
  | none => []
  | some projection => (domain.subscribedTo name projection).map fun eventName =>
      (eventName, .projection name eventName)

/-- The context of a rebuild, or the error with which it is refused. -/
def rebuildContext (name : String) (options : RebuildOptions) :
    Except Err (RebuildContext J Infra) :=
  match domain.resolvedProjections.get name with
  | none => .error (projectionNotFound name)
  | some projection =>
      if projection.consistency = .strong then .error (strongConsistencyRebuild name)
      else if domain.hasViewStore name = false then .error (missingViewStoreFactory name)
      else
        match writeSide.resolveReader with
        | none => .error eventReaderUnavailable
        | some events =>
            if options.progressInterval = some 0 then
              .error (.error "progressInterval must be a positive integer, got 0")
            else .ok
              { projectionName := name
                projection
                events
                subscriptions := (domain.subscribedTo name projection).map fun eventName =>
                  (eventName, .projection name eventName)
                aggregateUpcasters := writeSide.upcasters
                progressInterval := options.progressInterval.getD 1000
                mayReject := options.mayReject }

def rebuildProjection (i : ι) (name : String) (options : RebuildOptions) :
    Program ι J Infra RebuildResult := do
  let ctx ← Async.ofExcept (rebuildContext writeSide domain name options)
  rebuildProjectionImpl ctx i

end Noddde.ReadModel
