import Noddde.Engine.World
/-!
# Projections, the event bus and the views

An eventual projection subscribes to the event bus and updates its views when an
event is dispatched; the update of a strong one is enlisted into the unit of work
that commits the event.  Both load the view, reduce the event into it and write
the result back, each in a segment of its own.
-/

namespace Noddde.ReadModel

variable {ι J Infra : Type}

/-! ## Projections -/

/-- An entry of the `on` map.  `reduce` answers `none` for `DeleteView`. -/
structure EventHandler (J Infra : Type) where
  id : Option (Event J → Except Err ID)
  reduce : Event J → J → Infra → Except Err (Option J)

inductive Consistency where
  | eventual
  | strong
  deriving DecidableEq, Repr

structure Projection (J Infra : Type) where
  on : InsertionMap String (EventHandler J Infra)
  initialView : J
  consistency : Consistency

/-- `handler.id(event)` -/
def EventHandler.viewId (handler : EventHandler J Infra) (event : Event J) : Except Err ID :=
  match handler.id with
  | some id => id event
  | none => .error (.error "handler.id is not a function")

/-- `event.metadata?.aggregateId` -/
def aggregateId? (event : Event J) : Option ID := event.metadata.bind (·.aggregateId)

/-- The extractor for a handler that has none. -/
def defaultId (projectionName : String) (event : Event J) : Except Err ID :=
  match aggregateId? event with
  | some id => .ok id
  | none => .error (.error
      s!"Projection \"{projectionName}\": handler \"{event.name}\" has no \"id\" function and the event's metadata.aggregateId is missing. Either provide an explicit \"id\" extractor or ensure events carry aggregate metadata.")

def Projection.augment (projectionName : String) (projection : Projection J Infra) :
    Projection J Infra :=
  { projection with
    on := projection.on.mapValues fun handler =>
      match handler.id with
      | some _ => handler
      | none => { handler with id := some (defaultId projectionName) } }

/-! ## The domain -/

/-- What a domain registers on the event bus, and its strong projections. -/
structure Domain (J Infra : Type) where
  projections : InsertionMap String (Projection J Infra)
  /-- The projections for which a view store factory is wired. -/
  hasViewStore : String → Bool
  /-- The sagas, with the event names of their `on` maps. -/
  sagas : List (String × List String)
  standaloneEventHandlers : List String

def Domain.resolvedProjections (domain : Domain J Infra) :
    InsertionMap String (Projection J Infra) :=
  domain.projections.mapEntries fun name projection =>
    if domain.hasViewStore name then projection.augment name else projection

inductive Handler where
  | projection (name eventName : String)
  | saga (name eventName : String)
  | standalone (eventName : String)
  deriving DecidableEq, Repr

namespace Domain

variable (domain : Domain J Infra)

def subscribedTo (name : String) (projection : Projection J Infra) : List String :=
  if projection.consistency = .strong then []
  else if domain.hasViewStore name then
    (projection.on.entries.filter fun entry => entry.2.id.isSome).map Prod.fst
  else []

def projectionSubscriptions : List (String × Handler) :=
  domain.resolvedProjections.entries.flatMap fun entry =>
    (domain.subscribedTo entry.1 entry.2).map fun eventName =>
      (eventName, .projection entry.1 eventName)

def sagaSubscriptions : List (String × Handler) :=
  domain.sagas.flatMap fun saga =>
    saga.2.map fun eventName => (eventName, .saga saga.1 eventName)

def standaloneSubscriptions : List (String × Handler) :=
  domain.standaloneEventHandlers.map fun eventName => (eventName, .standalone eventName)

/-- The calls of `subscribeToEvent`, in the order of `init`. -/
def subscriptions : List (String × Handler) :=
  domain.projectionSubscriptions ++ domain.sagaSubscriptions ++
    domain.standaloneSubscriptions

end Domain

/-! ## The event bus -/

/-- `EventEmitterEventBus.handlers` -/
abbrev Registry := String → List Handler

namespace Registry

variable (registry : Registry)

def on (eventName : String) (handler : Handler) : Registry :=
  Function.update registry eventName (registry eventName ++ [handler])

def off (eventName : String) (handler : Handler) : Registry :=
  Function.update registry eventName ((registry eventName).erase handler)

end Registry

/-- The handlers once `init` has subscribed them. -/
def Domain.init (domain : Domain J Infra) : Registry :=
  domain.subscriptions.foldl (fun registry subscription =>
    registry.on subscription.1 subscription.2) fun _ => []

/-! ## The state -/

/-- An update of a view that has been written. -/
structure Update (ι J : Type) where
  caller : ι
  projection : String
  key : String
  event : Event J

/-- `editing`, `updates` and `rebuilding` are history variables. -/
structure State (ι J : Type) where
  handlers : Registry := fun _ => []
  /-- The view store of each projection. -/
  views : String → ViewStore J := fun _ => ∅
  eventStore : EventStore J := ∅
  /-- The view that a caller has loaded and not yet written. -/
  editing : ι → Option (String × String) := fun _ => none
  /-- The updates so far, newest first. -/
  updates : List (Update ι J) := []
  /-- The caller has detached the handlers of a projection to rebuild it. -/
  rebuilding : ι → Bool := fun _ => false

abbrev Step (ι J : Type) := Segment (State ι J) Err

abbrev Program (ι J Infra : Type) := Async (State ι J) (Choice Infra) Err

/-! ## Updating a view -/

variable [DecidableEq ι] [JsValue J]

def State.edit (i : ι) (view : Option (String × String)) (s : State ι J) : State ι J :=
  { s with editing := Function.update s.editing i view }

/-- `(await viewStore.load(viewId)) ?? projection.initialView` -/
def loadView (i : ι) (name : String) (projection : Projection J Infra) (viewId : ID) :
    Step ι J J := fun s =>
  (.ok (nullishCoalesce ((s.views name).get viewId.render) projection.initialView),
    s.edit i (some (name, viewId.render)))

/-- `await handler.reduce(event, currentView)` -/
def reduceEvent (i : ι) (handler : EventHandler J Infra) (event : Event J) (currentView : J)
    (c : Choice Infra) : Step ι J (Option J) := fun s =>
  match handler.reduce event currentView c.infra with
  | .ok newView => (.ok newView, s)
  | .error error => (.error error, s.edit i none)

/-- `viewStore.save(viewId, newView)`, or `viewStore.delete(viewId)`. -/
def writeStore (store : ViewStore J) (key : String) : Option J → ViewStore J
  | none => store.delete key
  | some view => store.set key view

def writeView (i : ι) (name : String) (viewId : ID) (event : Event J) (newView : Option J) :
    Step ι J Unit :=
  .modify fun s =>
    let store := writeStore (s.views name) viewId.render newView
    { s.edit i none with
      views := Function.update s.views name store
      updates := ⟨i, name, viewId.render, event⟩ :: s.updates }

/-- The read-modify-write that the live path and the commit share. -/
def updateView (i : ι) (name : String) (projection : Projection J Infra)
    (handler : EventHandler J Infra) (viewId : ID) (event : Event J) :
    Program ι J Infra Unit := do
  let currentView ← Async.call fun _ => loadView i name projection viewId
  let newView ← Async.call (reduceEvent i handler event currentView)
  Async.call fun _ => writeView i name viewId event newView

/-! ## Eventual consistency -/

/-- The function that `init` subscribes for a handler of an eventual projection. -/
def boundHandler (i : ι) (name : String) (projection : Projection J Infra)
    (handler : EventHandler J Infra) (event : Event J) : Program ι J Infra Unit := do
  let viewId ← Async.ofExcept (handler.viewId event)
  updateView i name projection handler viewId event

/-- User code, which may reject. -/
def foreign : Program ι J Infra Unit :=
  Async.call fun c =>
    match c.rejects with
    | none => pure ()
    | some error => .raise error

variable (domain : Domain J Infra)

def invoke (i : ι) (event : Event J) : Handler → Program ι J Infra Unit
  | .projection name eventName =>
      match domain.resolvedProjections.get name with
      | none => pure ()
      | some projection =>
          match projection.on.get eventName with
          | none => pure ()
          | some handler => boundHandler i name projection handler event
  | _ => foreign

def busDispatch (i : ι) (event : Event J) : Program ι J Infra Unit := do
  let handlers ← Async.call fun _ => .read fun s => s.handlers event.name
  Async.forEach (fun handler => (invoke domain i event handler).tryCatch fun _ => pure ())
    handlers

/-! ## Strong consistency -/

/-- The thunks of a unit of work.  `other` is one that concerns no view. -/
inductive Operation (J : Type) where
  | saveEvents (aggregateName : String) (aggregateId : ID) (events : List (Event J))
      (expectedVersion : Nat)
  | updateView (name : String) (viewId : ID) (event : Event J)
  | other

/-- The thunks for the events that one strong projection handles. -/
def enlistViews (name : String) (projection : Projection J Infra) :
    List (Event J) → Except Err (List (Operation J))
  | [] => .ok []
  | event :: rest =>
      match projection.on.get event.name with
      | none => enlistViews name projection rest
      | some handler =>
          if handler.id.isSome then do
            let viewId ← handler.viewId event
            let others ← enlistViews name projection rest
            .ok (.updateView name viewId event :: others)
          else enlistViews name projection rest

def Domain.strongProjections : List (String × Projection J Infra) :=
  domain.resolvedProjections.entries.filter fun entry =>
    entry.2.consistency = .strong ∧ domain.hasViewStore entry.1

def enlistProjections (events : List (Event J)) :
    List (String × Projection J Infra) → Except Err (List (Operation J))
  | [] => .ok []
  | (name, projection) :: rest => do
      let operations ← enlistViews name projection events
      let others ← enlistProjections events rest
      .ok (operations ++ others)

/-- The events of a command, with where they are stored. -/
structure Batch (J : Type) where
  aggregateName : String
  aggregateId : ID
  events : List (Event J)
  expectedVersion : Nat
  /-- Whether the command is claimed in the idempotency store. -/
  idempotent : Bool
  outbox : Bool

/-- What a command enlists. -/
def Batch.operations (batch : Batch J) : Except Err (List (Operation J)) := do
  let views ← enlistProjections batch.events domain.strongProjections
  .ok ([.saveEvents batch.aggregateName batch.aggregateId batch.events
      batch.expectedVersion] ++
    (if batch.idempotent then [.other] else []) ++ views ++
    (if batch.outbox then [.other] else []))

def saveEvents (aggregateName : String) (aggregateId : ID) (events : List (Event J))
    (expectedVersion : Nat) : Step ι J Unit := fun s =>
  match s.eventStore.save aggregateName aggregateId events expectedVersion with
  | .ok eventStore => (.ok (), { s with eventStore })
  | .error error => (.error error, s)

def executeOperation (i : ι) : Operation J → Program ι J Infra Unit
  | .saveEvents aggregateName aggregateId events expectedVersion =>
      Async.call fun _ => saveEvents aggregateName aggregateId events expectedVersion
  | .updateView name viewId event =>
      match domain.resolvedProjections.get name with
      | none => pure ()
      | some projection =>
          match projection.on.get event.name with
          | none => pure ()
          | some handler => updateView i name projection handler viewId event
  | .other => foreign

def commitBatch (i : ι) (batch : Batch J) : Program ι J Infra Unit := do
  let operations ← Async.ofExcept (batch.operations domain)
  Async.forEach (executeOperation domain i) operations

end Noddde.ReadModel
