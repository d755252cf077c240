import Noddde.Engine.Locker
/-!
# InMemoryUnitOfWork and its completion hooks

A unit of work buffers thunks and events until its commit, which runs the thunks
one after another.  Whoever owns it runs its completion hooks once it has
settled.
-/

namespace Noddde

variable {J Infra : Type} (wiring : Wiring J Infra)

/-! ## InMemoryUnitOfWork -/

/-- `unitOfWorkFactory()`: no two calls make units of work of one name. -/
def createUow (u : UowRef) : Sync J Unit :=
  .modify (World.setUow u fun uow => { uow with created := true })

def assertNotCompleted (u : UowRef) : Sync J Unit := fun w =>
  if (w.uows u).completed then (.error (.error "UnitOfWork already completed"), w)
  else (.ok (), w)

def enlist (u : UowRef) (dispatch : Option Origin) (operation : Operation J) :
    Sync J Unit := do
  assertNotCompleted u
  .modify (World.setUow u fun uow =>
    { uow with operations := uow.operations ++ [operation] })
  note (.enlisted u dispatch operation)

def deferPublish (u : UowRef) (events : List (Event J)) : Sync J Unit := do
  assertNotCompleted u
  .modify (World.setUow u fun uow =>
    { uow with pendingEvents := uow.pendingEvents ++ events })

/-! ### The enlisted thunks -/

/-- A store method: its update of the world, or its error. -/
def updating (update : World J → Except Err (World J)) : Sync J Unit := fun w =>
  match update w with
  | .ok w' => (.ok (), w')
  | .error e => (.error e, w)

def saveEvents (aggregateName : String) (aggregateId : ID) (events : List (Event J))
    (expectedVersion : Nat) : Sync J Unit :=
  updating fun w =>
    (w.eventStore.save aggregateName aggregateId events expectedVersion).map
      fun eventStore => { w with eventStore }

def saveState (aggregateName : String) (aggregateId : ID) (state : J)
    (expectedVersion : Nat) : Sync J Unit :=
  updating fun w =>
    (StateStore.save w.stateStore aggregateName aggregateId state expectedVersion).map
      fun stateStore => { w with stateStore }

def saveSaga (sagaName : String) (sagaId : ID) (state : J) (expectedVersion : Nat) :
    Sync J Unit :=
  updating fun w =>
    (StateStore.save w.sagaStore sagaName sagaId state expectedVersion).map
      fun sagaStore => { w with sagaStore }

def saveIdempotency (commandId : ID) (aggregateName : String) (aggregateId : ID)
    (now : Nat) : Sync J Unit := fun w =>
  let saved := w.idempotencyStore.save (wiring.idempotency.getD none) now
    { commandId, aggregateName, aggregateId, processedAt := now }
  (saved.1, { w with idempotencyStore := saved.2 })

def saveOutbox (entries : List (OutboxEntry J)) : Sync J Unit :=
  .modify fun w => { w with outboxStore := w.outboxStore.save entries }

/-- `scoped.save(viewId, newView)`, or `scoped.delete(viewId)`. -/
def saveView (projection : String) (viewId : ID) (newView : Option J) : Sync J Unit :=
  .modify fun w =>
    let store := match newView with
      | none => (w.viewStores projection).delete viewId.render
      | some view => (w.viewStores projection).set viewId.render view
    { w with viewStores := Function.update w.viewStores projection store }

/-- The commit loop of `u` has run `operation`. -/
def World.ran (u : UowRef) (operation : Operation J) (w : World J) : World J :=
  (w.setUow u fun uow => { uow with executed := uow.executed ++ [operation] }).note
    (.executed u operation)

/-- The commit of `u` has failed at `operation`. -/
def World.refused (u : UowRef) (operation : Operation J) (e : Err) (w : World J) : World J :=
  (w.setUow u fun uow => { uow with outcome := some false }).note (.refused u operation e)

/-- The last segment of a thunk: `m` decides whether the thunk resolves. -/
def finishing (u : UowRef) (operation : Operation J) (m : Sync J Unit) : Sync J Unit :=
  fun w =>
    match m w with
    | (.ok (), w) => (.ok (), w.ran u operation)
    | (.error e, w) => (.error e, w.refused u operation e)

def projectionHandler (projection : String) (event : Event J) :
    Option (Projection J Infra × ProjectionHandler J Infra) := do
  let projection ← wiring.strongProjections.find? fun p => p.name = projection
  let handler ← projection.on event.name
  pure (projection, handler)

variable [JsValue J]

def reduceView (projection : Projection J Infra) (handler : ProjectionHandler J Infra)
    (u : UowRef) (operation : Operation J) (viewId : ID) (event : Event J) :
    Eff J Infra (Option J) := do
  let currentView ← Async.call fun _ => .read fun w =>
    nullishCoalesce ((w.viewStores projection.name).get viewId.render)
      projection.initialView
  Async.call fun c w =>
    match handler.reduce event currentView c.infra with
    | .ok newView => (.ok newView, w)
    | .error e => (.error e, w.refused u operation e)

def executeOperation (u : UowRef) (operation : Operation J) : Eff J Infra Unit :=
  match operation with
  | .saveEvents aggregateName aggregateId events expectedVersion =>
      Async.call fun _ => finishing u operation
        (saveEvents aggregateName aggregateId events expectedVersion)
  | .saveState aggregateName aggregateId state expectedVersion =>
      Async.call fun _ => finishing u operation
        (saveState aggregateName aggregateId state expectedVersion)
  | .saveIdempotency commandId aggregateName aggregateId =>
      Async.call fun c => finishing u operation
        (saveIdempotency wiring commandId aggregateName aggregateId c.now)
  | .updateView projectionName viewId event =>
      match projectionHandler wiring projectionName event with
      | none => Async.call fun _ => finishing u operation (pure ())
      | some (projection, handler) => do
          let newView ← reduceView projection handler u operation viewId event
          Async.call fun _ => finishing u operation
            (saveView projectionName viewId newView)
  | .saveOutbox entries =>
      Async.call fun _ => finishing u operation (saveOutbox entries)
  | .saveSaga sagaName sagaId state expectedVersion =>
      Async.call fun _ => finishing u operation
        (saveSaga sagaName sagaId state expectedVersion)

/-! ### Commit and rollback -/

def transactionRejects (c : Choice Infra) : Option Err :=
  if wiring.transactionMayReject then c.rejects else none

/-- The commit loop of `u` starts. -/
def World.committing (u : UowRef) (w : World J) : World J :=
  w.setUow u fun uow => { uow with completed := true }

def beginCommit (u : UowRef) : Sync J (List (Operation J)) := do
  assertNotCompleted u
  .modify (World.committing u)
  .read fun w => (w.uows u).operations

/-- The commit of `u` has resolved, or failed at its very end. -/
def World.committed (u : UowRef) (w : World J) : World J :=
  (w.setUow u fun uow => { uow with outcome := some true }).note
    (.committed u (w.uows u).pendingEvents)

def World.commitRejected (u : UowRef) (e : Err) (w : World J) : World J :=
  (w.setUow u fun uow => { uow with outcome := some false }).note (.commitRejected u e)

def endCommit (u : UowRef) (c : Choice Infra) : Sync J (List (Event J)) := fun w =>
  match transactionRejects wiring c with
  | some e => (.error e, w.commitRejected u e)
  | none => (.ok (w.uows u).pendingEvents, w.committed u)

def commit (u : UowRef) : Eff J Infra (List (Event J)) := do
  let operations ← Async.call fun _ => beginCommit u
  Async.forEach (executeOperation wiring u) operations
  Async.call (endCommit wiring u)

/-- The buffers of `u` are discarded. -/
def World.rolledBack (u : UowRef) (w : World J) : World J :=
  (w.setUow u fun uow =>
    { uow with
      completed := true, operations := [], pendingEvents := [],
      outcome := some false }).note (.rolledBack u)

def rollback (u : UowRef) : Eff J Infra Unit :=
  Async.call fun c => do
    assertNotCompleted u
    .modify (World.rolledBack u)
    match transactionRejects wiring c with
    | some e => .raise e
    | none => pure ()

/-- `try { await uow.rollback() } catch {}` -/
def tryRollback (u : UowRef) : Eff J Infra Unit :=
  (rollback wiring u).tryCatch fun _ => pure ()

/-! ## Completion hooks -/

def getOrCreate (u : UowRef) (w : World J) : CompletionHooks J := (w.hooks u).getD {}

def onUowCommitted (u : UowRef) (dispatch : Origin) (hook : Hook J) : Sync J Unit := do
  .modify fun w => w.setHooks u (some
    { getOrCreate u w with onCommitted := (getOrCreate u w).onCommitted ++ [hook] })
  note (.registered u dispatch hook)

def onUowSettled (u : UowRef) (dispatch : Origin) (hook : Hook J) : Sync J Unit := do
  .modify fun w => w.setHooks u (some
    { getOrCreate u w with onSettled := (getOrCreate u w).onSettled ++ [hook] })
  note (.registered u dispatch hook)

def hookEnded (u : UowRef) (hook : Hook J) : Sync J Unit := do
  .modify (World.setFrame u fun frame => { frame with running := frame.running.tail })
  note (.hookRan u hook none)

def hookRejected (u : UowRef) (hook : Hook J) (error : Err) : Sync J Unit := do
  note (.hookRan u hook (some error))
  .raise error

def runHook (u : UowRef) (hook : Hook J) : Eff J Infra Unit :=
  match hook with
  | .saveSnapshot aggregateName aggregateId snapshot =>
      -- best effort: the hook swallows a failing save
      Async.call fun c => do
        match c.rejects with
        | some _ => pure ()
        | none => .modify fun w =>
            { w with
              snapshotStore := w.snapshotStore.save aggregateName aggregateId snapshot }
        hookEnded u hook
  | .release ticket aggregateName aggregateId =>
      Async.call fun c =>
        match Locker.releaseRejects wiring c with
        | some error => hookRejected u hook error
        | none => do
            Locker.release ticket aggregateName aggregateId
            hookEnded u hook

/-- The hooks to run, in order; the registration is cleared. -/
def takeHooks (ambient : Ambient) (u : UowRef) (committed : Bool) :
    Sync J (List (Hook J)) := fun w =>
  let hooks := getOrCreate u w
  let taken := (if committed then hooks.onCommitted else []) ++ hooks.onSettled
  (.ok taken, ((w.setHooks u none).setFrame u fun frame =>
    { frame with running := taken }).note (.hooksTaken u committed ambient.uow taken))

def runUowCompletionHooks (ambient : Ambient) (u : UowRef) (committed : Bool) :
    Eff J Infra Unit := do
  let hooks ← Async.call fun _ => takeHooks ambient u committed
  Async.forEach (runHook wiring u) hooks

/-- The test and set of `hooksRan`; the value of `committed` if the hooks are
still to run. -/
def claimHooks (u : UowRef) : Sync J (Option Bool) := fun w =>
  if (w.frames u).hooksRan then (.ok none, w)
  else (.ok (some (w.frames u).committed), w.setFrame u fun frame =>
    { frame with hooksRan := true })

/-- `runHooksOnce`: a hook failure is logged. -/
def runHooksOnce (ambient : Ambient) (u : UowRef) : Eff J Infra Unit := do
  match ← Async.call fun _ => claimHooks u with
  | none => pure ()
  | some committed =>
      (runUowCompletionHooks wiring ambient u committed).tryCatch fun _ => pure ()

/-- `committed = true` -/
def setCommitted (u : UowRef) : Sync J Unit :=
  .modify (World.setFrame u fun frame => { frame with committed := true })

end Noddde
