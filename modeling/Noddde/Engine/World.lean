import Noddde.Engine.Store
import Noddde.Async.Protocol
/-!
# The state of a process

The stores, the units of work with their completion hooks, the in-memory locks
and the local variables that the closures of one owner share.  The fields
`executed`, `outcome`, `running`, `holder` and `history` are history variables:
segments write them and no segment reads them.
-/

namespace Noddde

/-! ## Names -/

/-- One dispatch of a command: by some caller, as the `index`-th one that the
function of a scope makes, or as a reaction command of a saga execution. -/
inductive Origin where
  | command (n : Nat)
  | scoped (scope index : Nat)
  | reaction (saga index : Nat)
  deriving DecidableEq, Repr

/-- A unit of work, named by who creates it: the `i`-th attempt of a dispatch
(an implicit unit of work), a `withUnitOfWork` scope or a saga execution. -/
inductive UowRef where
  | attempt (dispatch : Origin) (i : Nat)
  | scope (n : Nat)
  | saga (n : Nat)
  deriving DecidableEq, Repr

/-- An implicit unit of work is never put into a scope. -/
def UowRef.implicit : UowRef → Bool
  | .attempt .. => true
  | _ => false

/-- A call of `locker.acquire`, on behalf of the unit of work that the dispatch
joined, if any. -/
structure Ticket where
  dispatch : Origin
  uow : Option UowRef
  deriving DecidableEq, Repr

/-! ## Units of work -/

/-- The thunks that the engine enlists.  A thunk reads the clock when it runs. -/
inductive Operation (J : Type) where
  | saveEvents (aggregateName : String) (aggregateId : ID) (events : List (Event J))
      (expectedVersion : Nat)
  | saveState (aggregateName : String) (aggregateId : ID) (state : J)
      (expectedVersion : Nat)
  | saveIdempotency (commandId : ID) (aggregateName : String) (aggregateId : ID)
  | updateView (projection : String) (viewId : ID) (event : Event J)
  | saveOutbox (entries : List (OutboxEntry J))
  | saveSaga (sagaName : String) (sagaId : ID) (state : J) (expectedVersion : Nat)
  deriving DecidableEq, Repr

structure UnitOfWork (J : Type) where
  /-- The factory has made it. -/
  created : Bool := false
  operations : List (Operation J) := []
  pendingEvents : List (Event J) := []
  completed : Bool := false
  executed : List (Operation J) := []
  /-- Whether its commit resolved, once it is committed or given up. -/
  outcome : Option Bool := none

/-- The closures that the engine registers on a unit of work. -/
inductive Hook (J : Type) where
  | saveSnapshot (aggregateName : String) (aggregateId : ID) (snapshot : Snapshot J)
  | release (ticket : Ticket) (aggregateName : String) (aggregateId : ID)
  deriving DecidableEq, Repr

structure CompletionHooks (J : Type) where
  onCommitted : List (Hook J) := []
  onSettled : List (Hook J) := []

/-- The variables of one `withUnitOfWork` call or saga execution. -/
structure Frame (J : Type) where
  committed : Bool := false
  hooksRan : Bool := false
  /-- The hooks that the running loop has still to finish. -/
  running : List (Hook J) := []

/-! ## Locks -/

structure LockEntry where
  locked : Bool := false
  queue : List Ticket := []
  holder : Option Ticket := none
  deriving DecidableEq, Repr

/-! ## Commands under way -/

/-- Who executes which command. -/
structure Task (J : Type) where
  dispatch : Origin
  aggregateName : String
  command : Command J

abbrev Task.aggregateId {J : Type} (task : Task J) : ID := task.command.targetAggregateId

abbrev Task.key {J : Type} (task : Task J) : String :=
  compositeKey task.aggregateName task.aggregateId

structure Loaded (J : Type) where
  currentState : J
  version : Nat
  isEventSourced : Bool
  /-- `snapshot?.version ?? 0` -/
  lastSnapshotVersion : Nat

/-! ## The history -/

inductive Obs (J : Type) where
  | started (task : Task J) (uow : Option UowRef)
  | settled (dispatch : Origin) (error : Option Err)
  | skipped (dispatch : Origin)
  | loadedSnapshot (task : Task J) (uow : UowRef) (snapshot : Option (Snapshot J))
  | loadedEvents (task : Task J) (uow : UowRef) (loaded : Except Err (Loaded J))
      (stream : List (Event J))
  | loadedState (task : Task J) (uow : UowRef) (loaded : Loaded J)
  | decided (task : Task J) (uow : UowRef) (state : J)
      (newEvents : Except Err (List (Event J)))
  | enlisted (uow : UowRef) (dispatch : Option Origin) (operation : Operation J)
  | contributed (task : Task J) (uow : UowRef) (loaded : Loaded J)
      (newEvents events : List (Event J))
  | executed (uow : UowRef) (operation : Operation J)
  | refused (uow : UowRef) (operation : Operation J) (error : Err)
  | committed (uow : UowRef) (events : List (Event J))
  | commitRejected (uow : UowRef) (error : Err)
  | rolledBack (uow : UowRef)
  | registered (uow : UowRef) (dispatch : Origin) (hook : Hook J)
  | hooksTaken (uow : UowRef) (committed : Bool) (within : Option UowRef)
      (hooks : List (Hook J))
  | hookRan (uow : UowRef) (hook : Hook J) (error : Option Err)
  | dispatchCalled (publisher : Option UowRef) (event : Event J)
  | dispatchResolved (publisher : Option UowRef) (event : Event J)
  | dispatchRejected (publisher : Option UowRef) (event : Event J) (error : Err)
  | batchLoaded (entries : List (OutboxEntry J))
  | acquireCalled (ticket : Ticket) (key : String)
  | acquired (ticket : Ticket) (key : String)
  | lockGranted (ticket : Ticket) (key : String)
  | lockTimedOut (ticket : Ticket) (key : String)
  | released (ticket : Ticket) (key : String)
  | fnSettled (uow : UowRef) (error : Option Err)
  | followUpSettled (uow : UowRef) (error : Option Err)

/-! ## The world -/

structure World (J : Type) where
  eventStore : EventStore J := ∅
  stateStore : StateStore J := ∅
  sagaStore : StateStore J := ∅
  snapshotStore : SnapshotStore J := ∅
  idempotencyStore : IdempotencyStore := ∅
  viewStores : String → ViewStore J := fun _ => ∅
  outboxStore : OutboxStore J := ∅
  uows : UowRef → UnitOfWork J := fun _ => {}
  hooks : UowRef → Option (CompletionHooks J) := fun _ => none
  frames : UowRef → Frame J := fun _ => {}
  locks : String → LockEntry := fun _ => {}
  processing : Bool := false
  /-- How often `uuidv7` was called. -/
  uuids : Nat := 0
  /-- What happened so far, newest first. -/
  history : List (Obs J) := []

/-- What a segment reads from outside the process. -/
structure Choice (Infra : Type) where
  /-- `Date.now()` -/
  now : Nat
  /-- What user code finds in the infrastructure. -/
  infra : Infra
  /-- The error with which a call of foreign code rejects, if it does. -/
  rejects : Option Err
  /-- A timer that is due fires. -/
  timesOut : Bool

abbrev Sync (J : Type) := Segment (World J) Err

abbrev Eff (J Infra : Type) := Async (World J) (Choice Infra) Err

namespace World

variable {J : Type}

def note (o : Obs J) (w : World J) : World J := { w with history := o :: w.history }

def setUow (u : UowRef) (f : UnitOfWork J → UnitOfWork J) (w : World J) : World J :=
  { w with uows := Function.update w.uows u (f (w.uows u)) }

def setHooks (u : UowRef) (hooks : Option (CompletionHooks J)) (w : World J) : World J :=
  { w with hooks := Function.update w.hooks u hooks }

def setFrame (u : UowRef) (f : Frame J → Frame J) (w : World J) : World J :=
  { w with frames := Function.update w.frames u (f (w.frames u)) }

def setLock (key : String) (f : LockEntry → LockEntry) (w : World J) : World J :=
  { w with locks := Function.update w.locks key (f (w.locks key)) }

end World

/-- The error of an outcome. -/
def rejection {α : Type} : Except Err α → Option Err
  | .ok _ => none
  | .error e => some e

/-- Record an observation. -/
def note {J : Type} (o : Obs J) : Sync J Unit := .modify (World.note o)

end Noddde
