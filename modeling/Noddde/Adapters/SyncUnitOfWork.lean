import Mathlib.Logic.Function.Basic
/-!
# Drizzle's unit of work on a synchronous SQLite driver

There is one connection.  A unit of work brackets its operations with `BEGIN` and
`COMMIT` or `ROLLBACK`, and awaits each of them, so that other code runs in between.
`als.getStore() ?? db` is the same connection for everybody.
-/

namespace Noddde.Adapters

variable {D A E : Type}

/-! ## The connection -/

/-- A statement answers and leaves a database behind, or aborts the transaction. -/
abbrev Statement (D A : Type) := D → A × Option D

structure Connection (D : Type) where
  committed : D
  /-- The database as the open transaction has it. -/
  transaction : Option D := none

namespace Connection

def seen (connection : Connection D) : D := connection.transaction.getD connection.committed

def leave (left : Option D) (connection : Connection D) : Connection D :=
  match left, connection.transaction with
  | none, _ => { connection with transaction := none }
  | some db, none => { connection with committed := db }
  | some db, some _ => { connection with transaction := some db }

/-- `none` where the driver throws. -/
def begin (connection : Connection D) : Option (Connection D) :=
  match connection.transaction with
  | some _ => none
  | none => some { connection with transaction := some connection.committed }

def commit (connection : Connection D) : Option (Connection D) :=
  connection.transaction.map fun db => { committed := db }

def rollback (connection : Connection D) : Option (Connection D) :=
  connection.transaction.map fun _ => { committed := connection.committed }

end Connection

/-! ## SyncCommitMutex -/

/-- Promises are numbered as they are created; the first is resolved from the start. -/
structure SyncCommitMutex where
  queue : Nat := 0
  resolved : List Nat := [0]

namespace SyncCommitMutex

/-- The promise to wait for, and the one to resolve. -/
def run (mutex : SyncCommitMutex) : (Nat × Nat) × SyncCommitMutex :=
  ((mutex.queue, mutex.queue + 1), { mutex with queue := mutex.queue + 1 })

def release (promise : Nat) (mutex : SyncCommitMutex) : SyncCommitMutex :=
  { mutex with resolved := promise :: mutex.resolved }

end SyncCommitMutex

/-! ## DrizzleUnitOfWork -/

/-- An enlisted operation, statement by statement. -/
inductive Operation (D A : Type) where
  | resolve
  | reject
  | statement (statement : Statement D A) (next : A → Operation D A)

inductive CommitCall (D A E : Type) where
  | notCalled
  | queued (previous promise : Nat)
  /-- Within the transaction; the first operation is underway. -/
  | running (promise : Nat) (operations : List (Operation D A))
  | resolved (events : List E)
  | rejected

structure DrizzleUnitOfWork (D A E : Type) where
  operations : List (Operation D A) := []
  pendingEvents : List E := []
  completed : Bool := false
  commitCall : CommitCall D A E := .notCalled

namespace DrizzleUnitOfWork

def assertNotCompleted (uow : DrizzleUnitOfWork D A E) : Except String Unit :=
  if uow.completed then .error "UnitOfWork already completed" else .ok ()

def enlist (operation : Operation D A) (uow : DrizzleUnitOfWork D A E) :
    Except String (DrizzleUnitOfWork D A E) := do
  uow.assertNotCompleted
  .ok { uow with operations := uow.operations ++ [operation] }

def deferPublish (events : List E) (uow : DrizzleUnitOfWork D A E) :
    Except String (DrizzleUnitOfWork D A E) := do
  uow.assertNotCompleted
  .ok { uow with pendingEvents := uow.pendingEvents ++ events }

def commit (mutex : SyncCommitMutex) (uow : DrizzleUnitOfWork D A E) :
    Except String (DrizzleUnitOfWork D A E × SyncCommitMutex) := do
  uow.assertNotCompleted
  let ((previous, promise), mutex) := mutex.run
  .ok ({ uow with completed := true, commitCall := .queued previous promise }, mutex)

def rollback (uow : DrizzleUnitOfWork D A E) : Except String (DrizzleUnitOfWork D A E) := do
  uow.assertNotCompleted
  .ok { uow with completed := true, operations := [], pendingEvents := [] }

end DrizzleUnitOfWork

/-! ## The process -/

/-- What the connection has been told.  A statement comes from a unit of work or from
outside of any. -/
inductive Entry (D : Type) where
  | began (uow : Nat)
  | executed (uow : Option Nat) (seen : D) (left : Option D)
  | committed (uow : Nat)
  | rolledBack (uow : Nat)

/-- The units of one factory and their connection; the latest entry is first. -/
structure SyncSQLite (D A E : Type) where
  connection : Connection D
  mutex : SyncCommitMutex := {}
  units : Nat → DrizzleUnitOfWork D A E := fun _ => {}
  history : List (Entry D) := []

/-- A call on a unit of work, the continuation of a `commit`, or a statement that is
issued outside. -/
inductive SyncAction (D A E : Type) where
  | enlist (uow : Nat) (operation : Operation D A)
  | deferPublish (uow : Nat) (events : List E)
  | commit (uow : Nat)
  | rollback (uow : Nat)
  | resume (uow : Nat)
  | outside (statement : Statement D A)

namespace SyncSQLite

def setUnit (uow : Nat) (unit : DrizzleUnitOfWork D A E) (s : SyncSQLite D A E) :
    SyncSQLite D A E :=
  { s with units := Function.update s.units uow unit }

def setCall (uow : Nat) (call : CommitCall D A E) (s : SyncSQLite D A E) : SyncSQLite D A E :=
  s.setUnit uow { s.units uow with commitCall := call }

/-- `commit` settles, and the mutex goes to the next one. -/
def settle (uow promise : Nat) (call : CommitCall D A E) (s : SyncSQLite D A E) :
    SyncSQLite D A E :=
  { s.setCall uow call with mutex := s.mutex.release promise }

def execute (issuer : Option Nat) (left : Option D) (s : SyncSQLite D A E) :
    SyncSQLite D A E :=
  { s with
    connection := s.connection.leave left
    history := .executed issuer s.connection.seen left :: s.history }

/-- `ROLLBACK`, which may fail if the transaction is aborted, and reject. -/
def rollBack (uow promise : Nat) (s : SyncSQLite D A E) : SyncSQLite D A E :=
  settle uow promise .rejected
    { s with
      connection := s.connection.rollback.getD s.connection
      history := .rolledBack uow :: s.history }

/-- `commitWithSqlStatements` from one await to the next. -/
def resume (uow : Nat) (s : SyncSQLite D A E) : Option (SyncSQLite D A E) :=
  match (s.units uow).commitCall with
  | .queued previous promise =>
      if previous ∈ s.mutex.resolved then
        match s.connection.begin with
        | none => some (s.settle uow promise .rejected)
        | some connection =>
            some (setCall uow (.running promise (s.units uow).operations)
              { s with connection, history := .began uow :: s.history })
      else none
  | .running promise [] =>
      match s.connection.commit with
      | none => some (s.rollBack uow promise)
      | some connection =>
          some (settle uow promise (.resolved (s.units uow).pendingEvents)
            { s with connection, history := .committed uow :: s.history })
  | .running promise (.resolve :: rest) => some (s.setCall uow (.running promise rest))
  | .running promise (.reject :: _) => some (s.rollBack uow promise)
  | .running promise (.statement statement next :: rest) =>
      let (answer, left) := statement s.connection.seen
      some (setCall uow (.running promise (next answer :: rest)) (s.execute (some uow) left))
  | .notCalled | .resolved _ | .rejected => none

/-- A call that throws is no step. -/
def step (s : SyncSQLite D A E) : SyncAction D A E → Option (SyncSQLite D A E)
  | .enlist uow operation =>
      ((s.units uow).enlist operation).toOption.map fun unit => s.setUnit uow unit
  | .deferPublish uow events =>
      ((s.units uow).deferPublish events).toOption.map fun unit => s.setUnit uow unit
  | .commit uow =>
      ((s.units uow).commit s.mutex).toOption.map fun (unit, mutex) =>
        { s.setUnit uow unit with mutex }
  | .rollback uow => (s.units uow).rollback.toOption.map fun unit => s.setUnit uow unit
  | .resume uow => s.resume uow
  | .outside statement => some (s.execute none (statement s.connection.seen).2)

end SyncSQLite

end Noddde.Adapters
