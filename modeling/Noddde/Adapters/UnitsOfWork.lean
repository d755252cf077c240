import Mathlib.Data.List.Basic
/-!
# The units of work and their commit paths

Four classes share their buffers and differ in `commit`.  Drizzle's has two paths.  One
unit of work is followed from its construction on: calls come from anywhere, its own
operations included, and the operations and the database settle as they like.  What is
awaited settles in the step in which the code behind the `await` goes on.
-/

namespace Noddde.UnitsOfWork

variable {O E T X : Type}

/-- `InMemoryUnitOfWork`, `DrizzleUnitOfWork` on a synchronous and on any other driver,
`PrismaUnitOfWork` and `TypeORMUnitOfWork`. -/
inductive CommitPath where
  | inMemory
  | drizzleSqlStatements
  | drizzleCallback
  | prisma
  | typeORM
  deriving DecidableEq

/-- What the database answers in the transaction of the unit. -/
structure Driver (T X : Type) where
  /-- `tx`, or `db` on a synchronous driver. -/
  handle : T
  begin : Except X Unit
  commit : Except X Unit
  rollback : Except X Unit
  /-- What `transaction()` rejects with after an error. -/
  rejection : X → X

inductive CommitCall (E X : Type) where
  | notCalled
  /-- Waits for the mutex or for a connection, and for `BEGIN`. -/
  | starting
  | running (position : Nat)
  | committing
  | rollingBack (error : X)
  | resolved (events : List E)
  | rejected (error : X)

structure UnitOfWork (O E T X : Type) where
  operations : List O := []
  pendingEvents : List E := []
  completed : Bool := false
  context : Option T := none
  commitCall : CommitCall E X := .notCalled

/-! ## What is seen of a unit -/

inductive Call (O E : Type) where
  | enlist (operation : O)
  | deferPublish (events : List E)
  | commit
  | rollback

def Call.Ends : Call O E → Prop
  | .commit | .rollback => True
  | .enlist _ | .deferPublish _ => False

inductive Entry (O E X : Type) where
  /-- A call was accepted, or threw. -/
  | called (call : Call O E) (answer : Except String Unit)
  | began (outcome : Except X Unit)
  | invoked (operation : O)
  | settled (outcome : Except X Unit)
  | committed (outcome : Except X Unit)
  | rolledBack (outcome : Except X Unit)

/-- A unit of work and its trace, the oldest entry first. -/
structure Session (O E T X : Type) where
  unit : UnitOfWork O E T X := {}
  trace : List (Entry O E X) := []

namespace Session

def note (entry : Entry O E X) (s : Session O E T X) : Session O E T X :=
  { s with trace := s.trace ++ [entry] }

def setContext (context : Option T) (s : Session O E T X) : Session O E T X :=
  { s with unit := { s.unit with context } }

def setCall (commitCall : CommitCall E X) (s : Session O E T X) : Session O E T X :=
  { s with unit := { s.unit with commitCall } }

/-- `return [...this.pendingEvents]` -/
def returnEvents (s : Session O E T X) : Session O E T X :=
  s.setCall (.resolved s.unit.pendingEvents)

section

variable (entry : Entry O E X) (context : Option T) (commitCall : CommitCall E X)
  (s : Session O E T X)

@[simp] theorem note_unit : (s.note entry).unit = s.unit := rfl

@[simp] theorem setContext_trace : (s.setContext context).trace = s.trace := rfl

@[simp] theorem setContext_unit : (s.setContext context).unit = { s.unit with context } := rfl

@[simp] theorem setCall_trace : (s.setCall commitCall).trace = s.trace := rfl

@[simp] theorem setCall_unit : (s.setCall commitCall).unit = { s.unit with commitCall } := rfl

end

end Session

/-! ## commit -/

section

variable (path : CommitPath) (driver : Driver T X)

def loopResolved (s : Session O E T X) : Session O E T X :=
  match path with
  | .inMemory => s.returnEvents
  | .drizzleSqlStatements =>
      -- `COMMIT`, in the `catch` `ROLLBACK`, and `finally` the context
      match driver.commit with
      | .ok () => ((s.note (.committed driver.commit)).setContext none).returnEvents
      | .error e =>
          (((s.note (.committed driver.commit)).note (.rolledBack driver.rollback)).setContext
            none).setCall (.rejected e)
  | .drizzleCallback =>
      -- the `catch` is not entered, and the context stays
      s.setCall .committing
  | .prisma | .typeORM => (s.setContext none).setCall .committing

def loopRejected (e : X) (s : Session O E T X) : Session O E T X :=
  match path with
  | .inMemory => s.setCall (.rejected e)
  | .drizzleSqlStatements =>
      ((s.note (.rolledBack driver.rollback)).setContext none).setCall (.rejected e)
  | .drizzleCallback | .prisma | .typeORM => (s.setContext none).setCall (.rollingBack e)

/-- `for (const op of this.operations) await op()`, from the given position on to the next
await. -/
def loop (position : Nat) (s : Session O E T X) : Session O E T X :=
  match s.unit.operations[position]? with
  | some operation => (s.note (.invoked operation)).setCall (.running position)
  | none => loopResolved path driver s

/-- What `commit` rejects with where `BEGIN` fails, which is not within a `transaction()` on a
synchronous driver. -/
def beginRejection (e : X) : X :=
  match path with
  | .drizzleSqlStatements => e
  | _ => driver.rejection e

def transactionResolved (s : Session O E T X) : Session O E T X :=
  match path with
  | .drizzleCallback => (s.setContext none).returnEvents
  | _ => s.returnEvents

/-! ## The calls -/

def assertNotCompleted (uow : UnitOfWork O E T X) : Except String Unit :=
  if uow.completed then .error "UnitOfWork already completed" else .ok ()

def commit (s : Session O E T X) : Session O E T X :=
  let s := { s with unit := { s.unit with completed := true } }
  match path with
  | .inMemory => loop path driver 0 s
  | _ => s.setCall .starting

def execute (call : Call O E) (s : Session O E T X) : Session O E T X :=
  match call with
  | .enlist operation =>
      { s with unit := { s.unit with operations := s.unit.operations ++ [operation] } }
  | .deferPublish events =>
      { s with unit := { s.unit with pendingEvents := s.unit.pendingEvents ++ events } }
  | .commit => commit path driver s
  | .rollback =>
      { s with unit := { s.unit with completed := true, operations := [], pendingEvents := [] } }

def answerCall (call : Call O E) (s : Session O E T X) : Session O E T X :=
  match assertNotCompleted s.unit with
  | .error message => s.note (.called call (.error message))
  | .ok () => execute path driver call (s.note (.called call (.ok ())))

/-! ## Steps -/

/-- A call, an answer of the database, or the operation that is awaited settles. -/
inductive Action (O E X : Type) where
  | call (call : Call O E)
  | begin
  | settle (outcome : Except X Unit)
  | commit
  | rollback

def step (s : Session O E T X) : Action O E X → Option (Session O E T X)
  | .call call => some (answerCall path driver call s)
  | .begin =>
      match s.unit.commitCall with
      | .starting =>
          match driver.begin with
          | .ok () =>
              some (loop path driver 0
                ((s.note (.began driver.begin)).setContext (some driver.handle)))
          | .error e =>
              some ((s.note (.began driver.begin)).setCall
                (.rejected (beginRejection path driver e)))
      | _ => none
  | .settle outcome =>
      match s.unit.commitCall with
      | .running position =>
          match outcome with
          | .ok () => some (loop path driver (position + 1) (s.note (.settled outcome)))
          | .error e => some (loopRejected path driver e (s.note (.settled outcome)))
      | _ => none
  | .commit =>
      match s.unit.commitCall with
      | .committing =>
          match driver.commit with
          | .ok () => some (transactionResolved path (s.note (.committed driver.commit)))
          | .error e =>
              some ((s.note (.committed driver.commit)).setCall (.rollingBack e))
      | _ => none
  | .rollback =>
      match s.unit.commitCall with
      | .rollingBack e =>
          some ((s.note (.rolledBack driver.rollback)).setCall
            (.rejected (driver.rejection e)))
      | _ => none

end

end Noddde.UnitsOfWork
