import Noddde.Adapters.Driver
import Mathlib.Logic.Function.Basic
/-!
# The state and saga stores on SQL tables

Six classes save a state under the primary key of an instance, each awaited call of the
ORM being one atomic statement.  Five of them are one statement, which inserts the first
version or updates the expected one; the saga store of TypeORM reads first.
-/

namespace Noddde.Adapters

variable {N : Type}

inductive StatePersistence where
  | drizzleStateStored
  | drizzleSaga
  | prismaStateStored
  | prismaSaga
  | typeORMStateStored
  | typeORMSaga
  deriving DecidableEq, Repr

def StatePersistence.orm : StatePersistence → Orm
  | .drizzleStateStored | .drizzleSaga => .drizzle
  | .prismaStateStored | .prismaSaga => .prisma
  | .typeORMStateStored | .typeORMSaga => .typeORM

/-- A call of `save`: the name and the id of an aggregate or of a saga. -/
structure SaveCall (N : Type) where
  persistence : StatePersistence
  name : String
  id : String
  state : Json N
  expectedVersion : Nat

abbrev RowKey := StatePersistence × String × String

def SaveCall.key (call : SaveCall N) : RowKey := (call.persistence, call.name, call.id)

/-- A row without its key.  A text column holds a string. -/
structure StateRow (N : Type) where
  state : Json N
  version : Nat

abbrev StateTable (N : Type) := RowKey → Option (StateRow N)

/-! ## Statements -/

/-- `INSERT`: the table, if the key is not taken. -/
def StateTable.insert (key : RowKey) (row : StateRow N) (table : StateTable N) :
    Option (StateTable N) :=
  match table key with
  | none => some (Function.update table key (some row))
  | some _ => none

/-- `UPDATE ... WHERE` the key and the version are those: how many rows match, and the
table. -/
def StateTable.updateWhere (key : RowKey) (version : Nat) (row : StateRow N)
    (table : StateTable N) : Nat × StateTable N :=
  if (table key).map (·.version) = some version
  then (1, Function.update table key (some row))
  else (0, table)

def StateTable.updateKey (key : RowKey) (row : StateRow N) (table : StateTable N) :
    StateTable N :=
  match table key with
  | none => table
  | some _ => Function.update table key (some row)

/-! ## The classes -/

structure StateStores where
  driver : (persistence : StatePersistence) → Driver persistence.orm
  /-- Whether Drizzle writes the states into native JSON columns. -/
  nativeJson : Bool
  /-- Whether `repo.save` of TypeORM inserts or updates in one statement.  Otherwise it
  looks for the row, and its `INSERT` fails if the row comes to be after that. -/
  upserts : Bool

variable [Json.Number N] (stores : StateStores)

/-- The call settles, and the table is what it is then. -/
abbrev SaveResult (N : Type) := Except StoreError Unit × StateTable N

def insertOrUpdate (isUniqueViolation : DriverError → Bool)
    (rowsAffected : UpdateResult → Option Nat) (serialized : Json N) (call : SaveCall N)
    (table : StateTable N) : SaveResult N :=
  let driver := stores.driver call.persistence
  let conflict : StoreError := .concurrency call.name call.id call.expectedVersion (-1)
  if call.expectedVersion = 0 then
    match table.insert call.key { state := serialized, version := 1 } with
    | some table => (.ok (), table)
    | none =>
        if isUniqueViolation driver.duplicateKey then (.error conflict, table)
        else (.error (.driver driver.duplicateKey), table)
  else
    let (rows, table) := table.updateWhere call.key call.expectedVersion
      { state := serialized, version := call.expectedVersion + 1 }
    if rowsAffected (driver.updateResult rows) = some 0 then (.error conflict, table)
    else (.ok (), table)

def DrizzleStateStoredAggregatePersistence.save : SaveCall N → StateTable N → SaveResult N :=
  fun call =>
    insertOrUpdate stores Drizzle.isUniqueViolation
      (fun result => some (Drizzle.getRowsAffected result))
      (if stores.nativeJson then call.state else serialize call.state) call

def DrizzleSagaPersistence.isUniqueViolation (error : DriverError) : Bool :=
  includes error.message "UNIQUE constraint failed" ||
    includes error.message "unique constraint" || includes error.message "Duplicate entry" ||
    includes error.message "duplicate key"

def DrizzleSagaPersistence.rowsAffected (result : UpdateResult) : Nat :=
  (result.rowsAffected <|> result.changes <|> result.rowCount <|> result.affectedRows <|>
    result.firstAffectedRows).getD 0

def DrizzleSagaPersistence.save : SaveCall N → StateTable N → SaveResult N :=
  fun call =>
    insertOrUpdate stores DrizzleSagaPersistence.isUniqueViolation
      (fun result => some (DrizzleSagaPersistence.rowsAffected result))
      (if stores.nativeJson then call.state else serialize call.state) call

def PrismaStateStoredAggregatePersistence.save : SaveCall N → StateTable N → SaveResult N :=
  fun call =>
    insertOrUpdate stores Prisma.isUniqueViolation (·.count) (serialize call.state) call

def PrismaSagaPersistence.save : SaveCall N → StateTable N → SaveResult N :=
  fun call =>
    insertOrUpdate stores Prisma.isUniqueViolation (·.count) (serialize call.state) call

def TypeORMStateStoredAggregatePersistence.save : SaveCall N → StateTable N → SaveResult N :=
  fun call =>
    insertOrUpdate stores TypeORM.isUniqueViolation (·.affected) (serialize call.state) call

def loadRow (deserialize : Json N → Except StoreError (Json N)) (key : RowKey)
    (table : StateTable N) : Except StoreError (Option (StateRow N)) :=
  match table key with
  | none => .ok none
  | some row => do
      let state ← deserialize row.state
      .ok (some { state, version := row.version })

def DrizzleStateStoredAggregatePersistence.load (aggregateName aggregateId : String) :
    StateTable N → Except StoreError (Option (StateRow N)) :=
  loadRow parseColumn (.drizzleStateStored, aggregateName, aggregateId)

def DrizzleSagaPersistence.load (sagaName sagaId : String) :
    StateTable N → Except StoreError (Option (StateRow N)) :=
  loadRow parseColumn (.drizzleSaga, sagaName, sagaId)

inductive SavePhase (N : Type) where
  | called
  /-- `TypeORMSagaPersistence` has looked for the row and goes on to write. -/
  | saving (existing : Option (StateRow N))
  | settled (outcome : Except StoreError Unit)

namespace TypeORMSagaPersistence

/-- `repo.findOne`, and the checks on what it finds. -/
def find (call : SaveCall N) (table : StateTable N) : SavePhase N :=
  match table call.key with
  | some existing =>
      if existing.version ≠ call.expectedVersion then
        .settled (.error
          (.concurrency call.name call.id call.expectedVersion existing.version))
      else .saving (some existing)
  | none =>
      if call.expectedVersion ≠ 0 then
        .settled (.error (.concurrency call.name call.id call.expectedVersion 0))
      else .saving none

def isUniqueViolation (error : DriverError) : Bool :=
  matchesAny ["UNIQUE", "duplicate", "unique"] error.message

/-- `repo.save` of the loaded entity, which updates by the primary key, or of a new one,
whose key can be taken since it was looked for. -/
def write (call : SaveCall N) (existing : Option (StateRow N)) (table : StateTable N) :
    SaveResult N :=
  let driver := stores.driver call.persistence
  match existing with
  | some _ =>
      (.ok (), table.updateKey call.key
        { state := serialize call.state, version := call.expectedVersion + 1 })
  | none =>
      let row : StateRow N := { state := serialize call.state, version := 1 }
      match table.insert call.key row with
      | some table => (.ok (), table)
      | none =>
          if stores.upserts then (.ok (), table.updateKey call.key row)
          else if isUniqueViolation driver.duplicateKey then
            (.error (.concurrency call.name call.id call.expectedVersion (-1)), table)
          else (.error (.driver driver.duplicateKey), table)

end TypeORMSagaPersistence

/-! ## Interleaved calls -/

variable {ι : Type} [DecidableEq ι]

structure SaveState (ι N : Type) where
  table : StateTable N := fun _ => none
  phases : ι → SavePhase N := fun _ => .called
  /-- History: the calls that have resolved, newest first. -/
  resolved : List ι := []

def SaveState.enter (i : ι) (phase : SavePhase N) (s : SaveState ι N) : SaveState ι N :=
  { s with phases := Function.update s.phases i phase }

def SaveState.settle (i : ι) (result : SaveResult N) (s : SaveState ι N) : SaveState ι N :=
  { s.enter i (.settled result.1) with
    table := result.2
    resolved := if result.1.isOk then i :: s.resolved else s.resolved }

def stepSave (calls : ι → SaveCall N) (s : SaveState ι N) (i : ι) : Option (SaveState ι N) :=
  let call := calls i
  match s.phases i with
  | .called =>
      match call.persistence with
      | .drizzleStateStored =>
          some (s.settle i (DrizzleStateStoredAggregatePersistence.save stores call s.table))
      | .drizzleSaga => some (s.settle i (DrizzleSagaPersistence.save stores call s.table))
      | .prismaStateStored =>
          some (s.settle i (PrismaStateStoredAggregatePersistence.save stores call s.table))
      | .prismaSaga => some (s.settle i (PrismaSagaPersistence.save stores call s.table))
      | .typeORMStateStored =>
          some (s.settle i (TypeORMStateStoredAggregatePersistence.save stores call s.table))
      | .typeORMSaga => some (s.enter i (TypeORMSagaPersistence.find call s.table))
  | .saving existing =>
      some (s.settle i (TypeORMSagaPersistence.write stores call existing s.table))
  | .settled _ => none

/-! ## Snapshots -/

abbrev SnapshotTable (N : Type) := Option (String × String → Option (StateRow N))

namespace DrizzleSnapshotStore

def load (aggregateName aggregateId : String) (table : SnapshotTable N) :
    Except StoreError (Option (StateRow N)) :=
  match table with
  | none => .ok none
  | some rows =>
      match rows (aggregateName, aggregateId) with
      | none => .ok none
      | some row => do
          let state ← parseColumn row.state
          .ok (some { state, version := row.version })

/-- The row is inserted or updated, whichever it takes. -/
def save (nativeJson : Bool) (aggregateName aggregateId : String) (snapshot : StateRow N)
    (table : SnapshotTable N) : SnapshotTable N :=
  let serialized :=
    if nativeJson then snapshot.state
    else if snapshot.state.isString then snapshot.state
    else serialize snapshot.state
  table.map fun rows =>
    Function.update rows (aggregateName, aggregateId)
      (some { state := serialized, version := snapshot.version })

end DrizzleSnapshotStore

end Noddde.Adapters
