import Noddde.Adapters.StateTables
/-!
# What a Drizzle save makes of an answer

`save` after its statement has settled: which results and errors of the driver it takes for
a conflict.
-/

namespace Noddde.Adapters

/-- How the statement of a save settles. -/
abbrev DriverAnswer := Except DriverError UpdateResult

def settleSave (isUniqueViolation : DriverError → Bool) (rowsAffected : UpdateResult → Nat)
    (name id : String) (expectedVersion : Nat) (answer : DriverAnswer) :
    Except StoreError Unit :=
  let conflict : StoreError := .concurrency name id expectedVersion (-1)
  if expectedVersion = 0 then
    match answer with
    | .ok _ => .ok ()
    | .error error =>
        if isUniqueViolation error then .error conflict else .error (.driver error)
  else
    match answer with
    | .ok result => if rowsAffected result = 0 then .error conflict else .ok ()
    | .error error => .error (.driver error)

def DrizzleStateStoredAggregatePersistence.settle (aggregateName aggregateId : String)
    (expectedVersion : Nat) (answer : DriverAnswer) : Except StoreError Unit :=
  settleSave Drizzle.isUniqueViolation Drizzle.getRowsAffected aggregateName aggregateId
    expectedVersion answer

def DrizzleSagaPersistence.settle (sagaName sagaId : String) (expectedVersion : Nat)
    (answer : DriverAnswer) : Except StoreError Unit :=
  settleSave DrizzleSagaPersistence.isUniqueViolation DrizzleSagaPersistence.rowsAffected
    sagaName sagaId expectedVersion answer

/-! ## The drivers of Drizzle -/

inductive SqlDriver where
  | betterSqlite3
  | nodePostgres
  | postgresJs
  | mysql2
  deriving DecidableEq, Repr

namespace SqlDriver

def updateResult (n : Nat) : SqlDriver → UpdateResult
  | betterSqlite3 => { changes := some n }
  | nodePostgres => { rowCount := some n }
  | postgresJs => { count := some n }
  | mysql2 => { firstAffectedRows := some n }

/-- The error of an insert whose key is taken, in whatever language the server has. -/
def uniqueViolation (message : String) : SqlDriver → DriverError
  | betterSqlite3 => { code := some "SQLITE_CONSTRAINT_PRIMARYKEY", message }
  | nodePostgres | postgresJs => { code := some "23505", message }
  | mysql2 => { code := some "ER_DUP_ENTRY", errno := some 1062, message }

end SqlDriver

/-! ## The answers of a table -/

variable {N : Type}

def SaveCall.answer (call : SaveCall N) (driver : Driver call.persistence.orm)
    (serialized : Json N) (table : StateTable N) : DriverAnswer :=
  if call.expectedVersion = 0 then
    match table.insert call.key { state := serialized, version := 1 } with
    | some _ => .ok {}
    | none => .error driver.duplicateKey
  else
    .ok (driver.updateResult (table.updateWhere call.key call.expectedVersion
      { state := serialized, version := call.expectedVersion + 1 }).1)

end Noddde.Adapters
