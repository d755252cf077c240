import Noddde.Data.Json
/-!
# What the drivers report

An adapter sees of its database what the driver reports: the error of a violated unique
constraint, and how many rows an update has changed.  Each adapter looks for them in
fields of its own.  A JSON column is a string if it is text, and the value itself if it
is native.
-/

namespace Noddde.Adapters

/-! ## Errors -/

structure ErrorCode where
  code : Option String := none
  errno : Option Nat := none
  number : Option Nat := none
  deriving DecidableEq, Repr

structure DriverError extends ErrorCode where
  message : String
  /-- The error that TypeORM has wrapped. -/
  driverError : Option ErrorCode := none
  deriving DecidableEq, Repr

inductive StoreError where
  | concurrency (name id : String) (expectedVersion : Nat) (actualVersion : Int)
  | driver (error : DriverError)
  /-- The `SyntaxError` of `JSON.parse`. -/
  | invalidJson
  deriving DecidableEq, Repr

/-- `error instanceof ConcurrencyError` -/
def StoreError.isConcurrency : StoreError → Bool
  | .concurrency .. => true
  | _ => false

/-- `message.includes(part)` -/
def includes (message part : String) : Bool :=
  message.toList.tails.any fun tail => part.toList.isPrefixOf tail

/-- A regular expression `/part₁|part₂|.../i` of words. -/
def matchesAny (parts : List String) (message : String) : Bool :=
  parts.any fun part => includes message.toLower part.toLower

/-- The error codes of PostgreSQL, MySQL and SQLite. -/
def ErrorCode.isUniqueViolation (error : ErrorCode) : Bool :=
  error.code == some "23505" || error.code == some "ER_DUP_ENTRY" || error.errno == some 1062 ||
    error.code.any fun code => "SQLITE_CONSTRAINT".toList.isPrefixOf code.toList

def Drizzle.isUniqueViolation (error : DriverError) : Bool :=
  error.toErrorCode.isUniqueViolation ||
    matchesAny ["UNIQUE constraint failed", "unique constraint", "Duplicate entry",
      "duplicate key"] error.message

def TypeORM.hasUniqueViolationCode (error : ErrorCode) : Bool :=
  error.isUniqueViolation || error.number == some 2627 || error.number == some 2601

def TypeORM.isUniqueViolation (error : DriverError) : Bool :=
  TypeORM.hasUniqueViolationCode error.toErrorCode ||
    error.driverError.any TypeORM.hasUniqueViolationCode ||
    matchesAny ["UNIQUE", "duplicate", "unique"] error.message

/-- `"code" in error && error.code === "P2002"` -/
def Prisma.isUniqueViolation (error : DriverError) : Bool := error.code == some "P2002"

/-! ## Results of updates -/

/-- The fields in which the drivers report how many rows an update has changed. -/
structure UpdateResult where
  rowsAffected : Option Nat := none
  changes : Option Nat := none
  rowCount : Option Nat := none
  count : Option Nat := none
  affectedRows : Option Nat := none
  /-- `result[0].affectedRows` -/
  firstAffectedRows : Option Nat := none
  affected : Option Nat := none
  deriving DecidableEq, Repr

def UpdateResult.counts (result : UpdateResult) : List Nat :=
  [result.rowsAffected, result.changes, result.rowCount, result.count, result.affectedRows,
    result.firstAffectedRows, result.affected].filterMap id

def Drizzle.getRowsAffected (result : UpdateResult) : Nat :=
  (result.rowsAffected <|> result.changes <|> result.rowCount <|> result.count <|>
    result.affectedRows <|> result.firstAffectedRows).getD 0

/-! ## Drivers -/

inductive Orm where
  | drizzle
  | prisma
  | typeORM
  deriving DecidableEq, Repr

def Orm.isUniqueViolation : Orm → DriverError → Bool
  | .drizzle => Drizzle.isUniqueViolation
  | .prisma => Prisma.isUniqueViolation
  | .typeORM => TypeORM.isUniqueViolation

def Orm.rowsAffected : Orm → UpdateResult → Option Nat
  | .drizzle, result => some (Drizzle.getRowsAffected result)
  | .prisma, result => result.count
  | .typeORM, result => result.affected

structure Driver (orm : Orm) where
  /-- What an insert throws whose key is taken. -/
  duplicateKey : DriverError
  /-- The answer to an update that has changed so many rows. -/
  updateResult : Nat → UpdateResult
  isUniqueViolation : orm.isUniqueViolation duplicateKey = true
  rowsAffected : ∀ n, orm.rowsAffected (updateResult n) = some n
  /-- Whatever it reports besides is the same. -/
  counts : ∀ n, ∀ count ∈ (updateResult n).counts, count = n

/-! ## Columns -/

section Columns

variable {N : Type} [Json.Number N]

/-- `JSON.stringify(value)`, as a text column holds it. -/
def serialize (value : Json N) : Json N := .string value.stringify

/-- `JSON.parse(column)` -/
def parseText : Json N → Except StoreError (Json N)
  | .string text =>
      match Json.parse text with
      | some value => .ok value
      | none => .error .invalidJson
  | _ => .error .invalidJson

/-- `typeof column === "string" ? JSON.parse(column) : column` -/
def parseColumn (column : Json N) : Except StoreError (Json N) :=
  if column.isString then parseText column else .ok column

end Columns

end Noddde.Adapters
