import Noddde.Adapters.EventTables
import Noddde.Data.Keyset
/-!
# The event readers on SQL tables

Three generators stream the events table in the order of its auto-increment ids, a page at
a time.
-/

namespace Noddde.Adapters

variable {N : Type}

structure LoggedRow (N : Type) extends EventRow N where
  id : Nat

/-- The events table, while nobody writes to it. -/
structure EventLog (N : Type) where
  rows : List (LoggedRow N)
  positive : ∀ row ∈ rows, 0 < row.id
  nodup : (rows.map LoggedRow.id).Nodup

structure EventReadOptions where
  aggregateName : Option String := none
  deriving DecidableEq, Repr

/-- The condition on the aggregate name.  `options?.aggregateName ? ... : ...` takes the
empty string for no filter. -/
def EventReadOptions.selects (options : EventReadOptions) (row : LoggedRow N) : Bool :=
  match options.aggregateName with
  | none => true
  | some aggregateName => aggregateName == "" || row.aggregateName == aggregateName

namespace EventLog

variable (log : EventLog N)

/-- `WHERE id > cursor`, and the condition on the name, `ORDER BY id ASC LIMIT batchSize`. -/
def page (options : EventReadOptions) (batchSize cursor : Nat) : List (LoggedRow N) :=
  ((log.rows.filter fun row => decide (cursor < row.id) && options.selects row).insertionSort
    fun row row' => row.id ≤ row'.id).take batchSize

/-- What a generator yields and how it ends; `none` if it has not ended after so many
queries. -/
def read (deserialize : EventRow N → Except StoreError (JsonEvent N)) (batchSize : Nat)
    (options : EventReadOptions) (queries : Nat) :
    Option (List (JsonEvent N) × Except StoreError Unit) :=
  Keyset.readPages (log.page options batchSize) LoggedRow.id
    (fun row => deserialize row.toEventRow) batchSize queries 0

end EventLog

variable [Json.Number N]

def DrizzleEventReader.read (batchSize : Nat) (log : EventLog N) :=
  log.read deserializeEvent batchSize

def PrismaEventReader.read (log : EventLog N) := log.read textFormat.deserialize 500

def TypeORMEventReader.read (log : EventLog N) := log.read textFormat.deserialize 500

inductive SqlEventReader where
  | drizzle (batchSize : Nat) (pos : 1 ≤ batchSize)
  | prisma
  | typeORM

namespace SqlEventReader

def batchSize : SqlEventReader → Nat
  | drizzle batchSize _ => batchSize
  | prisma | typeORM => 500

def deserialize : SqlEventReader → EventRow N → Except StoreError (JsonEvent N)
  | drizzle _ _ => deserializeEvent
  | prisma | typeORM => textFormat.deserialize

def read (reader : SqlEventReader) (log : EventLog N) (options : EventReadOptions)
    (queries : Nat) : Option (List (JsonEvent N) × Except StoreError Unit) :=
  match reader with
  | drizzle batchSize _ => DrizzleEventReader.read batchSize log options queries
  | prisma => PrismaEventReader.read log options queries
  | typeORM => TypeORMEventReader.read log options queries

end SqlEventReader

end Noddde.Adapters
