import Noddde.Adapters.Driver
import Mathlib.Data.List.Sort
/-!
# The event stores on SQL tables

Three classes append events to a table with a unique index on aggregate name, aggregate
id and sequence number.  What they write into the payload and metadata columns, and how
they read it back, is a matter of its own.
-/

namespace Noddde.Adapters

variable {N : Type}

/-- An event as the adapters see it. -/
structure JsonEvent (N : Type) where
  name : String
  payload : Json N
  metadata : Option (Json N)

/-- The payload is a value and the metadata, if there is any, an object. -/
def JsonEvent.Proper (event : JsonEvent N) : Prop :=
  event.payload.Proper ∧
    ∀ metadata ∈ event.metadata, metadata.Proper ∧ ∃ fields, metadata = .object fields

/-- The events that the stores are given. -/
abbrev ProperEvent (N : Type) := { event : JsonEvent N // event.Proper }

/-- A row of the events table.  A text column holds a string, `null` is `NULL`. -/
structure EventRow (N : Type) where
  aggregateName : String
  aggregateId : String
  sequenceNumber : Nat
  eventName : String
  payload : Json N
  metadata : Json N

/-- The columns of the unique index. -/
def EventRow.key (row : EventRow N) : String × String × Nat :=
  (row.aggregateName, row.aggregateId, row.sequenceNumber)

abbrev EventTable (N : Type) := List (EventRow N)

/-! ## Statements -/

namespace EventTable

/-- `INSERT` of several rows, all or none: `none` if the index is violated. -/
def insertMany (rows : List (EventRow N)) (table : EventTable N) : Option (EventTable N) :=
  if ((table ++ rows).map EventRow.key).Nodup then some (table ++ rows) else none

/-- `ORDER BY sequence_number ASC` -/
def orderBySequence (rows : List (EventRow N)) : List (EventRow N) :=
  rows.insertionSort fun row row' => row.sequenceNumber ≤ row'.sequenceNumber

/-- `SELECT ... WHERE` it is the stream of the instance. -/
def select (aggregateName aggregateId : String) (table : EventTable N) : List (EventRow N) :=
  orderBySequence
    (table.filter fun row => row.aggregateName = aggregateName ∧ row.aggregateId = aggregateId)

/-- `select`, with `sequence_number > afterVersion` besides. -/
def selectAfter (aggregateName aggregateId : String) (afterVersion : Nat)
    (table : EventTable N) : List (EventRow N) :=
  orderBySequence
    (table.filter fun row =>
      (row.aggregateName = aggregateName ∧ row.aggregateId = aggregateId) ∧
        afterVersion < row.sequenceNumber)

end EventTable

/-! ## Columns -/

section Columns

variable [Json.Number N]

/-- How a class writes and reads the payload and metadata columns. -/
structure EventFormat (N : Type) where
  payload : Json N → Json N
  metadata : Option (Json N) → Json N
  deserialize : EventRow N → Except StoreError (JsonEvent N)

def deserializeEvent (row : EventRow N) : Except StoreError (JsonEvent N) := do
  let payload ← parseColumn row.payload
  match row.metadata with
  | .null => .ok { name := row.eventName, payload, metadata := none }
  | column =>
      let metadata ← parseColumn column
      match metadata with
      | .null => .ok { name := row.eventName, payload, metadata := none }
      | metadata => .ok { name := row.eventName, payload, metadata := some metadata }

def DrizzleEventSourcedAggregatePersistence.format (nativeJson : Bool) : EventFormat N where
  payload payload := if nativeJson then payload else serialize payload
  metadata metadata :=
    if nativeJson then metadata.getD .null else serialize (metadata.getD .null)
  deserialize := deserializeEvent

/-- The columns of Prisma and of TypeORM. -/
def textFormat : EventFormat N where
  payload := serialize
  metadata metadata := metadata.elim .null serialize
  deserialize row := do
    let payload ← parseText row.payload
    match row.metadata with
    | .null => .ok { name := row.eventName, payload, metadata := none }
    | column =>
        let metadata ← parseText column
        .ok { name := row.eventName, payload, metadata := some metadata }

def PrismaEventSourcedAggregatePersistence.format : EventFormat N := textFormat

def TypeORMEventSourcedAggregatePersistence.format : EventFormat N := textFormat

end Columns

/-! ## The classes -/

/-- An event store: its ORM, what the ORM's driver reports, and its columns. -/
structure EventStores (N : Type) where
  orm : Orm
  driver : Driver orm
  format : EventFormat N

namespace EventStores

variable (stores : EventStores N) (aggregateName aggregateId : String)

def rows (events : List (JsonEvent N)) (expectedVersion : Nat) : List (EventRow N) :=
  events.mapIdx fun index event =>
    { aggregateName
      aggregateId
      sequenceNumber := expectedVersion + index + 1
      eventName := event.name
      payload := stores.format.payload event.payload
      metadata := stores.format.metadata event.metadata }

def save (events : List (JsonEvent N)) (expectedVersion : Nat) (table : EventTable N) :
    Except StoreError Unit × EventTable N :=
  if events.length = 0 then (.ok (), table)
  else
    match table.insertMany (stores.rows aggregateName aggregateId events expectedVersion) with
    | some table => (.ok (), table)
    | none =>
        if stores.orm.isUniqueViolation stores.driver.duplicateKey then
          (.error (.concurrency aggregateName aggregateId expectedVersion (-1)), table)
        else (.error (.driver stores.driver.duplicateKey), table)

def load (table : EventTable N) : Except StoreError (List (JsonEvent N)) :=
  (table.select aggregateName aggregateId).mapM stores.format.deserialize

def loadAfterVersion (afterVersion : Nat) (table : EventTable N) :
    Except StoreError (List (JsonEvent N)) :=
  (table.selectAfter aggregateName aggregateId afterVersion).mapM stores.format.deserialize

end EventStores

/-- `save`, `load` and `loadAfterVersion` of the three classes differ in the ORM and in
the columns. -/
def DrizzleEventSourcedAggregatePersistence [Json.Number N] (driver : Driver .drizzle)
    (nativeJson : Bool) : EventStores N where
  orm := .drizzle
  driver
  format := DrizzleEventSourcedAggregatePersistence.format nativeJson

def PrismaEventSourcedAggregatePersistence [Json.Number N] (driver : Driver .prisma) :
    EventStores N where
  orm := .prisma
  driver
  format := PrismaEventSourcedAggregatePersistence.format

def TypeORMEventSourcedAggregatePersistence [Json.Number N] (driver : Driver .typeORM) :
    EventStores N where
  orm := .typeORM
  driver
  format := TypeORMEventSourcedAggregatePersistence.format

inductive SqlEventStore where
  | drizzle (driver : Driver .drizzle) (nativeJson : Bool)
  | prisma (driver : Driver .prisma)
  | typeORM (driver : Driver .typeORM)

def SqlEventStore.stores [Json.Number N] : SqlEventStore → EventStores N
  | .drizzle driver nativeJson => DrizzleEventSourcedAggregatePersistence driver nativeJson
  | .prisma driver => PrismaEventSourcedAggregatePersistence driver
  | .typeORM driver => TypeORMEventSourcedAggregatePersistence driver

end Noddde.Adapters
