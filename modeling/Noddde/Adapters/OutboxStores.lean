import Noddde.Adapters.Timestamps
/-!
# Marking outbox entries by event id

The outbox stores next to that of Drizzle: in memory, of Prisma and of TypeORM.  Drizzle and
Prisma keep the event id in a column of its own; TypeORM reads the events of the oldest
unpublished entries.
-/

namespace Noddde.Adapters

variable {N : Type}

/-! ## In memory -/

namespace InMemoryOutboxStore

abbrev Entries (N : Type) := InsertionMap String (JsonOutboxEntry N)

def markPublishedByEventIds (eventIds : List JsString) (now : Instant) (entries : Entries N) :
    Entries N :=
  entries.mapValues fun entry =>
    if entry.publishedAt = none ∧
        ∃ eventId ∈ DrizzleOutboxStore.eventId entry.event, eventIds.contains eventId then
      { entry with publishedAt := some (some now) }
    else entry

end InMemoryOutboxStore

variable [Json.Number N]

/-! ## Prisma -/

namespace PrismaOutboxStore

structure Row where
  id : String
  event : JsString
  eventId : Option JsString
  aggregateName : Option String
  aggregateId : Option String
  createdAt : JsDate
  publishedAt : Option JsDate
  deriving DecidableEq

def toRow (entry : JsonOutboxEntry N) : Row where
  id := entry.id
  event := entry.event.stringify
  eventId := DrizzleOutboxStore.eventId entry.event
  aggregateName := entry.aggregateName
  aggregateId := entry.aggregateId
  createdAt := entry.createdAt
  publishedAt := entry.publishedAt

def markPublishedByEventIds (eventIds : List JsString) (now : Instant) (table : List Row) :
    List Row :=
  if eventIds.length = 0 then table
  else table.map fun row =>
    if (∃ eventId ∈ row.eventId, eventIds.contains eventId) ∧ row.publishedAt = none then
      { row with publishedAt := some (some now) }
    else row

end PrismaOutboxStore

/-! ## TypeORM -/

namespace TypeORMOutboxStore

structure Row where
  id : String
  event : JsString
  aggregateName : Option String
  aggregateId : Option String
  createdAt : JsDate
  publishedAt : Option JsDate
  deriving DecidableEq

def toRow (entry : JsonOutboxEntry N) : Row where
  id := entry.id
  event := entry.event.stringify
  aggregateName := entry.aggregateName
  aggregateId := entry.aggregateId
  createdAt := entry.createdAt
  publishedAt := entry.publishedAt

def ofRow (row : Row) : Except StoreError (JsonOutboxEntry N) :=
  match Json.parse row.event with
  | some event =>
      .ok { id := row.id
            event
            aggregateName := row.aggregateName
            aggregateId := row.aggregateId
            createdAt := row.createdAt
            publishedAt := row.publishedAt }
  | none => .error .invalidJson

/-- `ORDER BY created_at ASC`, which leaves the order of rows of one time to the database. -/
structure ByCreatedAt where
  order : List Row → List Row
  perm : ∀ rows, (order rows).Perm rows
  sorted : ∀ rows, (order rows).Pairwise fun row row' =>
    ∀ t ∈ row.createdAt, ∀ t' ∈ row'.createdAt, t.ms ≤ t'.ms

/-- `WHERE published_at IS NULL ORDER BY created_at ASC` -/
def unpublished (byCreatedAt : ByCreatedAt) (table : List Row) : List Row :=
  byCreatedAt.order (table.filter fun row => row.publishedAt.isNone)

def loadUnpublished (byCreatedAt : ByCreatedAt) (batchSize : Nat) (table : List Row) :
    Except StoreError (List (JsonOutboxEntry N)) :=
  ((unpublished byCreatedAt table).take batchSize).mapM ofRow

def markPublished (ids : List String) (now : Instant) (table : List Row) : List Row :=
  if ids.length = 0 then table
  else table.map fun row =>
    if row.id ∈ ids then { row with publishedAt := some (some now) } else row

/-- `e.event?.metadata?.eventId && eventIdSet.has(e.event.metadata.eventId)` -/
def hasListedEventId (eventIds : List JsString) (entry : JsonOutboxEntry N) : Bool :=
  (DrizzleOutboxStore.eventId entry.event).any fun eventId =>
    !eventId.isEmpty && eventIds.contains eventId

variable (N) in
def markPublishedByEventIds (byCreatedAt : ByCreatedAt) (eventIds : List JsString)
    (now : Instant) (table : List Row) : Except StoreError (List Row) :=
  if eventIds.length = 0 then .ok table
  else do
    let unpublished : List (JsonOutboxEntry N) ← loadUnpublished byCreatedAt 10000 table
    let matchingIds := (unpublished.filter (hasListedEventId eventIds)).map (·.id)
    if matchingIds.length > 0 then .ok (markPublished matchingIds now table)
    else .ok table

end TypeORMOutboxStore

end Noddde.Adapters
