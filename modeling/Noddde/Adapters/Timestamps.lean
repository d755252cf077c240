import Mathlib.Data.List.Sort
import Mathlib.Algebra.Order.Ring.Unbundled.Rat
import Noddde.Adapters.Driver
import Noddde.Data.DateText
import Noddde.Data.JsonText
import Noddde.Async.Machine
/-!
# Timestamps in text columns

The outbox and the idempotency records of the Drizzle adapter on SQLite, where a timestamp
is a text without zone that the host reads again.
-/

namespace Noddde.Adapters

inductive TimestampError where
  | invalidTime
  | store (error : StoreError)

def dbTimestamp (t : Instant) : JsString :=
  DateText.replace DateText.letterZ []
    (DateText.replace DateText.letterT [DateText.space] (DateText.toISOString t))

def toDbTimestamp : JsDate → Except TimestampError JsString
  | some t => .ok (dbTimestamp t)
  | none => .error .invalidTime

/-! ## The outbox -/

structure JsonOutboxEntry (N : Type) where
  id : String
  event : Json N
  aggregateName : Option String := none
  aggregateId : Option String := none
  createdAt : JsDate
  publishedAt : Option JsDate := none

/-- The entries that the store is given. -/
abbrev ProperEntry (N : Type) := { entry : JsonOutboxEntry N // entry.event.Proper }

structure OutboxRow where
  id : String
  event : JsString
  eventId : Option JsString
  aggregateName : Option String
  aggregateId : Option String
  createdAt : JsString
  publishedAt : Option JsString
  deriving DecidableEq

abbrev OutboxTable := List OutboxRow

namespace DrizzleOutboxStore

variable {N : Type} [Json.Number N]

/-- `e.event?.metadata?.eventId ?? null`, a string if there is one. -/
def eventId (event : Json N) : Option JsString :=
  match Json.optionalProperty "eventId" (event.property "metadata") with
  | some (.string eventId) => some eventId
  | _ => none

/-- `date ? toDbTimestamp(date) : null` -/
def optionalTimestamp : Option JsDate → Except TimestampError (Option JsString)
  | none => .ok none
  | some date => (toDbTimestamp date).map some

def toRow (entry : JsonOutboxEntry N) : Except TimestampError OutboxRow := do
  let createdAt ← toDbTimestamp entry.createdAt
  let publishedAt ← optionalTimestamp entry.publishedAt
  .ok { id := entry.id
        event := entry.event.stringify
        eventId := eventId entry.event
        aggregateName := entry.aggregateName
        aggregateId := entry.aggregateId
        createdAt
        publishedAt }

def save (driver : Driver .drizzle) (entries : List (JsonOutboxEntry N)) (table : OutboxTable) :
    Except TimestampError OutboxTable :=
  if entries.length = 0 then .ok table
  else do
    let rows ← entries.mapM toRow
    if ((table ++ rows).map OutboxRow.id).Nodup then .ok (table ++ rows)
    else .error (.store (.driver driver.duplicateKey))

def ofRow (zone : Zone) (row : OutboxRow) : Except TimestampError (JsonOutboxEntry N) :=
  match Json.parse row.event with
  | some event =>
      .ok { id := row.id
            event
            aggregateName := row.aggregateName
            aggregateId := row.aggregateId
            createdAt := DateText.parse zone row.createdAt
            publishedAt := row.publishedAt.map (DateText.parse zone) }
  | none => .error (.store .invalidJson)

/-- `WHERE published_at IS NULL ORDER BY created_at ASC`, by the text. -/
def unpublished (table : OutboxTable) : List OutboxRow :=
  (table.filter fun row => row.publishedAt.isNone).insertionSort
    fun row row' => row.createdAt ≤ row'.createdAt

def loadUnpublished (zone : Zone) (batchSize : Nat) (table : OutboxTable) :
    Except TimestampError (List (JsonOutboxEntry N)) :=
  ((unpublished table).take batchSize).mapM (ofRow zone)

def markPublished (ids : List String) (now : Instant) (table : OutboxTable) : OutboxTable :=
  if ids.length = 0 then table
  else table.map fun row =>
    if row.id ∈ ids then { row with publishedAt := some (dbTimestamp now) } else row

def markPublishedByEventIds (eventIds : List JsString) (now : Instant) (table : OutboxTable) :
    OutboxTable :=
  if eventIds.length = 0 then table
  else table.map fun row =>
    if (∃ eventId ∈ row.eventId, eventId ∈ eventIds) ∧ row.publishedAt = none then
      { row with publishedAt := some (dbTimestamp now) }
    else row

def deletePublished (olderThan : Option JsDate) (table : OutboxTable) :
    Except TimestampError OutboxTable := do
  let threshold ← optionalTimestamp olderThan
  .ok (table.filter fun row =>
    !(row.publishedAt.isSome && threshold.all fun threshold => row.createdAt < threshold))

end DrizzleOutboxStore

/-- The table, and the entries that have been saved, the last one first. -/
structure Outbox (N : Type) where
  table : OutboxTable := []
  saved : List (JsonOutboxEntry N) := []

namespace Outbox

variable {N : Type} [Json.Number N]

inductive Call (N : Type) where
  | save (entries : List (ProperEntry N))
  | markPublished (ids : List String) (now : Instant)
  | markPublishedByEventIds (eventIds : List JsString) (now : Instant)
  | deletePublished (olderThan : Option JsDate)

/-- A call that rejects changes nothing. -/
def step (driver : Driver .drizzle) (outbox : Outbox N) : Call N → Option (Outbox N)
  | .save entries =>
      match DrizzleOutboxStore.save driver (entries.map Subtype.val) outbox.table with
      | .ok table =>
          some { table, saved := (entries.map Subtype.val).reverse ++ outbox.saved }
      | .error _ => some outbox
  | .markPublished ids now =>
      some { outbox with table := DrizzleOutboxStore.markPublished ids now outbox.table }
  | .markPublishedByEventIds eventIds now =>
      some { outbox with
        table := DrizzleOutboxStore.markPublishedByEventIds eventIds now outbox.table }
  | .deletePublished olderThan =>
      match DrizzleOutboxStore.deletePublished olderThan outbox.table with
      | .ok table => some { outbox with table }
      | .error _ => some outbox

def savedWith (outbox : Outbox N) (id : String) : Option (JsonOutboxEntry N) :=
  outbox.saved.find? fun entry => entry.id = id

end Outbox

/-! ## The idempotency records -/

/-- `processed_at` of each key. -/
abbrev IdempotencyTable := String → Option JsString

inductive IdempotencyCall where
  | hasProcessed (key : String)
  | markProcessed (key : String)
  deriving DecidableEq, Repr

namespace DrizzleEventIdempotencyStore

/-- `age > ttlMs`, which an age that is `NaN` is not. -/
def isStale (zone : Zone) (ttlMs : ℚ) (now : Instant) (processedAt : JsString) : Bool :=
  match DateText.parse zone processedAt with
  | some date => decide (ttlMs < ((now.ms - date.ms : Int) : ℚ))
  | none => false

def hasProcessed (zone : Zone) (ttlMs : Option ℚ) (key : String) (now : Instant)
    (table : IdempotencyTable) : Bool × IdempotencyTable :=
  match table key with
  | none => (false, table)
  | some processedAt =>
      match ttlMs with
      | none => (true, table)
      | some ttlMs =>
          if isStale zone ttlMs now processedAt then (false, Function.update table key none)
          else (true, table)

def markProcessed (driver : Driver .drizzle) (key : String) (now : Instant)
    (table : IdempotencyTable) : Except StoreError Unit × IdempotencyTable :=
  match table key with
  | none => (.ok (), Function.update table key (some (dbTimestamp now)))
  | some _ =>
      if Drizzle.isUniqueViolation driver.duplicateKey then (.ok (), table)
      else (.error (.driver driver.duplicateKey), table)

/-- What `hasProcessed` answers, of calls that are made at some times one after another. -/
def answers (zone : Zone) (driver : Driver .drizzle) (ttlMs : Option ℚ) :
    List (Instant × IdempotencyCall) → IdempotencyTable → List Bool
  | [], _ => []
  | (now, .hasProcessed key) :: calls, table =>
      (hasProcessed zone ttlMs key now table).1 ::
        answers zone driver ttlMs calls (hasProcessed zone ttlMs key now table).2
  | (now, .markProcessed key) :: calls, table =>
      answers zone driver ttlMs calls (markProcessed driver key now table).2

end DrizzleEventIdempotencyStore

/-! ## What the records are for -/

/-- When each key has first been marked, since it was last found to be too old. -/
abbrev FirstMarks := String → Option Instant

namespace FirstMarks

/-- `hasProcessed` as it should be. -/
def hasProcessed (ttlMs : ℚ) (key : String) (now : Instant) (marks : FirstMarks) :
    Bool × FirstMarks :=
  match marks key with
  | none => (false, marks)
  | some mark =>
      if ((now.ms - mark.ms : Int) : ℚ) ≤ ttlMs then (true, marks)
      else (false, Function.update marks key none)

def markProcessed (key : String) (now : Instant) (marks : FirstMarks) : FirstMarks :=
  if (marks key).isSome then marks else Function.update marks key (some now)

def answers (ttlMs : ℚ) : List (Instant × IdempotencyCall) → FirstMarks → List Bool
  | [], _ => []
  | (now, .hasProcessed key) :: calls, marks =>
      (marks.hasProcessed ttlMs key now).1 :: answers ttlMs calls (marks.hasProcessed ttlMs key now).2
  | (now, .markProcessed key) :: calls, marks => answers ttlMs calls (marks.markProcessed key now)

end FirstMarks

end Noddde.Adapters
