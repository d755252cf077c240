import Noddde.Core.Aggregate
import Noddde.Data.InsertionMap
import Mathlib.Data.List.Sort
/-!
# The in-memory stores

Each method of a store is one synchronous segment: a function of the store's
content.  All stores keep an instance under its composite key.
-/

namespace Noddde

variable {J : Type}

/-! ## InMemoryEventSourcedAggregatePersistence -/

abbrev EventStore (J : Type) := InsertionMap String (List (Event J))

namespace EventStore

variable (store : EventStore J)

/-- The stream kept under a key, `[]` if there is none. -/
def stream (key : String) : List (Event J) := (store.get key).getD []

def load (aggregateName : String) (aggregateId : ID) : List (Event J) :=
  stream store (compositeKey aggregateName aggregateId)

def loadAfterVersion (aggregateName : String) (aggregateId : ID)
    (afterVersion : Nat) : List (Event J) :=
  (stream store (compositeKey aggregateName aggregateId)).drop afterVersion

def save (aggregateName : String) (aggregateId : ID) (events : List (Event J))
    (expectedVersion : Nat) : Except Err (EventStore J) :=
  if events.length = 0 then .ok store
  else
    let key := compositeKey aggregateName aggregateId
    let existing := stream store key
    if existing.length ≠ expectedVersion then
      .error (.concurrency aggregateName aggregateId expectedVersion existing.length)
    else .ok (store.set key (existing ++ events))

/-- What a successful save did: nothing to other keys, an append to its own. -/
theorem stream_of_save {store store' : EventStore J} {aggregateName : String}
    {aggregateId : ID} {events : List (Event J)} {expectedVersion : Nat}
    (h : save store aggregateName aggregateId events expectedVersion = .ok store')
    (key : String) :
    stream store' key =
      if key = compositeKey aggregateName aggregateId
      then stream store key ++ events else stream store key := by
  simp only [save] at h
  split_ifs at h with hempty hversion
  · obtain rfl := Except.ok.inj h
    simp [List.length_eq_zero_iff.mp hempty]
  · obtain rfl := Except.ok.inj h
    simp only [stream, InsertionMap.get_set]
    split_ifs with hkey
    · simp [hkey]
    · rfl

theorem version_of_save {store store' : EventStore J} {aggregateName : String}
    {aggregateId : ID} {events : List (Event J)} {expectedVersion : Nat}
    (h : save store aggregateName aggregateId events expectedVersion = .ok store')
    (hevents : events ≠ []) :
    (stream store (compositeKey aggregateName aggregateId)).length = expectedVersion := by
  simp only [save] at h
  split_ifs at h with hempty hversion
  · exact absurd (List.length_eq_zero_iff.mp hempty) hevents
  · simpa using hversion

theorem save_eq_ok {aggregateName : String} {aggregateId : ID}
    {events : List (Event J)} {expectedVersion : Nat}
    (h : (stream store (compositeKey aggregateName aggregateId)).length =
      expectedVersion) :
    ∃ store', save store aggregateName aggregateId events expectedVersion =
      .ok store' := by
  unfold save
  split_ifs with hempty
  · exact ⟨_, rfl⟩
  · exact ⟨_, by simp only [ne_eq, h, not_true, if_false]; rfl⟩

end EventStore

/-! ## InMemoryStateStoredAggregatePersistence, InMemorySagaPersistence

Both keep `{ state, version }` and share the version rule. -/

structure StoredState (J : Type) where
  state : J
  version : Nat
  deriving DecidableEq, Repr

abbrev StateStore (J : Type) := InsertionMap String (StoredState J)

namespace StateStore

variable (store : StateStore J)

def load (name : String) (id : ID) : Option (StoredState J) :=
  store.get (compositeKey name id)

/-- `existing?.version ?? 0` -/
def version (key : String) : Nat := ((store.get key).map (·.version)).getD 0

def save (name : String) (id : ID) (state : J) (expectedVersion : Nat) :
    Except Err (StateStore J) :=
  let key := compositeKey name id
  let actualVersion := version store key
  if actualVersion ≠ expectedVersion then
    .error (.concurrency name id expectedVersion actualVersion)
  else .ok (store.set key { state, version := expectedVersion + 1 })

theorem get_of_save {store store' : StateStore J} {name : String} {id : ID} {state : J}
    {expectedVersion : Nat} (h : save store name id state expectedVersion = .ok store')
    (key : String) :
    store'.get key =
      if key = compositeKey name id
      then some { state, version := expectedVersion + 1 } else store.get key := by
  simp only [save] at h
  split_ifs at h with hversion
  obtain rfl := Except.ok.inj h
  exact InsertionMap.get_set _ _ _ _

theorem save_eq_ok {name : String} {id : ID} {expectedVersion : Nat}
    (h : version store (compositeKey name id) = expectedVersion) (state : J) :
    save store name id state expectedVersion =
      .ok (store.set (compositeKey name id) { state, version := expectedVersion + 1 }) := by
  simp [save, h]

end StateStore

/-! ## InMemorySnapshotStore -/

structure Snapshot (J : Type) where
  state : J
  version : Nat
  deriving DecidableEq, Repr

abbrev SnapshotStore (J : Type) := InsertionMap String (Snapshot J)

def SnapshotStore.load (store : SnapshotStore J) (aggregateName : String)
    (aggregateId : ID) : Option (Snapshot J) :=
  store.get (compositeKey aggregateName aggregateId)

def SnapshotStore.save (store : SnapshotStore J) (aggregateName : String)
    (aggregateId : ID) (snapshot : Snapshot J) : SnapshotStore J :=
  store.set (compositeKey aggregateName aggregateId) snapshot

/-! ## InMemoryIdempotencyStore -/

structure IdempotencyRecord where
  commandId : ID
  aggregateName : String
  aggregateId : ID
  processedAt : Nat
  deriving DecidableEq, Repr

abbrev IdempotencyStore := InsertionMap String IdempotencyRecord

namespace IdempotencyStore

/-- The live record of a command, after the lazy removal of an expired one. -/
def getLiveRecord (store : IdempotencyStore) (ttlMs : Option Nat) (now : Nat)
    (commandId : ID) : Option IdempotencyRecord × IdempotencyStore :=
  let key := commandId.render
  match store.get key with
  | none => (none, store)
  | some record =>
      match ttlMs with
      | none => (some record, store)
      | some ttlMs =>
          if now - record.processedAt > ttlMs then (none, store.delete key)
          else (some record, store)

def exists' (store : IdempotencyStore) (ttlMs : Option Nat) (now : Nat)
    (commandId : ID) : Bool × IdempotencyStore :=
  ((getLiveRecord store ttlMs now commandId).1.isSome,
    (getLiveRecord store ttlMs now commandId).2)

def save (store : IdempotencyStore) (ttlMs : Option Nat) (now : Nat)
    (record : IdempotencyRecord) : Except Err Unit × IdempotencyStore :=
  match getLiveRecord store ttlMs now record.commandId with
  | (some _, store) => (.error (.idempotencyConflict record.commandId), store)
  | (none, store) => (.ok (), store.set record.commandId.render record)

end IdempotencyStore

/-! ## InMemoryViewStore -/

abbrev ViewStore (J : Type) := InsertionMap String J

/-! ## InMemoryOutboxStore -/

structure OutboxEntry (J : Type) where
  id : String
  event : Event J
  aggregateName : Option String
  aggregateId : Option String
  createdAt : Nat
  publishedAt : Option Nat
  deriving DecidableEq, Repr

abbrev OutboxStore (J : Type) := InsertionMap String (OutboxEntry J)

namespace OutboxStore

variable (store : OutboxStore J)

def save (entries : List (OutboxEntry J)) : OutboxStore J :=
  entries.foldl (fun store entry => store.set entry.id entry) store

def loadUnpublished (batchSize : Nat) : List (OutboxEntry J) :=
  let unpublished := store.values.filter fun entry => entry.publishedAt.isNone
  (unpublished.mergeSort fun a b => decide (a.createdAt ≤ b.createdAt)).take batchSize

def markPublished (now : Nat) (ids : List String) : OutboxStore J :=
  ids.foldl (fun store id =>
    match store.get id with
    | some entry =>
        if entry.publishedAt = none
        then store.set id { entry with publishedAt := some now } else store
    | none => store) store

def markPublishedByEventIds (now : Nat) (eventIds : List String) : OutboxStore J :=
  store.mapValues fun entry =>
    if entry.publishedAt = none ∧ ∃ eventId ∈ entry.event.eventId?, eventId ∈ eventIds
    then { entry with publishedAt := some now } else entry

end OutboxStore

end Noddde
