import Noddde.Engine.Store
/-!
# InMemoryEventIdempotencyStore, and the bulk removals

A lookup removes the expired record that it meets; `removeExpired` removes all at once, with
a comparison of its own.
-/

namespace Noddde

/-! ## InMemoryEventIdempotencyStore -/

abbrev EventIdempotencyStore := InsertionMap String Nat

namespace EventIdempotencyStore

def hasProcessed (store : EventIdempotencyStore) (ttlMs : Option Nat) (now : Nat)
    (key : String) : Bool × EventIdempotencyStore :=
  match store.get key with
  | none => (false, store)
  | some recordedAt =>
      match ttlMs with
      | none => (true, store)
      | some ttlMs =>
          if now - recordedAt > ttlMs then (false, store.delete key) else (true, store)

def markProcessed (store : EventIdempotencyStore) (now : Nat) (key : String) :
    EventIdempotencyStore :=
  store.set key now

/-- `recordedAt <= Date.now() - ttlMs` -/
def removeExpired (store : EventIdempotencyStore) (now ttlMs : Nat) : EventIdempotencyStore :=
  store.deleteWhere fun recordedAt => decide (recordedAt + ttlMs ≤ now)

end EventIdempotencyStore

/-! ## InMemoryIdempotencyStore -/

namespace IdempotencyStore

def remove (store : IdempotencyStore) (commandId : ID) : IdempotencyStore :=
  store.delete commandId.render

def removeExpired (store : IdempotencyStore) (now ttlMs : Nat) : IdempotencyStore :=
  store.deleteWhere fun record => decide (record.processedAt + ttlMs ≤ now)

end IdempotencyStore

end Noddde
