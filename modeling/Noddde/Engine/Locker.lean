import Noddde.Engine.Wiring
/-!
# InMemoryAggregateLocker

Every instance key has a FIFO queue of waiters.  A waiter leaves the queue when
a release hands the lock over to it or when its timer fires.
-/

namespace Noddde

variable {J Infra : Type}

namespace Locker

/-- The lock is free, and `ticket` takes it; otherwise it is queued. -/
def enter (ticket : Ticket) (aggregateName : String) (aggregateId : ID) :
    Sync J Bool := fun w =>
  let key := compositeKey aggregateName aggregateId
  let w := w.note (.acquireCalled ticket key)
  if (w.locks key).locked = false then
    (.ok true, (w.setLock key fun entry =>
      { entry with locked := true, holder := some ticket }).note
        (.acquired ticket key))
  else
    (.ok false, w.setLock key fun entry =>
      { entry with queue := entry.queue ++ [ticket] })

/-- The promise of a queued waiter: it stays pending while the waiter is queued,
unless its timer fires. -/
def waiting (ticket : Ticket) (aggregateName : String) (aggregateId : ID)
    (timeoutMs : Option Nat) (c : Choice Infra) (w : World J) :
    Option (Except Err Unit × World J) :=
  let key := compositeKey aggregateName aggregateId
  if ticket ∈ (w.locks key).queue then
    match timeoutMs with
    | none => none
    | some timeoutMs =>
        if 0 < timeoutMs ∧ c.timesOut then
          some (.error (.lockTimeout aggregateName aggregateId timeoutMs),
            (w.setLock key fun entry =>
              { entry with queue := entry.queue.erase ticket }).note
                (.lockTimedOut ticket key))
        else none
  else some (.ok (), w.note (.lockGranted ticket key))

def acquire (ticket : Ticket) (aggregateName : String) (aggregateId : ID)
    (timeoutMs : Option Nat) : Eff J Infra Unit := do
  let entered ← Async.call fun _ => enter ticket aggregateName aggregateId
  if entered then pure ()
  else Async.await (waiting ticket aggregateName aggregateId timeoutMs)

/-- `ticket` is the one that the caller acquired the lock with. -/
def release (ticket : Ticket) (aggregateName : String) (aggregateId : ID) :
    Sync J Unit := fun w =>
  let key := compositeKey aggregateName aggregateId
  let w := w.note (.released ticket key)
  if (w.locks key).locked = false then (.ok (), w)
  else
    match (w.locks key).queue with
    | next :: rest =>
        (.ok (), (w.setLock key fun entry =>
          { entry with queue := rest, holder := some next }).note (.acquired next key))
    | [] =>
        (.ok (), w.setLock key fun entry =>
          { entry with locked := false, holder := none })

def releaseRejects (wiring : Wiring J Infra) (c : Choice Infra) : Option Err :=
  if wiring.releaseMayReject then c.rejects else none

end Locker

end Noddde
