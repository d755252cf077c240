import Noddde.Engine.AggregateLocker
/-!
# PostgresLocker.acquire with a timeout

One call of `acquire` in the time of its process.  The lockers of Drizzle, Prisma and TypeORM
take a gate in the process, which is `acquireLocal` or `KeyedMutex.lock`, and poll the database
behind it.  The database answers at once, and a timer fires when it is due.
-/

namespace Noddde.Adapters.PostgresLocker

open InMemoryAggregateLocker

/-- What the others do that want the key. -/
structure Schedule where
  /-- The gates that the call finds one after another, with the times at which they are
  resolved: never, where a holder hangs. -/
  gates : List (Option Nat)
  /-- Another call of the process holds the key, unless this call keeps it out. -/
  sameProcess : Nat → Bool
  /-- Another session holds the lock, so that `pg_try_advisory_lock` answers `false`. -/
  otherProcess : Nat → Bool
  /-- When `pg_advisory_lock` is granted that is submitted at a time. -/
  granted : Nat → Option Nat

/-- What is there of the call: its gate, its entry in `_held` and its lock. -/
structure Footprint where
  gate : Bool := false
  held : Bool := false
  lock : Bool := false
  deriving DecidableEq

structure Settled where
  time : Nat
  outcome : Except Err Unit
  footprint : Footprint

/-- `while (this.localLocks.has(key)) await this.localLocks.get(key)` -/
def acquireLocal : List (Option Nat) → Nat → Option Nat
  | [], now => some now
  | none :: _, _ => none
  | some resolved :: rest, now => acquireLocal rest (max now resolved)

/-- The loop around `pg_try_advisory_lock`. -/
def poll (request : Request) (otherProcess : Nat → Bool) (deadline now : Nat) : Settled :=
  if otherProcess now = false then ⟨now, .ok (), ⟨true, true, true⟩⟩
  else if deadline ≤ now then ⟨now, .error request.timeoutError, { gate := true }⟩
  else poll request otherProcess deadline (now + 50)
termination_by deadline - now

def acquireDb (schedule : Schedule) (request : Request) (now : Nat) : Option Settled :=
  if request.timed then
    some (poll request schedule.otherProcess (now + request.timeoutMs.getD 0) now)
  else (schedule.granted now).map fun time => ⟨time, .ok (), ⟨true, true, true⟩⟩

def releaseLocal (settled : Settled) : Settled :=
  { settled with footprint := { settled.footprint with gate := false } }

/-- `none` where the promise stays pending. -/
def acquire (schedule : Schedule) (request : Request) (start : Nat) : Option Settled := do
  let now ← acquireLocal schedule.gates start
  let settled ← acquireDb schedule request now
  match settled.outcome with
  | .ok () => some settled
  | .error _ => some (releaseLocal settled)

end Noddde.Adapters.PostgresLocker
