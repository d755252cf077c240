import Mathlib.Data.List.Basic
import Mathlib.Logic.Function.Basic
import Noddde.Async.Machine
/-!
# The calls on one PostgreSQL locker

The lockers of Drizzle and TypeORM take a key in the process, which is `acquireLocal` or
`KeyedMutex.lock`, and then the lock of its hash in the session.  A call on the database
may fail, and its statement may be executed nevertheless.
-/

namespace Noddde.Adapters

inductive LockAdapter where
  | drizzle
  | typeorm
  deriving DecidableEq, Repr

/-! ## KeyedMutex -/

/-- The promises of a mutex are numbered.  In Drizzle `pending` is `localLocks`, whose
promises have their `_release` with them. -/
structure KeyedMutex (K : Type) where
  pending : K → Option Nat := fun _ => none
  release : K → Option Nat := fun _ => none
  promises : Nat := 0
  resolved : List Nat := []

namespace KeyedMutex

variable {K : Type} [DecidableEq K]

def take (adapter : LockAdapter) (key : K) (mutex : KeyedMutex K) : KeyedMutex K :=
  { mutex with
    pending := Function.update mutex.pending key (some mutex.promises)
    release :=
      match adapter with
      | .drizzle => mutex.release
      | .typeorm => Function.update mutex.release key (some mutex.promises)
    promises := mutex.promises + 1 }

/-- `releaseLocal` of Drizzle and `unlock` of TypeORM. -/
def unlock (adapter : LockAdapter) (key : K) (mutex : KeyedMutex K) : KeyedMutex K :=
  match adapter with
  | .drizzle =>
      { mutex with
        pending := Function.update mutex.pending key none
        resolved := (mutex.pending key).toList ++ mutex.resolved }
  | .typeorm =>
      match mutex.release key with
      | none => mutex
      | some promise =>
          { mutex with
            release := Function.update mutex.release key none
            pending := Function.update mutex.pending key none
            resolved := promise :: mutex.resolved }

end KeyedMutex

/-! ## The calls -/

inductive LockFailure where
  /-- `LockTimeoutError` -/
  | timeout
  | database
  deriving DecidableEq, Repr

inductive LockPhase where
  | waiting (promise : Nat)
  /-- It has the key in the process. -/
  | entered
  | acquiring
  /-- Between two calls of `pg_try_advisory_lock`. -/
  | sleeping
  | holding
  /-- `pg_advisory_unlock` is submitted: what `_held` had to say then. -/
  | releasing (believedHeld : Bool)
  | rejected (failure : LockFailure)
  /-- `release` has settled: whether it has thrown. -/
  | released (threw : Bool)
  deriving DecidableEq, Repr

namespace LockPhase

/-- From taking the key in the process to giving it back. -/
def inside : LockPhase → Bool
  | .entered | .acquiring | .sleeping | .holding | .releasing _ => true
  | .waiting _ | .rejected _ | .released _ => false

def ended : LockPhase → Bool
  | .rejected _ | .released _ => true
  | .waiting _ | .entered | .acquiring | .sleeping | .holding | .releasing _ => false

/-- From the grant of the lock in the session to its release. -/
def owns : LockPhase → Bool
  | .holding | .releasing _ => true
  | .waiting _ | .entered | .acquiring | .sleeping | .rejected _ | .released _ => false

end LockPhase

structure LockCall (K : Type) where
  key : K
  /-- `timeoutMs && timeoutMs > 0` -/
  timed : Bool
  phase : LockPhase
  deriving DecidableEq

inductive LockAnswer where
  | granted
  /-- `false`, and whether the deadline has passed. -/
  | busy (expired : Bool)
  /-- The call fails: whether the statement was executed. -/
  | failed (executed : Bool)
  deriving DecidableEq, Repr

inductive UnlockAnswer where
  | answered
  | failed (executed : Bool)
  deriving DecidableEq, Repr

structure LockCalls (K L H : Type) where
  mutex : KeyedMutex K := {}
  held : List H := []
  session : L → Nat := fun _ => 0
  calls : List (LockCall K) := []

inductive LockAction (K : Type) where
  | acquire (key : K) (timed : Bool)
  | resume (caller : Nat)
  | submit (caller : Nat)
  | answerLock (caller : Nat) (answer : LockAnswer)
  | wake (caller : Nat)
  | release (caller : Nat)
  | answerUnlock (caller : Nat) (answer : UnlockAnswer)
  deriving DecidableEq

namespace LockCalls

variable {K L H : Type} [DecidableEq K] [DecidableEq L] [DecidableEq H]

section

variable (adapter : LockAdapter) (lockOf : K → L) (heldOf : K → H) (s : LockCalls K L H)

def setPhase (caller : Nat) (call : LockCall K) (phase : LockPhase) : LockCalls K L H :=
  { s with calls := s.calls.set caller { call with phase } }

/-- `pg_advisory_lock`, where it is granted. -/
def lock (lock : L) : LockCalls K L H :=
  { s with session := Function.update s.session lock (s.session lock + 1) }

def unlock (lock : L) : LockCalls K L H :=
  { s with session := Function.update s.session lock (s.session lock - 1) }

/-- The loop around `await`, from one check to the next. -/
def check (key : K) : LockPhase × KeyedMutex K :=
  match s.mutex.pending key with
  | some promise => (.waiting promise, s.mutex)
  | none => (.entered, s.mutex.take adapter key)

/-- Give the key back in the process, and settle. -/
def leave (caller : Nat) (call : LockCall K) (phase : LockPhase) : LockCalls K L H :=
  { s.setPhase caller call phase with mutex := s.mutex.unlock adapter call.key }

def answerLock (caller : Nat) (call : LockCall K) : LockAnswer → Option (LockCalls K L H)
  | .granted =>
      some { (s.lock (lockOf call.key)).setPhase caller call .holding with
        held := s.held.insert (heldOf call.key) }
  | .busy expired =>
      -- a session that holds the lock gets it again
      if call.timed = true ∧ s.session (lockOf call.key) = 0 then
        if expired then some (s.leave adapter caller call (.rejected .timeout))
        else some (s.setPhase caller call .sleeping)
      else none
  | .failed executed =>
      let s := if executed then s.lock (lockOf call.key) else s
      some (s.leave adapter caller call (.rejected .database))

def answerUnlock (caller : Nat) (call : LockCall K) (believedHeld : Bool) :
    UnlockAnswer → LockCalls K L H
  | .answered =>
      let ok := decide (0 < s.session (lockOf call.key))
      { (s.unlock (lockOf call.key)).leave adapter caller call (.released (!ok && believedHeld)) with
        held := if ok then s.held.erase (heldOf call.key) else s.held }
  | .failed executed =>
      let s := if executed then s.unlock (lockOf call.key) else s
      s.leave adapter caller call (.released true)

def step : LockAction K → Option (LockCalls K L H)
  | .acquire key timed =>
      let (phase, mutex) := s.check adapter key
      some { s with mutex, calls := s.calls ++ [⟨key, timed, phase⟩] }
  | .resume caller => s.calls[caller]?.bind fun call =>
      match call.phase with
      | .waiting promise =>
          if promise ∈ s.mutex.resolved then
            let (phase, mutex) := s.check adapter call.key
            some { s.setPhase caller call phase with mutex }
          else none
      | _ => none
  | .submit caller => s.calls[caller]?.bind fun call =>
      if call.phase = .entered then some (s.setPhase caller call .acquiring) else none
  | .answerLock caller answer => s.calls[caller]?.bind fun call =>
      if call.phase = .acquiring then s.answerLock adapter lockOf heldOf caller call answer
      else none
  | .wake caller => s.calls[caller]?.bind fun call =>
      if call.phase = .sleeping then some (s.setPhase caller call .acquiring) else none
  | .release caller => s.calls[caller]?.bind fun call =>
      if call.phase = .holding then
        some (s.setPhase caller call (.releasing (decide (heldOf call.key ∈ s.held))))
      else none
  | .answerUnlock caller answer => s.calls[caller]?.bind fun call =>
      match call.phase with
      | .releasing believedHeld =>
          some (s.answerUnlock adapter lockOf heldOf caller call believedHeld answer)
      | _ => none

end

end LockCalls

end Noddde.Adapters
