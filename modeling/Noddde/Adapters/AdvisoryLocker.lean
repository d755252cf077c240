import Mathlib.Logic.Function.Basic
import Noddde.Async.Machine
import Noddde.Core.Hash
/-!
# Advisory locks on one connection

Processes, each with one locker over one connection.  The connection executes its
statements one at a time, in the order in which they are submitted; an acquire statement
without timeout keeps it busy until the lock is granted.
-/

namespace Noddde.Adapters

/-- `fnv1a64`, as the signed number that PostgreSQL takes. -/
def fnv1a64 (key : JsString) : Int64 :=
  (key.foldl (fun hash (unit : UInt16) => (hash ^^^ unit.toUInt64) * 0x100000001b3)
    0xcbf29ce484222325).toInt64

/-- `::bigint`, which is an error outside of its range. -/
def bigint (n : Int) : Option Int64 :=
  if -2 ^ 63 ≤ n ∧ n < 2 ^ 63 then some (Int64.ofInt n) else none

def PostgresLocker.lockId (key : JsString) : Option Int64 := bigint (Persistence.fnv1a64 key)

def lockerKey (aggregateName aggregateId : JsString) : JsString :=
  aggregateName ++ Json.ascii ":" ++ aggregateId

def MySQLLocker.lockName (key : JsString) : JsString := key.take 64

inductive CommandPhase where
  | acquireLocal
  | acquireDb
  | working
  /-- The release statement is submitted: what `_held` had to say then. -/
  | releaseDb (believedHeld : Bool)
  /-- Whether `release()` has thrown. -/
  | done (threw : Bool)
  deriving DecidableEq, Repr

/-- From the grant of the lock to its release. -/
def CommandPhase.holding : CommandPhase → Bool
  | .working | .releaseDb _ => true
  | .acquireLocal | .acquireDb | .done _ => false

/-- From the mutex in the process to its release. -/
def CommandPhase.active : CommandPhase → Bool
  | .acquireDb | .working | .releaseDb _ => true
  | .acquireLocal | .done _ => false

def CommandPhase.ended : CommandPhase → Bool
  | .done _ => true
  | _ => false

structure Command (P K : Type) where
  process : P
  key : K
  phase : CommandPhase
  deriving DecidableEq, Repr

/-- The statements of the command at an index: `pg_advisory_lock` or `GET_LOCK(.., -1)`, and
`pg_advisory_unlock` or `RELEASE_LOCK`. -/
inductive LockStatement where
  | acquire (i : Nat)
  | release (i : Nat)
  deriving DecidableEq, Repr

/-- A locker and the session of its connection. -/
structure Locker (K L : Type) where
  localLocks : List K := []
  held : List L := []
  queue : List LockStatement := []
  /-- The command whose acquire statement is being executed. -/
  waiting : Option Nat := none
  deriving DecidableEq, Repr

/-- A lock that is held, and how often: its session can take it again. -/
structure Grant (P : Type) where
  session : P
  times : Nat
  deriving DecidableEq, Repr

/-- One release statement less is missing. -/
def Grant.drop {P : Type} (grant : Grant P) : Option (Grant P) :=
  if grant.times ≤ 1 then none else some { grant with times := grant.times - 1 }

structure LockSystem (P K L : Type) where
  commands : List (Command P K) := []
  lockers : P → Locker K L := fun _ => {}
  locks : L → Option (Grant P) := fun _ => none

namespace LockSystem

variable {P K L : Type} [DecidableEq P] [DecidableEq K] [DecidableEq L]

section

variable (lockOf : K → L) (s : LockSystem P K L)

def setLocker (p : P) (locker : Locker K L) : LockSystem P K L :=
  { s with lockers := Function.update s.lockers p locker }

def setPhase (i : Nat) (command : Command P K) (phase : CommandPhase) : LockSystem P K L :=
  { s with commands := s.commands.set i { command with phase } }

/-! ## The database -/

def available (p : P) (lock : L) : Bool :=
  match s.locks lock with
  | some grant => decide (grant.session = p)
  | none => true

def lock (p : P) (lock : L) : LockSystem P K L :=
  { s with
    locks := Function.update s.locks lock
      (some ⟨p, (s.locks lock).elim 0 Grant.times + 1⟩) }

def holdsLock (p : P) (lock : L) : Bool :=
  match s.locks lock with
  | some grant => decide (grant.session = p)
  | none => false

def unlock (p : P) (lock : L) : LockSystem P K L :=
  { s with
    locks :=
      if s.holdsLock p lock then
        Function.update s.locks lock ((s.locks lock).bind Grant.drop)
      else s.locks }

/-! ## The lockers -/

def acquired (i : Nat) (command : Command P K) : LockSystem P K L :=
  let p := command.process
  let locker := s.lockers p
  ((s.lock p (lockOf command.key)).setLocker p
    { locker with waiting := none, held := locker.held.insert (lockOf command.key) }).setPhase i
      command .working

def released (i : Nat) (command : Command P K) (believedHeld : Bool) : LockSystem P K L :=
  let p := command.process
  let locker := s.lockers p
  let ok := s.holdsLock p (lockOf command.key)
  ((s.unlock p (lockOf command.key)).setLocker p
    { locker with
      held := if ok then locker.held.erase (lockOf command.key) else locker.held
      localLocks := locker.localLocks.filter fun key => key ≠ command.key }).setPhase i command
        (.done (!ok && believedHeld))

def execute (p : P) (rest : List LockStatement) : LockStatement → Option (LockSystem P K L)
  | .acquire i => s.commands[i]?.map fun command =>
      let s := s.setLocker p { s.lockers p with queue := rest }
      if s.available p (lockOf command.key) then s.acquired lockOf i command
      else s.setLocker p { s.lockers p with waiting := some i }
  | .release i => s.commands[i]?.bind fun command =>
      match command.phase with
      | .releaseDb believedHeld =>
          some ((s.setLocker p { s.lockers p with queue := rest }).released lockOf i command
            believedHeld)
      | _ => none

inductive Action (P K : Type) where
  | call (p : P) (key : K)
  /-- The command at the index takes the mutex and submits its acquire statement. -/
  | enter (i : Nat)
  | execute (p : P)
  /-- The lock that the connection waits for is granted. -/
  | grant (p : P)
  | finish (i : Nat)
  deriving DecidableEq

def enter (i : Nat) (command : Command P K) : Option (LockSystem P K L) :=
  if command.phase = .acquireLocal ∧ command.key ∉ (s.lockers command.process).localLocks then
    let locker := s.lockers command.process
    some ((s.setLocker command.process
      { locker with
        localLocks := command.key :: locker.localLocks
        queue := locker.queue ++ [.acquire i] }).setPhase i command .acquireDb)
  else none

def finish (i : Nat) (command : Command P K) : Option (LockSystem P K L) :=
  if command.phase = .working then
    let locker := s.lockers command.process
    some ((s.setLocker command.process
      { locker with queue := locker.queue ++ [.release i] }).setPhase i command
        (.releaseDb (decide (lockOf command.key ∈ locker.held))))
  else none

def step : Action P K → Option (LockSystem P K L)
  | .call p key => some { s with commands := s.commands ++ [⟨p, key, .acquireLocal⟩] }
  | .enter i => s.commands[i]?.bind (s.enter i)
  | .execute p =>
      match (s.lockers p).waiting, (s.lockers p).queue with
      | none, statement :: rest => s.execute lockOf p rest statement
      | _, _ => none
  | .grant p =>
      (s.lockers p).waiting.bind fun i => s.commands[i]?.bind fun command =>
        if s.available p (lockOf command.key) then some (s.acquired lockOf i command) else none
  | .finish i => s.commands[i]?.bind (s.finish lockOf i)

abbrev Reached : Prop := Machine.Reaches (step lockOf) {} s

end

end LockSystem

end Noddde.Adapters
