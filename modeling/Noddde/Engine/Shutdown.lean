import Noddde.Async.Machine
import Noddde.Core.Event
import Mathlib.Data.Rat.Floor
/-!
# Operations and shutdown of a domain

Every call of `dispatchCommand`, `dispatchQuery` and `withUnitOfWork` is counted
from its acceptance to its settlement.  `shutdown` stops the acceptance, waits
for the count to reach zero or for a timer, and then closes what can be closed.

An accepted operation awaits one promise after another; which promise settles
when, and how, is up to the environment.  While it waits, user code that it runs
may call the domain or the command bus.  The clock counts milliseconds; what the
domain itself runs between two awaits takes no time.
-/

namespace Noddde.Shutdown

/-! ## Timers -/

/-- A `number` of milliseconds, `NaN` and `-Infinity` apart. -/
inductive Milliseconds where
  | finite (ms : ℚ)
  | infinity
  deriving DecidableEq

namespace Milliseconds

/-- `Date.now() + timeoutMs` -/
def after (now : Nat) : Milliseconds → Milliseconds
  | .finite ms => .finite (now + ms)
  | .infinity => .infinity

/-- `Math.max(0, deadline - Date.now())` -/
def remaining (now : Nat) : Milliseconds → Milliseconds
  | .finite ms => .finite (max 0 (ms - now))
  | .infinity => .infinity

/-- The clock has reached the deadline. -/
def ElapsedAt (now : Nat) : Milliseconds → Prop
  | .finite ms => ms ≤ now
  | .infinity => False

instance (now : Nat) : DecidablePred (ElapsedAt now)
  | .finite ms => inferInstanceAs (Decidable (ms ≤ now))
  | .infinity => inferInstanceAs (Decidable False)

/-- The largest delay that `setTimeout` waits for. -/
def maxDelay : ℚ := 2147483647

/-- The delay of `setTimeout`: truncated, and set to one where it is out of range. -/
def timerDelay : Milliseconds → Nat
  | .finite ms => if 1 ≤ ms ∧ ms ≤ maxDelay then ⌊ms⌋.toNat else 1
  | .infinity => 1

end Milliseconds

/-! ## Operations -/

inductive Method where
  | dispatchCommand
  | dispatchQuery
  | withUnitOfWork
  deriving DecidableEq, Repr

abbrev Outcome := Except Err Unit

/-- What an accepted operation awaits. -/
inductive Point where
  | handling
  | scoped
  | committing
  | rollingBack (error : Err)
  /-- `runHooksOnce`, before the events are published. -/
  | completing
  | publishing
  | marking
  /-- `runHooksOnce` of the `finally` block. -/
  | finishing (outcome : Outcome)
  deriving DecidableEq

def Method.start : Method → Point
  | .withUnitOfWork => .scoped
  | _ => .handling

/-- Where the operation goes on when what it awaits settles; an outcome if this
is the end of its body. -/
def Point.resume : Point → Outcome → Point ⊕ Outcome
  | .handling, outcome => .inr outcome
  | .scoped, .ok () => .inl .committing
  | .scoped, .error error => .inl (.rollingBack error)
  | .committing, .ok () => .inl .completing
  | .committing, .error error => .inl (.rollingBack error)
  | .rollingBack error, _ => .inl (.finishing (.error error))
  | .completing, _ => .inl .publishing
  | .publishing, .ok () => .inl .marking
  | .publishing, .error error => .inl (.finishing (.error error))
  | .marking, _ => .inl (.finishing (.ok ()))
  | .finishing outcome, _ => .inr outcome

structure Operation where
  id : Nat
  /-- The operation whose code made the call, if any. -/
  caller : Option Nat
  method : Method
  point : Point
  deriving DecidableEq

/-! ## The shutdown sequence -/

inductive Phase where
  | drainingOperations
  | drainingRelay
  | closingBus
  /-- The loop over the closeables, with those still to come. -/
  | closing (rest : List String)
  | settled (outcome : Outcome)
  deriving DecidableEq

/-- One run of `_performShutdown`. -/
structure Sequence where
  deadline : Milliseconds
  phase : Phase
  timer : Option Nat := none
  drained : Bool := false
  timedOut : Bool := false
  deriving DecidableEq

inductive Resource where
  | eventBus
  | component (name : String)
  deriving DecidableEq, Repr

/-! ## The domain -/

/-- What the domain is wired with: an outbox relay, and the closeable components
in the order in which they were discovered. -/
structure Infrastructure where
  outboxRelay : Bool
  closeables : List String

inductive Observation where
  | accepted (id : Nat) (caller : Option Nat) (method : Method)
  /-- The call was rejected with `DomainShutdownError`. -/
  | refused (caller : Option Nat) (method : Method)
  /-- `commandBus.dispatch` reached the registered handler. -/
  | commandBus (caller : Nat)
  /-- `eventBus.dispatch` reached the registered handlers, or found none left. -/
  | eventBus (caller : Nat) (reached : Bool)
  | resumed (id : Nat) (outcome : Outcome)
  | settled (id : Nat) (outcome : Outcome)
  deriving DecidableEq

/-- The fields of the domain, the clock, and the calls of `shutdown` that have run
code of others and not returned yet, the innermost first, by their sequences.
`running`, `accepted`, `returned`, `closed` and `history` are history variables. -/
structure Domain where
  now : Nat := 0
  starting : List Nat := []
  shuttingDown : Bool := false
  /-- A promise is named by the sequence that settles it. -/
  shutdownPromise : Option Nat := none
  activeOperations : Int := 0
  drainResolve : Option Nat := none
  performed : Nat := 0
  sequences : Nat → Option Sequence := fun _ => none
  /-- The accepted operations that have not settled. -/
  running : List Operation := []
  accepted : Nat := 0
  returned : List Nat := []
  closed : List Resource := []
  history : List Observation := []

namespace Domain

variable (infrastructure : Infrastructure) (domain : Domain)

def note (o : Observation) : Domain := { domain with history := o :: domain.history }

/-- `none` is the throw of `DomainShutdownError`. -/
def acquireOperation : Option Domain :=
  if domain.shuttingDown then none
  else some { domain with activeOperations := domain.activeOperations + 1 }

def setSequence (i : Nat) (f : Sequence → Sequence) : Domain :=
  { domain with
    sequences := Function.update domain.sequences i ((domain.sequences i).map f) }

def releaseOperation : Domain :=
  let domain := { domain with activeOperations := domain.activeOperations - 1 }
  match domain.drainResolve with
  | some i =>
      if domain.activeOperations = 0
      then domain.setSequence i fun sequence => { sequence with drained := true }
      else domain
  | none => domain

/-! ### Calls -/

/-- The `finally` block of an operation, and the settlement of its promise. -/
def settle (id : Nat) (outcome : Outcome) : Domain :=
  let domain :=
    { domain with running := domain.running.filter fun operation => operation.id ≠ id }
  domain.releaseOperation.note (.settled id outcome)

/-- A call of one of the three methods.  `inScope` tells whether the storage of
the unit of work holds one at the call. -/
def call (caller : Option Nat) (method : Method) (inScope : Bool) : Domain :=
  match domain.acquireOperation with
  | none => domain.note (.refused caller method)
  | some domain =>
      let id := domain.accepted
      let operation : Operation := { id, caller, method, point := method.start }
      let domain :=
        { domain with
          accepted := id + 1
          running := operation :: domain.running }.note (.accepted id caller method)
      if method = .withUnitOfWork ∧ inScope
      then domain.settle id (.error (.error "Nested units of work are not supported"))
      else domain

/-- The operation moves to `point`. -/
def advance (id : Nat) (point : Point) : Domain :=
  { domain with
    running := domain.running.map fun operation =>
      if operation.id = id then { operation with point } else operation }

def resume (operation : Operation) (outcome : Outcome) : Domain :=
  let domain := domain.note (.resumed operation.id outcome)
  match operation.point.resume outcome with
  | .inl point => domain.advance operation.id point
  | .inr outcome => domain.settle operation.id outcome

/-! ### Shutdown -/

/-- The next iteration of the loop over the closeables. -/
def closeNext (i : Nat) : List String → Domain
  | [] => domain.setSequence i fun sequence =>
      { sequence with phase := .settled (.ok ()) }
  | name :: rest =>
      { domain with closed := .component name :: domain.closed }.setSequence i
        fun sequence => { sequence with phase := .closing rest }

/-- Phase 3: the call of `eventBus.close()`. -/
def closeBus (i : Nat) : Domain :=
  { domain with closed := .eventBus :: domain.closed }.setSequence i
    fun sequence => { sequence with phase := .closingBus }

/-- Phase 2. -/
def drainRelay (i : Nat) : Domain :=
  if infrastructure.outboxRelay then
    domain.setSequence i fun sequence => { sequence with phase := .drainingRelay }
  else domain.closeBus i

/-- `_performShutdown`, up to its first `await` or to the first code of others that
it runs: the store of the relay, or `eventBus.close()`. -/
def performShutdown (timeoutMs : Milliseconds) : Domain :=
  let i := domain.performed
  let deadline := timeoutMs.after domain.now
  let sequence : Sequence := { deadline, phase := .drainingOperations }
  let domain := { domain with performed := i + 1 }
  if 0 < domain.activeOperations then
    let timer := domain.now + (deadline.remaining domain.now).timerDelay
    { domain with
      drainResolve := some i
      sequences := Function.update domain.sequences i (some { sequence with timer }) }
  else
    { domain with
      sequences := Function.update domain.sequences i (some sequence) }.drainRelay
        infrastructure i

/-- The assignment behind `_performShutdown`, and the return. -/
def assignPromise (i : Nat) : Domain :=
  { domain with shutdownPromise := some i, returned := i :: domain.returned }

/-- A call of `shutdown`, up to its return or to the first code of others that it
runs. -/
def shutdown (timeoutMs : Option Milliseconds) : Domain :=
  match domain.shutdownPromise with
  | some promise => { domain with returned := promise :: domain.returned }
  | none =>
      let i := domain.performed
      let next := { domain with shuttingDown := true }.performShutdown infrastructure
        (timeoutMs.getD (.finite 30000))
      -- without operations under way it has come to the relay or to the event bus
      if 0 < domain.activeOperations then next.assignPromise i
      else { next with starting := i :: next.starting }

/-- The code of others that the innermost call of `shutdown` runs returns. -/
def returnShutdown : Option Domain :=
  match domain.starting with
  | [] => none
  | i :: rest => some ({ domain with starting := rest }.assignPromise i)

/-- What the sequence `i` awaits settles with `outcome`; `none` if it cannot. -/
def resumeShutdown (i : Nat) (sequence : Sequence) (outcome : Outcome) : Option Domain :=
  match sequence.phase with
  | .drainingOperations =>
      if sequence.drained ∨ sequence.timedOut
      then some (domain.drainRelay infrastructure i) else none
  -- the drain of the relay does not reject, and its timer ends it at any time
  | .drainingRelay => some (domain.closeBus i)
  | .closingBus =>
      match outcome with
      | .ok () => some (domain.closeNext i infrastructure.closeables.reverse)
      | .error error => some (domain.setSequence i fun sequence =>
          { sequence with phase := .settled (.error error) })
  -- an error of `close()` is swallowed
  | .closing rest => some (domain.closeNext i rest)
  | .settled _ => none

end Domain

/-! ## Runs -/

inductive Action where
  /-- Somebody calls the domain: the code of an operation under way, or anyone
  else. -/
  | call (caller : Option Nat) (method : Method) (inScope : Bool)
  /-- The code of an operation dispatches on the command bus. -/
  | dispatchCommand (caller : Nat)
  /-- The code of an operation publishes on the event bus. -/
  | dispatchEvent (caller : Nat)
  | resume (id : Nat) (outcome : Outcome)
  | shutdown (timeoutMs : Option Milliseconds)
  /-- The innermost call of `shutdown` that runs code of others goes on. -/
  | returnShutdown
  | tick (ms : Nat)
  /-- The timer of the drain of the sequence `i` fires. -/
  | timeOut (i : Nat)
  | resumeShutdown (i : Nat) (outcome : Outcome)
  deriving DecidableEq

def Domain.find (domain : Domain) (id : Nat) : Option Operation :=
  domain.running.find? fun operation => operation.id = id

/-- Promises are resumed and timers fire only when no call is left on the stack. -/
def Domain.idle (domain : Domain) : Option Domain :=
  if domain.starting = [] then some domain else none

def step (infrastructure : Infrastructure) (domain : Domain) : Action → Option Domain
  | .call none method inScope => some (domain.call none method inScope)
  | .call (some id) method inScope => do
      let _ ← domain.find id
      some (domain.call (some id) method inScope)
  | .dispatchCommand id => do
      let _ ← domain.find id
      some (domain.note (.commandBus id))
  | .dispatchEvent id => do
      let _ ← domain.find id
      some (domain.note (.eventBus id (decide (.eventBus ∉ domain.closed))))
  | .resume id outcome => do
      let domain ← domain.idle
      let operation ← domain.find id
      some (domain.resume operation outcome)
  | .shutdown timeoutMs => some (domain.shutdown infrastructure timeoutMs)
  | .returnShutdown => domain.returnShutdown
  | .tick ms => some { domain with now := domain.now + ms }
  | .timeOut i => do
      let domain ← domain.idle
      let sequence ← domain.sequences i
      let due ← sequence.timer
      if sequence.phase = .drainingOperations ∧ due ≤ domain.now then
        some (domain.setSequence i fun sequence => { sequence with timedOut := true })
      else none
  | .resumeShutdown i outcome => do
      let domain ← domain.idle
      let sequence ← domain.sequences i
      domain.resumeShutdown infrastructure i sequence outcome

abbrev Reached (infrastructure : Infrastructure) (domain : Domain) : Prop :=
  Machine.Reaches (step infrastructure) {} domain

end Noddde.Shutdown
