import Noddde.Engine.Saga
import Noddde.Engine.OutboxRelay
/-!
# A process at work

All that may run in one process at the same time: dispatches of commands, on
their own or inside a unit of work, `withUnitOfWork` calls, saga executions and
polls of the outbox relay.  A run fires their segments in any order and may stop
anywhere.
-/

namespace Noddde

variable {J Infra : Type} [JsValue J]

/-- The threads of the process. -/
inductive Tid where
  | command (n : Nat)
  | scope (n : Nat)
  | saga (n : Nat)
  | relay (n : Nat)
  deriving DecidableEq, Repr

structure CommandCall (J : Type) where
  ambient : Ambient
  aggregateName : String
  command : Command J

structure ScopeCall (J : Type) where
  ambient : Ambient
  script : Script J

structure SagaCall (J : Type) where
  ambient : Ambient
  sagaName : String
  event : Event J

/-- What the callers of the domain and its event handlers do. -/
structure Workload (J : Type) where
  commands : Nat → Option (CommandCall J) := fun _ => none
  scopes : Nat → Option (ScopeCall J) := fun _ => none
  sagas : Nat → Option (SagaCall J) := fun _ => none
  relays : Nat → Option Nat := fun _ => none

def CommandCall.task (call : CommandCall J) (n : Nat) : Task J :=
  ⟨.command n, call.aggregateName, call.command⟩

def CommandCall.run (wiring : Wiring J Infra) (n : Nat) (call : CommandCall J) :
    Eff J Infra Unit :=
  dispatch wiring (call.task n) call.ambient

def ScopeCall.run (wiring : Wiring J Infra) (n : Nat) (call : ScopeCall J) :
    Eff J Infra Unit :=
  withUnitOfWork wiring call.ambient n fun ambient =>
    call.script.run wiring n ambient 0

/-- A saga reacts inside a unit of work only if that exists. -/
def SagaCall.run (wiring : Wiring J Infra) (n : Nat) (call : SagaCall J) :
    Eff J Infra Unit := do
  Async.await fun _ w =>
    if ∀ uow ∈ call.ambient.uow, (w.uows uow).created then some (.ok (), w) else none
  executeSaga wiring call.ambient n call.sagaName call.event

def poll (batchSize : Nat) : Eff J Infra Unit := do
  let _ ← processOnce batchSize
  pure ()

/-- The program of an optional part of the workload. -/
def orIdle {α : Type} (run : α → Eff J Infra Unit) : Option α → Eff J Infra Unit
  | none => pure ()
  | some call => run call

def thread (wiring : Wiring J Infra) (workload : Workload J) : Tid → Eff J Infra Unit
  | .command n => orIdle (CommandCall.run wiring n) (workload.commands n)
  | .scope n => orIdle (ScopeCall.run wiring n) (workload.scopes n)
  | .saga n => orIdle (SagaCall.run wiring n) (workload.sagas n)
  | .relay n => orIdle poll (workload.relays n)

abbrev Process (J Infra : Type) := Pool Tid (World J) (Choice Infra) Err

/-- The process before anything has run, over empty stores. -/
def boot (wiring : Wiring J Infra) (workload : Workload J) : Process J Infra :=
  ⟨thread wiring workload, {}⟩

/-- The thread that creates and settles a unit of work. -/
def Origin.tid : Origin → Tid
  | .command n => .command n
  | .scoped n _ => .scope n
  | .reaction n _ => .saga n

def UowRef.owner : UowRef → Tid
  | .attempt dispatch _ => dispatch.tid
  | .scope n => .scope n
  | .saga n => .saga n

end Noddde
