import Noddde.Engine.CommandLifecycle
/-!
# Domain.withUnitOfWork
-/

namespace Noddde

variable {J Infra : Type} [JsValue J] (wiring : Wiring J Infra)

/-- What is left of the function of a scope, as far as the engine sees it: the
commands that it dispatches one after another, going on from how each of them
settled, and its own end. -/
inductive Script (J : Type) where
  | dispatchCommand (aggregateName : String) (command : Command J)
      (next : Except Err Unit → Script J)
  | settle
  | reject (error : Err)

def Script.run (n : Nat) (ambient : Ambient) (index : Nat) :
    Script J → Eff J Infra Unit
  | .dispatchCommand aggregateName command next => do
      let task : Task J := ⟨.scoped n index, aggregateName, command⟩
      let outcome ← (dispatch wiring task ambient).attempt
      (next outcome).run n ambient (index + 1)
  | .settle => pure ()
  | .reject error => throw error

def observed (settled : Option Err → Obs J) (p : Eff J Infra Unit) : Eff J Infra Unit := do
  let outcome ← p.attempt
  Async.call fun _ => do
    note (settled (rejection outcome))
    .ofExcept outcome

/-- Run `fn` in the scope of `uow` and commit it; on an error, roll back. -/
def runAndCommit (uow : UowRef) (fn : Eff J Infra Unit) :
    Eff J Infra (List (Event J)) :=
  Async.tryCatch
    (do
      observed (.fnSettled uow) fn
      let events ← commit wiring uow
      Async.call fun _ => setCommitted uow
      pure events)
    fun error => do
      tryRollback wiring uow
      throw error

/-- The part of `withUnitOfWork` and of a saga execution that follows the
creation of the unit of work: settle it, run its hooks, publish, and go on with
`andThen`; the `finally` block makes sure that the hooks have run. -/
def settleAndPublish (ambient : Ambient) (uow : UowRef) (fn andThen : Eff J Infra Unit) :
    Eff J Infra Unit :=
  Async.tryFinally
    (do
      let events ← runAndCommit wiring uow fn
      runHooksOnce wiring ambient uow
      publish wiring uow events
      observed (.followUpSettled uow) andThen)
    (runHooksOnce wiring ambient uow)

def withUnitOfWork (ambient : Ambient) (n : Nat) (fn : Ambient → Eff J Infra Unit) :
    Eff J Infra Unit :=
  if ambient.uow.isSome then
    throw (.error "Nested units of work are not supported")
  else do
    Async.call fun _ => createUow (.scope n)
    settleAndPublish wiring ambient (.scope n)
      (fn (ambient.withinScope n)) (pure ())

end Noddde
