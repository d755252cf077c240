import Noddde.Engine.UnitOfWork
/-!
# Concurrency strategies
-/

namespace Noddde

variable {J Infra α : Type} (wiring : Wiring J Infra)

/-- `strategies.get(aggregateName) ?? defaultStrategy` -/
def ConcurrencyStrategy.resolve (strategy : ConcurrencyStrategy) (aggregateName : String) :
    BaseStrategy :=
  match strategy with
  | .base strategy => strategy
  | .perAggregate strategies defaultStrategy =>
      (strategies aggregateName).getD defaultStrategy

/-- `OptimisticConcurrencyStrategy.execute` from its `i`-th attempt on, with
`retries` further ones. -/
def retryOnConflict (attempt : (i : Nat) → Eff J Infra α) :
    (retries i : Nat) → Eff J Infra α
  | 0, i => attempt i
  | retries + 1, i =>
      (attempt i).tryCatch fun error =>
        if error.isConcurrency then retryOnConflict attempt retries (i + 1)
        else throw error

/-- `PessimisticConcurrencyStrategy.execute` -/
def holdingLock (ticket : Ticket) (aggregateName : String) (aggregateId : ID)
    (timeoutMs : Option Nat) (attempt : Eff J Infra α) : Eff J Infra α := do
  Locker.acquire ticket aggregateName aggregateId timeoutMs
  attempt.tryFinally (Async.call fun c =>
    match Locker.releaseRejects wiring c with
    | some error => .raise error
    | none => Locker.release ticket aggregateName aggregateId)

def ConcurrencyStrategy.execute (strategy : ConcurrencyStrategy) (ticket : Ticket)
    (aggregateName : String) (aggregateId : ID) (attempt : (i : Nat) → Eff J Infra α) :
    Eff J Infra α :=
  match strategy.resolve aggregateName with
  | .optimistic maxRetries => retryOnConflict attempt maxRetries 0
  | .pessimistic timeoutMs =>
      holdingLock wiring ticket aggregateName aggregateId timeoutMs (attempt 0)

def acquireLockForUow (dispatch : Origin) (aggregateName : String) (aggregateId : ID)
    (timeoutMs : Option Nat) (uow : UowRef) : Eff J Infra Unit := do
  let ticket : Ticket := ⟨dispatch, some uow⟩
  Locker.acquire ticket aggregateName aggregateId timeoutMs
  Async.call fun _ =>
    onUowSettled uow dispatch (.release ticket aggregateName aggregateId)

/-- `concurrencyStrategy.acquireForUow`, which an optimistic strategy lacks and
the per-aggregate strategy always has. -/
def ConcurrencyStrategy.acquireForUow? (strategy : ConcurrencyStrategy)
    (dispatch : Origin) (aggregateName : String) (aggregateId : ID) (uow : UowRef) :
    Option (Eff J Infra Unit) :=
  match strategy with
  | .base (.optimistic _) => none
  | .base (.pessimistic timeoutMs) =>
      some (acquireLockForUow dispatch aggregateName aggregateId timeoutMs uow)
  | .perAggregate strategies defaultStrategy =>
      match (strategies aggregateName).getD defaultStrategy with
      | .optimistic _ => some (pure ())
      | .pessimistic timeoutMs =>
          some (acquireLockForUow dispatch aggregateName aggregateId timeoutMs uow)

end Noddde
