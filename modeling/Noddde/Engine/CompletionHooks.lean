import Mathlib.Data.List.Basic
import Mathlib.Logic.Function.Basic
/-!
# The completion hooks of a unit of work

The registry of hooks and the two loops that run them, over hooks of any kind, each of
which may reject.
-/

namespace Noddde.UowCompletionHooks

variable {U H E : Type} [DecidableEq U]

structure CompletionHooks (H : Type) where
  onCommitted : List H := []
  onSettled : List H := []
  deriving DecidableEq, Repr

/-- The `WeakMap` from units of work to their hooks. -/
abbrev Registry (U H : Type) := U → Option (CompletionHooks H)

namespace Registry

variable (registry : Registry U H) (uow : U)

omit [DecidableEq U] in
def getOrCreate : CompletionHooks H := (registry uow).getD {}

def onUowCommitted (hook : H) : Registry U H :=
  let hooks := registry.getOrCreate uow
  Function.update registry uow (some { hooks with onCommitted := hooks.onCommitted ++ [hook] })

def onUowSettled (hook : H) : Registry U H :=
  let hooks := registry.getOrCreate uow
  Function.update registry uow (some { hooks with onSettled := hooks.onSettled ++ [hook] })

def delete : Registry U H := Function.update registry uow none

end Registry

/-- How the promise of a hook settles, given the hooks that were invoked before it. -/
abbrev Settle (H E : Type) := List H → H → Except E Unit

/-- `for (const hook of hooks) await hook();`, with the hooks `invoked` so far. -/
def awaitEach (settle : Settle H E) : List H → List H → Except E Unit × List H
  | [], invoked => (.ok (), invoked)
  | hook :: rest, invoked =>
      match settle invoked hook with
      | .ok () => awaitEach settle rest (invoked ++ [hook])
      | .error e => (.error e, invoked ++ [hook])

/-- What a call of `runUowCompletionHooks` leaves and answers. -/
structure Completion (U H E : Type) where
  registry : Registry U H
  invoked : List H
  result : Except E Unit

def runUowCompletionHooks (settle : Settle H E) (registry : Registry U H) (uow : U)
    (committed : Bool) : Completion U H E :=
  match registry uow with
  | none => ⟨registry, [], .ok ()⟩
  | some hooks =>
      -- a hook that registers another one does so on a fresh entry
      let registry := registry.delete uow
      match if committed then awaitEach settle hooks.onCommitted [] else (.ok (), []) with
      | (.error e, invoked) => ⟨registry, invoked, .error e⟩
      | (.ok (), invoked) =>
          let (result, invoked) := awaitEach settle hooks.onSettled invoked
          ⟨registry, invoked, result⟩

/-! ## The owner of a unit of work -/

/-- The variables of a `withUnitOfWork` call around the registry. -/
structure Owner (U H : Type) where
  registry : Registry U H
  committed : Bool
  hooksRan : Bool := false

/-- `runHooksOnce`, which logs a rejection; with the hooks that it invokes. -/
def Owner.runHooksOnce (settle : Settle H E) (owner : Owner U H) (uow : U) :
    Owner U H × List H :=
  if owner.hooksRan then (owner, [])
  else
    let completion := runUowCompletionHooks settle owner.registry uow owner.committed
    ({ owner with registry := completion.registry, hooksRan := true }, completion.invoked)

end Noddde.UowCompletionHooks
