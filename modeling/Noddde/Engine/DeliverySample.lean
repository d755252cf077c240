import Noddde.Engine.SagaExecutor
import Noddde.Engine.ReadSample
/-!
# A small domain with a saga

The saga adds 1 to the counter once it has seen an addition.
-/

namespace Noddde.Delivery.Sample

open Noddde.Sample (Value add counter event)

def twice : Aggregate Value Unit :=
  { counter with
    decide := fun name =>
      if name = "AddTwice"
      then some fun command _ _ =>
        .ok (.many [event "Added" (command.payload.getD none),
          event "Added" (command.payload.getD none)])
      else counter.decide name }

def echo : Saga Value Unit where
  startedBy := ["Added"]
  initialState := some 0
  on _ := some
    { id := fun _ => .ok (.string "1")
      handle := fun _ state _ => .ok
        { state := some 1
          commands := if state = some 0 then some (.single (add "1" (some 1))) else none } }
  atomicity := none

def domain : Domain Value Unit where
  readModel := { ReadModel.Sample.domain .eventual with sagas := [("Echo", ["Added"])] }
  aggregates _ := twice
  commandBus _ := some (.aggregate "Counter")
  sagas _ := echo
  standaloneEventHandlers _ _ _ := .settle (.ok ())
  sagaNames := by decide
  sagaEvents := by decide
  standaloneEvents := by decide

def tick : Choice Value Unit where
  infra := ()
  metadata _ index := ⟨"", index, "", "", none, none, none, none, none, none, none⟩
  processed _ := false
  rejects _ := none

/-- A root command, and `n` steps of it. -/
def run (name : String) (n : Nat) : List (Action Value Unit) :=
  .command ⟨name, some (some 1), none, .string "1"⟩ :: List.replicate n (.next tick)

/-- Two executions for one saga instance: both load, and the second one commits first. -/
def race : List (SagaExecutor.Action Bool Value Unit) :=
  [false, true, false, true, true, true, true, false, false].map (⟨·, tick, none⟩)

end Noddde.Delivery.Sample
