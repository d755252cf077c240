import Noddde.Engine.ReadModel
import Noddde.Engine.Sample
/-!
# A small read side

A projection that adds up the payloads of all `Added` events in one view.
-/

namespace Noddde.ReadModel.Sample

open Noddde.Sample (Value tick)

def total : EventHandler Value Unit where
  id := some fun _ => .ok (.string "total")
  reduce event view _ := .ok (some (some (event.payload.getD 0 + view.getD 0)))

def tally (consistency : Consistency) : Projection Value Unit where
  on := (∅ : InsertionMap String (EventHandler Value Unit)).set "Added" total
  initialView := some 0
  consistency

def domain (consistency : Consistency) : Domain Value Unit where
  projections := (∅ : InsertionMap String (Projection Value Unit)).set "Tally"
    (tally consistency)
  hasViewStore _ := true
  sagas := []
  standaloneEventHandlers := []

/-- The reducer of the projection. -/
def add (event : Event Value) (view : Value) : Option Value :=
  some (some (event.payload.getD 0 + view.getD 0))

def additions (second : Bool) : Event Value :=
  Noddde.Sample.event "Added" (some (if second then 2 else 1))

end Noddde.ReadModel.Sample
