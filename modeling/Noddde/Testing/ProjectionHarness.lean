import Noddde.Async.Alone
import Noddde.Engine.ReadModel
/-!
# testProjection

The harness folds the events of a test through the reducers of a projection.  Next to it
stands what the engine does with the same projection: it recognises the symbol
`DeleteView` among the results of a reducer, and puts `initialView` in for a view that is
absent.
-/

namespace Noddde.Testing

/-- JavaScript values with `undefined` and the symbol `DeleteView`. -/
class ViewValue (J : Type) extends JsValue J where
  undefined : J
  deleteView : J
  nullish_undefined : JsValue.isNullish undefined = true
  nullish_deleteView : JsValue.isNullish deleteView = false

/-- An entry of the `on` map, with a pure reducer. -/
structure EventHandler (J : Type) where
  id : Option (Event J → Except Err ID)
  reduce : Event J → J → Except Err J

/-- A projection; `initialView` is `undefined` unless it is declared. -/
structure Projection (J : Type) where
  on : InsertionMap String (EventHandler J)
  initialView : J

/-- The harness after `execute`. -/
structure ProjectionTestResult (J : Type) where
  view : J
  error : Option Err := none
  deriving DecidableEq

variable {ι J Infra : Type}

namespace Projection

variable (projection : Projection J)

/-- `handler?.reduce`, or else the view as it is. -/
def reduceView (currentView : J) (event : Event J) : Except Err J :=
  match projection.on.get event.name with
  | some handler => handler.reduce event currentView
  | none => .ok currentView

/-- `testProjection(projection).given(...events).execute()`, with the view of
`initialView`. -/
def execute (startView : J) (events : List (Event J)) : ProjectionTestResult J :=
  match events.foldlM projection.reduceView startView with
  | .ok currentView => { view := currentView }
  | .error error => { view := startView, error := some error }

end Projection

/-! ## The engine -/

variable [DecidableEq J] [ViewValue J]

/-- `newView === DeleteView` -/
def deleting (newView : J) : Option J :=
  if newView = ViewValue.deleteView then none else some newView

def EventHandler.engine (handler : EventHandler J) : ReadModel.EventHandler J Infra where
  id := handler.id
  reduce event currentView _ := (handler.reduce event currentView).map deleting

def Projection.engine (projection : Projection J) (name : String) :
    ReadModel.Projection J Infra :=
  ReadModel.Projection.augment name
    { on := projection.on.map EventHandler.engine
      initialView := projection.initialView
      consistency := .eventual }

variable [DecidableEq ι]

/-- An event on the bus.  The error of a handler is logged. -/
def deliver (i : ι) (name : String) (projection : Projection J) (event : Event J) :
    ReadModel.Program ι J Infra Unit :=
  match (projection.engine name).on.get event.name with
  | none => pure ()
  | some handler =>
      (ReadModel.boundHandler i name (projection.engine name) handler event).tryCatch
        fun _ => pure ()

/-- The view that is stored, `undefined` when it is absent. -/
def storedView (name : String) (viewId : ID) (s : ReadModel.State ι J) : J :=
  ((s.views name).get viewId.render).getD ViewValue.undefined

def Projection.MapsTo (Infra : Type) (projection : Projection J) (name : String) (viewId : ID)
    (events : List (Event J)) : Prop :=
  ∀ event ∈ events, ∀ handler,
    (projection.engine name : ReadModel.Projection J Infra).on.get event.name = some handler →
      handler.viewId event = .ok viewId

/-- The harness returns the view that the engine leaves, from a store with `startView`. -/
def Projection.Agrees (Infra : Type) (projection : Projection J) (i : ι) (name : String)
    (viewId : ID) (events : List (Event J)) (s : ReadModel.State ι J) : Prop :=
  (Async.forEach (deliver i name projection : Event J → ReadModel.Program ι J Infra Unit)
    events).Alone
    (fun _ t => storedView name viewId t =
      (projection.execute (storedView name viewId s) events).view) s

/-! ## When they agree -/

/-- What `runProjection` leaves of a view; an error leaves it as it was. -/
def Projection.runProjection (projection : Projection J) (view : J) (event : Event J) : J :=
  match projection.on.get event.name with
  | none => view
  | some handler =>
      match handler.reduce event (nullishCoalesce (some view) projection.initialView) with
      | .ok newView => (deleting newView).getD ViewValue.undefined
      | .error _ => view

/-- Every call of a reducer by the harness returns what the engine leaves for the event;
once one has thrown, the view of the engine is the one at the start, and stays it. -/
def Projection.Faithful (projection : Projection J) (startView : J) :
    J → List (Event J) → Prop
  | _, [] => True
  | view, event :: rest =>
      match projection.reduceView view event with
      | .ok next =>
          projection.runProjection view event = next ∧ projection.Faithful startView next rest
      | .error _ =>
          projection.runProjection view event = startView ∧
            ∀ later ∈ rest, projection.runProjection startView later = startView

end Noddde.Testing
