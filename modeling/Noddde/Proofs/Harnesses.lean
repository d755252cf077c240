import Noddde.Engine.DeliverySample
import Noddde.Proofs.Agreement
import Noddde.Testing.AggregateHarness
import Noddde.Testing.ProjectionHarness
/-!
# The test harnesses and the engine

The harness of a projection agrees with the engine, event by event, as long as no reducer
call sees the difference between an absent view and `initialView` or returns `DeleteView`.
The harness of an aggregate folds twice, and the second fold takes a state that is `null`
or `undefined` for an absent one.
-/

namespace Noddde.Testing

variable {ι J Infra : Type}

/-! ## Folds that agree after every event -/

section Folds

variable {projection : Projection J}

def Projection.viewFrom (projection : Projection J) (startView view : J)
    (events : List (Event J)) : J :=
  match events.foldlM projection.reduceView view with
  | .ok currentView => currentView
  | .error _ => startView

theorem viewFrom_execute (startView : J) (events : List (Event J)) :
    (projection.execute startView events).view =
      projection.viewFrom startView startView events := by
  unfold Projection.execute Projection.viewFrom
  cases events.foldlM projection.reduceView startView <;> rfl

theorem viewFrom_cons (startView view : J) (event : Event J) (rest : List (Event J)) :
    projection.viewFrom startView view (event :: rest) =
      match projection.reduceView view event with
      | .ok next => projection.viewFrom startView next rest
      | .error _ => startView := by
  unfold Projection.viewFrom
  rw [List.foldlM_cons]
  cases projection.reduceView view event <;> rfl

/-- A view that is present, or for which `initialView` puts in the same. -/
theorem coalesce_eq [JsValue J] {view fallback : J}
    (h : JsValue.isNullish view = true → fallback = view) :
    nullishCoalesce (some view) fallback = view := by
  unfold nullishCoalesce
  dsimp only
  split_ifs with hnullish
  · exact h hnullish
  · rfl

theorem coalesce_stored [ViewValue J] (stored : Option J) (fallback : J) :
    nullishCoalesce stored fallback =
      nullishCoalesce (some (stored.getD ViewValue.undefined)) fallback := by
  cases stored with
  | none => simp [nullishCoalesce, ViewValue.nullish_undefined]
  | some view => rfl

variable [DecidableEq J] [ViewValue J]

/-- A fold that stays where it is. -/
theorem foldl_eq_iff (view : J) (events : List (Event J)) :
    (∀ n, (events.take n).foldl projection.runProjection view = view) ↔
      ∀ event ∈ events, projection.runProjection view event = view := by
  induction events with
  | nil => simp
  | cons event rest ih =>
      rw [List.forall_mem_cons, ← ih]
      constructor
      · intro h
        have hfirst : projection.runProjection view event = view := by simpa using h 1
        refine ⟨hfirst, fun n => ?_⟩
        have hnext := h (n + 1)
        rwa [List.take_succ_cons, List.foldl_cons, hfirst] at hnext
      · rintro ⟨hfirst, hrest⟩ n
        cases n with
        | zero => rfl
        | succ n => rw [List.take_succ_cons, List.foldl_cons, hfirst, hrest n]

theorem faithful_iff (startView view : J) (events : List (Event J)) :
    (∀ n, (events.take n).foldl projection.runProjection view =
      projection.viewFrom startView view (events.take n)) ↔
      projection.Faithful startView view events := by
  induction events generalizing view with
  | nil => simp [Projection.Faithful, Projection.viewFrom, pure, Except.pure]
  | cons event rest ih =>
      have hcons : (∀ n, ((event :: rest).take n).foldl projection.runProjection view =
          projection.viewFrom startView view ((event :: rest).take n)) ↔
          ∀ n, (rest.take n).foldl projection.runProjection
              (projection.runProjection view event) =
            match projection.reduceView view event with
            | .ok next => projection.viewFrom startView next (rest.take n)
            | .error _ => startView := by
        constructor
        · intro h n
          rw [← viewFrom_cons]
          exact h (n + 1)
        · intro h n
          cases n with
          | zero => rfl
          | succ n =>
              rw [List.take_succ_cons, viewFrom_cons]
              exact h n
      rw [hcons, Projection.Faithful]
      cases projection.reduceView view event with
      | ok next =>
          dsimp only
          constructor
          · intro h
            have hfirst : projection.runProjection view event = next := h 0
            exact ⟨hfirst, (ih next).mp fun n => hfirst ▸ h n⟩
          · rintro ⟨hfirst, hrest⟩ n
            rw [hfirst]
            exact (ih next).mpr hrest n
      | error error =>
          dsimp only
          constructor
          · intro h
            have hfirst : projection.runProjection view event = startView := h 0
            exact ⟨hfirst, (foldl_eq_iff startView rest).mp fun n => hfirst ▸ h n⟩
          · rintro ⟨hfirst, hrest⟩ n
            rw [hfirst]
            exact (foldl_eq_iff startView rest).mpr hrest n

/-- Reducers that always return a view, with no `initialView` that a test would not see. -/
theorem faithful_of_views {startView view : J} {events : List (Event J)}
    (hview : JsValue.isNullish view = true → projection.initialView = view)
    (hreduce : ∀ event ∈ events, ∀ view, ∃ next, projection.reduceView view event = .ok next ∧
      next ≠ ViewValue.deleteView ∧
      (JsValue.isNullish next = true → projection.initialView = next)) :
    projection.Faithful startView view events := by
  induction events generalizing view with
  | nil => trivial
  | cons event rest ih =>
      obtain ⟨hfirst, hrest⟩ := List.forall_mem_cons.mp hreduce
      obtain ⟨next, hnext, hkeep, hinitial⟩ := hfirst view
      rw [Projection.Faithful, hnext]
      refine ⟨?_, ih hinitial hrest⟩
      unfold Projection.reduceView at hnext
      unfold Projection.runProjection
      cases hon : projection.on.get event.name with
      | none =>
          rw [hon] at hnext
          exact Except.ok.inj hnext
      | some handler =>
          rw [hon] at hnext
          dsimp only at hnext ⊢
          rw [coalesce_eq hview, hnext]
          simp [deleting, hkeep]

end Folds

/-! ## The engine, event by event -/

section Engine

variable [DecidableEq ι] [DecidableEq J] [ViewValue J] {projection : Projection J} {i : ι}
  {name : String} {viewId : ID} {s : ReadModel.State ι J}

theorem initialView_engine (projection : Projection J) :
    (projection.engine name : ReadModel.Projection J Infra).initialView =
      projection.initialView := rfl

/-- What the engine adds to the handlers of a projection leaves their reducers. -/
theorem get_engine (event : Event J) :
    ∃ f : ReadModel.EventHandler J Infra → ReadModel.EventHandler J Infra,
      (∀ handler, (f handler).reduce = handler.reduce) ∧
        (projection.engine name).on.get event.name =
          ((projection.on.get event.name).map EventHandler.engine).map f := by
  refine ⟨_, fun handler => ?_,
    (InsertionMap.get_mapValues ..).trans (congrArg _ (InsertionMap.get_map ..))⟩
  cases handler.id <;> rfl

theorem get_engine_none {event : Event J} (hon : projection.on.get event.name = none) :
    (projection.engine name : ReadModel.Projection J Infra).on.get event.name = none := by
  obtain ⟨f, -, hget⟩ := get_engine event
  rw [hget, hon, Option.map_none, Option.map_none]

theorem get_engine_some {event : Event J} {handler : EventHandler J}
    (hon : projection.on.get event.name = some handler) :
    ∃ handler' : ReadModel.EventHandler J Infra,
      (projection.engine name).on.get event.name = some handler' ∧
        ∀ view infra, handler'.reduce event view infra =
          (handler.reduce event view).map deleting := by
  obtain ⟨f, hf, hget⟩ := get_engine event
  refine ⟨f handler.engine, by rw [hget, hon, Option.map_some, Option.map_some],
    fun view infra => ?_⟩
  rw [hf]
  rfl

omit [DecidableEq J] in
theorem updateView_outcome {projection' : ReadModel.Projection J Infra}
    {handler : ReadModel.EventHandler J Infra} {event : Event J} {newView : Except Err (Option J)}
    (hreduce : ∀ infra, handler.reduce event (nullishCoalesce
      ((s.views name).get viewId.render) projection'.initialView) infra = newView) :
    (ReadModel.updateView i name projection' handler viewId event).Alone (fun r t =>
      match newView with
      | .ok newView => r = .ok () ∧ t = s.write i name viewId event newView
      | .error error => r = .error error ∧ t.views = s.views) s := by
  apply Async.Alone.bind
  rw [Async.Alone.alone_call]
  intro _
  apply Async.Alone.bind
  rw [Async.Alone.alone_call]
  intro c
  simp only [Segment.wp, ReadModel.reduceEvent, hreduce]
  cases newView with
  | error error => exact ⟨rfl, rfl⟩
  | ok newView =>
      change Async.Alone _ (Async.call _) _
      rw [Async.Alone.alone_call]
      intro _
      exact ⟨rfl, ReadModel.write_edit _ _ _⟩

omit [DecidableEq J] in
theorem storedView_write {event : Event J} {newView : Option J} :
    storedView name viewId (s.write i name viewId event newView) =
      newView.getD ViewValue.undefined := by
  unfold storedView ReadModel.State.write
  dsimp only
  rw [Function.update_self, ReadModel.get_writeStore, if_pos rfl]

theorem deliver_alone {event : Event J} (hmaps : projection.MapsTo Infra name viewId [event]) :
    (deliver i name projection event : ReadModel.Program ι J Infra Unit).Alone (fun r t =>
      r = .ok () ∧ storedView name viewId t =
        projection.runProjection (storedView name viewId s) event) s := by
  unfold deliver Projection.runProjection
  cases hon : projection.on.get event.name with
  | none =>
      rw [get_engine_none hon]
      exact ⟨rfl, rfl⟩
  | some handler =>
      obtain ⟨handler', hon', hreduce⟩ :
          ∃ handler' : ReadModel.EventHandler J Infra, _ := get_engine_some hon
      have hid := hmaps event List.mem_cons_self handler' hon'
      rw [hon']
      dsimp only
      apply Async.Alone.tryCatch
      rw [ReadModel.boundHandler, hid]
      apply Async.Alone.bind
      rw [Async.Alone.alone_ofExcept]
      refine (updateView_outcome fun infra => hreduce _ infra).mono ?_
      intro r t hrt
      rw [initialView_engine, coalesce_stored] at hrt
      change match (handler.reduce event (nullishCoalesce (some (storedView name viewId s))
        projection.initialView)).map deleting with
        | .ok newView => r = .ok () ∧ t = s.write i name viewId event newView
        | .error error => r = .error error ∧ t.views = s.views at hrt
      cases hnew : handler.reduce event (nullishCoalesce (some (storedView name viewId s))
          projection.initialView) with
      | error error =>
          rw [hnew] at hrt
          obtain ⟨rfl, hviews⟩ := hrt
          exact ⟨rfl, by rw [storedView, hviews]; rfl⟩
      | ok newView =>
          rw [hnew] at hrt
          obtain ⟨rfl, rfl⟩ := hrt
          exact ⟨rfl, storedView_write⟩

/-- The engine folds the events into the view. -/
theorem deliver_all {events : List (Event J)}
    (hmaps : projection.MapsTo Infra name viewId events) :
    (Async.forEach (deliver i name projection : Event J → ReadModel.Program ι J Infra Unit)
      events).Alone (fun r t => r = .ok () ∧ storedView name viewId t =
        events.foldl projection.runProjection (storedView name viewId s)) s := by
  have hbody : ∀ done event rest (t : ReadModel.State ι J), done ++ event :: rest = events →
      storedView name viewId t =
        done.foldl projection.runProjection (storedView name viewId s) →
      (deliver i name projection event : ReadModel.Program ι J Infra Unit).Alone (fun r u =>
        r = .ok () ∧ storedView name viewId u =
          (done ++ [event]).foldl projection.runProjection (storedView name viewId s)) t := by
    intro done event rest t hdone ht
    have hevent : projection.MapsTo Infra name viewId [event] := by
      intro event' hevent'
      obtain rfl := List.mem_singleton.mp hevent'
      exact hmaps event' (by simp [← hdone])
    refine (deliver_alone hevent).mono ?_
    rintro _ u ⟨rfl, hu⟩
    exact ⟨rfl, by rw [hu, ht, List.foldl_append]; rfl⟩
  refine Async.Alone.forEach ?_ hbody
  rfl

theorem agrees_iff_fold [Inhabited Infra] {events : List (Event J)}
    (hmaps : projection.MapsTo Infra name viewId events) :
    projection.Agrees Infra i name viewId events s ↔
      events.foldl projection.runProjection (storedView name viewId s) =
        (projection.execute (storedView name viewId s) events).view := by
  have hall : (Async.forEach
      (deliver i name projection : Event J → ReadModel.Program ι J Infra Unit) events).Alone
        (fun r t => r = .ok () ∧ storedView name viewId t =
          events.foldl projection.runProjection (storedView name viewId s)) s :=
    deliver_all hmaps
  constructor
  · intro hagrees
    have : Nonempty (Choice Infra) := ⟨⟨0, default, none, false⟩⟩
    obtain ⟨r, t, ⟨-, ht⟩, ht'⟩ := (hall.and hagrees).exists_outcome
    exact ht.symm.trans ht'
  · intro heq
    exact hall.mono fun r t ht => ht.2.trans heq

/-- After every number of events the harness returns the view of the engine, if and only if
the reducers do not see a difference. -/
theorem agrees_iff [Inhabited Infra] {events : List (Event J)}
    (hmaps : projection.MapsTo Infra name viewId events) :
    (∀ n, projection.Agrees Infra i name viewId (events.take n) s) ↔
      projection.Faithful (storedView name viewId s) (storedView name viewId s) events := by
  rw [← faithful_iff]
  refine forall_congr' fun n => ?_
  rw [agrees_iff_fold fun event hevent => hmaps event (List.mem_of_mem_take hevent),
    viewFrom_execute]

end Engine

/-! ## Aggregates -/

section Aggregates

variable {aggregate : Aggregate J Infra} {aggregateName : String} {stored : List (Event J)}
  {command : Command J} {infra : Infra}

/-- The first steps of the lifecycle that the engine runs on its store. -/
theorem executeLifecycle_eq (domain : Delivery.Domain J Infra) (c : Delivery.Choice J Infra)
    (store : EventStore J) (hnew : c.processed command = false) :
    (Delivery.executeLifecycle domain c store aggregateName command).map
        (fun contribution => contribution.map fun contribution =>
          (contribution.events, contribution.expectedVersion)) =
      (executeLifecycle (domain.aggregates aggregateName) aggregateName
        (store.load aggregateName command.targetAggregateId) command c.infra).outcome.map
        fun done =>
          let version := (store.load aggregateName command.targetAggregateId).length
          some (Delivery.enrichFrom (c.metadata command) aggregateName
            command.targetAggregateId version
            (domain.aggregates aggregateName).eventVersion 0 done.1, version) := by
  unfold Delivery.executeLifecycle executeLifecycle
  rw [if_neg (by simp [hnew]), Aggregate.replay]
  simp only [bind, Except.bind]
  cases hreplay : (domain.aggregates aggregateName).replayFrom
      (domain.aggregates aggregateName).initialState
      (store.load aggregateName command.targetAggregateId) with
  | error error => rfl
  | ok currentState =>
      dsimp only
      cases (domain.aggregates aggregateName).decide command.name with
      | none => rfl
      | some handler =>
          dsimp only
          cases handler command currentState c.infra with
          | error error => rfl
          | ok result =>
              dsimp only
              cases (domain.aggregates aggregateName).applyEvents currentState result.toArray with
              | error error => rfl
              | ok newState => rfl

variable [JsValue J]

theorem replay_eq (hupcasters : aggregate.upcasters = none) (events : List (Event J)) :
    aggregate.replay events = evolveAggregate aggregate events none := by
  unfold Aggregate.replay Aggregate.replayFrom Aggregate.upcast evolveAggregate
  rw [hupcasters]
  rfl

/-- A second fold that does not take the state for an absent one. -/
theorem evolve_of_present {priorState : J} (hpresent : JsValue.isNullish priorState = false)
    (events : List (Event J)) :
    evolveAggregate aggregate events (some priorState) =
      aggregate.applyEvents priorState events := by
  simp [evolveAggregate, nullishCoalesce, hpresent]

theorem evolve_of_nullish {priorState : J} (hnullish : JsValue.isNullish priorState = true)
    (events : List (Event J)) :
    evolveAggregate aggregate events (some priorState) =
      aggregate.applyEvents aggregate.initialState events := by
  simp [evolveAggregate, nullishCoalesce, hnullish]

omit [JsValue J] in
/-- The answers of a command handler that returns, after the second fold of each. -/
theorem agrees_decided_iff {priorState : J} {events : List (Event J)}
    {tested engine : Except Err J} :
    (AggregateTest.mk (some priorState) (.ok
        (match (do let state ← tested; pure (events, state) : Except Err (List (Event J) × J)) with
        | .ok (events, state) => { events, state }
        | .error error => { events := [], state := priorState, error := some error }))).Agrees
      (Lifecycle.mk (some priorState) (do let state ← engine; pure (events, state))) ↔
      tested.toOption = engine.toOption := by
  constructor
  · intro hagrees
    have houtcome := hagrees.outcome
    cases tested <;> cases engine <;>
      simp_all [bind, Except.bind, pure, Except.pure, Except.toOption]
  · intro heq
    refine ⟨rfl, ?_⟩
    cases tested <;> cases engine <;>
      simp_all [bind, Except.bind, pure, Except.pure, Except.toOption]

theorem agrees_iff_sound (hupcasters : aggregate.upcasters = none) :
    (testAggregate aggregate stored command infra).Agrees
        (executeLifecycle aggregate aggregateName stored command infra) ↔
      Sound aggregate stored command infra := by
  unfold testAggregate executeLifecycle Sound
  rw [replay_eq hupcasters]
  cases evolveAggregate aggregate stored none with
  | error error =>
      constructor
      · intro hagrees
        obtain ⟨result, heq, -⟩ := hagrees.outcome
        cases heq
      · rintro ⟨priorState, heq, -⟩
        cases heq
  | ok priorState =>
      have hprior (p : J → Prop) : (∃ state, (.ok priorState : Except Err J) = .ok state ∧
          p state) ↔ p priorState := by
        simp
      rw [hprior]
      dsimp only
      cases aggregate.decide command.name with
      | none => exact iff_of_true ⟨rfl, _, rfl, rfl⟩ fun handler hdecide => by cases hdecide
      | some handler =>
          have hhandler (p : (Command J → J → Infra → Except Err (OneOrMany (Event J))) → Prop) :
              (∀ handler', some handler = some handler' → p handler') ↔ p handler := by
            simp
          rw [hhandler]
          dsimp only
          unfold decideAndEvolve
          cases handler command priorState infra with
          | error error =>
              exact iff_of_true ⟨rfl, _, rfl, rfl⟩ fun result hresult => by cases hresult
          | ok result =>
              have hresult (p : OneOrMany (Event J) → Prop) : (∀ result',
                  (.ok result : Except Err _) = .ok result' → p result') ↔ p result := by
                simp
              rw [hresult]
              refine agrees_decided_iff.trans ?_
              cases hnullish : JsValue.isNullish priorState with
              | true => simp [evolve_of_nullish hnullish]
              | false => simp [evolve_of_present hnullish]

end Aggregates

/-! ## Sagas -/

/-- The state of a started instance. -/
theorem handled_load [DecidableEq ι] {domain : Delivery.Domain J Infra} {sagaName : String}
    {events : ι → Event J} {i : ι} {s : Delivery.SagaExecutor.State ι J Infra}
    {onEntry : SagaHandler J Infra} {sagaId : ID} {state : J} {version : Nat}
    (hon : (domain.sagas sagaName).on (events i).name = some onEntry)
    (hid : onEntry.id (events i) = .ok sagaId)
    (hloaded : s.sagaStore.load sagaName sagaId = some ⟨state, version⟩) :
    handled ((Delivery.SagaExecutor.load domain sagaName events i s).executions i) =
      some state := by
  simp [Delivery.SagaExecutor.load, hon, hid, hloaded, bootstrap,
    Delivery.SagaExecutor.State.enter, handled]

theorem handled_iff [JsValue J] {saga : Saga J Infra} {event : Event J}
    {onEntry : SagaHandler J Infra} (hon : saga.on event.name = some onEntry) (state : J)
    (infra : Infra) :
    (testSaga saga (some state) event infra).handled = some state ↔
      (JsValue.isNullish state = true → saga.initialState = state) := by
  unfold testSaga
  rw [hon]
  dsimp only
  rw [Option.some_inj, nullishCoalesce]
  split_ifs with hnullish
  · simp [hnullish]
  · simp [hnullish]

/-- The harness of an aggregate agrees with the lifecycle, and the one of a saga gives the
handler the state that the engine gives it. -/
theorem harnesses_iff [DecidableEq ι] [JsValue J] (aggregate : Aggregate J Infra)
    (aggregateName : String) (stored : List (Event J)) (command : Command J) (infra : Infra)
    (domain : Delivery.Domain J Infra) (sagaName : String) (events : ι → Event J) (i : ι)
    {s : Delivery.SagaExecutor.State ι J Infra} {onEntry : SagaHandler J Infra} {sagaId : ID}
    {state : J} {version : Nat} (hupcasters : aggregate.upcasters = none)
    (hon : (domain.sagas sagaName).on (events i).name = some onEntry)
    (hid : onEntry.id (events i) = .ok sagaId)
    (hloaded : s.sagaStore.load sagaName sagaId = some ⟨state, version⟩) :
    ((testAggregate aggregate stored command infra).Agrees
        (executeLifecycle aggregate aggregateName stored command infra) ↔
      Sound aggregate stored command infra) ∧
    ((testSaga (domain.sagas sagaName) (some state) (events i) infra).handled =
        handled ((Delivery.SagaExecutor.load domain sagaName events i s).executions i) ↔
      (JsValue.isNullish state = true → (domain.sagas sagaName).initialState = state)) := by
  rw [handled_load hon hid hloaded]
  exact ⟨agrees_iff_sound hupcasters, handled_iff hon state infra⟩

namespace Sample

open Noddde.Sample (Value event)

/-- A counter, and `null` once it is reset. -/
def resettable : Aggregate Value Unit where
  initialState := some 5
  decide _ := some fun _ _ _ => .ok (.single (event "Added" (some 1)))
  evolve name := some fun _ state =>
    .ok (if name = "Reset" then none else some (state.getD 0 + 1))
  upcasters := none

def increment : Command Value := ⟨"Increment", none, none, .string "1"⟩

def started (state : Value) : Delivery.SagaExecutor.State Unit Value Unit where
  eventStore := ∅
  sagaStore := InsertionMap.set ∅ (compositeKey "Echo" (.string "1")) ⟨state, 1⟩

/-- One event is given, and a state. -/
theorem harnesses_iff_added :
    (testAggregate resettable [event "Added" none] increment ()).Agrees
        (executeLifecycle resettable "Counter" [event "Added" none] increment ()) ∧
      (testSaga (Delivery.Sample.domain.sagas "Echo") (some (some 7)) (event "Added" none)
          ()).handled =
        handled ((Delivery.SagaExecutor.load Delivery.Sample.domain "Echo"
          (fun _ => event "Added" none) () (started (some 7))).executions ()) := by
  have hloaded : (started (some 7)).sagaStore.load "Echo" (.string "1") =
      some ⟨some 7, 1⟩ := InsertionMap.get_set_self ..
  have hiff := harnesses_iff resettable "Counter" [event "Added" none] increment ()
    Delivery.Sample.domain "Echo" (fun _ => event "Added" none) () rfl rfl rfl hloaded
  refine ⟨hiff.1.mpr ⟨some 6, rfl, fun handler _ result _ hnullish => ?_⟩,
    hiff.2.mpr fun hnullish => ?_⟩
  · cases hnullish
  · cases hnullish

/-- The counter is reset and then incremented: the harness goes on from the initial state. -/
theorem harnesses_reset :
    ¬ ∀ (aggregate : Aggregate Value Unit) (aggregateName : String)
      (stored : List (Event Value)) (command : Command Value), aggregate.upcasters = none →
        (testAggregate aggregate stored command ()).Agrees
          (executeLifecycle aggregate aggregateName stored command ()) := by
  intro hall
  have houtcome : (testAggregate resettable [event "Reset" none] increment ()).outcome =
      .ok { events := [event "Added" (some 1)], state := some 1 } :=
    (hall resettable "Counter" [event "Reset" none] increment rfl).outcome
  have hstate : (testAggregate resettable [event "Reset" none] increment ()).outcome =
      .ok { events := [event "Added" (some 1)], state := some 6 } := rfl
  rw [hstate] at houtcome
  cases houtcome

/-! The views of a projection. -/

inductive View where
  | undefined
  | deleteView
  | number (n : Nat)
  deriving DecidableEq, Repr

instance : ViewValue View where
  isNullish view := view == .undefined
  undefined := .undefined
  deleteView := .deleteView
  nullish_undefined := rfl
  nullish_deleteView := rfl

/-- It counts up from the view, and from 1 when there is none. -/
def deposits (initialView : View) : Projection View where
  on := InsertionMap.set ∅ "Deposited"
    { id := some fun _ => .ok (.string "1")
      reduce := fun _ view => .ok
        (match view with
        | .number n => .number (n + 1)
        | _ => .number 1) }
  initialView

def deposited : Event View := ⟨"Deposited", .undefined, none⟩

theorem mapsTo_deposits (initialView : View) :
    (deposits initialView).MapsTo Unit "deposits" (.string "1") [deposited, deposited] := by
  intro event hevent handler hget
  obtain rfl : event = deposited := by simpa using hevent
  obtain rfl := Option.some.inj hget
  rfl

/-- Without an `initialView` the harness and the engine count alike. -/
theorem agrees_iff_deposits :
    (deposits .undefined).Agrees Unit () "deposits" (.string "1") [deposited, deposited] {} :=
  (agrees_iff (mapsTo_deposits .undefined)).mpr ⟨rfl, rfl, trivial⟩ 2

/-- With one, the harness starts from `undefined` all the same. -/
theorem agrees_initialView :
    ¬ ∀ (projection : Projection View) (viewId : ID) (events : List (Event View)),
      projection.MapsTo Unit "deposits" viewId events →
        projection.Agrees Unit () "deposits" viewId events {} := by
  intro hall
  have hmaps : (deposits (.number 10)).MapsTo Unit "deposits" (.string "1") [deposited] :=
    fun event hevent => mapsTo_deposits (.number 10) event (List.mem_cons_of_mem _ hevent)
  have hviews := (agrees_iff_fold hmaps).mp
    (hall (deposits (.number 10)) (.string "1") [deposited] hmaps)
  exact absurd hviews (by decide)

end Sample

end Noddde.Testing
