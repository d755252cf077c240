import Noddde.Async.Alone
import Noddde.Proofs.StrongViews
import Noddde.Engine.ProjectionRebuild
/-!
# Strong, eventual and rebuilt views

The commit, the event bus and the rebuild update a view each in its own way.
Given the same events one at a time they end with the same views.
-/

namespace Noddde.ReadModel

variable {ι J Infra : Type}

/-- The projection finds the view of an event, if it handles it. -/
def Projection.Identifies (projection : Projection J Infra) (event : Event J) : Prop :=
  ∀ handler, projection.on.get event.name = some handler →
    ∃ viewId, handler.viewId event = .ok viewId

def Projection.handles (projection : Projection J Infra) (event : Event J) : Bool :=
  (projection.on.get event.name).isSome

/-- The event is in the current version of its aggregate, as far as that is known. -/
def RebuildContext.Current (ctx : RebuildContext J Infra) (event : Event J) : Prop :=
  ∀ aggregateName upcasters, event.metadata.bind (·.aggregateName) = some aggregateName →
    ctx.aggregateUpcasters aggregateName = some upcasters →
    event.metadata.bind (·.version) = some (currentEventVersion event.name upcasters)

def deletions [JsValue J] (projection : Projection J Infra) (reduce : Event J → J → Option J)
    (views : String → Option J) : List (Event J) → Nat
  | [] => 0
  | event :: rest =>
      match projection.viewKey? event with
      | none => deletions projection reduce views rest
      | some key =>
          let view := applyToView reduce projection.initialView (views key) event
          (if view.isNone then 1 else 0) +
            deletions projection reduce (Function.update views key view) rest

def referenceView [JsValue J] (projection : Projection J Infra)
    (reduce : Event J → J → Option J) (events : List (Event J)) (key : String) : Option J :=
  foldView reduce projection.initialView none
    (events.filter fun event => projection.viewKey? event = some key)

theorem deletions_consistency [JsValue J] {projection : Projection J Infra}
    {reduce : Event J → J → Option J} {views : String → Option J} {events : List (Event J)}
    (consistency : Consistency) :
    deletions { projection with consistency } reduce views events =
      deletions projection reduce views events := by
  induction events generalizing views with
  | nil => rfl
  | cons event rest ih =>
      simp only [deletions, ih]
      rfl

theorem upcastForReplay_of_current {ctx : RebuildContext J Infra} {event : Event J}
    (h : ctx.Current event) : upcastForReplay ctx event = .ok event := by
  unfold upcastForReplay
  cases hname : event.metadata.bind (·.aggregateName) with
  | none => rfl
  | some aggregateName =>
      simp only
      split_ifs
      · rfl
      · cases hupcasters : ctx.aggregateUpcasters aggregateName with
        | none => rfl
        | some upcasters => exact upcastEvent_of_current (h _ _ hname hupcasters)

/-! ## One update -/

variable [DecidableEq ι] [JsValue J] {name : String} {projection : Projection J Infra}
  {reduce : Event J → J → Option J} {i : ι} {s t : State ι J} {event : Event J}

/-- The views of the projection have been folded further, over `events`. -/
def Advanced (name : String) (projection : Projection J Infra)
    (reduce : Event J → J → Option J) (events : List (Event J)) (s t : State ι J) : Prop :=
  ∀ key, (t.views name).get key =
    foldView reduce projection.initialView ((s.views name).get key)
      (events.filter fun event => projection.viewKey? event = some key)

omit [DecidableEq ι] in
theorem Advanced.of_views (h : t.views name = s.views name) :
    Advanced name projection reduce [] s t :=
  fun key => by rw [h]; rfl

omit [DecidableEq ι] in
theorem Advanced.trans {u : State ι J} {events events' : List (Event J)}
    (hst : Advanced name projection reduce events s t)
    (htu : Advanced name projection reduce events' t u) :
    Advanced name projection reduce (events ++ events') s u := by
  intro key
  rw [htu key, hst key, List.filter_append, foldView, foldView, foldView, List.foldl_append]

omit [DecidableEq ι] in
theorem Advanced.skip (h : projection.viewKey? event = none) :
    Advanced name projection reduce [event] s s := by
  intro key
  rw [List.filter_cons_of_neg (by simp [h])]
  rfl

/-- The write that follows an update by the reducer. -/
theorem advanced_write {viewId : ID} (hkey : projection.viewKey? event = some viewId.render) :
    Advanced name projection reduce [event] s
      (s.write i name viewId event
        (applyToView reduce projection.initialView ((s.views name).get viewId.render) event)) := by
  intro key
  simp only [State.write, Function.update_self, get_writeStore]
  by_cases heq : key = viewId.render
  · subst heq
    rw [if_pos rfl, List.filter_cons_of_pos (by simp [hkey])]
    rfl
  · have hne : ¬ viewId.render = key := fun h => heq h.symm
    rw [if_neg heq, List.filter_cons_of_neg (by simp [hkey, hne])]
    rfl

omit [JsValue J] in
theorem write_edit (viewId : ID) (newView : Option J) (view : Option (String × String)) :
    (s.edit i view).write i name viewId event newView = s.write i name viewId event newView := by
  simp [State.write, State.edit]

theorem updateView_alone {handler : EventHandler J Infra} {viewId : ID}
    (hreduce : ∀ view infra, handler.reduce event view infra = .ok (reduce event view)) :
    (updateView i name projection handler viewId event).Alone (fun r t => r = .ok () ∧
      t = s.write i name viewId event
        (applyToView reduce projection.initialView ((s.views name).get viewId.render) event))
      s := by
  apply Async.Alone.bind
  rw [Async.Alone.alone_call]
  intro _
  apply Async.Alone.bind
  rw [Async.Alone.alone_call]
  intro c
  simp only [Segment.wp, reduceEvent, hreduce]
  change Async.Alone _ (Async.call _) _
  rw [Async.Alone.alone_call]
  intro _
  exact ⟨rfl, write_edit _ _ _⟩

/-- The handlers and the views of the projection are as they were. -/
def Untouched (name : String) (s t : State ι J) : Prop :=
  t.handlers = s.handlers ∧ t.views name = s.views name

/-- An update of another projection, with any reducer. -/
theorem updateView_untouched {other : String} {projection' : Projection J Infra}
    {handler : EventHandler J Infra} {viewId : ID} (hother : other ≠ name) :
    (updateView i other projection' handler viewId event).Alone
      (fun _ t => Untouched name s t) s := by
  apply Async.Alone.bind
  rw [Async.Alone.alone_call]
  intro _
  apply Async.Alone.bind
  rw [Async.Alone.alone_call]
  intro c
  unfold Segment.wp reduceEvent
  split
  · change Async.Alone _ (Async.call _) _
    rw [Async.Alone.alone_call]
    intro _
    exact ⟨rfl, Function.update_of_ne hother.symm _ _⟩
  · exact ⟨rfl, rfl⟩

/-! ## The event bus -/

section Bus

variable {domain : Domain J Infra}

/-- A call of a handler, with its error logged. -/
theorem invoke_alone (hget : domain.resolvedProjections.get name = some projection)
    (hreduce : projection.Reduces reduce) {handler : Handler}
    (hhandler : handler ∈ domain.init event.name) :
    ((invoke domain i event handler).tryCatch fun _ => pure ()).Alone (fun r t =>
      r = .ok () ∧ t.handlers = s.handlers ∧
        Advanced name projection reduce (delivered name projection event handler) s t) s := by
  -- whether the call resolves or rejects, the loop goes on
  suffices hinvoke : (invoke domain i event handler).Alone (fun _ t =>
      t.handlers = s.handlers ∧
        Advanced name projection reduce (delivered name projection event handler) s t) s by
    apply Async.Alone.tryCatch
    refine hinvoke.mono ?_
    rintro (error | _) t ht
    · exact ⟨rfl, ht⟩
    · exact ⟨rfl, ht⟩
  have hforeign : (foreign : Program ι J Infra Unit).Alone (fun _ t =>
      t.handlers = s.handlers ∧ Advanced name projection reduce [] s t) s := by
    rw [foreign, Async.Alone.alone_call]
    intro c
    cases c.rejects with
    | none => exact ⟨rfl, Advanced.of_views rfl⟩
    | some error => exact ⟨rfl, Advanced.of_views rfl⟩
  cases handler with
  | saga saga eventName => simpa [delivered, invoke] using hforeign
  | standalone eventName => simpa [delivered, invoke] using hforeign
  | projection other eventName =>
      obtain ⟨rfl, projection', hget', hsubscribed⟩ :=
        projection_mem_subscriptions.mp (mem_init_iff.mp hhandler)
      obtain ⟨-, -, handler, hon, -⟩ := mem_subscribedTo.mp hsubscribed
      simp only [invoke, hget', hon, boundHandler]
      by_cases hother : other = name
      · subst hother
        obtain rfl : projection' = projection := Option.some.inj (hget'.symm.trans hget)
        cases hid : handler.viewId event with
        | error error =>
            have hkey : projection'.viewKey? event = none := by
              simp [Projection.viewKey?, hon, hid]
            simp only [delivered, hkey, Option.isSome_none, Bool.false_eq_true, and_false,
              if_false]
            exact ⟨rfl, Advanced.of_views rfl⟩
        | ok viewId =>
            have hkey : projection'.viewKey? event = some viewId.render :=
              viewKey?_eq_some.mpr ⟨handler, viewId, hon, hid, rfl⟩
            simp only [delivered, hkey, Option.isSome_some, and_self, if_true]
            refine (updateView_alone fun view infra =>
              hreduce _ handler hon event view infra rfl).mono ?_
            rintro _ t ⟨-, rfl⟩
            exact ⟨rfl, advanced_write hkey⟩
      · have hnone : delivered name projection event (.projection other event.name) = [] := by
          simp [delivered, hother]
        rw [hnone]
        cases handler.viewId event with
        | error error => exact ⟨rfl, Advanced.of_views rfl⟩
        | ok viewId =>
            exact (updateView_untouched hother).mono fun _ t ht =>
              ⟨ht.1, Advanced.of_views ht.2⟩

omit [DecidableEq ι] in
theorem Advanced.congr {events events' : List (Event J)}
    (h : Advanced name projection reduce events s t)
    (heq : ∀ key, events.filter (fun event => projection.viewKey? event = some key) =
      events'.filter fun event => projection.viewKey? event = some key) :
    Advanced name projection reduce events' s t :=
  fun key => by rw [← heq key]; exact h key

theorem busDispatch_alone (hget : domain.resolvedProjections.get name = some projection)
    (heventual : projection.consistency ≠ .strong) (hstore : domain.hasViewStore name = true)
    (hreduce : projection.Reduces reduce) (hhandlers : s.handlers = domain.init) :
    (busDispatch domain i event).Alone (fun r t =>
      r = .ok () ∧ t.handlers = s.handlers ∧ Advanced name projection reduce [event] s t)
      s := by
  apply Async.Alone.bind
  rw [Async.Alone.alone_call]
  intro _
  change Async.Alone _ (Async.forEach _ (s.handlers event.name)) s
  have hbody : ∀ done handler rest (t : State ι J),
      done ++ handler :: rest = s.handlers event.name →
      t.handlers = s.handlers ∧ Advanced name projection reduce
        (done.flatMap (delivered name projection event)) s t →
      ((invoke domain i event handler).tryCatch fun _ => pure ()).Alone (fun r u =>
        r = .ok () ∧ u.handlers = s.handlers ∧ Advanced name projection reduce
          ((done ++ [handler]).flatMap (delivered name projection event)) s u) t := by
    intro done handler rest t hdone ht
    have hmem : handler ∈ domain.init event.name := by
      rw [← hhandlers, ← hdone]
      simp
    refine (invoke_alone hget hreduce hmem).mono ?_
    rintro _ u ⟨rfl, hhandlers, hu⟩
    rw [List.flatMap_append, List.flatMap_singleton]
    exact ⟨rfl, hhandlers.trans ht.1, ht.2.trans hu⟩
  refine (Async.Alone.forEach ⟨rfl, Advanced.of_views rfl⟩ hbody).mono ?_
  rintro _ t ⟨rfl, hthandlers, hadvanced⟩
  refine ⟨rfl, hthandlers, hadvanced.congr fun key => ?_⟩
  rw [hhandlers, flatMap_delivered hget heventual hstore]
  split_ifs with hkey
  · rfl
  · rw [Option.not_isSome_iff_eq_none] at hkey
    simp [hkey]

theorem dispatches_alone (hget : domain.resolvedProjections.get name = some projection)
    (heventual : projection.consistency ≠ .strong) (hstore : domain.hasViewStore name = true)
    (hreduce : projection.Reduces reduce) (hhandlers : s.handlers = domain.init)
    (events : List (Event J)) :
    (Async.forEach (busDispatch domain i) events).Alone (fun r t =>
      r = .ok () ∧ Advanced name projection reduce events s t) s := by
  have hbody : ∀ done event rest (t : State ι J), done ++ event :: rest = events →
      t.handlers = s.handlers ∧ Advanced name projection reduce done s t →
      (busDispatch domain i event).Alone (fun r u =>
        r = .ok () ∧ u.handlers = s.handlers ∧
          Advanced name projection reduce (done ++ [event]) s u) t := by
    intro done event rest t _ ht
    refine (busDispatch_alone hget heventual hstore hreduce (ht.1.trans hhandlers)).mono ?_
    rintro _ u ⟨rfl, huhandlers, hu⟩
    exact ⟨rfl, huhandlers.trans ht.1, ht.2.trans hu⟩
  refine (Async.Alone.forEach ⟨rfl, Advanced.of_views rfl⟩ hbody).mono ?_
  rintro _ t ⟨rfl, -, hadvanced⟩
  exact ⟨rfl, hadvanced⟩

end Bus

/-! ## The enlisted thunks -/

section Enlisted

variable {domain : Domain J Infra} {events : List (Event J)}

omit [DecidableEq ι] [JsValue J] in
theorem enlistViews_total (name : String) (hid : ∀ event ∈ events, projection.Identifies event) :
    ∃ operations, enlistViews name projection events = .ok operations ∧
      ∀ operation ∈ operations, ∃ handler viewId event,
        projection.on.get event.name = some handler ∧
        operation = .updateView name viewId event := by
  induction events with
  | nil => exact ⟨[], rfl, fun _ hmem => absurd hmem List.not_mem_nil⟩
  | cons event rest ih =>
      obtain ⟨others, hothers, hmem⟩ := ih fun e he => hid e (List.mem_cons_of_mem _ he)
      unfold enlistViews
      cases hon : projection.on.get event.name with
      | none => exact ⟨others, hothers, hmem⟩
      | some handler =>
          obtain ⟨viewId, hviewId⟩ := hid event List.mem_cons_self handler hon
          refine ⟨.updateView name viewId event :: others, ?_, fun operation hoperation => ?_⟩
          · simp [id_isSome_of_viewId hviewId, hviewId, hothers, bind, Except.bind]
          · rcases List.mem_cons.mp hoperation with rfl | hrest
            · exact ⟨handler, viewId, event, hon, rfl⟩
            · exact hmem operation hrest

omit [DecidableEq ι] [JsValue J] in
theorem enlistProjections_total {projections : List (String × Projection J Infra)}
    (hid : ∀ entry ∈ projections, ∀ event ∈ events, entry.2.Identifies event) :
    ∃ operations, enlistProjections events projections = .ok operations ∧
      ∀ operation ∈ operations, ∃ name projection handler viewId event,
        (name, projection) ∈ projections ∧ projection.on.get event.name = some handler ∧
        operation = .updateView name viewId event := by
  induction projections with
  | nil => exact ⟨[], rfl, fun _ hmem => absurd hmem List.not_mem_nil⟩
  | cons entry rest ih =>
      obtain ⟨first, projection⟩ := entry
      obtain ⟨views, hviews, hview⟩ := enlistViews_total first
        (hid (first, projection) List.mem_cons_self)
      obtain ⟨others, hothers, hother⟩ := ih fun e he => hid e (List.mem_cons_of_mem _ he)
      refine ⟨views ++ others, ?_, fun operation hoperation => ?_⟩
      · simp [enlistProjections, hviews, hothers, bind, Except.bind]
      · rcases List.mem_append.mp hoperation with hmem | hmem
        · obtain ⟨handler, viewId, event, hon, rfl⟩ := hview operation hmem
          exact ⟨first, projection, handler, viewId, event, List.mem_cons_self, hon, rfl⟩
        · obtain ⟨other, projection', handler, viewId, event, hentry, hon, rfl⟩ :=
            hother operation hmem
          exact ⟨other, projection', handler, viewId, event, List.mem_cons_of_mem _ hentry,
            hon, rfl⟩

def runEnlisted (domain : Domain J Infra) (i : ι) (events : List (Event J)) :
    Program ι J Infra Unit := do
  let operations ← Async.ofExcept (enlistProjections events domain.strongProjections)
  Async.forEach (executeOperation domain i) operations

variable {reduces : String → Event J → J → Option J}

theorem executeOperation_alone {other : String} {projection' : Projection J Infra}
    {handler : EventHandler J Infra} {viewId : ID}
    (hget : domain.resolvedProjections.get other = some projection')
    (hon : projection'.on.get event.name = some handler)
    (hreduce : projection'.Reduces (reduces other))
    (hsound : other = name → projection' = projection ∧
      projection.viewKey? event = some viewId.render) :
    (executeOperation domain i (.updateView other viewId event)).Alone (fun r t =>
      r = .ok () ∧ Advanced name projection (reduces name)
        ((Operation.updateView other viewId event).writes name) s t) s := by
  simp only [executeOperation, hget, hon]
  refine (updateView_alone fun view infra => hreduce _ handler hon event view infra rfl).mono ?_
  rintro _ t ⟨rfl, rfl⟩
  refine ⟨rfl, ?_⟩
  by_cases hother : other = name
  · subst hother
    obtain ⟨rfl, hkey⟩ := hsound rfl
    simpa [Operation.writes] using advanced_write hkey
  · simp only [Operation.writes, if_neg hother]
    exact Advanced.of_views (Function.update_of_ne (fun h => hother h.symm) _ _)

theorem runEnlisted_alone (hget : domain.resolvedProjections.get name = some projection)
    (hstrong : projection.consistency = .strong) (hstore : domain.hasViewStore name = true)
    (hreduce : ∀ entry ∈ domain.strongProjections, entry.2.Reduces (reduces entry.1))
    (hid : ∀ entry ∈ domain.strongProjections, ∀ event ∈ events, entry.2.Identifies event) :
    (runEnlisted domain i events).Alone (fun r t =>
      r = .ok () ∧ Advanced name projection (reduces name) events s t) s := by
  have hmem : (name, projection) ∈ domain.strongProjections := by
    refine List.mem_filter.mpr ⟨(InsertionMap.mem_entries_iff _ _ _).mpr hget, ?_⟩
    simp [hstrong, hstore]
  have hnodup : (domain.strongProjections.map Prod.fst).Nodup :=
    (List.filter_sublist.map Prod.fst).nodup domain.resolvedProjections.nodup
  obtain ⟨operations, hoperations, hupdate⟩ := enlistProjections_total hid
  obtain ⟨hwrites, hsound⟩ :=
    (enlistProjections_spec hnodup hoperations).2 name projection hmem
  unfold runEnlisted
  rw [hoperations]
  change Async.Alone _ (Async.forEach _ operations) s
  have hbody : ∀ done operation rest (t : State ι J), done ++ operation :: rest = operations →
      Advanced name projection (reduces name) (done.flatMap (Operation.writes name)) s t →
      (executeOperation domain i operation).Alone (fun r u =>
        r = .ok () ∧ Advanced name projection (reduces name)
          ((done ++ [operation]).flatMap (Operation.writes name)) s u) t := by
    intro done operation rest t hdone ht
    have hoperation : operation ∈ operations := by simp [← hdone]
    obtain ⟨other, projection', handler, viewId, event, hentry, hon, rfl⟩ :=
      hupdate operation hoperation
    have hget' : domain.resolvedProjections.get other = some projection' :=
      (InsertionMap.mem_entries_iff _ _ _).mp (List.mem_filter.mp hentry).1
    have hview : other = name →
        projection' = projection ∧ projection.viewKey? event = some viewId.render := by
      rintro rfl
      exact ⟨Option.some.inj (hget'.symm.trans hget), hsound _ hoperation rfl⟩
    refine (executeOperation_alone hget' hon (hreduce _ hentry) hview).mono ?_
    rintro _ u ⟨rfl, hu⟩
    rw [List.flatMap_append, List.flatMap_singleton]
    exact ⟨rfl, ht.trans hu⟩
  refine (Async.Alone.forEach (Advanced.of_views rfl) hbody).mono ?_
  rintro _ t ⟨rfl, hadvanced⟩
  rw [hwrites] at hadvanced
  refine ⟨rfl, hadvanced.congr fun key => ?_⟩
  rw [List.filter_filter]
  congr 1
  funext event
  cases projection.viewKey? event <;> simp

theorem batches_alone (hget : domain.resolvedProjections.get name = some projection)
    (hstrong : projection.consistency = .strong) (hstore : domain.hasViewStore name = true)
    (hreduce : ∀ entry ∈ domain.strongProjections, entry.2.Reduces (reduces entry.1))
    {batches : List (List (Event J))}
    (hid : ∀ entry ∈ domain.strongProjections, ∀ event ∈ batches.flatten,
      entry.2.Identifies event) :
    (Async.forEach (runEnlisted domain i) batches).Alone (fun r t =>
      r = .ok () ∧ Advanced name projection (reduces name) batches.flatten s t) s := by
  have hbody : ∀ done batch rest (t : State ι J), done ++ batch :: rest = batches →
      Advanced name projection (reduces name) done.flatten s t →
      (runEnlisted domain i batch).Alone (fun r u =>
        r = .ok () ∧ Advanced name projection (reduces name) (done ++ [batch]).flatten s u)
        t := by
    intro done batch rest t hdone ht
    have hbatch : ∀ event ∈ batch, event ∈ batches.flatten := fun event hevent =>
      List.mem_flatten.mpr ⟨batch, by simp [← hdone], hevent⟩
    refine (runEnlisted_alone hget hstrong hstore hreduce fun entry hentry event hevent =>
      hid entry hentry event (hbatch event hevent)).mono ?_
    rintro _ u ⟨rfl, hu⟩
    rw [List.flatten_append, List.flatten_singleton]
    exact ⟨rfl, ht.trans hu⟩
  exact Async.Alone.forEach (Advanced.of_views rfl) hbody

end Enlisted

/-! ## The rebuild -/

section Rebuild

variable {ctx : RebuildContext J Infra} {events : List (Event J)} {result : RebuildResult}

omit [DecidableEq ι] [JsValue J] in
theorem attempting_of_not_mayReject (h : ctx.mayReject = false) {α : Type} (c : Choice Infra)
    (m : Step ι J α) : attempting ctx c m = m := by
  simp [attempting, h]

omit [JsValue J] in
theorem replayViewId_of_viewId {handler : EventHandler J Infra} {viewId : ID}
    (h : handler.viewId event = .ok viewId) : replayViewId handler event = .ok viewId := by
  unfold EventHandler.viewId at h
  unfold replayViewId
  cases hid : handler.id with
  | none => simp [hid] at h
  | some id => simpa [hid] using h

omit [DecidableEq ι] [JsValue J] in
theorem reportProgress_alone (hreject : ctx.mayReject = false) (n : Nat) :
    (reportProgress ctx n : Program ι J Infra Unit).Alone
      (fun r t => r = .ok () ∧ t = s) s := by
  unfold reportProgress
  split_ifs
  · rw [Async.Alone.alone_call]
    intro c
    rw [attempting_of_not_mayReject hreject]
    exact ⟨rfl, rfl⟩
  · exact ⟨rfl, rfl⟩

def nextView (ctx : RebuildContext J Infra) (reduce : Event J → J → Option J)
    (s : State ι J) (key : String) (event : Event J) : Option J :=
  applyToView reduce ctx.projection.initialView ((s.views ctx.projectionName).get key) event

theorem applyEvent_alone (hreject : ctx.mayReject = false) {handler : EventHandler J Infra}
    {viewId : ID} (hviewId : handler.viewId event = .ok viewId)
    (hreduce : ∀ view infra, handler.reduce event view infra = .ok (reduce event view)) :
    (applyEvent ctx i handler event result).Alone (fun r t =>
      r = .ok { result with
        eventsApplied := result.eventsApplied + 1
        viewsDeleted := result.viewsDeleted +
          if (nextView ctx reduce s viewId.render event).isNone then 1 else 0 } ∧
      t = s.write i ctx.projectionName viewId event (nextView ctx reduce s viewId.render event))
      s := by
  unfold applyEvent
  rw [replayViewId_of_viewId hviewId]
  apply Async.Alone.bind
  rw [Async.Alone.alone_ofExcept]
  apply Async.Alone.bind
  rw [Async.Alone.alone_call]
  intro c
  rw [attempting_of_not_mayReject hreject]
  apply Async.Alone.bind
  rw [Async.Alone.alone_call]
  intro c
  simp only [Segment.wp, reduceEvent, hreduce]
  apply Async.Alone.bind
  rw [Async.Alone.alone_call]
  intro c
  rw [attempting_of_not_mayReject hreject]
  apply Async.Alone.bind
  refine (reportProgress_alone hreject _).mono ?_
  rintro _ t ⟨rfl, rfl⟩
  exact ⟨rfl, write_edit _ _ _⟩

theorem replayEvent_alone (hreject : ctx.mayReject = false) (hcurrent : ctx.Current event)
    (hreduce : ctx.projection.Reduces reduce) (hid : ctx.projection.Identifies event) :
    (replayEvent ctx i event result).Alone (fun r t =>
      r = .ok
        { eventsRead := result.eventsRead + 1
          eventsApplied := result.eventsApplied +
            if ctx.projection.handles event then 1 else 0
          viewsDeleted := result.viewsDeleted +
            deletions ctx.projection reduce (fun key => (s.views ctx.projectionName).get key)
              [event] } ∧
      (∀ rest, deletions ctx.projection reduce
          (fun key => (s.views ctx.projectionName).get key) (event :: rest) =
        deletions ctx.projection reduce
          (fun key => (s.views ctx.projectionName).get key) [event] +
        deletions ctx.projection reduce
          (fun key => (t.views ctx.projectionName).get key) rest) ∧
      Advanced ctx.projectionName ctx.projection reduce [event] s t) s := by
  unfold replayEvent
  rw [upcastForReplay_of_current hcurrent]
  apply Async.Alone.bind
  rw [Async.Alone.alone_ofExcept]
  cases hon : ctx.projection.on.get event.name with
  | none =>
      simp only [Async.Then, hon]
      have hkey : ctx.projection.viewKey? event = none := by simp [Projection.viewKey?, hon]
      refine ⟨?_, fun rest => ?_, Advanced.skip hkey⟩
      · simp [Projection.handles, hon, deletions, hkey]
      · simp [deletions, hkey]
  | some handler =>
      obtain ⟨viewId, hviewId⟩ := hid handler hon
      have hkey : ctx.projection.viewKey? event = some viewId.render :=
        viewKey?_eq_some.mpr ⟨handler, viewId, hon, hviewId, rfl⟩
      simp only [Async.Then, hon]
      refine (applyEvent_alone hreject hviewId fun view infra =>
        hreduce _ handler hon event view infra rfl).mono ?_
      rintro _ t ⟨rfl, rfl⟩
      refine ⟨?_, fun rest => ?_, advanced_write hkey⟩
      · simp [Projection.handles, hon, deletions, hkey, nextView]
      · have hviews : (fun key => ((s.write i ctx.projectionName viewId event
              (nextView ctx reduce s viewId.render event)).views ctx.projectionName).get key) =
            Function.update (fun key => (s.views ctx.projectionName).get key) viewId.render
              (nextView ctx reduce s viewId.render event) := by
          funext key
          simp [State.write, get_writeStore, Function.update_apply]
        rw [hviews]
        simp [deletions, hkey, nextView]

theorem replay_alone (hreject : ctx.mayReject = false)
    (hcurrent : ∀ event ∈ events, ctx.Current event)
    (hreduce : ctx.projection.Reduces reduce)
    (hid : ∀ event ∈ events, ctx.projection.Identifies event) :
    (replay ctx i events result).Alone (fun r t =>
      r = .ok
        { eventsRead := result.eventsRead + events.length
          eventsApplied := result.eventsApplied +
            (events.filter ctx.projection.handles).length
          viewsDeleted := result.viewsDeleted +
            deletions ctx.projection reduce (fun key => (s.views ctx.projectionName).get key)
              events } ∧
      Advanced ctx.projectionName ctx.projection reduce events s t) s := by
  induction events generalizing s result with
  | nil =>
      apply Async.Alone.bind
      rw [Async.Alone.alone_call]
      intro c
      rw [attempting_of_not_mayReject hreject]
      exact ⟨by simp [deletions], Advanced.of_views rfl⟩
  | cons event rest ih =>
      apply Async.Alone.bind
      rw [Async.Alone.alone_call]
      intro c
      rw [attempting_of_not_mayReject hreject, Segment.wp_pure]
      apply Async.Alone.bind
      refine (replayEvent_alone hreject (hcurrent event List.mem_cons_self) hreduce
        (hid event List.mem_cons_self)).mono ?_
      rintro _ t ⟨rfl, hdeletions, hadvanced⟩
      refine (ih (fun e he => hcurrent e (List.mem_cons_of_mem _ he))
        fun e he => hid e (List.mem_cons_of_mem _ he)).mono ?_
      rintro _ u ⟨rfl, hrest⟩
      refine ⟨?_, hadvanced.trans hrest⟩
      have hread : result.eventsRead + 1 + rest.length =
          result.eventsRead + (event :: rest).length := by
        rw [List.length_cons]
        omega
      have happlied : result.eventsApplied +
            (if ctx.projection.handles event then 1 else 0) +
            (rest.filter ctx.projection.handles).length =
          result.eventsApplied + ((event :: rest).filter ctx.projection.handles).length := by
        rw [List.filter_cons]
        split_ifs
        · rw [List.length_cons]
          omega
        · omega
      rw [hread, happlied, hdeletions rest, Nat.add_assoc]

theorem rebuildProjectionImpl_alone (hreject : ctx.mayReject = false)
    (hcurrent : ∀ event ∈ ctx.events, ctx.Current event)
    (hreduce : ctx.projection.Reduces reduce)
    (hid : ∀ event ∈ ctx.events, ctx.projection.Identifies event) :
    (rebuildProjectionImpl ctx i).Alone (fun r t =>
      r = .ok
        { eventsRead := ctx.events.length
          eventsApplied := (ctx.events.filter ctx.projection.handles).length
          viewsDeleted := deletions ctx.projection reduce (fun _ => none) ctx.events } ∧
      ∀ key, (t.views ctx.projectionName).get key =
        referenceView ctx.projection reduce ctx.events key) s := by
  apply Async.Alone.bind
  rw [Async.Alone.alone_call]
  intro _
  apply Async.Alone.tryFinally
  apply Async.Alone.bind
  rw [Async.Alone.alone_call]
  intro c
  rw [attempting_of_not_mayReject hreject]
  have hempty : ∀ key, ((truncate ctx (detach ctx i s).2).2.views
      ctx.projectionName).get key = none := by
    intro key
    simp [truncate, Segment.modify]
  refine (replay_alone hreject hcurrent hreduce hid).mono ?_
  rintro _ t ⟨rfl, hadvanced⟩
  rw [Async.Alone.alone_call]
  intro _
  refine ⟨rfl, ?_, fun key => ?_⟩
  · simp [hempty]
  · have hkey := hadvanced key
    rw [hempty] at hkey
    exact hkey

end Rebuild

/-! ## All three -/

/-- Whether a projection is strong or eventual, and however its events are split into
batches: running the enlisted thunks, dispatching the events on the bus and rebuilding
the projection from them end with the same views. -/
theorem views_agree {strong eventual : Domain J Infra}
    {reduces : String → Event J → J → Option J} {batches : List (List (Event J))}
    {ctx : RebuildContext J Infra}
    (hstrong : strong.resolvedProjections.get name =
      some { projection with consistency := .strong })
    (hstrongStore : strong.hasViewStore name = true)
    (heventual : eventual.resolvedProjections.get name =
      some { projection with consistency := .eventual })
    (heventualStore : eventual.hasViewStore name = true)
    (hreduces : ∀ entry ∈ strong.strongProjections, entry.2.Reduces (reduces entry.1))
    (hid : ∀ entry ∈ strong.strongProjections, ∀ event ∈ batches.flatten,
      entry.2.Identifies event)
    (hname : ctx.projectionName = name)
    (hprojection : ctx.projection = { projection with consistency := .eventual })
    (hevents : ctx.events = batches.flatten)
    (hcurrent : ∀ event ∈ batches.flatten, ctx.Current event)
    (hreject : ctx.mayReject = false)
    (hempty : s.views name = ∅) (hhandlers : s.handlers = eventual.init) :
    (Async.forEach (runEnlisted strong i) batches).Alone (fun r t => r = .ok () ∧
      ∀ key, (t.views name).get key =
        referenceView projection (reduces name) batches.flatten key) s ∧
    (Async.forEach (busDispatch eventual i) batches.flatten).Alone (fun r t => r = .ok () ∧
      ∀ key, (t.views name).get key =
        referenceView projection (reduces name) batches.flatten key) s ∧
    (rebuildProjectionImpl ctx i).Alone (fun r t =>
      r = .ok
        { eventsRead := batches.flatten.length
          eventsApplied := (batches.flatten.filter projection.handles).length
          viewsDeleted := deletions projection (reduces name) (fun _ => none)
            batches.flatten } ∧
      ∀ key, (t.views name).get key =
        referenceView projection (reduces name) batches.flatten key) s := by
  subst hname
  have hmem : (ctx.projectionName, { projection with consistency := .strong }) ∈
      strong.strongProjections := by
    refine List.mem_filter.mpr ⟨(InsertionMap.mem_entries_iff _ _ _).mpr hstrong, ?_⟩
    simp [hstrongStore]
  have hreduce : projection.Reduces (reduces ctx.projectionName) := hreduces _ hmem
  have hidentifies : ∀ event ∈ batches.flatten, projection.Identifies event :=
    fun event hevent => hid _ hmem event hevent
  have hreference : ∀ t : State ι J, Advanced ctx.projectionName projection
      (reduces ctx.projectionName) batches.flatten s t →
      ∀ key, (t.views ctx.projectionName).get key =
        referenceView projection (reduces ctx.projectionName) batches.flatten key := by
    intro t ht key
    rw [ht key, hempty, InsertionMap.get_empty, referenceView]
  refine ⟨?_, ?_, ?_⟩
  · refine (batches_alone hstrong rfl hstrongStore hreduces hid).mono ?_
    rintro _ t ⟨rfl, ht⟩
    exact ⟨rfl, hreference t ht⟩
  · refine (dispatches_alone heventual nofun heventualStore hreduce hhandlers _).mono ?_
    rintro _ t ⟨rfl, ht⟩
    exact ⟨rfl, hreference t ht⟩
  · have hpure : ctx.projection.Reduces (reduces ctx.projectionName) := by
      rw [hprojection]
      exact hreduce
    have hrebuild := rebuildProjectionImpl_alone (i := i) (s := s) hreject (by rwa [hevents])
      hpure (by rw [hevents, hprojection]; exact hidentifies)
    rw [hevents, hprojection, deletions_consistency] at hrebuild
    exact hrebuild

/-! ## On concrete events -/

section Runs

open Noddde.Sample (Value tick)

def tallyContext : RebuildContext Value Unit where
  projectionName := "Tally"
  projection := Sample.tally .eventual
  events := [Sample.additions false, Sample.additions true]
  subscriptions := []
  aggregateUpcasters _ := none
  progressInterval := 1000
  mayReject := false

theorem views_agree_additions :
    (rebuildProjectionImpl tallyContext ()).Alone (fun r t =>
      r = .ok ⟨2, 2, 0⟩ ∧ (t.views "Tally").get "total" = some (some 3))
      { handlers := (Sample.domain .eventual).init } := by
  have hentry : ∀ entry ∈ (Sample.domain .strong).strongProjections,
      entry = ("Tally", Sample.tally .strong) := by
    intro entry hentry
    exact List.mem_singleton.mp hentry
  let reduces : String → Event Value → Value → Option Value := fun _ => Sample.add
  have hreduces : ∀ entry ∈ (Sample.domain .strong).strongProjections,
      entry.2.Reduces (reduces entry.1) := by
    intro entry hmem
    rw [hentry entry hmem]
    exact tally_reduces .strong
  have hid : ∀ entry ∈ (Sample.domain .strong).strongProjections,
      ∀ event ∈ [[Sample.additions false], [Sample.additions true]].flatten,
        entry.2.Identifies event := by
    intro entry hmem event _ handler hon
    rw [hentry entry hmem] at hon
    simp only [Sample.tally, InsertionMap.get_set, InsertionMap.get_empty] at hon
    split_ifs at hon
    obtain rfl := Option.some.inj hon
    exact ⟨_, rfl⟩
  have hstrong : (Sample.domain .strong).resolvedProjections.get "Tally" =
      some { Sample.tally .eventual with consistency := .strong } := rfl
  have heventual : (Sample.domain .eventual).resolvedProjections.get "Tally" =
      some { Sample.tally .eventual with consistency := .eventual } := rfl
  have hcurrent : ∀ event ∈ [[Sample.additions false], [Sample.additions true]].flatten,
      tallyContext.Current event := by
    intro event _ aggregateName upcasters _ hupcasters
    cases hupcasters
  obtain ⟨-, -, hrebuild⟩ := views_agree (i := ())
    (s := { handlers := (Sample.domain .eventual).init }) hstrong rfl heventual rfl
    hreduces hid rfl rfl rfl hcurrent rfl rfl rfl
  refine hrebuild.mono ?_
  rintro _ t ⟨rfl, hviews⟩
  refine ⟨by decide, ?_⟩
  rw [hviews "total"]
  decide

/-- A tally that an event without a payload resets to `null`. -/
def resettable : Projection Value Unit where
  on := (∅ : InsertionMap String (EventHandler Value Unit)).set "Added"
    { id := some fun _ => .ok (.string "total")
      reduce := fun event view _ => .ok (some (event.payload.map (· + view.getD 0))) }
  initialView := some 5
  consistency := .eventual

def strictFold (reduce : Event Value → Value → Option Value) (initialView : Value)
    (events : List (Event Value)) : Option Value :=
  events.foldl (fun view event => reduce event (view.getD initialView)) none

def resettableDomain : Domain Value Unit where
  projections := (∅ : InsertionMap String (Projection Value Unit)).set "Tally" resettable
  hasViewStore _ := true
  sagas := []
  standaloneEventHandlers := []

def resetThenAdd : List (Event Value) :=
  [Noddde.Sample.event "Added" none, Noddde.Sample.event "Added" (some 1)]

/-- The addition starts from the initial view 5 again, and not from the `null` that is
stored: the view is 6 where the strict fold ends with 1. -/
theorem views_agree_null :
    ∃ q, Pool.play (List.replicate 8 ((), tick))
        ⟨fun _ => Async.forEach (busDispatch resettableDomain ()) resetThenAdd,
          { handlers := resettableDomain.init }⟩ = some q ∧
      q.threads () = .pure () ∧
      (q.state.views "Tally").get "total" = some (some 6) ∧
      strictFold (fun event view => some (event.payload.map (· + view.getD 0))) (some 5)
        resetThenAdd = some (some 1) := by
  have hplay : (Pool.play (List.replicate 8 ((), tick))
      ⟨fun _ => Async.forEach (busDispatch resettableDomain ()) resetThenAdd,
        { handlers := resettableDomain.init }⟩).any
        (fun q => (q.threads ()).resolved &&
          decide ((q.state.views "Tally").get "total" = some (some 6))) := by
    decide +kernel
  obtain ⟨q, hq, hfacts⟩ := (Option.any_eq_true _ _).mp hplay
  rw [Bool.and_eq_true, decide_eq_true_eq] at hfacts
  exact ⟨q, hq, Async.eq_pure_of_resolved hfacts.1, hfacts.2, by decide⟩

end Runs

end Noddde.ReadModel
