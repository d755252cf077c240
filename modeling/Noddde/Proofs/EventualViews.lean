import Noddde.Proofs.Views
import Noddde.Engine.ReadSample
import Noddde.Data.Merge
/-!
# Eventual projections under overlapping dispatches
-/

namespace Noddde.ReadModel

variable {ι J Infra : Type}

/-! ## The subscriptions of `init` -/

theorem foldl_on (subscriptions : List (String × Handler)) (registry : Registry)
    (eventName : String) :
    (subscriptions.foldl (fun registry subscription =>
        registry.on subscription.1 subscription.2) registry) eventName =
      registry eventName ++
        (subscriptions.filter fun subscription => subscription.1 = eventName).map Prod.snd := by
  induction subscriptions generalizing registry with
  | nil => simp
  | cons subscription rest ih =>
      rw [List.foldl_cons, ih]
      by_cases h : subscription.1 = eventName
      · simp [Registry.on, h, List.append_assoc]
      · have hne : eventName ≠ subscription.1 := fun heq => h heq.symm
        simp [Registry.on, h, Function.update_of_ne hne]

variable {domain : Domain J Infra} {name : String} {projection : Projection J Infra}

theorem init_eq (domain : Domain J Infra) (eventName : String) :
    domain.init eventName =
      (domain.subscriptions.filter fun subscription =>
        subscription.1 = eventName).map Prod.snd := by
  simp [Domain.init, foldl_on]

theorem mem_init_iff {eventName : String} {handler : Handler} :
    handler ∈ domain.init eventName ↔ (eventName, handler) ∈ domain.subscriptions := by
  rw [init_eq]
  simp only [List.mem_map, List.mem_filter, decide_eq_true_eq]
  constructor
  · rintro ⟨⟨_, _⟩, ⟨hmem, rfl⟩, rfl⟩
    exact hmem
  · exact fun hmem => ⟨_, ⟨hmem, rfl⟩, rfl⟩

theorem mem_projectionSubscriptions {eventName : String} {handler : Handler} :
    (eventName, handler) ∈ domain.projectionSubscriptions ↔
      ∃ name projection, domain.resolvedProjections.get name = some projection ∧
        eventName ∈ domain.subscribedTo name projection ∧
        handler = .projection name eventName := by
  simp only [Domain.projectionSubscriptions, List.mem_flatMap, List.mem_map, Prod.mk.injEq,
    Prod.exists, InsertionMap.mem_entries_iff]
  constructor
  · rintro ⟨name, projection, hget, eventName', hmem, rfl, rfl⟩
    exact ⟨name, projection, hget, hmem, rfl⟩
  · rintro ⟨name, projection, hget, hmem, rfl⟩
    exact ⟨name, projection, hget, eventName, hmem, rfl, rfl⟩

theorem projection_mem_subscriptions {eventName name eventName' : String} :
    (eventName, .projection name eventName') ∈ domain.subscriptions ↔
      eventName' = eventName ∧ ∃ projection,
        domain.resolvedProjections.get name = some projection ∧
        eventName ∈ domain.subscribedTo name projection := by
  have hsagas : (eventName, .projection name eventName') ∉ domain.sagaSubscriptions := by
    simp [Domain.sagaSubscriptions]
  have hstandalone :
      (eventName, .projection name eventName') ∉ domain.standaloneSubscriptions := by
    simp [Domain.standaloneSubscriptions]
  simp only [Domain.subscriptions, List.mem_append, hsagas, hstandalone, or_false,
    mem_projectionSubscriptions, Handler.projection.injEq]
  constructor
  · rintro ⟨_, projection, hget, hmem, rfl, rfl⟩
    exact ⟨rfl, projection, hget, hmem⟩
  · rintro ⟨rfl, projection, hget, hmem⟩
    exact ⟨name, projection, hget, hmem, rfl, rfl⟩

theorem mem_subscribedTo {eventName : String} :
    eventName ∈ domain.subscribedTo name projection ↔
      projection.consistency ≠ .strong ∧ domain.hasViewStore name = true ∧
        ∃ handler, projection.on.get eventName = some handler ∧ handler.id.isSome = true := by
  unfold Domain.subscribedTo
  split_ifs with hstrong hstore
  · simp [hstrong]
  · simp only [List.mem_map, List.mem_filter, Prod.exists, InsertionMap.mem_entries_iff,
      exists_and_right, exists_eq_right]
    simp [hstrong, hstore]
  · simp [hstore]

theorem nodup_subscribedTo (name : String) (projection : Projection J Infra) :
    (domain.subscribedTo name projection).Nodup := by
  unfold Domain.subscribedTo
  split_ifs
  · exact List.nodup_nil
  · exact (List.filter_sublist.map Prod.fst).nodup projection.on.nodup
  · exact List.nodup_nil

/-- `init` subscribes a projection once to an event name. -/
theorem nodup_projectionSubscriptions (domain : Domain J Infra) :
    domain.projectionSubscriptions.Nodup := by
  unfold Domain.projectionSubscriptions
  rw [List.nodup_flatMap]
  constructor
  · rintro ⟨name, projection⟩ _
    apply (nodup_subscribedTo name projection).map
    intro a b h
    exact congrArg Prod.fst h
  · have hkeys := domain.resolvedProjections.nodup
    rw [List.Nodup, List.pairwise_map] at hkeys
    apply hkeys.imp
    rintro ⟨name, projection⟩ ⟨name', projection'⟩ hne
    simp only [Function.onFun, List.disjoint_left, List.mem_map]
    rintro _ ⟨a, -, rfl⟩ ⟨b, -, hb⟩
    simp only [Prod.mk.injEq, Handler.projection.injEq] at hb
    exact hne hb.2.1.symm

theorem count_init {eventName : String}
    (hmem : (eventName, .projection name eventName) ∈ domain.subscriptions) :
    (domain.init eventName).count (.projection name eventName) = 1 := by
  have hsagas : domain.sagaSubscriptions.count (eventName, .projection name eventName) = 0 := by
    simp [List.count_eq_zero, Domain.sagaSubscriptions]
  have hstandalone :
      domain.standaloneSubscriptions.count (eventName, .projection name eventName) = 0 := by
    simp [List.count_eq_zero, Domain.standaloneSubscriptions]
  have hprojections : (eventName, .projection name eventName) ∈
      domain.projectionSubscriptions := by
    obtain ⟨-, projection, hget, hsubscribed⟩ := projection_mem_subscriptions.mp hmem
    exact mem_projectionSubscriptions.mpr ⟨name, projection, hget, hsubscribed, rfl⟩
  rw [init_eq, count_map_snd_filter, Domain.subscriptions, List.count_append,
    List.count_append, hsagas, hstandalone,
    List.count_eq_one_of_mem (nodup_projectionSubscriptions domain) hprojections]

/-! ## One dispatch -/

variable [DecidableEq ι] [JsValue J] {reduce : Event J → J → Option J}
  {before : ViewStore J} {i : ι} {s t : State ι J} {event : Event J}

/-- What the call of `handler` writes to the views of `name`. -/
def delivered (name : String) (projection : Projection J Infra) (event : Event J)
    (handler : Handler) : List (Event J) :=
  if handler = .projection name event.name ∧ (projection.viewKey? event).isSome
  then [event] else []

/-- A call of a handler, with its error logged, writes what is delivered. -/
theorem invoke_safe (hget : domain.resolvedProjections.get name = some projection)
    (hreduce : projection.Reduces reduce) {handler : Handler}
    (hhandler : handler ∈ domain.init event.name) {written : List (Event J)}
    {E : Err → State ι J → Prop}
    (hs : (editors name projection reduce before).inv s)
    (hwritten : s.writtenBy i name = written) :
    Async.Safe (editors name projection reduce before) i
      (fun _ t => t.writtenBy i name = written ++ delivered name projection event handler) E
      ((invoke domain i event handler).tryCatch fun _ => pure ()) s := by
  -- whether the call resolves or rejects, the loop goes on
  suffices hinvoke : Async.Safe (editors name projection reduce before) i
      (fun _ t => t.writtenBy i name = written ++ delivered name projection event handler)
      (fun _ t => t.writtenBy i name = written ++ delivered name projection event handler)
      (invoke domain i event handler) s by
    refine Async.Safe.tryCatch hs (hinvoke.mono (fun _ _ _ h => h) ?_)
    intro error t _ ht
    exact Async.Safe.pure fun u _ htu => htu.written.trans ht
  cases handler with
  | saga saga eventName => simpa [delivered, invoke] using foreign_safe hwritten
  | standalone eventName => simpa [delivered, invoke] using foreign_safe hwritten
  | projection other eventName =>
      obtain ⟨rfl, projection', hget', hsubscribed⟩ :=
        projection_mem_subscriptions.mp (mem_init_iff.mp hhandler)
      obtain ⟨-, -, handler, hon, -⟩ := mem_subscribedTo.mp hsubscribed
      simp only [invoke, hget', hon, boundHandler]
      by_cases hother : other = name
      · subst hother
        obtain rfl : projection' = projection := Option.some.inj (hget'.symm.trans hget)
        cases hid : handler.viewId event with
        | error error =>
            have hnone : delivered other projection' event (.projection other event.name) = [] := by
              simp [delivered, Projection.viewKey?, hon, hid]
            rw [hnone, List.append_nil]
            exact Async.Safe.throw fun u _ hsu => hsu.written.trans hwritten
        | ok viewId =>
            have hkey : projection'.viewKey? event = some viewId.render :=
              viewKey?_eq_some.mpr ⟨handler, viewId, hon, hid, rfl⟩
            have hone :
                delivered other projection' event (.projection other event.name) = [event] := by
              simp [delivered, hkey]
            rw [hone]
            exact updateView_safe hs (fun view infra => hreduce _ handler hon event view infra rfl)
              hkey hwritten
      · have hnone : delivered name projection event (.projection other event.name) = [] := by
          simp [delivered, hother]
        rw [hnone, List.append_nil]
        cases handler.viewId event with
        | error error => exact Async.Safe.throw fun u _ hsu => hsu.written.trans hwritten
        | ok viewId => exact updateView_safe_other hother hs hwritten

omit [DecidableEq ι] [JsValue J] in
theorem flatMap_ite_eq (handlers : List Handler) (handler : Handler) (event : Event J) :
    (handlers.flatMap fun other => if other = handler then [event] else []) =
      List.replicate (handlers.count handler) event := by
  induction handlers with
  | nil => rfl
  | cons other rest ih =>
      by_cases h : other = handler
      · subst h
        simp [ih, List.replicate_succ]
      · simp [ih, h]

omit [DecidableEq ι] [JsValue J] in
theorem flatMap_delivered (hget : domain.resolvedProjections.get name = some projection)
    (heventual : projection.consistency ≠ .strong) (hstore : domain.hasViewStore name = true) :
    (domain.init event.name).flatMap (delivered name projection event) =
      if (projection.viewKey? event).isSome then [event] else [] := by
  split_ifs with hkey
  · obtain ⟨key, hkey'⟩ := Option.isSome_iff_exists.mp hkey
    obtain ⟨handler, viewId, hon, hid, -⟩ := viewKey?_eq_some.mp hkey'
    have hsubscribed : (event.name, .projection name event.name) ∈ domain.subscriptions :=
      projection_mem_subscriptions.mpr ⟨rfl, projection, hget,
        mem_subscribedTo.mpr ⟨heventual, hstore, handler, hon, id_isSome_of_viewId hid⟩⟩
    have hcount := count_init hsubscribed
    have hdelivered : delivered name projection event = fun handler =>
        if handler = .projection name event.name then [event] else [] := by
      funext handler
      simp [delivered, hkey]
    rw [hdelivered, flatMap_ite_eq, hcount]
    rfl
  · simp [delivered, hkey]

theorem busDispatch_safe (hget : domain.resolvedProjections.get name = some projection)
    (hreduce : projection.Reduces reduce) {E : Err → State ι J → Prop}
    (hs : (editors name projection reduce before).inv s)
    (hhandlers : s.handlers = domain.init) (hwritten : s.writtenBy i name = []) :
    Async.Safe (editors name projection reduce before) i
      (fun _ t => t.writtenBy i name =
        (domain.init event.name).flatMap (delivered name projection event)) E
      (busDispatch domain i event) s := by
  have hread : Async.Safe (editors name projection reduce before) i
      (fun handlers t => handlers = domain.init event.name ∧ t.writtenBy i name = []) E
      (Async.call fun _ : Choice Infra => .read fun t : State ι J => t.handlers event.name) s := by
    refine Async.Safe.call fun t ht hst _ => ?_
    intro hexclusive
    refine ⟨ht, fun j _ => Kept.refl name j t, fun u _ htu => ⟨?_, ?_⟩⟩
    · change t.handlers event.name = _
      rw [hst.handlers, hhandlers]
    · exact htu.written.trans (hst.written.trans hwritten)
  refine Async.Safe.bind hs (hread.mono ?_ fun _ _ _ h => h)
  rintro handlers t ht ⟨rfl, hwritten⟩
  -- the loop has called the handlers of `done`
  have hloop := Async.Safe.forEach (E := E)
    (f := fun handler => (invoke domain i event handler).tryCatch fun _ => pure ())
    (I := fun rest u => ∃ done, done ++ rest = domain.init event.name ∧
      u.writtenBy i name = done.flatMap (delivered name projection event))
    ht ⟨[], rfl, hwritten⟩
    (by
      rintro handler rest u hu ⟨done, hdone, hwritten⟩
      have hmem : handler ∈ domain.init event.name := by simp [← hdone]
      refine (invoke_safe hget hreduce hmem hu hwritten).mono ?_ fun _ _ _ h => h
      intro _ v _ hv
      exact ⟨done ++ [handler], by simp [← hdone], by simp [hv]⟩)
    (by
      rintro rest u v _ huv ⟨done, hdone, hwritten⟩
      exact ⟨done, hdone, huv.written.trans hwritten⟩)
  refine hloop.mono ?_ fun _ _ _ h => h
  rintro _ u _ ⟨done, hdone, hwritten⟩
  rw [hwritten, ← hdone, List.append_nil]

/-! ## All dispatches -/

def dispatches (domain : Domain J Infra) (events : ι → Event J) (views : String → ViewStore J) :
    Pool ι (State ι J) (Choice Infra) Err :=
  ⟨fun i => busDispatch domain i (events i), { handlers := domain.init, views }⟩

variable {events : ι → Event J} {views : String → ViewStore J}
  {q : Pool ι (State ι J) (Choice Infra) Err}

/-- In every run in which no two dispatches are between the load and the write of one
view of an eventual projection, its views are in the end the folds of the events, each
of them once, in some order. -/
theorem eventual_views (hget : domain.resolvedProjections.get name = some projection)
    (heventual : projection.consistency ≠ .strong) (hstore : domain.hasViewStore name = true)
    (hreduce : projection.Reduces reduce)
    (hrun : Pool.Run (fun _ t => t.Exclusive name) (dispatches domain events views) q)
    (hresolved : ∀ i, q.threads i = .pure ()) :
    ∃ order : List ι, order.Nodup ∧
      (∀ i, i ∈ order ↔ (projection.viewKey? (events i)).isSome) ∧
      ∀ key, (q.state.views name).get key =
        foldView reduce projection.initialView ((views name).get key)
          ((order.map events).filter fun event => projection.viewKey? event = some key) := by
  have hinv : (editors name projection reduce (views name)).inv
      (dispatches domain events views).state :=
    inv_start rfl fun _ => rfl
  have hsafe : ∀ i, Async.Safe (editors name projection reduce (views name)) i
      (fun _ t => t.writtenBy i name =
        (domain.init (events i).name).flatMap (delivered name projection (events i)))
      (fun _ _ => True) ((dispatches domain events views).threads i)
      (dispatches domain events views).state :=
    fun i => busDispatch_safe hget hreduce hinv rfl rfl
  have hwritten : ∀ i, q.state.writtenBy i name =
      if (projection.viewKey? (events i)).isSome then [events i] else [] := by
    intro i
    rw [← flatMap_delivered hget heventual hstore]
    exact Protocol.resolved_of_run hinv hsafe hrun (hresolved i)
  have hfolded := (Protocol.inv_of_run hinv hsafe hrun).2
  have hentry : ∀ entry ∈ q.state.journal name,
      entry.2 = events entry.1 ∧ (projection.viewKey? (events entry.1)).isSome := by
    rintro ⟨i, event⟩ hmem
    have hby : event ∈ q.state.writtenBy i name := by
      rw [← journal_by]
      exact List.mem_map.mpr ⟨(i, event), List.mem_filter.mpr ⟨hmem, by simp⟩, rfl⟩
    rw [hwritten] at hby
    split_ifs at hby with hkey
    · exact ⟨List.mem_singleton.mp hby, hkey⟩
    · cases hby
  refine ⟨(q.state.journal name).map Prod.fst, ?_, fun i => ⟨fun hi => ?_, fun hkey => ?_⟩,
    fun key => ?_⟩
  · rw [List.nodup_iff_count_le_one]
    intro i
    have hlength : ((q.state.journal name).map Prod.fst).count i =
        (q.state.writtenBy i name).length := by
      rw [← journal_by, List.length_map, ← List.countP_eq_length_filter, List.count,
        List.countP_map]
      rfl
    rw [hlength, hwritten]
    split_ifs <;> simp
  · obtain ⟨entry, hmem, rfl⟩ := List.mem_map.mp hi
    exact (hentry entry hmem).2
  · have hby : events i ∈ q.state.writtenBy i name := by
      rw [hwritten, if_pos hkey]
      exact List.mem_singleton.mpr rfl
    rw [← journal_by] at hby
    obtain ⟨entry, hmem, -⟩ := List.mem_map.mp hby
    obtain ⟨hmem, hcaller⟩ := List.mem_filter.mp hmem
    exact List.mem_map.mpr ⟨entry, hmem, by simpa using hcaller⟩
  · rw [hfolded.view_eq key]
    congr 2
    rw [List.map_map]
    exact List.map_congr_left fun entry hmem => (hentry entry hmem).1

/-! ## Two overlapping dispatches -/

section Runs

open Noddde.Sample (Value tick)

theorem tally_reduces (consistency : Consistency) :
    (Sample.tally consistency).Reduces Sample.add := by
  intro eventName handler hget event view infra _
  simp only [Sample.tally, InsertionMap.get_set, InsertionMap.get_empty] at hget
  split_ifs at hget
  obtain rfl := Option.some.inj hget
  rfl

theorem resolvedProjections_sample (consistency : Consistency) :
    (Sample.domain consistency).resolvedProjections.get "Tally" =
      some (Sample.tally consistency) := by
  cases consistency <;> rfl

/-- Not both dispatches are editing. -/
def apart (s : State Bool Value) : Bool :=
  (s.editing false).isNone || (s.editing true).isNone

theorem exclusive_of_apart {s : State Bool Value} (h : apart s = true) :
    s.Exclusive "Tally" := by
  intro i j key hi hj
  cases i <;> cases j <;> simp_all [apart]

/-- The dispatches of two events one after the other. -/
theorem eventual_views_inTurn :
    ∃ q, Pool.playWhile apart
        (List.replicate 4 (false, tick) ++ List.replicate 4 (true, tick))
        (dispatches (Sample.domain .eventual) Sample.additions fun _ => ∅) = some q ∧
      ∃ order : List Bool, order.Nodup ∧
        (∀ i, i ∈ order ↔ ((Sample.tally .eventual).viewKey? (Sample.additions i)).isSome) ∧
        ∀ key, (q.state.views "Tally").get key =
          foldView Sample.add (some 0) none
            ((order.map Sample.additions).filter fun event =>
              (Sample.tally .eventual).viewKey? event = some key) := by
  have hplay : (Pool.playWhile apart
      (List.replicate 4 (false, tick) ++ List.replicate 4 (true, tick))
      (dispatches (Sample.domain .eventual) Sample.additions fun _ => ∅)).any
        (fun q => (q.threads false).resolved && (q.threads true).resolved) := by
    decide +kernel
  obtain ⟨q, hq, hresolved⟩ := (Option.any_eq_true _ _).mp hplay
  rw [Bool.and_eq_true] at hresolved
  have hsettled : ∀ i, q.threads i = .pure () := by
    rintro (_ | _)
    · exact Async.eq_pure_of_resolved hresolved.1
    · exact Async.eq_pure_of_resolved hresolved.2
  obtain ⟨order, hnodup, hmem, hview⟩ :=
    eventual_views (resolvedProjections_sample .eventual) (by decide) rfl
      (tally_reduces .eventual) (Pool.run_of_playWhile (fun _ _ => exclusive_of_apart) hq)
      hsettled
  exact ⟨q, hq, order, hnodup, hmem, hview⟩

theorem additions_ne_two :
    ¬ ∃ order : List Bool, order.Nodup ∧ (∀ i, i ∈ order) ∧
      some (some 2) = foldView Sample.add (some 0) none (order.map Sample.additions) := by
  rintro ⟨order, hnodup, hmem, hfold⟩
  have hperm : order.Perm [false, true] := by
    apply (List.perm_ext_iff_of_nodup hnodup (by decide)).mpr
    intro i
    cases i <;> simp [hmem]
  obtain ⟨first, second, rfl⟩ := List.length_eq_two.mp hperm.length_eq
  cases first <;> cases second
  · exact absurd hnodup (by decide)
  · exact absurd hfold (by decide)
  · exact absurd hfold (by decide)
  · exact absurd hnodup (by decide)

/-- Both dispatches load the view before either of them writes it. -/
def overlap : List (Bool × Choice Unit) :=
  [(false, tick), (false, tick), (true, tick), (true, tick),
    (false, tick), (false, tick), (true, tick), (true, tick)]

/-- The update of the first dispatch is lost: the view is no fold of the two events
in any order. -/
theorem eventual_views_lostUpdate :
    ∃ q, Pool.play overlap
        (dispatches (Sample.domain .eventual) Sample.additions fun _ => ∅) = some q ∧
      (∀ i, q.threads i = .pure ()) ∧
      (q.state.views "Tally").get "total" = some (some 2) ∧
      ¬ ∃ order : List Bool, order.Nodup ∧ (∀ i, i ∈ order) ∧
        (q.state.views "Tally").get "total" =
          foldView Sample.add (some 0) none (order.map Sample.additions) := by
  have hplay : (Pool.play overlap
      (dispatches (Sample.domain .eventual) Sample.additions fun _ => ∅)).any
        (fun q => (q.threads false).resolved && (q.threads true).resolved &&
          ((q.state.views "Tally").get "total" = some (some 2))) := by
    decide +kernel
  obtain ⟨q, hq, hfacts⟩ := (Option.any_eq_true _ _).mp hplay
  simp only [Bool.and_eq_true, decide_eq_true_eq] at hfacts
  obtain ⟨⟨hfirst, hsecond⟩, hview⟩ := hfacts
  refine ⟨q, hq, ?_, hview, ?_⟩
  · rintro (_ | _)
    · exact Async.eq_pure_of_resolved hfirst
    · exact Async.eq_pure_of_resolved hsecond
  · rw [hview]
    exact additions_ne_two

end Runs

end Noddde.ReadModel
