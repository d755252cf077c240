import Noddde.Proofs.Agreement
import Noddde.Proofs.Subscriptions
/-!
# What a rebuild replays

The reader of a rebuild is the one of the adapter or, without it, the first
persistence that can be read.
-/

namespace Noddde.ReadModel

variable {ι J Infra : Type}

/-! ## The event log -/

/-- The event in its current version, if it goes to the view under the key. -/
def RebuildContext.goesTo (ctx : RebuildContext J Infra) (key : String) (event : Event J) :
    Option (Event J) :=
  match upcastForReplay ctx event with
  | .ok upcasted => if ctx.projection.viewKey? upcasted = some key then some upcasted else none
  | .error _ => none

namespace WriteSide

variable (writeSide : WriteSide J)

/-- The persistence instances that the aggregates are wired to. -/
def stores : List Nat := writeSide.aggregates.filterMap fun aggregate =>
  writeSide.resolve aggregate.1

/-- The stream of an instance: a persistence, and the key of the instance in it. -/
def streams (source : Nat × String) : List (Event J) :=
  if source.1 ∈ writeSide.stores then
    match writeSide.persistence source.1 with
    | .eventSourced _ store => store.stream source.2
    | .stateStored => []
  else []

/-- The events are the whole log, in stream order within each instance. -/
def Log (events : List (Event J)) : Prop :=
  ∃ order, order.map Prod.snd = events ∧ Merges order writeSide.streams

/-- The events are those of the log that the projection handles, in their current
version, each of them once and in stream order within each instance. -/
def Replayed (ctx : RebuildContext J Infra) (applied : List (Event J)) : Prop :=
  ∃ order, order.map (fun entry => upcastForReplay ctx entry.2) = applied.map .ok ∧
    Merges order fun source => (writeSide.streams source).filter ctx.projection.handles

/-- There is an adapter reader, or no event that the projection handles is outside of
the first persistence with a `read` method. -/
def ReadsAll (projection : Projection J Infra) : Prop :=
  writeSide.eventReader.isSome ∨
    ∀ source,
      (writeSide.stores.find? fun p => (writeSide.persistence p).read?.isSome) =
        some source.1 ∨
      (writeSide.streams source).filter projection.handles = []

/-- Only the events of `source` go to the view under the key. -/
def Sole (ctx : RebuildContext J Infra) (source : Nat × String) (key : String) : Prop :=
  ∀ other, other ≠ source → ∀ event ∈ writeSide.streams other,
    ctx.goesTo key event = none

variable {writeSide}

theorem read?_eq_some {persistence : Persistence J} {events : List (Event J)}
    (h : persistence.read? = some events) :
    ∃ store, persistence = .eventSourced true store ∧ events = read store := by
  cases persistence with
  | eventSourced readable store =>
      cases readable with
      | false => cases h
      | true => exact ⟨store, rfl, (Option.some.inj h).symm⟩
  | stateStored => cases h

/-- Without an adapter reader, one persistence is read. -/
theorem fallback_order (hadapter : writeSide.eventReader = none) {events : List (Event J)}
    (hreader : writeSide.resolveReader = some events) :
    ∃ first order,
      (writeSide.stores.find? fun p => (writeSide.persistence p).read?.isSome) = some first ∧
      order.map Prod.snd = events ∧
      Merges order fun source => if source.1 = first then writeSide.streams source else [] := by
  simp only [resolveReader, hadapter, Option.bind_eq_some_iff] at hreader
  obtain ⟨first, hfirst, hread⟩ := hreader
  obtain ⟨store, hstore, rfl⟩ := read?_eq_some hread
  have hmem : first ∈ writeSide.stores := List.mem_of_find?_eq_some hfirst
  refine ⟨first, store.tagged.map fun entry => ((first, entry.1), entry.2), hfirst, ?_, ?_⟩
  · rw [List.map_map, read, ← InsertionMap.map_snd_tagged]
    rfl
  · rintro ⟨p, key⟩
    change _ = if p = first then writeSide.streams (p, key) else []
    rw [List.filter_map, List.map_map]
    by_cases hp : p = first
    · subst hp
      have hstreams : writeSide.streams (p, key) = (store.get key).getD [] := by
        simp [streams, hmem, hstore, EventStore.stream]
      rw [if_pos rfl, hstreams]
      refine Eq.trans ?_ (store.merges_tagged key)
      simp [Function.comp_def]
    · have hne : ¬ first = p := fun h => hp h.symm
      rw [if_neg hp]
      simp [Function.comp_def, hne]

end WriteSide

/-! ## What a successful rebuild has applied -/

variable [DecidableEq ι] [JsValue J] {ctx : RebuildContext J Infra} {i : ι}
  {s t : State ι J} {event : Event J} {result : RebuildResult}

/-- Every handler of the projection has an extractor. -/
def Projection.Extracts (projection : Projection J Infra) : Prop :=
  ∀ eventName handler, projection.on.get eventName = some handler → handler.id.isSome = true

omit [DecidableEq ι] [JsValue J] in
theorem extracts_of_resolved {domain : Domain J Infra} {name : String}
    {projection : Projection J Infra}
    (hget : domain.resolvedProjections.get name = some projection)
    (hstore : domain.hasViewStore name = true) : projection.Extracts := by
  intro eventName handler hon
  simp only [Domain.resolvedProjections, InsertionMap.get_mapEntries, Option.map_eq_some_iff,
    hstore, if_true] at hget
  obtain ⟨original, -, rfl⟩ := hget
  simp only [Projection.augment, InsertionMap.get_mapValues, Option.map_eq_some_iff] at hon
  obtain ⟨handler', -, rfl⟩ := hon
  cases hid : handler'.id with
  | none => rfl
  | some id => simp [hid]

/-- The run has ended with an error, or it has written the events and folded them into
the views. -/
def Applies (ctx : RebuildContext J Infra) (i : ι) (s : State ι J) (events : List (Event J))
    (r : Except Err RebuildResult) (t : State ι J) : Prop :=
  ∀ result, r = .ok result →
    ∃ applied : List (Event J),
      events.map (upcastForReplay ctx) = applied.map .ok ∧
      t.writtenBy i ctx.projectionName = s.writtenBy i ctx.projectionName ++ applied ∧
      ∀ reduce, ctx.projection.Reduces reduce →
        Advanced ctx.projectionName ctx.projection reduce applied s t

omit [DecidableEq ι] [JsValue J] in
theorem wp_attempting {α : Type} {m : Step ι J α} {c : Choice Infra}
    {Q : Except Err α → State ι J → Prop} (herror : ∀ error, Q (.error error) s)
    (h : m.wp Q s) : (attempting ctx c m).wp Q s := by
  unfold attempting
  split
  · exact herror _
  · exact h

omit [DecidableEq ι] [JsValue J] in
theorem upcastForReplay_name {upcasted : Event J} (h : upcastForReplay ctx event = .ok upcasted) :
    upcasted.name = event.name := by
  unfold upcastForReplay at h
  cases hname : event.metadata.bind (·.aggregateName) with
  | none =>
      simp only [hname] at h
      rw [← Except.ok.inj h]
  | some aggregateName =>
      simp only [hname] at h
      split_ifs at h
      · rw [← Except.ok.inj h]
      · cases hupcasters : ctx.aggregateUpcasters aggregateName with
        | none =>
            simp only [hupcasters] at h
            rw [← Except.ok.inj h]
        | some upcasters =>
            simp only [hupcasters] at h
            exact upcastEvent_name h

omit [DecidableEq ι] [JsValue J] in
/-- Whether the callback rejects or not, the state stays. -/
theorem reportProgress_ends (n : Nat) :
    (reportProgress ctx n : Program ι J Infra Unit).Alone (fun _ t => t = s) s := by
  unfold reportProgress
  split_ifs
  · rw [Async.Alone.alone_call]
    intro c
    exact wp_attempting (fun _ => rfl) rfl
  · rfl

theorem applyEvent_applies {handler : EventHandler J Infra}
    (hextracts : ctx.projection.Extracts)
    (hon : ctx.projection.on.get event.name = some handler) :
    (applyEvent ctx i handler event result).Alone (fun r t => ∀ result, r = .ok result →
      t.writtenBy i ctx.projectionName = s.writtenBy i ctx.projectionName ++ [event] ∧
      ∀ reduce, ctx.projection.Reduces reduce →
        Advanced ctx.projectionName ctx.projection reduce [event] s t) s := by
  unfold applyEvent
  apply Async.Alone.bind
  rw [Async.Alone.alone_ofExcept]
  cases hreplay : replayViewId handler event with
  | error error => exact nofun
  | ok viewId =>
      have hviewId : handler.viewId event = .ok viewId := by
        obtain ⟨id, hid⟩ := Option.isSome_iff_exists.mp (hextracts _ _ hon)
        simpa [EventHandler.viewId, replayViewId, hid] using hreplay
      have hkey : ctx.projection.viewKey? event = some viewId.render :=
        viewKey?_eq_some.mpr ⟨handler, viewId, hon, hviewId, rfl⟩
      apply Async.Alone.bind
      rw [Async.Alone.alone_call]
      intro c
      refine wp_attempting (fun error => nofun) ?_
      apply Async.Alone.bind
      rw [Async.Alone.alone_call]
      intro c
      unfold Segment.wp reduceEvent
      cases hreduce : handler.reduce event
          (nullishCoalesce ((s.views ctx.projectionName).get viewId.render)
            ctx.projection.initialView) c.infra with
      | error error => exact nofun
      | ok next =>
          apply Async.Alone.bind
          rw [Async.Alone.alone_call]
          intro c
          refine wp_attempting (fun error => nofun) ?_
          apply Async.Alone.bind
          refine (reportProgress_ends _).mono ?_
          rintro (error | _) t ht
          · exact nofun
          · obtain rfl : t = s.write i ctx.projectionName viewId event next :=
              ht.trans (write_edit viewId next (some (ctx.projectionName, viewId.render)))
            intro result _
            refine ⟨?_, fun reduce hpure => ?_⟩
            · rw [writtenBy_write, if_pos ⟨rfl, rfl⟩]
            · rw [hpure _ _ hon event _ _ rfl] at hreduce
              rw [← Except.ok.inj hreduce]
              exact advanced_write hkey

theorem replayEvent_applies (hextracts : ctx.projection.Extracts) :
    (replayEvent ctx i event result).Alone
      (Applies ctx i s ([event].filter ctx.projection.handles)) s := by
  unfold replayEvent
  apply Async.Alone.bind
  rw [Async.Alone.alone_ofExcept]
  cases hupcast : upcastForReplay ctx event with
  | error error => exact nofun
  | ok upcasted =>
      have hname := upcastForReplay_name hupcast
      cases hon : ctx.projection.on.get upcasted.name with
      | none =>
          simp only [Async.Then, hon]
          have hskip : ctx.projection.handles event = false := by
            simp [Projection.handles, ← hname, hon]
          intro result _
          refine ⟨[], ?_, (List.append_nil _).symm, fun _ _ => Advanced.of_views rfl⟩
          simp [hskip]
      | some handler =>
          have hhandles : ctx.projection.handles event = true := by
            simp [Projection.handles, ← hname, hon]
          simp only [Async.Then, hon]
          refine (applyEvent_applies hextracts hon).mono fun r t ht result hr => ?_
          obtain ⟨hwritten, hadvanced⟩ := ht result hr
          refine ⟨[upcasted], ?_, hwritten, hadvanced⟩
          simp [hhandles, hupcast]

theorem replay_applies (hextracts : ctx.projection.Extracts) (events : List (Event J)) :
    (replay ctx i events result).Alone
      (Applies ctx i s (events.filter ctx.projection.handles)) s := by
  induction events generalizing s result with
  | nil =>
      apply Async.Alone.bind
      rw [Async.Alone.alone_call]
      intro c
      refine wp_attempting (fun error => nofun) ?_
      intro _ _
      exact ⟨[], rfl, (List.append_nil _).symm, fun _ _ => Advanced.of_views rfl⟩
  | cons event rest ih =>
      apply Async.Alone.bind
      rw [Async.Alone.alone_call]
      intro c
      refine wp_attempting (fun error => nofun) ?_
      rw [Segment.wp_pure]
      apply Async.Alone.bind
      refine (replayEvent_applies hextracts).mono ?_
      rintro (error | result') t ht
      · exact nofun
      · obtain ⟨first, hfirst, htwritten, htadvanced⟩ := ht result' rfl
        refine ih.mono fun r u hu result hr => ?_
        obtain ⟨later, hlater, huwritten, huadvanced⟩ := hu result hr
        refine ⟨first ++ later, ?_, ?_, fun reduce hpure =>
          (htadvanced reduce hpure).trans (huadvanced reduce hpure)⟩
        · rw [List.map_append, ← hfirst, ← hlater, ← List.map_append, ← List.filter_append]
          rfl
        · rw [huwritten, htwritten, List.append_assoc]

/-- A rebuild that succeeds has applied what its reader yields and the projection
handles, and nothing else. -/
theorem rebuildProjectionImpl_applies (hextracts : ctx.projection.Extracts) :
    (rebuildProjectionImpl ctx i).Alone (fun r t => ∀ result, r = .ok result →
      ∃ applied : List (Event J),
        (ctx.events.filter ctx.projection.handles).map (upcastForReplay ctx) =
          applied.map .ok ∧
        t.writtenBy i ctx.projectionName = s.writtenBy i ctx.projectionName ++ applied ∧
        ∀ reduce, ctx.projection.Reduces reduce → ∀ key,
          (t.views ctx.projectionName).get key =
            referenceView ctx.projection reduce applied key) s := by
  apply Async.Alone.bind
  rw [Async.Alone.alone_call]
  intro _
  apply Async.Alone.tryFinally
  apply Async.Alone.bind
  rw [Async.Alone.alone_call]
  intro c
  refine wp_attempting (fun error => ?_) ?_
  · change Async.Alone _ (Async.call _) _
    rw [Async.Alone.alone_call]
    exact fun _ => ⟨rfl, nofun⟩
  · have hempty : ∀ key, ((truncate ctx (detach ctx i s).2).2.views
        ctx.projectionName).get key = none := by
      intro key
      simp [truncate, Segment.modify]
    refine (replay_applies hextracts ctx.events).mono fun r t ht => ?_
    rw [Async.Alone.alone_call]
    intro _
    refine ⟨rfl, fun result hr => ?_⟩
    obtain ⟨applied, hmap, hwritten, hadvanced⟩ := ht result hr
    refine ⟨applied, hmap, hwritten, fun reduce hpure key => ?_⟩
    have hkey := hadvanced reduce hpure key
    rw [hempty] at hkey
    exact hkey

/-! ## Which events these are -/

variable {writeSide : WriteSide J} {applied : List (Event J)}

omit [DecidableEq ι] [JsValue J] in
theorem map_filter_snd {κ : Type} (order : List (κ × Event J)) (p : Event J → Bool) :
    (order.filter fun entry => p entry.2).map Prod.snd = (order.map Prod.snd).filter p := by
  rw [List.filter_map]
  rfl

omit [JsValue J] in
/-- The reader yields the whole log, as far as the projection handles it. -/
theorem replayed_of_readsAll (hreader : writeSide.resolveReader = some ctx.events)
    (hadapter : ∀ events, writeSide.eventReader = some events → writeSide.Log events)
    (happlied : (ctx.events.filter ctx.projection.handles).map (upcastForReplay ctx) =
      applied.map .ok)
    (h : writeSide.ReadsAll ctx.projection) : writeSide.Replayed ctx applied := by
  suffices hlog : ∃ order : List ((Nat × String) × Event J),
      order.map Prod.snd = ctx.events.filter ctx.projection.handles ∧
      Merges order fun source =>
        (writeSide.streams source).filter ctx.projection.handles by
    obtain ⟨order, hevents, hmerges⟩ := hlog
    refine ⟨order, ?_, hmerges⟩
    rw [← happlied, ← hevents, List.map_map]
    rfl
  cases hevents : writeSide.eventReader with
  | some events =>
      obtain rfl : events = ctx.events := by
        simpa [WriteSide.resolveReader, hevents] using hreader
      obtain ⟨order, horder, hmerges⟩ := hadapter _ hevents
      refine ⟨order.filter fun entry => ctx.projection.handles entry.2, ?_,
        hmerges.filter ctx.projection.handles⟩
      rw [map_filter_snd, horder]
  | none =>
      obtain ⟨first, order, hfirst, horder, hmerges⟩ :=
        WriteSide.fallback_order hevents hreader
      refine ⟨order.filter fun entry => ctx.projection.handles entry.2, ?_, fun source => ?_⟩
      · rw [map_filter_snd, horder]
      · rw [hmerges.filter ctx.projection.handles source]
        change (if source.1 = first then writeSide.streams source else []).filter
          ctx.projection.handles = (writeSide.streams source).filter ctx.projection.handles
        by_cases hsource : source.1 = first
        · rw [if_pos hsource]
        · rcases h with hsome | hrest
          · rw [hevents] at hsome
            cases hsome
          · rcases hrest source with heq | hnone
            · rw [hfirst] at heq
              exact absurd (Option.some.inj heq).symm hsource
            · rw [if_neg hsource, hnone]
              rfl

omit [JsValue J] in
/-- If everything was replayed, then nothing that the projection handles is outside of
what was read: both have the same number of events. -/
theorem readsAll_of_replayed (hreader : writeSide.resolveReader = some ctx.events)
    (happlied : (ctx.events.filter ctx.projection.handles).map (upcastForReplay ctx) =
      applied.map .ok)
    (h : writeSide.Replayed ctx applied) : writeSide.ReadsAll ctx.projection := by
  cases hevents : writeSide.eventReader with
  | some events => exact Or.inl (by rw [hevents]; rfl)
  | none =>
      obtain ⟨first, read, hfirst, hread, hmerges⟩ :=
        WriteSide.fallback_order hevents hreader
      obtain ⟨order, horder, hall⟩ := h
      have hlength : order.length = (ctx.events.filter ctx.projection.handles).length := by
        have hleft := congrArg List.length horder
        have hright := congrArg List.length happlied
        simp only [List.length_map] at hleft hright
        omega
      -- the entries of the first persistence, once as replayed and once as read
      have hfirsts := hall.select fun source => source.1 = first
      have hreads := hmerges.filter ctx.projection.handles
      have hperm : (order.filter fun entry => decide (entry.1.1 = first)).Perm
          (read.filter fun entry => ctx.projection.handles entry.2) := by
        refine hfirsts.perm fun source => ?_
        rw [hreads source]
        by_cases hsource : source.1 = first
        · simp [hsource]
        · simp [hsource]
      have hcount : (order.filter fun entry => decide (entry.1.1 = first)).length =
          order.length := by
        rw [hperm.length_eq, hlength, ← hread, ← map_filter_snd, List.length_map]
      have honly := List.length_filter_eq_length_iff.mp hcount
      refine Or.inr fun source => ?_
      by_cases hsource : source.1 = first
      · exact Or.inl (by rw [hfirst, hsource])
      · right
        rw [List.eq_nil_iff_forall_not_mem]
        intro event hevent
        have hmem := hall.mem_order hevent
        exact hsource (of_decide_eq_true (honly _ hmem))

omit [DecidableEq ι] [JsValue J] in
theorem filter_viewKey {events : List (Event J)} {key : String}
    (happlied : events.map (upcastForReplay ctx) = applied.map .ok) :
    (applied.filter fun event => ctx.projection.viewKey? event = some key) =
      events.filterMap (ctx.goesTo key) := by
  induction events generalizing applied with
  | nil =>
      obtain rfl : applied = [] := by simpa using happlied.symm
      rfl
  | cons event rest ih =>
      cases applied with
      | nil => cases happlied
      | cons upcasted others =>
          simp only [List.map_cons, List.cons.injEq] at happlied
          obtain ⟨hupcasted, hothers⟩ := happlied
          rw [List.filter_cons, List.filterMap_cons, ih hothers]
          by_cases hkey : ctx.projection.viewKey? upcasted = some key
          · simp [RebuildContext.goesTo, hupcasted, hkey]
          · simp [RebuildContext.goesTo, hupcasted, hkey]

omit [DecidableEq ι] [JsValue J] in
theorem goesTo_of_not_handles {key : String} (h : ctx.projection.handles event = false) :
    ctx.goesTo key event = none := by
  unfold RebuildContext.goesTo
  cases hupcast : upcastForReplay ctx event with
  | error error => rfl
  | ok upcasted =>
      have hnone : ctx.projection.viewKey? upcasted = none := by
        unfold Projection.handles at h
        unfold Projection.viewKey?
        rw [upcastForReplay_name hupcast]
        cases hon : ctx.projection.on.get event.name with
        | none => rfl
        | some handler => simp [hon] at h
      simp [hnone]

omit [DecidableEq ι] [JsValue J] in
/-- The replayed events of a view that only one instance has events for. -/
theorem filter_of_sole (h : writeSide.Replayed ctx applied) {source : Nat × String}
    {key : String} (hsole : writeSide.Sole ctx source key) :
    (applied.filter fun event => ctx.projection.viewKey? event = some key) =
      (writeSide.streams source).filterMap (ctx.goesTo key) := by
  obtain ⟨order, horder, hmerges⟩ := h
  have hevents : (order.map Prod.snd).map (upcastForReplay ctx) = applied.map .ok := by
    rw [← horder, List.map_map]
    rfl
  have hhandled : (writeSide.streams source).filterMap (ctx.goesTo key) =
      ((writeSide.streams source).filter ctx.projection.handles).filterMap (ctx.goesTo key) := by
    rw [List.filterMap_filter]
    apply List.filterMap_congr
    intro event _
    cases hevent : ctx.projection.handles event with
    | true => rfl
    | false => rw [goesTo_of_not_handles hevent]; rfl
  have hsource : (order.filter fun entry => entry.1 = source).map Prod.snd =
      (writeSide.streams source).filter ctx.projection.handles := hmerges source
  rw [filter_viewKey hevents, hhandled, ← hsource, List.filterMap_map,
    List.filterMap_map, List.filterMap_filter]
  apply List.filterMap_congr
  rintro ⟨other, event⟩ hentry
  by_cases hother : other = source
  · simp [hother]
  · have hmem := hmerges.mem_stream hentry
    simp [hother, hsole other hother event (List.mem_filter.mp hmem).1]

/-! ## Domain.rebuildProjection -/

/-- A successful rebuild, in any wiring: what it applied is the whole event log as far
as the projection handles it, if and only if there is an adapter reader or the first
readable persistence has all these events.  Then a view whose events come from a
single instance is the one that the live path had built. -/
theorem rebuild_replays_log {domain : Domain J Infra} {name : String} {options : RebuildOptions}
    (hctx : rebuildContext writeSide domain name options = .ok ctx)
    (hadapter : ∀ events, writeSide.eventReader = some events → writeSide.Log events) :
    (rebuildProjection writeSide domain i name options).Alone (fun r t =>
      ∀ result, r = .ok result → ∃ applied,
        t.writtenBy i name = s.writtenBy i name ++ applied ∧
        (writeSide.Replayed ctx applied ↔ writeSide.ReadsAll ctx.projection) ∧
        (writeSide.ReadsAll ctx.projection → ∀ reduce, ctx.projection.Reduces reduce →
          ∀ source key, writeSide.Sole ctx source key →
          ∀ live : List (Event J),
            (live.filter fun event => ctx.projection.viewKey? event = some key) =
              (writeSide.streams source).filterMap (ctx.goesTo key) →
          ∀ u : State ι J, u.handlers = domain.init → u.views name = ∅ →
            (Async.forEach (busDispatch domain i) live).Alone (fun _ v =>
              (t.views name).get key = (v.views name).get key) u)) s := by
  obtain ⟨hget, heventual, hstore, hname, hreader, -⟩ := rebuildContext_eq_ok hctx
  subst hname
  unfold rebuildProjection
  rw [hctx]
  change (rebuildProjectionImpl ctx i).Alone _ s
  refine (rebuildProjectionImpl_applies (extracts_of_resolved hget hstore)).mono ?_
  intro r t ht result hr
  obtain ⟨applied, happlied, hwritten, hviews⟩ := ht result hr
  refine ⟨applied, hwritten, ⟨readsAll_of_replayed hreader happlied,
    replayed_of_readsAll hreader hadapter happlied⟩, ?_⟩
  intro hreads reduce hpure source key hsole live hlive u hhandlers hempty
  have hreplayed := replayed_of_readsAll hreader hadapter happlied hreads
  refine (dispatches_alone hget heventual hstore hpure hhandlers live).mono ?_
  rintro _ v ⟨-, hv⟩
  rw [hviews reduce hpure key, hv key, hempty, InsertionMap.get_empty, referenceView,
    filter_of_sole hreplayed hsole, hlive]

/-! ## Two persistence instances -/

section Runs

open Noddde.Sample (Value tick)

/-- Two aggregates, each with one instance that has made an addition. -/
def counterStore (second : Bool) : EventStore Value :=
  (∅ : EventStore Value).set (if second then "B:1" else "A:1") [Sample.additions second]

/-- Each aggregate has a persistence of its own. -/
def separateStores : WriteSide Value where
  aggregates := [("A", none), ("B", none)]
  resolve aggregateName := if aggregateName = "A" then some 0 else some 1
  persistence p := .eventSourced true (counterStore (p = 1))
  eventReader := none

def separateContext : RebuildContext Value Unit where
  projectionName := "Tally"
  projection := Sample.tally .eventual
  events := [Sample.additions false]
  subscriptions := [("Added", .projection "Tally" "Added")]
  aggregateUpcasters := separateStores.upcasters
  progressInterval := 1000
  mayReject := false

/-- The rebuild succeeds but leaves the events of the second aggregate out, so that
the view is 1 where the additions make 3. -/
theorem rebuild_replays_log_truncated :
    ∃ q, Pool.play (List.replicate 8 ((), tick))
        ⟨fun _ => rebuildThread separateStores (Sample.domain .eventual) () "Tally" ⟨none, false⟩,
          { handlers := (Sample.domain .eventual).init }⟩ = some q ∧
      q.threads () = .pure () ∧
      q.state.writtenBy () "Tally" = [Sample.additions false] ∧
      (q.state.views "Tally").get "total" = some (some 1) ∧
      ¬ separateStores.Replayed separateContext [Sample.additions false] := by
  have hplay : (Pool.play (List.replicate 8 ((), tick))
      ⟨fun _ => rebuildThread separateStores (Sample.domain .eventual) () "Tally" ⟨none, false⟩,
        { handlers := (Sample.domain .eventual).init }⟩).any
        (fun q => (q.threads ()).resolved &&
          decide (q.state.writtenBy () "Tally" = [Sample.additions false] ∧
            (q.state.views "Tally").get "total" = some (some 1))) := by
    decide +kernel
  obtain ⟨q, hq, hfacts⟩ := (Option.any_eq_true _ _).mp hplay
  rw [Bool.and_eq_true, decide_eq_true_eq] at hfacts
  obtain ⟨hresolved, hwritten, hview⟩ := hfacts
  refine ⟨q, hq, Async.eq_pure_of_resolved hresolved, hwritten, hview, ?_⟩
  rintro ⟨order, horder, hmerges⟩
  have hfirst := hmerges.mem_order (k := (0, "A:1")) (x := Sample.additions false) (by decide)
  have hsecond := hmerges.mem_order (k := (1, "B:1")) (x := Sample.additions true) (by decide)
  obtain ⟨entry, rfl⟩ : ∃ entry, order = [entry] := by
    rw [← List.length_eq_one_iff]
    simpa using congrArg List.length horder
  rw [List.mem_singleton] at hfirst hsecond
  rw [← hfirst] at hsecond
  cases hsecond

/-- Both aggregates share one persistence. -/
def sharedStore : WriteSide Value where
  aggregates := [("A", none), ("B", none)]
  resolve _ := some 0
  persistence _ := .eventSourced true
    ((counterStore false).set "B:1" [Sample.additions true])
  eventReader := none

def sharedContext : RebuildContext Value Unit where
  projectionName := "Tally"
  projection := Sample.tally .eventual
  events := [Sample.additions false, Sample.additions true]
  subscriptions := [("Added", .projection "Tally" "Added")]
  aggregateUpcasters := sharedStore.upcasters
  progressInterval := 1000
  mayReject := false

theorem rebuild_replays_log_shared :
    (rebuildProjection sharedStore (Sample.domain .eventual) () "Tally" ⟨none, false⟩).Alone
      (fun r t => ∀ result, r = .ok result → ∃ applied,
        t.writtenBy () "Tally" = applied ∧ sharedStore.Replayed sharedContext applied)
      ({} : State Unit Value) := by
  have hreads : sharedStore.ReadsAll sharedContext.projection := by
    refine Or.inr fun source => ?_
    by_cases hsource : source.1 = 0
    · exact Or.inl (by rw [hsource]; rfl)
    · right
      simp [WriteSide.streams, WriteSide.stores, sharedStore, hsource]
  have hctx : rebuildContext sharedStore (Sample.domain .eventual) "Tally" ⟨none, false⟩ =
      .ok sharedContext := rfl
  refine (rebuild_replays_log hctx (fun _ hadapter => by cases hadapter)).mono ?_
  intro r t ht result hr
  obtain ⟨applied, hwritten, hreplayed, -⟩ := ht result hr
  exact ⟨applied, hwritten, hreplayed.mpr hreads⟩

end Runs

end Noddde.ReadModel
