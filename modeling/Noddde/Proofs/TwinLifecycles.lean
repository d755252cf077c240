import Noddde.Proofs.TwinCommits
/-!
# Lifecycles of twin commands

Load, decide and contribute, on fresh units of work: the two sides decide on one state and
prepare twin commits.
-/

namespace Noddde

open Async

variable {J Infra : Type} [JsValue J] {wiring : Wiring J Infra} {name : String}
  {G : World J → World J → Prop} {P : UowRef → Prop} {u : UowRef} {s s' : World J} {task : Task J}

/-! ## Loading -/

theorem nullishCoalesce_self (fallback : J) :
    nullishCoalesce (some fallback) fallback = fallback :=
  ite_self _

/-- What a state-stored lifecycle makes of a record, or of none. -/
theorem nullishCoalesce_eq (x : Option J) :
    nullishCoalesce x (wiring.aggregates name).initialState =
      coalesced wiring name (x.getD (wiring.aggregates name).initialState) := by
  cases x with
  | none => exact (nullishCoalesce_self _).symm
  | some v => rfl

/-- What the two sides have loaded of an instance, while the stores stay. -/
structure LoadedBoth (wiring : Wiring J Infra) (name : String) (id : ID)
    (loaded loaded' : Loaded J) (s s' : World J) : Prop where
  currentState : loaded'.currentState = coalesced wiring name loaded.currentState
  sourced : loaded.isEventSourced = true
  stored : loaded'.isEventSourced = false
  version : (s.eventStore.load name id).length = loaded.version
  version' : StateStore.version s'.stateStore (compositeKey name id) = loaded'.version
  replay : (wiring.aggregates name).replay (s.eventStore.load name id) = .ok loaded.currentState

/-- The unit of work is fresh on both sides. -/
structure FreshBoth (wiring : Wiring J Infra) (name : String) (P : UowRef → Prop) (u : UowRef)
    (s s' : World J) : Prop where
  twins : Twins wiring name P s s'
  unit : s.uows u = { created := true }
  unit' : s'.uows u = { created := true }

theorem FreshBoth.note (hs : FreshBoth wiring name P u s s') {o o' : Obs J}
    (ho : o'.shown = o.shown) (hdecision : o.isDecision = false) :
    FreshBoth wiring name P u (s.note o) (s'.note o') :=
  { hs with twins := hs.twins.note ho hdecision }

theorem FreshBoth.setUuids (hs : FreshBoth wiring name P u s s') (uuids : Nat) :
    FreshBoth wiring name P u { s with uuids } { s' with uuids } :=
  { hs with twins := hs.twins.setUuids uuids }

theorem loadFully_sourced {state : J} {partialLoad : Bool}
    (h : (task.aggregate wiring).replay (s.eventStore.load task.aggregateName task.aggregateId) =
      .ok state) :
    let stream := s.eventStore.load task.aggregateName task.aggregateId
    let loaded : Loaded J :=
      { currentState := state, version := stream.length, isEventSourced := true
        lastSnapshotVersion := 0 }
    loadFully wiring task u (.eventSourced partialLoad) s =
      (.ok loaded, s.note (.loadedEvents task u (.ok loaded) stream)) := by
  unfold Aggregate.replay at h
  simp only [loadFully, rebuildState, bind, Segment.read, note, Segment.modify, h, Except.map,
    Segment.ofExcept, Nat.zero_add]
  rfl

theorem load_lockstep (hinter : Comparable wiring name) (hname : task.aggregateName = name)
    (hs : FreshBoth wiring name P u s s') (partialLoad : Bool) :
    Lockstep G (Matching wiring name) (fun loaded loaded' t t' =>
        LoadedBoth wiring name task.aggregateId loaded loaded' t t' ∧ FreshBoth wiring name P u t t')
      (fun _ => Twins wiring name P) (load wiring task u (.eventSourced partialLoad))
      (load (wiring.storingStates name) task u .stateStored) s s' := by
  subst hname
  have hnone : loadSnapshot wiring task u = Async.pure none := by
    simp only [loadSnapshot, hinter.unsnapped]
    rfl
  have hnone' : loadSnapshot (wiring.storingStates task.aggregateName) task u =
      Async.pure none := hnone
  unfold load
  rw [hnone, hnone']
  refine Lockstep.call (fun _ _ _ _ h => h.2.twins.toMatching) (fun _ _ _ ht => ht.toMatching)
    fun _ _ => ?_
  have hstate := hs.twins.states task.aggregateId
  exact Segment.both_of_eq (loadFully_sourced hstate) rfl
    ⟨⟨nullishCoalesce_eq _, rfl, rfl, rfl, rfl, hstate⟩, hs.note rfl rfl⟩

/-! ## Deciding -/

variable (wiring name) in
/-- In worlds that look the same, a decision that `G` allows is not made on a nullish state. -/
def Vouches (G : World J → World J → Prop) : Prop :=
  ∀ (s s' : World J) (task : Task J) u state (events : List (Event J)) newEvents newEvents',
    SameShown s s' → (wiring.aggregates name).replay events = .ok state →
    G (s.note (.decided task u state newEvents))
      (s'.note (.decided task u (coalesced wiring name state) newEvents')) →
      coalesced wiring name state = state

omit [JsValue J] in
theorem decided_eq (task : Task J) (u : UowRef) (state : J) (newEvents : Except Err (List (Event J)))
    (w : World J) :
    (do note (.decided task u state newEvents); .ofExcept newEvents : Sync J (List (Event J))) w =
      (newEvents, w.note (.decided task u state newEvents)) := by
  cases newEvents <;> rfl

theorem executeCommandHandler_lockstep (hG : Vouches wiring name G) {loaded loaded' : Loaded J}
    (hloaded : LoadedBoth wiring name task.aggregateId loaded loaded' s s')
    (hs : FreshBoth wiring name P u s s') :
    Lockstep G (Matching wiring name) (fun newEvents newEvents' t t' => newEvents' = newEvents ∧
        LoadedBoth wiring name task.aggregateId loaded loaded' t t' ∧
        loaded'.currentState = loaded.currentState ∧ FreshBoth wiring name P u t t')
      (fun _ => Twins wiring name P) (executeCommandHandler wiring task u loaded)
      (executeCommandHandler (wiring.storingStates name) task u loaded') s s' := by
  have hsame : (task.aggregate (wiring.storingStates name)).decide task.command.name =
      (task.aggregate wiring).decide task.command.name := rfl
  unfold executeCommandHandler
  rw [hsame]
  cases (task.aggregate wiring).decide task.command.name with
  | none => exact ⟨rfl, hs.twins⟩
  | some handler =>
      refine Lockstep.call (fun _ _ _ _ h => h.2.2.2.twins.toMatching)
        (fun _ _ _ ht => ht.toMatching) fun c hdecided => ?_
      dsimp only at hdecided ⊢
      rw [decided_eq, decided_eq, hloaded.currentState] at hdecided
      have hstate := hG s s' task u _ _ _ _ hs.twins.shown hloaded.replay hdecided
      have hcurrent : loaded'.currentState = loaded.currentState :=
        hloaded.currentState.trans hstate
      have htwins := fun newEvents => hs.twins.note_decided task u newEvents hstate
      rw [hcurrent]
      refine Segment.both_of_eq (decided_eq ..) (decided_eq ..) ?_
      cases (handler task.command loaded.currentState c.infra).map OneOrMany.toArray with
      | ok newEvents => exact ⟨rfl, { hloaded with }, rfl, { hs with twins := htwins _ }⟩
      | error e => exact ⟨rfl, htwins _⟩

/-! ## Enriching -/

omit [JsValue J] in
theorem both_orUuid (huuids : s'.uuids = s.uuids) (value : Option String) :
    Segment.Both (fun id id' t t' => id' = id ∧ ∃ uuids, t = { s with uuids } ∧
        t' = { s' with uuids })
      (fun _ t t' => t = s ∧ t' = s') (orUuid wiring value)
      (orUuid (wiring.storingStates name) value) s s' := by
  cases value with
  | some value =>
      refine ⟨rfl, s.uuids, rfl, ?_⟩
      rw [← huuids]
      rfl
  | none =>
      refine ⟨?_, s.uuids + 1, rfl, ?_⟩
      · rw [huuids]
        rfl
      · rw [← huuids]
        rfl

omit [JsValue J] in
theorem enrichedFrom_same {metadata metadata' : String → Nat → Event J → EventMetadata}
    (h : ∀ id index event,
      { metadata' id index event with sequenceNumber := none } =
        { metadata id index event with sequenceNumber := none })
    (uuids index : Nat) (events : List (Event J)) :
    List.Forall₂ SameEvent (enrichedFrom wiring metadata uuids index events)
      (enrichedFrom (wiring.storingStates name) metadata' uuids index events) := by
  induction events generalizing uuids index with
  | nil => exact .nil
  | cons event rest ih =>
      refine .cons ?_ (ih (uuids + 1) (index + 1))
      exact congrArg (fun m => Event.mk event.name event.payload (some m)) (h _ _ _)

omit [JsValue J] in
/-- The batch of the left side, enriched: its facts are those of the decided events, and it
is in the current schema version. -/
theorem both_enrich (huuids : s'.uuids = s.uuids) (ambient : Ambient) (c : Choice Infra)
    (newEvents : List (Event J)) (version version' : Nat) :
    Segment.Both (fun events events' t t' => List.Forall₂ SameEvent events events' ∧
        events.map Event.fact = newEvents.map Event.fact ∧
        (task.aggregate wiring).Current events ∧
        ∃ uuids, t = { s with uuids } ∧ t' = { s' with uuids })
      (fun _ t t' => t = s ∧ t' = s')
      (enrich wiring ambient c newEvents task.aggregateName task.aggregateId version
        task.command.name (task.aggregate wiring).eventVersion)
      (enrich (wiring.storingStates name) ambient c newEvents task.aggregateName task.aggregateId
        version' task.command.name (task.aggregate wiring).eventVersion) s s' := by
  have hprovider : providerContext (wiring.storingStates name) c = providerContext wiring c := rfl
  unfold enrich
  rw [hprovider]
  refine Segment.Both.bind (Q := fun ctx ctx' t t' => ctx' = ctx ∧ t = s ∧ t' = s')
    (Segment.Both.ofExcept (fun _ _ => ⟨rfl, rfl, rfl⟩) fun _ _ => ⟨rfl, rfl⟩) ?_
  rintro _ providerCtx _ _ ⟨rfl, rfl, rfl⟩
  refine Segment.Both.bind (both_orUuid huuids _) ?_
  rintro _ correlationId _ _ ⟨rfl, uuids, rfl, rfl⟩
  have henriched : Enriched wiring (task.aggregate wiring).eventVersion uuids newEvents
      (enrichedFrom wiring (eventMetadata wiring (providerCtx.merge (ambient.metadata.getD {}))
        correlationId c task.aggregateName task.aggregateId version task.command.name
        (task.aggregate wiring).eventVersion) uuids 0 newEvents) :=
    enrichedFrom_enriched wiring (fun _ _ _ => rfl) (fun _ _ _ => rfl) uuids 0 newEvents
  refine Segment.both_of_eq (enrichFrom_eq _ _ _ _ _) (enrichFrom_eq _ _ _ _ _)
    ⟨?_, henriched.facts, henriched.current, _, rfl, rfl⟩
  refine enrichedFrom_same ?_ _ _ _
  intro id index event
  rfl

/-! ## Enlisting and deferring -/

theorem Twins.enlisted (hs : Twins wiring name P s s') (hu : ¬ P u) (dispatch : Option Origin)
    (operation operation' : Operation J) :
    Twins wiring name P (s.enlistAll u dispatch [operation])
      (s'.enlistAll u dispatch [operation']) := by
  have hset : Twins wiring name P
      (s.setUow u fun uow => { uow with operations := uow.operations ++ [operation] })
      (s'.setUow u fun uow => { uow with operations := uow.operations ++ [operation'] }) :=
    hs.setUow hu ⟨(hs.units u).completed, (hs.units u).pendingEvents⟩
  have hshown : (Obs.enlisted u dispatch operation').shown =
      (Obs.enlisted u dispatch operation).shown := rfl
  exact hset.note hshown rfl

omit [JsValue J] in
theorem enlist_eq {w : World J} (h : (w.uows u).completed = false) (dispatch : Option Origin)
    (operation : Operation J) :
    enlist u dispatch operation w = (.ok (), w.enlistAll u dispatch [operation]) := by
  have henlisted : (enlist u dispatch operation).wp (fun r t =>
      r = .ok () ∧ t = w.enlistAll u dispatch [operation]) w :=
    enlist_wp.mpr (by simp [h])
  exact Prod.ext henlisted.1 henlisted.2

omit [JsValue J] in
theorem deferPublish_eq {w : World J} (h : (w.uows u).completed = false)
    (events : List (Event J)) : deferPublish u events w = (.ok (), w.deferAll u events) := by
  have hdeferred : (deferPublish u events).wp (fun r t =>
      r = .ok () ∧ t = w.deferAll u events) w :=
    (deferPublish_wp h).mpr ⟨rfl, rfl⟩
  exact Prod.ext hdeferred.1 hdeferred.2

namespace Prepared

theorem opened' (hs : Prepared wiring name P u s s') : (s'.uows u).completed = false :=
  (hs.twins.units u).completed.trans hs.opened

theorem note (hs : Prepared wiring name P u s s') {o o' : Obs J} (ho : o'.shown = o.shown)
    (hdecision : o.isDecision = false) : Prepared wiring name P u (s.note o) (s'.note o') := by
  obtain ⟨id, events, version, newState, version', rest, rest', hops, hops', hrest, hsave⟩ :=
    hs.operations
  exact ⟨hs.twins.note ho hdecision, hs.opened, id, events, version, newState, version', rest, rest', hops,
    hops', hrest, { hsave with }⟩

theorem setUuids (hs : Prepared wiring name P u s s') (uuids : Nat) :
    Prepared wiring name P u { s with uuids } { s' with uuids } := by
  obtain ⟨id, events, version, newState, version', rest, rest', hops, hops', hrest, hsave⟩ :=
    hs.operations
  exact ⟨hs.twins.setUuids uuids, hs.opened, id, events, version, newState, version', rest, rest',
    hops, hops', hrest, { hsave with }⟩

theorem enlisted (hs : Prepared wiring name P u s s') (hu : ¬ P u) (dispatch : Option Origin)
    {operation operation' : Operation J} (hop : TwinOperation operation operation') :
    Prepared wiring name P u (s.enlistAll u dispatch [operation])
      (s'.enlistAll u dispatch [operation']) := by
  obtain ⟨id, events, version, newState, version', rest, rest', hops, hops', hrest, hsave⟩ :=
    hs.operations
  refine ⟨hs.twins.enlisted hu dispatch operation operation', ?_, id, events, version, newState,
    version', rest ++ [operation], rest' ++ [operation'], ?_, ?_, ?_, { hsave with }⟩
  · rw [World.completed_enlistAll]
    exact hs.opened
  · simp [World.enlistAll, hops]
  · simp [World.enlistAll, hops']
  · exact List.rel_append hrest (.cons hop .nil)

theorem deferred (hs : Prepared wiring name P u s s') (hu : ¬ P u)
    {events events' : List (Event J)} (hevents : List.Forall₂ SameEvent events events') :
    Prepared wiring name P u (s.deferAll u events) (s'.deferAll u events') := by
  obtain ⟨id, saved, version, newState, version', rest, rest', hops, hops', hrest, hsave⟩ :=
    hs.operations
  have hset : Twins wiring name P (s.deferAll u events) (s'.deferAll u events') :=
    hs.twins.setUow hu ⟨(hs.twins.units u).completed,
      List.rel_append (hs.twins.units u).pendingEvents hevents⟩
  refine ⟨hset, ?_, id, saved, version, newState, version', rest, rest', ?_, ?_,
    hrest, { hsave with }⟩
  · simpa [World.deferAll, World.setUow] using hs.opened
  · simpa [World.deferAll, World.setUow] using hops
  · simpa [World.deferAll, World.setUow] using hops'

theorem both_enlist (hs : Prepared wiring name P u s s') (hu : ¬ P u) (dispatch : Option Origin)
    {operation operation' : Operation J} (hop : TwinOperation operation operation') :
    Segment.Both (fun _ _ => Prepared wiring name P u) (fun _ => Twins wiring name P)
      (enlist u dispatch operation) (enlist u dispatch operation') s s' :=
  Segment.both_of_eq (enlist_eq hs.opened _ _) (enlist_eq hs.opened' _ _)
    (hs.enlisted hu dispatch hop)

end Prepared

/-! ## View updates and outbox entries -/

theorem both_enlistViews (hinter : Comparable wiring name) (hu : ¬ P u)
    {projection : Projection J Infra} (hprojection : projection ∈ wiring.strongProjections)
    {events events' : List (Event J)} (hevents : List.Forall₂ SameEvent events events')
    (hs : Prepared wiring name P u s s') :
    Segment.Both (fun _ _ => Prepared wiring name P u) (fun _ => Twins wiring name P)
      (enlistViews task u projection events) (enlistViews task u projection events') s s' := by
  induction hevents generalizing s s' with
  | nil => exact hs
  | @cons event event' rest rest' h _ ih =>
      unfold enlistViews
      rw [h.name_eq]
      cases hon : projection.on event.name with
      | none => exact ih hs
      | some handler =>
          have hid : handler.id event' = handler.id event := by
            obtain ⟨hids, -⟩ := hinter.numberless _ hprojection _ _ hon
            rw [hids event', hids event, h]
          dsimp only
          rw [hid]
          refine Segment.Both.bind (Q := fun viewId viewId' t t' => viewId' = viewId ∧
            Prepared wiring name P u t t')
            (Segment.Both.ofExcept (fun _ _ => ⟨rfl, hs⟩) fun _ _ => hs.twins) ?_
          rintro _ viewId t t' ⟨rfl, ht⟩
          refine Segment.Both.bind (ht.both_enlist hu _ (.view _ _ h)) ?_
          exact fun _ _ t t' ht => ih ht

theorem both_enlistProjections (hinter : Comparable wiring name) (hu : ¬ P u)
    {events events' : List (Event J)} (hevents : List.Forall₂ SameEvent events events')
    {projections : List (Projection J Infra)}
    (hprojections : ∀ projection ∈ projections, projection ∈ wiring.strongProjections)
    (hs : Prepared wiring name P u s s') :
    Segment.Both (fun _ _ => Prepared wiring name P u) (fun _ => Twins wiring name P)
      (enlistProjections task u events projections)
      (enlistProjections task u events' projections) s s' := by
  induction projections generalizing s s' with
  | nil => exact hs
  | cons projection rest ih =>
      rw [List.forall_mem_cons] at hprojections
      refine Segment.Both.bind (both_enlistViews hinter hu hprojections.1 hevents hs) ?_
      exact fun _ _ t t' ht => ih hprojections.2 ht

omit [JsValue J] in
theorem outboxEntries_eq (wiring : Wiring J Infra) (now : Nat) (events : List (Event J))
    (w : World J) : ∃ entries, outboxEntries wiring now events w =
      (.ok entries, { w with uuids := w.uuids + events.length }) := by
  have h : (outboxEntries wiring now events).wp (fun r t =>
      (∃ entries, r = .ok entries) ∧ t = { w with uuids := w.uuids + events.length }) w :=
    outboxEntries_wp wiring events fun entries _ => ⟨⟨entries, rfl⟩, rfl⟩
  obtain ⟨⟨entries, hentries⟩, ht⟩ := h
  exact ⟨entries, Prod.ext hentries ht⟩

theorem both_onEventsProduced (hinter : Comparable wiring name) (hu : ¬ P u)
    {events events' : List (Event J)} (hevents : List.Forall₂ SameEvent events events')
    (c : Choice Infra) (hs : Prepared wiring name P u s s') :
    Segment.Both (fun _ _ => Prepared wiring name P u) (fun _ => Twins wiring name P)
      (onEventsProduced wiring task u events c)
      (onEventsProduced (wiring.storingStates name) task u events' c) s s' := by
  refine Segment.Both.bind
    (both_enlistProjections hinter hu hevents (fun _ h => h) hs) ?_
  intro _ _ t t' ht
  have hempty : events' ≠ [] ↔ events ≠ [] := by
    rw [← List.length_pos_iff, ← List.length_pos_iff, hevents.length_eq]
  have hboxed : ((wiring.storingStates name).outbox = true ∧ events' ≠ []) ↔
      (wiring.outbox = true ∧ events ≠ []) := and_congr Iff.rfl hempty
  by_cases houtbox : wiring.outbox = true ∧ events ≠ []
  · rw [if_pos houtbox, if_pos (hboxed.mpr houtbox)]
    obtain ⟨entries, hentries⟩ := outboxEntries_eq wiring c.now events t
    obtain ⟨entries', hentries'⟩ :=
      outboxEntries_eq (wiring.storingStates name) c.now events' t'
    rw [ht.twins.uuids, ← hevents.length_eq] at hentries'
    refine Segment.Both.bind (Q := fun _ _ => Prepared wiring name P u)
      (Segment.both_of_eq hentries hentries' (ht.setUuids _)) ?_
    exact fun _ _ t t' ht => ht.both_enlist hu _ (.outbox _ _)
  · rw [if_neg houtbox, if_neg fun h => houtbox (hboxed.mp h)]
    exact ht

end Noddde
