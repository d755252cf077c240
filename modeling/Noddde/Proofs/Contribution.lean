import Noddde.Engine.System
/-!
# What a dispatch contributes to a unit of work

The one segment in which a dispatch enlists operations and defers events either
fails before it enlists anything, or contributes its save, its idempotency claim
and its events, followed by view updates and outbox writes; it still rejects after
that if a view id extractor throws.
-/

namespace Noddde

variable {J Infra : Type} (wiring : Wiring J Infra)

/-! ## Enlisting -/

namespace World

def enlistAll (u : UowRef) (dispatch : Option Origin) (operations : List (Operation J))
    (w : World J) : World J :=
  { w with
    uows := Function.update w.uows u
      { w.uows u with operations := (w.uows u).operations ++ operations }
    history := (operations.map (Obs.enlisted u dispatch)).reverse ++ w.history }

def deferAll (u : UowRef) (events : List (Event J)) (w : World J) : World J :=
  w.setUow u fun uow => { uow with pendingEvents := uow.pendingEvents ++ events }

variable (u : UowRef) (dispatch : Option Origin) (w : World J)

@[simp] theorem enlistAll_nil : w.enlistAll u dispatch [] = w := by
  simp [enlistAll]

theorem enlistAll_append (xs ys : List (Operation J)) :
    (w.enlistAll u dispatch xs).enlistAll u dispatch ys =
      w.enlistAll u dispatch (xs ++ ys) := by
  simp [enlistAll]

@[simp] theorem completed_enlistAll (operations : List (Operation J)) (v : UowRef) :
    ((w.enlistAll u dispatch operations).uows v).completed = (w.uows v).completed := by
  by_cases h : v = u
  · subst h
    simp [enlistAll]
  · simp [enlistAll, Function.update_of_ne h]

end World

theorem assertNotCompleted_wp {u : UowRef} {Q : Except Err Unit → World J → Prop}
    {w : World J} :
    (assertNotCompleted u).wp Q w ↔
      if (w.uows u).completed then Q (.error (.error "UnitOfWork already completed")) w
      else Q (.ok ()) w := by
  cases h : (w.uows u).completed <;> simp [assertNotCompleted, Segment.wp, h]

theorem enlist_wp {u : UowRef} {dispatch : Option Origin} {operation : Operation J}
    {Q : Except Err Unit → World J → Prop} {w : World J} :
    (enlist u dispatch operation).wp Q w ↔
      if (w.uows u).completed then Q (.error (.error "UnitOfWork already completed")) w
      else Q (.ok ()) (w.enlistAll u dispatch [operation]) := by
  simp only [enlist, Segment.wp_bind, Segment.wp_modify, note, assertNotCompleted_wp]
  split <;> rfl

theorem deferPublish_wp {u : UowRef} {events : List (Event J)}
    {Q : Except Err Unit → World J → Prop} {w : World J}
    (hopen : (w.uows u).completed = false) :
    (deferPublish u events).wp Q w ↔ Q (.ok ()) (w.deferAll u events) := by
  simp only [deferPublish, Segment.wp_bind, Segment.wp_modify, assertNotCompleted_wp, hopen]
  rfl

/-! ## Enriching -/

def enrichedFrom (metadata : String → Nat → Event J → EventMetadata) :
    (uuids index : Nat) → List (Event J) → List (Event J)
  | _, _, [] => []
  | uuids, index, event :: rest =>
      { event with metadata := some (metadata (wiring.uuidv7 uuids) index event) } ::
        enrichedFrom metadata (uuids + 1) (index + 1) rest

theorem uuidv7_wp {Q : Except Err String → World J → Prop} {w : World J} :
    (uuidv7 wiring).wp Q w ↔
      Q (.ok (wiring.uuidv7 w.uuids)) { w with uuids := w.uuids + 1 } := Iff.rfl

theorem enrichFrom_wp {metadata : String → Nat → Event J → EventMetadata}
    (events : List (Event J)) (index : Nat) {w : World J}
    {Q : Except Err (List (Event J)) → World J → Prop} :
    (enrichFrom wiring metadata index events).wp Q w ↔
      Q (.ok (enrichedFrom wiring metadata w.uuids index events))
        { w with uuids := w.uuids + events.length } := by
  induction events generalizing index w Q with
  | nil => rfl
  | cons event rest ih =>
      simp only [enrichFrom, Segment.wp_bind, Segment.wp_pure, uuidv7_wp, ih, enrichedFrom,
        List.length_cons]
      rw [Nat.add_right_comm, Nat.add_assoc]

theorem enrichFrom_eq (metadata : String → Nat → Event J → EventMetadata) (index : Nat)
    (events : List (Event J)) (w : World J) :
    enrichFrom wiring metadata index events w =
      (.ok (enrichedFrom wiring metadata w.uuids index events),
        { w with uuids := w.uuids + events.length }) := by
  have hwp : (enrichFrom wiring metadata index events).wp
      (fun r t => (r, t) = (.ok (enrichedFrom wiring metadata w.uuids index events),
        { w with uuids := w.uuids + events.length })) w :=
    (enrichFrom_wp wiring events index).mpr rfl
  exact hwp

structure Enriched (eventVersion : String → Option SchemaVersion) (uuids : Nat)
    (newEvents events : List (Event J)) : Prop where
  facts : events.map Event.fact = newEvents.map Event.fact
  current : ∀ e ∈ events, e.metadata.bind (·.version) = eventVersion e.name
  eventIds : events.map Event.eventId? =
    (List.range' uuids events.length).map fun i => some (wiring.uuidv7 i)

theorem Enriched.length_eq {eventVersion : String → Option SchemaVersion} {uuids : Nat}
    {newEvents events : List (Event J)}
    (h : Enriched wiring eventVersion uuids newEvents events) :
    events.length = newEvents.length := by
  simpa using congrArg List.length h.facts

theorem enrichedFrom_enriched {metadata : String → Nat → Event J → EventMetadata}
    {eventVersion : String → Option SchemaVersion}
    (hid : ∀ id index event, (metadata id index event).eventId = id)
    (hversion : ∀ id index event, (metadata id index event).version = eventVersion event.name)
    (uuids index : Nat) (events : List (Event J)) :
    Enriched wiring eventVersion uuids events
      (enrichedFrom wiring metadata uuids index events) := by
  induction events generalizing uuids index with
  | nil => exact ⟨rfl, by simp [enrichedFrom], rfl⟩
  | cons event rest ih =>
      have hrest := ih (uuids + 1) (index + 1)
      refine ⟨?_, ?_, ?_⟩
      · simp [enrichedFrom, hrest.facts, Event.fact]
      · intro e he
        simp only [enrichedFrom, List.mem_cons] at he
        rcases he with rfl | he
        · simp [hversion]
        · exact hrest.current e he
      · simp [enrichedFrom, hrest.eventIds, Event.eventId?, hid, List.range'_succ]

theorem orUuid_wp {value : Option String} {Q : Except Err String → World J → Prop}
    {w : World J} (h : ∀ id uuids, w.uuids ≤ uuids → Q (.ok id) { w with uuids }) :
    (orUuid wiring value).wp Q w := by
  cases value with
  | some value => exact h value w.uuids le_rfl
  | none => exact h _ _ (Nat.le_succ _)

theorem enrich_wp {ambient : Ambient} {c : Choice Infra} {newEvents : List (Event J)}
    {aggregateName : String} {aggregateId : ID} {version : Nat} {fallback : String}
    {eventVersion : String → Option SchemaVersion} {w : World J}
    {Q : Except Err (List (Event J)) → World J → Prop}
    (hfail : ∀ e, Q (.error e) w)
    (hok : ∀ uuids events, w.uuids ≤ uuids →
      Enriched wiring eventVersion uuids newEvents events →
      Q (.ok events) { w with uuids := uuids + events.length }) :
    (enrich wiring ambient c newEvents aggregateName aggregateId version fallback
      eventVersion).wp Q w := by
  simp only [enrich, Segment.wp_bind, Segment.wp_ofExcept]
  cases providerContext wiring c with
  | error e => exact hfail e
  | ok providerCtx =>
      refine orUuid_wp wiring fun correlationId uuids huuids => ?_
      simp only [enrichFrom_wp]
      have henriched : Enriched wiring eventVersion uuids newEvents (enrichedFrom wiring
          (eventMetadata wiring (providerCtx.merge (ambient.metadata.getD {})) correlationId c
            aggregateName aggregateId version fallback eventVersion) uuids 0 newEvents) :=
        enrichedFrom_enriched wiring (fun _ _ _ => rfl) (fun _ _ _ => rfl) uuids 0 newEvents
      have h := hok _ _ huuids henriched
      rwa [henriched.length_eq] at h

/-! ## View updates and outbox entries -/

def Operation.isViewUpdate : Operation J → Bool
  | .updateView .. => true
  | _ => false

def Projection.Extracts (projection : Projection J Infra) (events : List (Event J)) : Prop :=
  ∀ event ∈ events, ∀ handler, projection.on event.name = some handler →
    (handler.id event).isOk = true

theorem enlistViews_wp {task : Task J} {u : UowRef} {projection : Projection J Infra}
    (events : List (Event J)) {w : World J} (hopen : (w.uows u).completed = false)
    {Q : Except Err Unit → World J → Prop}
    (h : ∀ r operations, (∀ op ∈ operations, op.isViewUpdate) →
      (r.isOk = true ↔ projection.Extracts events) →
      Q r (w.enlistAll u (some task.dispatch) operations)) :
    (enlistViews task u projection events).wp Q w := by
  induction events generalizing w with
  | nil =>
      simpa [enlistViews] using h (.ok ()) [] (by simp)
        (by simp [Projection.Extracts, Except.isOk, Except.toBool])
  | cons event rest ih =>
      unfold enlistViews
      cases hon : projection.on event.name with
      | none =>
          refine ih hopen fun r operations hoperations hr => h r operations hoperations ?_
          simpa [Projection.Extracts, hon] using hr
      | some handler =>
          simp only [Segment.wp_bind, Segment.wp_ofExcept]
          cases hid : handler.id event with
          | error e =>
              simpa using h (.error e) [] (by simp)
                (by simp [Projection.Extracts, hon, hid, Except.isOk, Except.toBool])
          | ok viewId =>
              simp only [enlist_wp, hopen]
              refine ih (by simpa using hopen) fun r operations hoperations hr => ?_
              rw [World.enlistAll_append]
              refine h r _ (by simpa [Operation.isViewUpdate] using hoperations) ?_
              simpa [Projection.Extracts, hon, hid, Except.isOk, Except.toBool] using hr

theorem enlistProjections_wp {task : Task J} {u : UowRef} {events : List (Event J)}
    (projections : List (Projection J Infra)) {w : World J}
    (hopen : (w.uows u).completed = false) {Q : Except Err Unit → World J → Prop}
    (h : ∀ r operations, (∀ op ∈ operations, op.isViewUpdate) →
      (r.isOk = true ↔ ∀ projection ∈ projections, projection.Extracts events) →
      Q r (w.enlistAll u (some task.dispatch) operations)) :
    (enlistProjections task u events projections).wp Q w := by
  induction projections generalizing w with
  | nil =>
      simpa [enlistProjections] using h (.ok ()) [] (by simp)
        (by simp [Except.isOk, Except.toBool])
  | cons projection rest ih =>
      simp only [enlistProjections, Segment.wp_bind]
      refine enlistViews_wp events hopen fun r operations hoperations hr => ?_
      cases r with
      | error e =>
          refine h (.error e) operations hoperations ?_
          have hfails : ¬ projection.Extracts events := fun hx => by
            simpa [Except.isOk, Except.toBool] using hr.mpr hx
          simp [hfails, Except.isOk, Except.toBool]
      | ok _ =>
          have hhere : projection.Extracts events := hr.mp rfl
          refine ih (by simpa using hopen) fun r others hothers hr => ?_
          rw [World.enlistAll_append]
          refine h r _ (fun op hop =>
            (List.mem_append.mp hop).elim (hoperations op) (hothers op)) ?_
          simpa [hhere] using hr

structure Boxed (uuids : Nat) (events : List (Event J)) (entries : List (OutboxEntry J)) :
    Prop where
  events_eq : entries.map (·.event) = events
  ids : entries.map (·.id) = (List.range' uuids events.length).map wiring.uuidv7
  unpublished : ∀ entry ∈ entries, entry.publishedAt = none

theorem outboxEntries_wp {now : Nat} (events : List (Event J)) {w : World J}
    {Q : Except Err (List (OutboxEntry J)) → World J → Prop}
    (h : ∀ entries, Boxed wiring w.uuids events entries →
      Q (.ok entries) { w with uuids := w.uuids + events.length }) :
    (outboxEntries wiring now events).wp Q w := by
  induction events generalizing w Q with
  | nil => exact h [] ⟨rfl, rfl, by simp⟩
  | cons event rest ih =>
      simp only [outboxEntries, Segment.wp_bind, Segment.wp_pure, uuidv7_wp]
      refine ih fun entries hentries => ?_
      have hcount : w.uuids + 1 + rest.length = w.uuids + (event :: rest).length := by
        simp only [List.length_cons]
        omega
      simp only [hcount]
      refine h _ ⟨?_, ?_, ?_⟩
      · simp [hentries.events_eq]
      · simp [hentries.ids, List.range'_succ]
      · simpa using hentries.unpublished

/-- What follows the deferred events: view updates, and the outbox entries of the
whole batch if nothing has failed. -/
def Effects (uuids uuids' : Nat) (events : List (Event J)) (effects : List (Operation J)) :
    Prop :=
  ∃ views boxes, effects = views ++ boxes ∧ (∀ op ∈ views, op.isViewUpdate) ∧
    uuids ≤ uuids' ∧
    (boxes = [] ∨ ∃ entries, boxes = [.saveOutbox entries] ∧
      Boxed wiring uuids events entries ∧ uuids' = uuids + events.length)

/-- No view id extractor of a strong projection throws on the batch. -/
def Extractable (events : List (Event J)) : Prop :=
  ∀ projection ∈ wiring.strongProjections, projection.Extracts events

theorem onEventsProduced_wp {task : Task J} {u : UowRef} {events : List (Event J)}
    {c : Choice Infra} {w : World J} (hopen : (w.uows u).completed = false)
    {Q : Except Err Unit → World J → Prop}
    (h : ∀ r effects uuids, Effects wiring w.uuids uuids events effects →
      (r.isOk = true ↔ Extractable wiring events) →
      Q r ({ w with uuids } |>.enlistAll u (some task.dispatch) effects)) :
    (onEventsProduced wiring task u events c).wp Q w := by
  simp only [onEventsProduced, Segment.wp_bind]
  refine enlistProjections_wp _ hopen fun r views hviews hr => ?_
  have hnone : Effects wiring w.uuids w.uuids events views :=
    ⟨views, [], by simp, hviews, le_rfl, .inl rfl⟩
  cases r with
  | error e => exact h (.error e) views w.uuids hnone hr
  | ok _ =>
      dsimp only
      split
      · simp only [Segment.wp_bind]
        refine outboxEntries_wp wiring events fun entries hentries => ?_
        have hopen' : ((w.enlistAll u (some task.dispatch) views).uows u).completed =
          false := by simpa using hopen
        simp only [enlist_wp, hopen']
        have happend := World.enlistAll_append u (some task.dispatch)
          { w with uuids := w.uuids + events.length } views [.saveOutbox entries]
        have hbox := h (.ok ()) (views ++ [.saveOutbox entries]) (w.uuids + events.length)
          ⟨views, [.saveOutbox entries], rfl, hviews, Nat.le_add_right _ _,
            .inr ⟨entries, rfl, hentries, rfl⟩⟩ hr
        rw [← happend] at hbox
        exact hbox
      · exact h (.ok ()) views w.uuids hnone hr

/-! ## The contribution -/

variable (task : Task J)

def claimsOf (save : Operation J) : List (Operation J) :=
  match task.command.commandId, wiring.idempotency with
  | some commandId, some _ =>
      [save, .saveIdempotency commandId task.aggregateName task.aggregateId]
  | _, _ => [save]

/-- A contribution of a dispatch: what it was decided on, the decided events, and
what goes into the unit of work. -/
structure Contribution (J : Type) where
  loaded : Loaded J
  newEvents : List (Event J)
  newState : J
  events : List (Event J)
  effects : List (Operation J)

namespace Contribution

variable (c : Contribution J)

def save : Operation J :=
  if c.loaded.isEventSourced
  then .saveEvents task.aggregateName task.aggregateId c.events c.loaded.version
  else .saveState task.aggregateName task.aggregateId c.newState c.loaded.version

def operations : List (Operation J) := claimsOf wiring task (c.save task) ++ c.effects

/-- The contribution is what the lifecycle computes when `uuids` identifiers have
been drawn before it and `uuids'` after it. -/
structure Computed (uuids uuids' : Nat) : Prop where
  evolved : (task.aggregate wiring).applyEvents c.loaded.currentState c.newEvents =
    .ok c.newState
  batch : ∃ k, uuids ≤ k ∧
    Enriched wiring (task.aggregate wiring).eventVersion k c.newEvents c.events ∧
    Effects wiring (k + c.events.length) uuids' c.events c.effects

end Contribution

def World.contributed (u : UowRef) (c : Contribution J) (uuids : Nat) (w : World J) :
    World J :=
  ((({ w with uuids } : World J).enlistAll u (some task.dispatch)
    (claimsOf wiring task (c.save task))).deferAll u c.events
    |>.note (.contributed task u c.loaded c.newEvents c.events)).enlistAll u
      (some task.dispatch) c.effects

theorem World.uows_contributed (u : UowRef) (c : Contribution J) (uuids : Nat)
    (w : World J) :
    (w.contributed wiring task u c uuids).uows = Function.update w.uows u
      { w.uows u with
        operations := (w.uows u).operations ++ c.operations wiring task
        pendingEvents := (w.uows u).pendingEvents ++ c.events } := by
  simp [World.contributed, World.enlistAll, World.deferAll, World.setUow, World.note,
    Contribution.operations]

def contributionNotes (u : UowRef) (c : Contribution J) : List (Obs J) :=
  (c.effects.map (Obs.enlisted u (some task.dispatch))).reverse ++
    .contributed task u c.loaded c.newEvents c.events ::
      ((claimsOf wiring task (c.save task)).map (Obs.enlisted u (some task.dispatch))).reverse

theorem World.history_contributed (u : UowRef) (c : Contribution J) (uuids : Nat)
    (w : World J) :
    (w.contributed wiring task u c uuids).history =
      contributionNotes wiring task u c ++ w.history := by
  simp [World.contributed, World.enlistAll, World.deferAll, World.setUow, World.note,
    contributionNotes]

theorem contribute_wp {u : UowRef} {ambient : Ambient} {loaded : Loaded J}
    {newEvents : List (Event J)} {choice : Choice Infra} {w : World J}
    {Q : Except Err J → World J → Prop}
    (hfail : ∀ e uuids, w.uuids ≤ uuids → Q (.error e) { w with uuids })
    (hdone : ∀ r c uuids, (w.uows u).completed = false →
      c.loaded = loaded → c.newEvents = newEvents →
      c.Computed wiring task w.uuids uuids →
      (r.isOk = true ↔ Extractable wiring c.events) →
      (∀ state, r = .ok state → state = c.newState) →
      Q r (w.contributed wiring task u c uuids)) :
    (contribute wiring task u ambient loaded newEvents choice).wp Q w := by
  simp only [contribute, Segment.wp_bind, Segment.wp_ofExcept]
  cases hevolved : (task.aggregate wiring).applyEvents loaded.currentState newEvents with
  | error e => exact hfail e w.uuids le_rfl
  | ok newState =>
      refine enrich_wp wiring (fun e => hfail e w.uuids le_rfl) fun k events hk henriched => ?_
      dsimp only
      rw [enlist_wp]
      cases hopen : (w.uows u).completed with
      | true => exact hfail _ _ (by omega)
      | false =>
          let c (effects : List (Operation J)) : Contribution J :=
            { loaded, newEvents, newState, events, effects }
          -- what follows the claims is the same whether there is a command id or not
          have hrest : ∀ claims, claims = claimsOf wiring task ((c []).save task) →
              (do
                deferPublish u events
                note (.contributed task u loaded newEvents events)
                onEventsProduced wiring task u events choice
                pure newState : Sync J J).wp Q
                (({ w with uuids := k + events.length } : World J).enlistAll u
                  (some task.dispatch) claims) := by
            rintro claims rfl
            simp only [Segment.wp_bind, note, Segment.wp_modify]
            rw [deferPublish_wp (by simpa using hopen)]
            refine onEventsProduced_wp wiring
              (by simpa [World.deferAll, World.note, World.setUow] using hopen)
              fun r effects uuids heffects hr => ?_
            have hQ := fun r' hr' => hdone r' (c effects) uuids hopen rfl rfl
              ⟨hevolved, k, hk, henriched, heffects⟩ hr'
            cases r with
            | error e => exact hQ (.error e) hr (by simp)
            | ok _ => exact hQ (.ok newState) hr (by simp [c])
          simp only [Bool.false_eq_true, if_false]
          cases hcommand : task.command.commandId with
          | none =>
              exact hrest [(c []).save task] (by simp [claimsOf, hcommand])
          | some commandId =>
              cases hstore : wiring.idempotency with
              | none => exact hrest [(c []).save task] (by simp [claimsOf, hcommand, hstore])
              | some ttlMs =>
                  rw [Segment.wp_bind, enlist_wp]
                  simp only [World.completed_enlistAll, hopen, Bool.false_eq_true, if_false,
                    World.enlistAll_append]
                  exact hrest [(c []).save task,
                    .saveIdempotency commandId task.aggregateName task.aggregateId]
                    (by simp [claimsOf, hcommand, hstore])

end Noddde
