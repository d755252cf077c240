import Noddde.Data.SerialLog
import Noddde.Proofs.Versions
/-!
# Where the streams come from

A stream is the batches that commit loops have saved, in the order of the saves, and each
saved batch is one that a lifecycle has contributed.  What a lifecycle read of a stream
stays at the front of it.
-/

namespace Noddde

variable {J Infra : Type}

/-! ## Batches -/

def batchesIn (key : String) : List (Obs J) → List (List (Event J))
  | [] => []
  | .executed _ (.saveEvents aggregateName aggregateId events _) :: rest =>
      if compositeKey aggregateName aggregateId = key then batchesIn key rest ++ [events]
      else batchesIn key rest
  | _ :: rest => batchesIn key rest

def Obs.isExecuted : Obs J → Bool
  | .executed .. => true
  | _ => false

variable {wiring : Wiring J Infra} {x : Subject} {u : UowRef} {s t : World J} {key : String}

theorem batchesIn_append {old new : List (Obs J)} (h : ∀ o ∈ new, o.isExecuted = false) :
    batchesIn key (new ++ old) = batchesIn key old := by
  induction new with
  | nil => rfl
  | cons o rest ih =>
      have hrest := ih fun o' ho' => h o' (List.mem_cons_of_mem _ ho')
      have ho := h o List.mem_cons_self
      cases o with
      | executed => cases ho
      | _ => exact hrest

/-- The save that an observation is about, if it saves events. -/
theorem batchesIn_ran {r : World J} {operation : Operation J}
    (stores : Stores wiring operation s r) :
    batchesIn key (r.ran u operation).history =
      match operation with
      | .saveEvents aggregateName aggregateId events _ =>
          if compositeKey aggregateName aggregateId = key then batchesIn key s.history ++ [events]
          else batchesIn key s.history
      | _ => batchesIn key s.history := by
  rw [← stores.control.history]
  cases operation <;> rfl

variable (wiring) in
inductive StreamsChange (s t : World J) : Prop
  | same (eventStore : t.eventStore = s.eventStore)
      (batches : ∀ key, batchesIn key t.history = batchesIn key s.history)
  | ran {u : UowRef} {r : World J} {operation : Operation J} {rest : List (Operation J)}
      (running : Running u (operation :: rest) s) (stores : Stores wiring operation s r)
      (eq : t = r.ran u operation)

theorem StreamsChange.of_append (new : List (Obs J)) (eventStore : t.eventStore = s.eventStore)
    (history : t.history = new ++ s.history) (h : ∀ o ∈ new, o.isExecuted = false) :
    StreamsChange wiring s t :=
  .same eventStore fun key => by rw [history, batchesIn_append h]

theorem Locker.release_streams (ticket : Ticket) (aggregateName : String) (aggregateId : ID)
    (s : World J) :
    StreamsChange wiring s (release ticket aggregateName aggregateId s).2 := by
  obtain ⟨new, hnew, hobs⟩ := release_history ticket aggregateName aggregateId s
  obtain ⟨_, _, heq⟩ := release_eq ticket aggregateName aggregateId s
  refine .of_append _ (by rw [heq]) hnew fun o ho => ?_
  rcases hobs o ho with ⟨_, rfl⟩ | ⟨_, _, rfl⟩ <;> rfl

theorem Step.streams [JsValue J] (h : Step wiring x s t) : StreamsChange wiring s t := by
  cases h with
  | @noted _ _ o _ justified =>
      refine .of_append [o] rfl rfl fun o' ho' => ?_
      obtain rfl := List.mem_singleton.mp ho'
      cases o' with
      | executed => exact justified.elim
      | _ => rfl
  | checked =>
      unfold World.checked
      dsimp only
      split
      · exact .same rfl fun _ => rfl
      · exact .same rfl fun _ => rfl
  | contributed =>
      refine .of_append _ rfl (World.history_contributed wiring ..) fun o ho => ?_
      simp only [contributionNotes, List.mem_append, List.mem_reverse, List.mem_map,
        List.mem_cons] at ho
      rcases ho with ⟨_, _, rfl⟩ | rfl | ⟨_, _, rfl⟩ <;> rfl
  | ran running stores => exact .ran running stores rfl
  | @refused _ r u operation e rest running refuses =>
      have hstore : r.eventStore = s.eventStore := by
        cases operation with
        | saveOutbox => exact refuses.elim
        | saveEvents => obtain ⟨_, rfl⟩ := refuses; rfl
        | saveState => obtain ⟨_, rfl⟩ := refuses; rfl
        | saveIdempotency => obtain ⟨_, _, rfl⟩ := refuses; rfl
        | updateView => obtain rfl : r = s := refuses; rfl
        | saveSaga => obtain ⟨_, rfl⟩ := refuses; rfl
      refine .of_append [.refused u operation e] hstore ?_ (by simp [Obs.isExecuted])
      rw [← refuses.control.history]
      rfl
  | @entered _ task uow =>
      obtain ⟨new, hnew, hobs⟩ := Locker.enter_history ⟨task.dispatch, uow⟩
        task.aggregateName task.aggregateId s
      obtain ⟨_, _, heq⟩ := Locker.enter_eq ⟨task.dispatch, uow⟩ task.aggregateName
        task.aggregateId s
      refine .of_append _ (by rw [heq]) hnew fun o ho => ?_
      rcases hobs o ho with ⟨_, rfl⟩ | ⟨_, rfl⟩ <;> rfl
  | released => exact Locker.release_streams ..
  | @ranSnapshotHook _ u aggregateName aggregateId snapshot saved =>
      cases saved with
      | false => exact .same rfl fun _ => rfl
      | true => exact .same rfl fun _ => rfl
  | @ranReleaseHook _ u ticket aggregateName aggregateId =>
      obtain ⟨new, hnew, hobs⟩ := Locker.release_history ticket aggregateName aggregateId s
      obtain ⟨_, _, heq⟩ := Locker.release_eq ticket aggregateName aggregateId s
      refine .of_append (.hookRan u (.release ticket aggregateName aggregateId) none :: new)
        (by rw [heq]; rfl) (congrArg _ hnew) fun o ho => ?_
      rcases List.mem_cons.mp ho with rfl | ho
      · rfl
      · rcases hobs o ho with ⟨_, rfl⟩ | ⟨_, _, rfl⟩ <;> rfl
  | _ => exact .same rfl fun _ => rfl

/-- A save appends its batch to one stream. -/
theorem Stores.stream {operation : Operation J} (h : Stores wiring operation s t) (key : String) :
    t.eventStore.stream key =
      match operation with
      | .saveEvents aggregateName aggregateId events _ =>
          if compositeKey aggregateName aggregateId = key then s.eventStore.stream key ++ events
          else s.eventStore.stream key
      | _ => s.eventStore.stream key := by
  cases operation with
  | saveEvents =>
      obtain ⟨eventStore, hsave, rfl⟩ := h
      simp only [EventStore.stream_of_save hsave, eq_comm]
  | saveState => obtain ⟨_, _, rfl⟩ := h; rfl
  | saveIdempotency => obtain ⟨_, _, rfl⟩ := h; rfl
  | updateView => obtain ⟨_, rfl⟩ := h; rfl
  | saveOutbox => obtain rfl : t = _ := h; rfl
  | saveSaga => obtain ⟨_, _, rfl⟩ := h; rfl

theorem StreamsChange.grows (h : StreamsChange wiring s t) (key : String) :
    s.eventStore.stream key <+: t.eventStore.stream key := by
  cases h with
  | same eventStore => rw [eventStore]
  | @ran u r operation rest running stores eq =>
      subst eq
      change _ <+: r.eventStore.stream key
      rw [stores.stream key]
      cases operation with
      | saveEvents =>
          dsimp only
          split
          · exact List.prefix_append _ _
          · exact List.prefix_rfl
      | _ => exact List.prefix_rfl

/-- The streams are the batches that were saved. -/
theorem StreamsChange.log (h : StreamsChange wiring s t)
    (hs : s.eventStore.stream key = (batchesIn key s.history).flatten) :
    t.eventStore.stream key = (batchesIn key t.history).flatten := by
  cases h with
  | same eventStore batches => rw [eventStore, batches, hs]
  | @ran u r operation rest running stores eq =>
      subst eq
      change r.eventStore.stream key = _
      rw [stores.stream key, batchesIn_ran stores]
      cases operation with
      | saveEvents =>
          dsimp only
          split
          · rw [hs, List.flatten_append, List.flatten_singleton]
          · exact hs
      | _ => exact hs

/-! ## Saved batches -/

theorem advance_saveEvents {aggregateName : String} {aggregateId : ID} {events : List (Event J)}
    {expectedVersion : Nat} (hevents : events ≠ []) :
    (Operation.saveEvents aggregateName aggregateId events expectedVersion).advance? =
      some ⟨true, compositeKey aggregateName aggregateId, expectedVersion, events.length⟩ := by
  have hlength : events.length ≠ 0 := fun h => hevents (List.length_eq_zero_iff.mp h)
  rw [Operation.advance?, advanceOf, if_pos rfl, if_neg hlength]

/-- The save that a contribution to an event-sourced instance makes. -/
def Loaded.save (task : Task J) (loaded : Loaded J) (events : List (Event J)) : Operation J :=
  .saveEvents task.aggregateName task.aggregateId events loaded.version

theorem Contribution.save_of_sourced {task : Task J} {c : Contribution J}
    (h : c.loaded.isEventSourced = true) : c.save task = c.loaded.save task c.events := by
  rw [Contribution.save, if_pos h, Loaded.save]

/-- A batch of events among the operations of a contribution is its own. -/
theorem Contribution.eq_of_saveEvents {task : Task J} {c : Contribution J} {k k' : Nat}
    (h : c.Computed wiring task k k') {aggregateName : String} {aggregateId : ID}
    {events : List (Event J)} {expectedVersion : Nat} (hevents : events ≠ [])
    (hop : .saveEvents aggregateName aggregateId events expectedVersion ∈
      c.operations wiring task) :
    c.loaded.isEventSourced = true ∧ events = c.events ∧
      .saveEvents aggregateName aggregateId events expectedVersion =
        c.loaded.save task c.events := by
  rcases Contribution.mem_operations h hop with heq | hnone
  · rw [Contribution.save] at heq
    split at heq
    · rename_i hsourced
      exact ⟨hsourced, (Operation.saveEvents.inj heq).2.2.1, heq⟩
    · cases heq
  · rw [advance_saveEvents hevents] at hnone
    cases hnone

/-! ## The invariant -/

variable (wiring) in
/-- What a lifecycle has decided on what it has loaded, and how it was enriched. -/
structure Decision (task : Task J) (u : UowRef) (loaded : Loaded J)
    (newEvents events : List (Event J)) (h : List (Obs J)) : Prop where
  begun : Begun task u h
  read : LoadedBy task u loaded h
  decided : ∃ handler infra result,
    (task.aggregate wiring).decide task.command.name = some handler ∧
      handler task.command loaded.currentState infra = .ok result ∧ newEvents = result.toArray
  facts : events.map Event.fact = newEvents.map Event.fact
  current : (task.aggregate wiring).Current events

theorem Decision.mono {task : Task J} {loaded : Loaded J} {newEvents events : List (Event J)}
    {h h' : List (Obs J)} (hd : Decision wiring task u loaded newEvents events h)
    (hsub : h ⊆ h') : Decision wiring task u loaded newEvents events h' :=
  { hd with begun := ⟨hsub hd.begun.1, hd.begun.2⟩, read := hd.read.mono hsub }

variable (wiring) in
structure Sourced (w : World J) : Prop where
  log : ∀ key, w.eventStore.stream key = (batchesIn key w.history).flatten
  read : ∀ task u loaded stream, .loadedEvents task u loaded stream ∈ w.history →
    stream <+: w.eventStore.stream task.key ∧
      ∃ partialLoad, wiring.persistence task.aggregateName = some (.eventSourced partialLoad)
  states : ∀ task u loaded, .loadedState task u loaded ∈ w.history →
    loaded.isEventSourced = false
  decided : ∀ task u state newEvents, .decided task u state (.ok newEvents) ∈ w.history →
    ∃ handler infra result, (task.aggregate wiring).decide task.command.name = some handler ∧
      handler task.command state infra = .ok result ∧ newEvents = result.toArray
  contributed : ∀ task u loaded newEvents events,
    .contributed task u loaded newEvents events ∈ w.history →
      Decision wiring task u loaded newEvents events w.history
  saves : ∀ u aggregateName aggregateId events expectedVersion, events ≠ [] →
    .saveEvents aggregateName aggregateId events expectedVersion ∈ (w.uows u).operations →
      ∃ task loaded newEvents, .contributed task u loaded newEvents events ∈ w.history ∧
        loaded.isEventSourced = true ∧
        .saveEvents aggregateName aggregateId events expectedVersion = loaded.save task events
  kept : ∀ task u loaded newEvents events,
    .contributed task u loaded newEvents events ∈ w.history → loaded.isEventSourced = true →
      (w.uows u).outcome ≠ some false → loaded.save task events ∈ (w.uows u).operations
  landed : ∀ u aggregateName aggregateId events expectedVersion, events ≠ [] →
    .saveEvents aggregateName aggregateId events expectedVersion ∈ (w.uows u).executed →
      ∃ before, before.length = expectedVersion ∧
        before ++ events <+: w.eventStore.stream (compositeKey aggregateName aggregateId)

theorem sourced_empty : Sourced wiring ({} : World J) where
  log key := by simp [EventStore.stream, InsertionMap.get_empty, batchesIn]
  read := by simp
  states := by simp
  decided := by simp
  contributed := by simp
  saves := by simp
  kept := by simp
  landed := by simp

namespace Sourced

theorem stream_of_decision (hs : Sourced wiring s) {task : Task J} {loaded : Loaded J}
    {newEvents events : List (Event J)}
    (hd : Decision wiring task u loaded newEvents events s.history)
    (hevents : loaded.isEventSourced = true) :
    ∃ stream, .loadedEvents task u (.ok loaded) stream ∈ s.history := by
  rcases hd.read with hread | hread
  · exact hread
  · rw [hs.states _ _ _ hread] at hevents
    cases hevents

variable [JsValue J]

theorem step_read (hs : Sourced wiring s) (h : Step wiring x s t) {task : Task J}
    {loaded : Except Err (Loaded J)} {stream : List (Event J)}
    (hmem : .loadedEvents task u loaded stream ∈ t.history) :
    stream <+: t.eventStore.stream task.key ∧
      ∃ partialLoad, wiring.persistence task.aggregateName = some (.eventSourced partialLoad) := by
  have hgrows := h.streams.grows task.key
  rcases h.explained hmem with hold | ⟨⟨-, hpersistence, rfl, -⟩, -⟩
  · obtain ⟨hread, hpersistence⟩ := hs.read task u loaded stream hold
    exact ⟨hread.trans hgrows, hpersistence⟩
  · exact ⟨hgrows, hpersistence⟩

theorem step_states (hs : Sourced wiring s) (h : Step wiring x s t) {task : Task J}
    {loaded : Loaded J} (hmem : .loadedState task u loaded ∈ t.history) :
    loaded.isEventSourced = false := by
  rcases h.explained hmem with hold | ⟨⟨-, -, _, -, rfl⟩, -⟩
  · exact hs.states task u loaded hold
  · rfl

theorem step_decided (hs : Sourced wiring s) (h : Step wiring x s t) {task : Task J} {state : J}
    {newEvents : List (Event J)} (hmem : .decided task u state (.ok newEvents) ∈ t.history) :
    ∃ handler infra result, (task.aggregate wiring).decide task.command.name = some handler ∧
      handler task.command state infra = .ok result ∧ newEvents = result.toArray := by
  rcases h.explained hmem with hold | ⟨⟨-, -, handler, infra, hhandler, hdecided⟩, -⟩
  · exact hs.decided task u state newEvents hold
  · cases hresult : handler task.command state infra with
    | error e =>
        rw [hresult] at hdecided
        cases hdecided
    | ok result =>
        rw [hresult] at hdecided
        exact ⟨handler, infra, result, hhandler, hresult, Except.ok.inj hdecided⟩

theorem step_contributed (hs : Sourced wiring s) (h : Step wiring x s t) {task : Task J}
    {loaded : Loaded J} {newEvents events : List (Event J)}
    (hmem : .contributed task u loaded newEvents events ∈ t.history) :
    Decision wiring task u loaded newEvents events t.history := by
  refine Decision.mono ?_ h.adds.grows.subset
  rcases h.explained hmem with hold | ⟨c, uuids, hcontributes, rfl, rfl, rfl, -⟩
  · exact hs.contributed _ _ _ _ _ hold
  · obtain ⟨_, -, henriched, -⟩ := hcontributes.computed.batch
    exact
      { begun := hcontributes.begun
        read := hcontributes.loaded
        decided := hs.decided _ _ _ _ hcontributes.decided
        facts := henriched.facts
        current := henriched.current }

theorem step_saves (hs : Sourced wiring s) (h : Step wiring x s t) {aggregateName : String}
    {aggregateId : ID} {events : List (Event J)} {expectedVersion : Nat} (hevents : events ≠ [])
    (hop : .saveEvents aggregateName aggregateId events expectedVersion ∈ (t.uows u).operations) :
    ∃ task loaded newEvents, .contributed task u loaded newEvents events ∈ t.history ∧
      loaded.isEventSourced = true ∧
      .saveEvents aggregateName aggregateId events expectedVersion = loaded.save task events := by
  have hold : .saveEvents aggregateName aggregateId events expectedVersion ∈
      (s.uows u).operations → ∃ task loaded newEvents,
        .contributed task u loaded newEvents events ∈ t.history ∧
        loaded.isEventSourced = true ∧ .saveEvents aggregateName aggregateId events
          expectedVersion = loaded.save task events := fun hop => by
    obtain ⟨task, loaded, newEvents, hmem, hrest⟩ := hs.saves u _ _ _ _ hevents hop
    exact ⟨task, loaded, newEvents, h.adds.grows.subset hmem, hrest⟩
  cases (h.uow u).operations with
  | same operations => exact hold (operations ▸ hop)
  | @contributed task c uuids contributes heq =>
      subst heq
      rw [World.uows_contributed, Function.update_self] at hop
      rcases List.mem_append.mp hop with hop | hop
      · exact hold hop
      · obtain ⟨hsourced, rfl, hsave⟩ :=
          Contribution.eq_of_saveEvents contributes.computed hevents hop
        refine ⟨task, c.loaded, c.newEvents, ?_, hsourced, hsave⟩
        rw [World.history_contributed, contributionNotes]
        simp
  | enlisted noAdvance _ operations =>
      rw [operations] at hop
      rcases List.mem_append.mp hop with hop | hop
      · exact hold hop
      · rw [← List.mem_singleton.mp hop, advance_saveEvents hevents] at noAdvance
        cases noAdvance
  | ran _ stores heq =>
      rw [heq, (Versioned.uow_ran stores).1] at hop
      exact hold hop
  | discarded _ operations =>
      rw [operations] at hop
      cases hop

theorem step_kept (hs : Sourced wiring s) (hinv : Inv wiring s) (h : Step wiring x s t)
    {task : Task J} {loaded : Loaded J} {newEvents events : List (Event J)}
    (hmem : .contributed task u loaded newEvents events ∈ t.history)
    (hsourced : loaded.isEventSourced = true) (houtcome : (t.uows u).outcome ≠ some false) :
    loaded.save task events ∈ (t.uows u).operations := by
  rcases h.explained hmem with hold | ⟨c, uuids, hcontributes, rfl, rfl, rfl, rfl⟩
  · have hnot : (s.uows u).outcome ≠ some false := fun hfailed =>
      houtcome ((h.uow u).outcome (hinv.units u) hfailed)
    have hop := hs.kept task u loaded newEvents events hold hsourced hnot
    cases (h.uow u).operations with
    | same operations => exact operations ▸ hop
    | contributed _ heq =>
        rw [heq, World.uows_contributed, Function.update_self]
        exact List.mem_append_left _ hop
    | enlisted _ _ operations =>
        rw [operations]
        exact List.mem_append_left _ hop
    | ran _ stores heq =>
        rw [heq, (Versioned.uow_ran stores).1]
        exact hop
    | discarded outcome => exact absurd outcome houtcome
  · rw [World.uows_contributed, Function.update_self, ← Contribution.save_of_sourced hsourced]
    exact List.mem_append_right _ (c.save_mem task)

theorem step_landed (hs : Sourced wiring s) (hinv : Inv wiring s) (h : Step wiring x s t)
    {aggregateName : String} {aggregateId : ID} {events : List (Event J)} {expectedVersion : Nat}
    (hevents : events ≠ [])
    (hop : .saveEvents aggregateName aggregateId events expectedVersion ∈ (t.uows u).executed) :
    ∃ before, before.length = expectedVersion ∧
      before ++ events <+: t.eventStore.stream (compositeKey aggregateName aggregateId) := by
  have hold : .saveEvents aggregateName aggregateId events expectedVersion ∈
      (s.uows u).executed → ∃ before, before.length = expectedVersion ∧
        before ++ events <+: t.eventStore.stream (compositeKey aggregateName aggregateId) := by
    intro hop
    obtain ⟨before, hlength, hbefore⟩ := hs.landed u _ _ _ _ hevents hop
    exact ⟨before, hlength, hbefore.trans (h.streams.grows _)⟩
  have hopen : (s.uows u).completed = false → .saveEvents aggregateName aggregateId events
      expectedVersion ∉ (s.uows u).executed := fun hopen => by
    rw [((hinv.units u).fresh hopen).1]
    exact List.not_mem_nil
  cases (h.uow u).operations with
  | same _ executed => exact hold (executed ▸ hop)
  | contributed contributes heq =>
      rw [heq, World.uows_contributed, Function.update_self] at hop
      exact absurd hop (hopen contributes.isOpen)
  | enlisted _ isOpen _ executed => exact absurd (executed ▸ hop) (hopen isOpen)
  | @ran r operation rest running stores heq =>
      subst heq
      rw [(Versioned.uow_ran stores).2] at hop
      rcases List.mem_append.mp hop with hop | hop
      · exact hold hop
      · obtain rfl := List.mem_singleton.mp hop
        refine ⟨s.eventStore.stream (compositeKey aggregateName aggregateId), ?_, ?_⟩
        · obtain ⟨eventStore, hsave, -⟩ := stores
          exact EventStore.version_of_save hsave hevents
        · change _ <+: r.eventStore.stream _
          rw [stores.stream]
          simp
  | discarded _ _ executed => exact hold (executed ▸ hop)

theorem step (hs : Sourced wiring s) (hinv : Inv wiring s) (h : Step wiring x s t) :
    Sourced wiring t where
  log key := h.streams.log (hs.log key)
  read _ _ _ _ hmem := hs.step_read h hmem
  states _ _ _ hmem := hs.step_states h hmem
  decided _ _ _ _ hmem := hs.step_decided h hmem
  contributed _ _ _ _ _ hmem := hs.step_contributed h hmem
  saves _ _ _ _ _ hevents hop := hs.step_saves h hevents hop
  kept _ _ _ _ _ hmem hsourced houtcome := hs.step_kept hinv h hmem hsourced houtcome
  landed _ _ _ _ _ hevents hop := hs.step_landed hinv h hevents hop

end Sourced

end Noddde
