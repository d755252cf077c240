import Noddde.Async.Lockstep
import Noddde.Proofs.Contribution
/-!
# One domain, two persistences

The same commands run over an event-sourced and over a state-stored persistence.  The two
worlds are twins: the stored state is the replay of the stream, and whatever the handlers,
the callers and the bus have seen is the same, up to the numbers of the events in their
stream.  A state-stored lifecycle takes the initial state for a nullish one, so the worlds are
twins only until a command is decided on a nullish state.
-/

namespace Noddde

open Async

variable {J Infra : Type}

/-- The event without its number in the stream. -/
def Event.unnumbered (e : Event J) : Event J :=
  { e with metadata := e.metadata.map fun m => { m with sequenceNumber := none } }

def SameEvent (e e' : Event J) : Prop := e'.unnumbered = e.unnumbered

/-- What of an observation can be seen from outside of the stores. -/
def Obs.shown : Obs J → Option (Obs J)
  | .dispatchCalled publisher event => some (.dispatchCalled publisher event.unnumbered)
  | .dispatchResolved publisher event => some (.dispatchResolved publisher event.unnumbered)
  | .dispatchRejected publisher event error =>
      some (.dispatchRejected publisher event.unnumbered error)
  | .started task uow => some (.started task uow)
  | .settled dispatch error => some (.settled dispatch error)
  | .skipped dispatch => some (.skipped dispatch)
  | .decided task uow state newEvents => some (.decided task uow state newEvents)
  | .acquireCalled ticket key => some (.acquireCalled ticket key)
  | .acquired ticket key => some (.acquired ticket key)
  | .lockGranted ticket key => some (.lockGranted ticket key)
  | .lockTimedOut ticket key => some (.lockTimedOut ticket key)
  | .released ticket key => some (.released ticket key)
  | _ => none

def Obs.isDecision : Obs J → Bool
  | .decided .. => true
  | _ => false

variable [JsValue J] (wiring : Wiring J Infra) (name : String)

def Wiring.storingStates : Wiring J Infra :=
  { wiring with
    persistence := fun other => if other = name then some .stateStored else wiring.persistence other }

/-- The aggregate is event-sourced and takes no snapshots, and no strong projection looks at
the numbers of the events. -/
structure Comparable : Prop where
  sourced : ∃ partialLoad, wiring.persistence name = some (.eventSourced partialLoad)
  unsnapped : wiring.snapshots name = none
  numberless : ∀ projection ∈ wiring.strongProjections, ∀ event handler,
    projection.on event = some handler →
      (∀ e, handler.id e = handler.id e.unnumbered) ∧
        ∀ e view infra, handler.reduce e view infra = handler.reduce e.unnumbered view infra

/-- `state ?? aggregate.initialState` -/
def coalesced (state : J) : J := nullishCoalesce (some state) (wiring.aggregates name).initialState

/-- The stored state of an instance is the replay of its stream. -/
def Mirrors (id : ID) (s s' : World J) : Prop :=
  (wiring.aggregates name).replay (s.eventStore.load name id) =
    .ok (((StateStore.load s'.stateStore name id).map (·.state)).getD
      (wiring.aggregates name).initialState)

/-- No command was decided on a state that is nullish, unless that is the initial state. -/
def NeverNullish (w : World J) : Prop :=
  ∀ task u state newEvents, .decided task u state newEvents ∈ w.history →
    coalesced wiring name state = state

/-- From the outside the two worlds look the same. -/
def SameShown (s s' : World J) : Prop :=
  s'.history.filterMap Obs.shown = s.history.filterMap Obs.shown

structure Matching (s s' : World J) : Prop where
  shown : SameShown s s'
  neverNullish : NeverNullish wiring name s

/-- Two units of work: both completed or neither, and with the same events to publish. -/
structure SameUnit (x x' : UnitOfWork J) : Prop where
  completed : x'.completed = x.completed
  pendingEvents : List.Forall₂ SameEvent x.pendingEvents x'.pendingEvents

/-- The units of work in `P` have not been used. -/
structure Twins (P : UowRef → Prop) (s s' : World J) : Prop extends
    Matching wiring name s s' where
  states : ∀ id, Mirrors wiring name id s s'
  unused : ∀ u, P u → s.uows u = {} ∧ s'.uows u = {}
  units : ∀ u, SameUnit (s.uows u) (s'.uows u)
  idempotencyStore : s'.idempotencyStore = s.idempotencyStore
  viewStores : s'.viewStores = s.viewStores
  uuids : s'.uuids = s.uuids
  locks : s'.locks = s.locks

variable {wiring name} {P : UowRef → Prop} {u : UowRef} {s s' : World J}

namespace Twins

theorem empty : Twins wiring name P ({} : World J) {} where
  shown := rfl
  neverNullish := by simp [NeverNullish]
  states id := by
    have hempty : (wiring.aggregates name).Current [] := List.forall_mem_nil _
    unfold Mirrors
    rw [StateStore.load, InsertionMap.get_empty, EventStore.load, EventStore.stream,
      InsertionMap.get_empty]
    exact congrArg (Except.bind · _) (Aggregate.upcast_of_current _ hempty)
  unused _ _ := ⟨rfl, rfl⟩
  units _ := ⟨rfl, .nil⟩
  idempotencyStore := rfl
  viewStores := rfl
  uuids := rfl
  locks := rfl

theorem weaken {Q : UowRef → Prop} (hs : Twins wiring name P s s') (hQ : ∀ u, Q u → P u) :
    Twins wiring name Q s s' :=
  { hs with unused := fun u hu => hs.unused u (hQ u hu) }

theorem note (hs : Twins wiring name P s s') {o o' : Obs J} (ho : o'.shown = o.shown)
    (hdecision : o.isDecision = false) : Twins wiring name P (s.note o) (s'.note o') :=
  { hs with
    shown := by
      simp only [SameShown, World.note, List.filterMap_cons, ho, show _ = _ from hs.shown]
    neverNullish := fun task u state newEvents hmem => by
      rcases List.mem_cons.mp hmem with rfl | hold
      · cases hdecision
      · exact hs.neverNullish task u state newEvents hold }

theorem note_decided (hs : Twins wiring name P s s') (task : Task J) (u : UowRef) {state : J}
    (newEvents : Except Err (List (Event J))) (hstate : coalesced wiring name state = state) :
    Twins wiring name P (s.note (.decided task u state newEvents))
      (s'.note (.decided task u state newEvents)) :=
  { hs with
    shown := by
      simp only [SameShown, World.note, List.filterMap_cons, show _ = _ from hs.shown]
    neverNullish := fun task u state newEvents hmem => by
      rcases List.mem_cons.mp hmem with heq | hold
      · obtain ⟨-, -, rfl, -⟩ := Obs.decided.inj heq
        exact hstate
      · exact hs.neverNullish task u state newEvents hold }

theorem setUow (hs : Twins wiring name P s s') (hu : ¬ P u) {f f' : UnitOfWork J → UnitOfWork J}
    (hf : SameUnit (f (s.uows u)) (f' (s'.uows u))) :
    Twins wiring name P (s.setUow u f) (s'.setUow u f') :=
  { hs with
    unused := fun v hv => by
      have hne : v ≠ u := fun heq => hu (heq ▸ hv)
      simpa [World.setUow, hne] using hs.unused v hv
    units := fun v => by
      by_cases hv : v = u
      · subst hv
        simpa [World.setUow] using hf
      · simpa [World.setUow, hv] using hs.units v }

theorem setLock (hs : Twins wiring name P s s') (key : String) (f : LockEntry → LockEntry) :
    Twins wiring name P (s.setLock key f) (s'.setLock key f) :=
  { hs with locks := by simp only [World.setLock, hs.locks] }

theorem setUuids (hs : Twins wiring name P s s') (uuids : Nat) :
    Twins wiring name P { s with uuids } { s' with uuids } :=
  { hs with uuids := rfl }

theorem setIdempotency (hs : Twins wiring name P s s') (idempotencyStore : IdempotencyStore) :
    Twins wiring name P { s with idempotencyStore } { s' with idempotencyStore } :=
  { hs with idempotencyStore := rfl }

theorem setOutbox (hs : Twins wiring name P s s') (outboxStore outboxStore' : OutboxStore J) :
    Twins wiring name P { s with outboxStore } { s' with outboxStore := outboxStore' } :=
  { hs with }

theorem setViews (hs : Twins wiring name P s s') (viewStores : String → ViewStore J) :
    Twins wiring name P { s with viewStores } { s' with viewStores } :=
  { hs with viewStores := rfl }

theorem ran (hs : Twins wiring name P s s') (hu : ¬ P u) (operation operation' : Operation J) :
    Twins wiring name P (s.ran u operation) (s'.ran u operation') :=
  (hs.setUow hu ⟨(hs.units u).completed, (hs.units u).pendingEvents⟩).note rfl rfl

theorem refused (hs : Twins wiring name P s s') (hu : ¬ P u) (operation operation' : Operation J)
    (e : Err) : Twins wiring name P (s.refused u operation e) (s'.refused u operation' e) :=
  (hs.setUow hu ⟨(hs.units u).completed, (hs.units u).pendingEvents⟩).note rfl rfl

theorem committed (hs : Twins wiring name P s s') (hu : ¬ P u) :
    Twins wiring name P (s.committed u) (s'.committed u) :=
  (hs.setUow hu ⟨(hs.units u).completed, (hs.units u).pendingEvents⟩).note rfl rfl

theorem commitRejected (hs : Twins wiring name P s s') (hu : ¬ P u) (e : Err) :
    Twins wiring name P (s.commitRejected u e) (s'.commitRejected u e) :=
  (hs.setUow hu ⟨(hs.units u).completed, (hs.units u).pendingEvents⟩).note rfl rfl

theorem rolledBack (hs : Twins wiring name P s s') (hu : ¬ P u) :
    Twins wiring name P (s.rolledBack u) (s'.rolledBack u) :=
  (hs.setUow hu ⟨rfl, .nil⟩).note rfl rfl

end Twins

/-! ## Events -/

namespace SameEvent

variable {e e' : Event J}

omit [JsValue J] in
theorem name_eq (h : SameEvent e e') : e'.name = e.name := (Event.mk.inj h).1

omit [JsValue J] in
theorem eventId (h : SameEvent e e') : e'.eventId? = e.eventId? := by
  have hids := congrArg (Option.map EventMetadata.eventId) (Event.mk.inj h).2.2
  rw [Option.map_map, Option.map_map] at hids
  exact hids

end SameEvent

omit [JsValue J] in
theorem eventIds_of_sameEvents {events events' : List (Event J)}
    (h : List.Forall₂ SameEvent events events') :
    events'.filterMap Event.eventId? = events.filterMap Event.eventId? := by
  induction h with
  | nil => rfl
  | cons h _ ih => rw [List.filterMap_cons, List.filterMap_cons, h.eventId, ih]

/-! ## Saving the batch -/

variable (wiring name) in
/-- The saves of one decision, before they run: each fits its store, and they store the
same state. -/
structure SaveBoth (id : ID) (events : List (Event J)) (version : Nat) (newState : J)
    (version' : Nat) (s s' : World J) : Prop where
  version : (s.eventStore.load name id).length = version
  version' : StateStore.version s'.stateStore (compositeKey name id) = version'
  replay : (wiring.aggregates name).replay (s.eventStore.load name id ++ events) = .ok newState

/-- Both saves take effect, and the stored states agree again. -/
theorem Twins.save (hs : Twins wiring name P s s') {id : ID} {events : List (Event J)}
    {version version' : Nat} {newState : J}
    (hsave : SaveBoth wiring name id events version newState version' s s') :
    ∃ eventStore stateStore,
      s.eventStore.save name id events version = .ok eventStore ∧
      StateStore.save s'.stateStore name id newState version' = .ok stateStore ∧
      Twins wiring name P { s with eventStore } { s' with stateStore } := by
  obtain ⟨eventStore, hevents⟩ := EventStore.save_eq_ok s.eventStore hsave.version
  have hstates := StateStore.save_eq_ok s'.stateStore hsave.version' newState
  refine ⟨eventStore, _, hevents, hstates, { hs with states := fun other => ?_ }⟩
  have hother := hs.states other
  have hreplay := hsave.replay
  unfold Mirrors EventStore.load StateStore.load at hother ⊢
  rw [EventStore.stream_of_save hevents, StateStore.get_of_save hstates]
  split
  · rename_i hkey
    rw [hkey]
    exact hreplay
  · exact hother

end Noddde
