import Noddde.Data.ExceptMap
import Noddde.Engine.Components
import Mathlib.Data.List.ReduceOption
/-!
# Shutdown closes what was collected

The loop over the closeables reaches all of them whatever rejects.  So what is wired is
closed as far as it is collected, provided that the event bus lets the loop begin.  What
is wired is read off the wiring; that `init` resolves just that is proved.
-/

namespace Noddde.Components

variable {κ : Type} {definition : Definition} {wiring : DomainWiring κ} {objects : Objects κ}
  {resolved : Resolved κ} {component : Component κ}

/-! ## What a wiring wires -/

inductive Slot where
  | adapter
  | customInfrastructure
  | commandBus
  | eventBus
  | queryBus
  | sagaPersistence
  | outboxStore
  | idempotencyStore
  | aggregatePersistence
  | snapshotStore
  | locker
  deriving DecidableEq, Repr

/-- Components of this kind are among those that the domain closes. -/
def Slot.collected : Slot → Bool
  | .aggregatePersistence | .snapshotStore | .locker => false
  | _ => true

section Wiring

variable (adapter : Option (PersistenceAdapter κ))

/-- What an aggregate is stored in: what its wiring names, else the state-stored
persistence of the adapter. -/
def Persistence.wired : Option (Persistence κ) → Option κ
  | none => adapter.bind (·.stateStoredPersistence)
  | some (.factory build) => build.toOption
  | some (.object persistence) => some persistence
  | some (.shorthand name) =>
      if name = "event-sourced" then adapter.bind (·.eventSourcedPersistence)
      else adapter.bind (·.stateStoredPersistence)

/-- Where the snapshots go of an aggregate that takes any: its own store, else the one of
the adapter. -/
def AggregateWiring.snapshotStore (wiring : AggregateWiring κ) : Option κ :=
  match wiring.snapshots with
  | none => none
  | some (some build) => build.toOption
  | some none => adapter.bind (·.snapshotStore)

/-- The locker of a pessimistic strategy: its own, else the one of the adapter. -/
def AggregateWiring.locker (wiring : AggregateWiring κ) : Option κ :=
  match wiring.concurrency with
  | none | some .optimistic => none
  | some .pessimistic => adapter.bind (·.aggregateLocker)
  | some (.pessimisticWith locker) => locker <|> adapter.bind (·.aggregateLocker)

end Wiring

def factoryOr (build : Option (Except Err κ)) (ofAdapter : Option κ) : Option κ :=
  match build with
  | some build => build.toOption
  | none => ofAdapter

def DomainWiring.aggregateWirings (wiring : DomainWiring κ) : List (AggregateWiring κ) :=
  match wiring.aggregates with
  | .global aggregateWiring => [aggregateWiring]
  | .perAggregate wirings => wirings.map Prod.snd

def DomainWiring.persistences (definition : Definition) (wiring : DomainWiring κ) : List κ :=
  match wiring.aggregates with
  | .global aggregateWiring =>
      (Persistence.wired wiring.persistenceAdapter aggregateWiring.persistence).toList
  | .perAggregate wirings =>
      definition.aggregateNames.filterMap fun name =>
        Persistence.wired wiring.persistenceAdapter
          ((wirings.lookup name).bind (·.persistence))

def DomainWiring.bus (wiring : DomainWiring κ) (select : Buses κ → κ)
    (default : Component κ) : List (Component κ) :=
  match wiring.buses with
  | none => [default]
  | some build => (build.toOption.map fun buses => .provided (select buses)).toList

/-- The components that a wiring provides for a slot.  The in-memory defaults, which have no
`close` method, are left out except for the buses. -/
def DomainWiring.components (definition : Definition) (wiring : DomainWiring κ) :
    Slot → List (Component κ)
  | .adapter => (wiring.persistenceAdapter.map fun adapter => .provided adapter.self).toList
  | .customInfrastructure => (wiring.infrastructure.toOption.getD []).map .provided
  | .commandBus => wiring.bus (·.commandBus) .inMemoryCommandBus
  | .eventBus => wiring.bus (·.eventBus) .eventEmitterEventBus
  | .queryBus => wiring.bus (·.queryBus) .inMemoryQueryBus
  | .aggregatePersistence => (wiring.persistences definition).map .provided
  | .snapshotStore =>
      (wiring.aggregateWirings.filterMap
        (AggregateWiring.snapshotStore wiring.persistenceAdapter)).map .provided
  | .sagaPersistence =>
      if definition.hasSagas then
        ((factoryOr wiring.sagaPersistence
          (wiring.persistenceAdapter.bind (·.sagaPersistence))).map .provided).toList
      else []
  | .locker =>
      (wiring.aggregateWirings.filterMap
        (AggregateWiring.locker wiring.persistenceAdapter)).map .provided
  | .idempotencyStore =>
      ((factoryOr wiring.idempotency
        (wiring.persistenceAdapter.bind (·.idempotencyStore))).map .provided).toList
  | .outboxStore =>
      ((factoryOr wiring.outbox
        (wiring.persistenceAdapter.bind (·.outboxStore))).map .provided).toList

/-! ## What shutdown is to do -/

/-- A call of `close` after which the relay is not drained any more. -/
def ClosedAfterDrain (calls : List (Call κ)) (component : Component κ) : Prop :=
  ∃ before after, calls = before ++ Call.close component :: after ∧ Call.drainRelay ∉ after

/-- What `shutdown()` settles with, and the calls that it makes, in a domain that `init` has
made of a wiring. -/
def shutdown (objects : Objects κ) (definition : Definition) (wiring : DomainWiring κ) :
    Except Err (Except Err Unit × List (Call κ)) :=
  (init definition wiring).map (performShutdown objects)

/-- `shutdown()` resolves, and every wired component that has a `close` method is
closed, after the drain. -/
def ClosesEverything (objects : Objects κ) (definition : Definition)
    (wiring : DomainWiring κ) : Prop :=
  ∃ calls, shutdown objects definition wiring = .ok (.ok (), calls) ∧
    ∀ slot, ∀ component ∈ wiring.components definition slot,
      isCloseable objects component = true → ClosedAfterDrain calls component

/-- The event bus closes without an error, and what has a `close` method is wired as
something that is collected. -/
def Collected (objects : Objects κ) (definition : Definition) (wiring : DomainWiring κ) : Prop :=
  (∀ bus ∈ wiring.components definition .eventBus, close objects bus = .ok ()) ∧
    ∀ slot, slot.collected = false → ∀ component ∈ wiring.components definition slot,
      isCloseable objects component = true →
        ∃ slot', slot'.collected = true ∧ component ∈ wiring.components definition slot'

/-! ## What init resolves -/

def Resolved.components (resolved : Resolved κ) : Slot → List (Component κ)
  | .adapter => resolved.adapter.toList.map .provided
  | .customInfrastructure => resolved.customInfra.map .provided
  | .commandBus => [resolved.buses.commandBus]
  | .eventBus => [resolved.buses.eventBus]
  | .queryBus => [resolved.buses.queryBus]
  | .aggregatePersistence => resolved.persistences
  | .snapshotStore => resolved.snapshotStores.map .provided
  | .sagaPersistence => resolved.sagaPersistence.toList
  | .locker => resolved.lockers.map .provided
  | .idempotencyStore => resolved.idempotencyStore.toList.map .provided
  | .outboxStore => resolved.outboxStore.toList.map .provided

theorem allComponents_eq (resolved : Resolved κ) :
    resolved.allComponents =
      [Slot.adapter, .customInfrastructure, .commandBus, .eventBus, .queryBus, .sagaPersistence,
        .outboxStore, .idempotencyStore].flatMap resolved.components := by
  simp [Resolved.allComponents, Resolved.components]

theorem mem_allComponents_iff :
    component ∈ resolved.allComponents ↔
      ∃ slot, slot.collected = true ∧ component ∈ resolved.components slot := by
  rw [allComponents_eq, List.mem_flatMap]
  refine exists_congr fun slot => and_congr_left fun _ => ?_
  cases slot <;> decide

theorem resolveAggregatePersistence_ok {aggregateName : String}
    {persistence : Option (Persistence κ)} {adapter : Option (PersistenceAdapter κ)}
    {found : Option κ}
    (h : resolveAggregatePersistence aggregateName persistence adapter = .ok found) :
    found = Persistence.wired adapter persistence := by
  unfold resolveAggregatePersistence at h
  split at h
  · exact (Except.ok.inj h).symm
  · next build =>
      cases build with
      | error error => cases h
      | ok persistence => exact (Except.ok.inj h).symm
  · exact (Except.ok.inj h).symm
  · next name =>
      split at h
      · cases h
      · next adapter =>
          split_ifs at h with hsourced hstored
          · split at h
            · next persistence hadapter =>
                simp [Persistence.wired, hsourced, hadapter, ← Except.ok.inj h]
            · cases h
          · split at h
            · next persistence hadapter =>
                simp [Persistence.wired, hsourced, hadapter, ← Except.ok.inj h]
            · cases h

theorem resolveSnapshotStore_ok (subject : String) (aggregateWiring : AggregateWiring κ)
    (found : Option κ) (h : resolveSnapshotStore wiring subject aggregateWiring = .ok found) :
    found = aggregateWiring.snapshotStore wiring.persistenceAdapter := by
  revert h
  unfold resolveSnapshotStore AggregateWiring.snapshotStore
  cases aggregateWiring.snapshots with
  | none => exact fun h => (Except.ok.inj h).symm
  | some own =>
      cases own with
      | some build =>
          cases build with
          | error error => exact nofun
          | ok store => exact fun h => (Except.ok.inj h).symm
      | none =>
          cases wiring.persistenceAdapter.bind (·.snapshotStore) with
          | none => exact nofun
          | some store => exact fun h => (Except.ok.inj h).symm

theorem resolveConcurrency_ok (subject : String) (aggregateWiring : AggregateWiring κ)
    (found : Option κ) (h : resolveConcurrency wiring subject aggregateWiring = .ok found) :
    found = aggregateWiring.locker wiring.persistenceAdapter := by
  revert h
  unfold resolveConcurrency AggregateWiring.locker
  cases aggregateWiring.concurrency with
  | none => exact fun h => (Except.ok.inj h).symm
  | some concurrency =>
      cases concurrency with
      | optimistic => exact fun h => (Except.ok.inj h).symm
      | pessimistic =>
          cases wiring.persistenceAdapter.bind (·.aggregateLocker) with
          | none => exact nofun
          | some locker => exact fun h => (Except.ok.inj h).symm
      | pessimisticWith own =>
          cases own with
          | some locker => exact fun h => (Except.ok.inj h).symm
          | none =>
              cases wiring.persistenceAdapter.bind (·.aggregateLocker) with
              | none => exact nofun
              | some locker => exact fun h => (Except.ok.inj h).symm

theorem resolveStore_ok {build : Option (Except Err κ)} {ofAdapter found : Option κ}
    (h : resolveStore build ofAdapter = .ok found) : found = factoryOr build ofAdapter := by
  unfold resolveStore at h
  unfold factoryOr
  cases build with
  | none => exact (Except.ok.inj h).symm
  | some build =>
      cases build with
      | error error => cases h
      | ok store => exact (Except.ok.inj h).symm

/-! ## Closeable components -/

/-- A component that can be closed is wired exactly if it is resolved. -/
def Agrees (objects : Objects κ) (resolved wired : List (Component κ)) : Prop :=
  ∀ component, isCloseable objects component = true → (component ∈ resolved ↔ component ∈ wired)

theorem Agrees.refl (components : List (Component κ)) : Agrees objects components components :=
  fun _ _ => Iff.rfl

/-- The in-memory defaults cannot be closed. -/
theorem agrees_elim (found : List (Option κ)) :
    Agrees objects (found.map fun persistence =>
        persistence.elim .inMemoryAggregatePersistence .provided)
      (found.reduceOption.map .provided) := by
  intro component hcloseable
  simp only [List.mem_map, List.reduceOption_mem_iff]
  constructor
  · rintro ⟨persistence, hmem, rfl⟩
    cases persistence with
    | none => cases hcloseable
    | some reference => exact ⟨reference, hmem, rfl⟩
  · rintro ⟨reference, hmem, rfl⟩
    exact ⟨some reference, hmem, rfl⟩

theorem agrees_perAggregate {wirings : List (String × AggregateWiring κ)}
    {persistences : List (Component κ)}
    (h : resolvePerAggregate definition wiring wirings = .ok persistences) :
    Agrees objects persistences
      ((definition.aggregateNames.filterMap fun name =>
        Persistence.wired wiring.persistenceAdapter
          ((wirings.lookup name).bind (·.persistence))).map .provided) := by
  unfold resolvePerAggregate at h
  split at h
  · cases h
  · obtain ⟨found, hfound, h⟩ := ExceptMap.bind_eq_ok h
    have hmap := ExceptMap.eq_map_of_mapM (fun _ _ => resolveAggregatePersistence_ok) hfound
    have hreduce : definition.aggregateNames.filterMap (fun name =>
        Persistence.wired wiring.persistenceAdapter
          ((wirings.lookup name).bind (·.persistence))) = found.reduceOption := by
      rw [hmap, List.reduceOption, List.filterMap_map]
      rfl
    rw [hreduce]
    simp only at h
    split_ifs at h with hmissing hsome
    · obtain rfl := Except.ok.inj h
      have hnone : ∀ persistence ∈ found, persistence = none := by
        have hzip : definition.aggregateNames.length =
            (definition.aggregateNames.zip found).length := by
          rw [List.length_zip, hmap, List.length_map, Nat.min_self]
        have hsnd : (definition.aggregateNames.zip found).map Prod.snd = found :=
          List.map_snd_zip (Nat.le_of_eq (by rw [hmap, List.length_map]))
        have hall := List.length_filter_eq_length_iff.mp (hmissing.trans hzip)
        intro persistence hmem
        rw [← hsnd] at hmem
        obtain ⟨entry, hentry, rfl⟩ := List.mem_map.mp hmem
        simpa using hall entry hentry
      have hnil : found.reduceOption = [] := by
        rw [List.eq_nil_iff_forall_not_mem]
        intro reference hmem
        cases hnone _ (List.reduceOption_mem_iff.mp hmem)
      rw [hnil]
      exact agrees_elim [none]
    · obtain rfl := Except.ok.inj h
      exact agrees_elim found

theorem agrees_persistences {persistences : List (Component κ)}
    (h : resolvePersistences definition wiring = .ok persistences) :
    Agrees objects persistences ((wiring.persistences definition).map .provided) := by
  unfold resolvePersistences at h
  unfold DomainWiring.persistences
  split at h
  · next wirings haggregates =>
      rw [haggregates]
      exact agrees_perAggregate h
  · next aggregateWiring haggregates =>
    rw [haggregates]
    obtain ⟨found, hfound, h⟩ := ExceptMap.bind_eq_ok h
    obtain rfl := Except.ok.inj h
    simp only
    rw [← resolveAggregatePersistence_ok hfound]
    have hlist : found.toList = [found].reduceOption := by cases found <;> rfl
    rw [hlist]
    exact agrees_elim [found]

/-- One answer for each aggregate wiring. -/
theorem reduceOption_of_mapM {global : String}
    {resolve : String → AggregateWiring κ → Except Err (Option κ)}
    {wired : AggregateWiring κ → Option κ} {found : List (Option κ)}
    (hresolve : ∀ subject aggregateWiring answer,
      resolve subject aggregateWiring = .ok answer → answer = wired aggregateWiring)
    (h : ((aggregateWirings wiring global).mapM fun entry => resolve entry.1 entry.2) =
      .ok found) :
    found.reduceOption = wiring.aggregateWirings.filterMap wired := by
  rw [ExceptMap.eq_map_of_mapM (fun entry answer => hresolve entry.1 entry.2 answer) h]
  unfold aggregateWirings DomainWiring.aggregateWirings
  cases wiring.aggregates with
  | global aggregateWiring => rw [List.reduceOption, List.filterMap_map]; rfl
  | perAggregate wirings =>
      rw [List.reduceOption, List.filterMap_map, List.filterMap_map, List.filterMap_map]
      rfl

theorem agrees_sagaPersistence {found : Option (Component κ)}
    (h : resolveSagaPersistence definition wiring = .ok found) :
    Agrees objects found.toList (wiring.components definition .sagaPersistence) := by
  unfold resolveSagaPersistence at h
  simp only [DomainWiring.components, factoryOr]
  split_ifs at h ⊢ with hsagas
  · cases hown : wiring.sagaPersistence with
    | some build =>
        cases build with
        | error error => simp [hown, Except.map] at h
        | ok persistence =>
            simp only [hown, Except.map] at h
            obtain rfl := Except.ok.inj h
            exact Agrees.refl _
    | none =>
        simp only [hown] at h
        cases hadapter : wiring.persistenceAdapter.bind (·.sagaPersistence) with
        | some persistence =>
            simp only [hadapter] at h
            obtain rfl := Except.ok.inj h
            exact Agrees.refl _
        | none =>
            simp only [hadapter] at h
            obtain rfl := Except.ok.inj h
            intro component hcloseable
            simp only [Option.toList_some, List.mem_singleton, Option.map_none,
              Option.toList_none, List.not_mem_nil, iff_false]
            rintro rfl
            cases hcloseable
  · obtain rfl := Except.ok.inj h
    exact Agrees.refl _

theorem bus_of_resolveBuses {buses : Buses (Component κ)} (h : resolveBuses wiring = .ok buses) :
    [buses.commandBus] = wiring.bus (·.commandBus) .inMemoryCommandBus ∧
      [buses.eventBus] = wiring.bus (·.eventBus) .eventEmitterEventBus ∧
      [buses.queryBus] = wiring.bus (·.queryBus) .inMemoryQueryBus := by
  unfold resolveBuses at h
  unfold DomainWiring.bus
  cases hbuses : wiring.buses with
  | none =>
      rw [hbuses] at h
      obtain rfl := Except.ok.inj h
      exact ⟨rfl, rfl, rfl⟩
  | some build =>
      cases build with
      | error error => simp [hbuses, Except.map] at h
      | ok own =>
          rw [hbuses] at h
          obtain rfl := Except.ok.inj h
          exact ⟨rfl, rfl, rfl⟩

theorem init_ok (h : init definition wiring = .ok resolved) :
    (resolved.adapter = wiring.persistenceAdapter.map (·.self) ∧
      wiring.infrastructure = .ok resolved.customInfra ∧
      resolveBuses wiring = .ok resolved.buses) ∧
    resolvePersistences definition wiring = .ok resolved.persistences ∧
    resolved.snapshotStores = wiring.aggregateWirings.filterMap
      (AggregateWiring.snapshotStore wiring.persistenceAdapter) ∧
    resolveSagaPersistence definition wiring = .ok resolved.sagaPersistence ∧
    resolved.lockers = wiring.aggregateWirings.filterMap
      (AggregateWiring.locker wiring.persistenceAdapter) ∧
    resolved.idempotencyStore = factoryOr wiring.idempotency
      (wiring.persistenceAdapter.bind (·.idempotencyStore)) ∧
    resolved.outboxStore = factoryOr wiring.outbox
      (wiring.persistenceAdapter.bind (·.outboxStore)) := by
  unfold init at h
  obtain ⟨customInfra, hcustom, h⟩ := ExceptMap.bind_eq_ok h
  obtain ⟨buses, hbuses, h⟩ := ExceptMap.bind_eq_ok h
  obtain ⟨persistences, hpersistences, h⟩ := ExceptMap.bind_eq_ok h
  obtain ⟨snapshotStores, hsnapshots, h⟩ := ExceptMap.bind_eq_ok h
  obtain ⟨sagaPersistence, hsaga, h⟩ := ExceptMap.bind_eq_ok h
  obtain ⟨lockers, hlockers, h⟩ := ExceptMap.bind_eq_ok h
  obtain ⟨idempotencyStore, hidempotency, h⟩ := ExceptMap.bind_eq_ok h
  obtain ⟨outboxStore, houtbox, h⟩ := ExceptMap.bind_eq_ok h
  obtain rfl := Except.ok.inj h
  exact ⟨⟨rfl, hcustom, hbuses⟩, hpersistences,
    reduceOption_of_mapM resolveSnapshotStore_ok hsnapshots, hsaga,
    reduceOption_of_mapM resolveConcurrency_ok hlockers,
    resolveStore_ok hidempotency, resolveStore_ok houtbox⟩

/-- What `init` resolves for a slot is what the wiring provides for it, as far as it can be
closed. -/
theorem agrees_slot (h : init definition wiring = .ok resolved) (slot : Slot) :
    Agrees objects (resolved.components slot) (wiring.components definition slot) := by
  obtain ⟨⟨hadapter, hcustom, hbuses⟩, hpersistences, hsnapshots, hsaga, hlockers,
    hidempotency, houtbox⟩ := init_ok h
  obtain ⟨hcommandBus, heventBus, hqueryBus⟩ := bus_of_resolveBuses hbuses
  cases slot with
  | adapter =>
      simp only [Resolved.components, DomainWiring.components, hadapter]
      cases wiring.persistenceAdapter <;> exact Agrees.refl _
  | customInfrastructure =>
      simp only [Resolved.components, DomainWiring.components, hcustom]
      exact Agrees.refl _
  | commandBus =>
      simp only [Resolved.components, DomainWiring.components, ← hcommandBus]
      exact Agrees.refl _
  | eventBus =>
      simp only [Resolved.components, DomainWiring.components, ← heventBus]
      exact Agrees.refl _
  | queryBus =>
      simp only [Resolved.components, DomainWiring.components, ← hqueryBus]
      exact Agrees.refl _
  | sagaPersistence => exact agrees_sagaPersistence hsaga
  | outboxStore =>
      simp only [Resolved.components, DomainWiring.components, ← houtbox]
      cases resolved.outboxStore <;> exact Agrees.refl _
  | idempotencyStore =>
      simp only [Resolved.components, DomainWiring.components, ← hidempotency]
      cases resolved.idempotencyStore <;> exact Agrees.refl _
  | aggregatePersistence => exact agrees_persistences hpersistences
  | snapshotStore =>
      simp only [Resolved.components, DomainWiring.components, ← hsnapshots]
      exact Agrees.refl _
  | locker =>
      simp only [Resolved.components, DomainWiring.components, ← hlockers]
      exact Agrees.refl _

/-! ## The loop -/

/-- Whatever rejects, the loop closes all of them and does not throw. -/
theorem closeAll_eq (objects : Objects κ) (closeables : List (Component κ)) :
    closeAll objects closeables = (.ok (), closeables.map Call.close) := by
  induction closeables with
  | nil => rfl
  | cons closeable rest ih =>
      rw [closeAll, ih]
      cases close objects closeable <;> rfl

theorem drainRelay_not_mem (closeables : List (Component κ)) :
    Call.drainRelay ∉ closeables.map Call.close := by
  intro h
  obtain ⟨closeable, -, heq⟩ := List.mem_map.mp h
  cases heq

/-- A call that is made after the event bus was closed. -/
theorem closedAfterDrain_of_mem {drain : List (Call κ)} {closeables : List (Component κ)}
    (h : component ∈ closeables) :
    ClosedAfterDrain (drain ++ closeables.map Call.close) component := by
  obtain ⟨before, after, rfl⟩ := List.append_of_mem h
  refine ⟨drain ++ before.map Call.close, after.map Call.close, ?_, drainRelay_not_mem after⟩
  rw [List.map_append, List.map_cons, List.append_assoc]

theorem ClosedAfterDrain.mem {calls : List (Call κ)} (h : ClosedAfterDrain calls component) :
    Call.close component ∈ calls := by
  obtain ⟨before, after, rfl, -⟩ := h
  exact List.mem_append_right _ List.mem_cons_self

theorem mem_of_closedAfterDrain {drain : List (Call κ)} {closeables : List (Component κ)}
    (hdrain : ∀ call ∈ drain, call = Call.drainRelay)
    (h : ClosedAfterDrain (drain ++ closeables.map Call.close) component) :
    component ∈ closeables := by
  cases List.mem_append.mp h.mem with
  | inl hfirst => cases hdrain _ hfirst
  | inr hlast =>
      obtain ⟨closeable, hcloseable, heq⟩ := List.mem_map.mp hlast
      cases heq
      exact hcloseable

/-! ## The sequence -/

def closed (objects : Objects κ) (resolved : Resolved κ) : List (Component κ) :=
  resolved.buses.eventBus :: (resolved.allComponents.filter (isCloseable objects)).reverse

theorem performShutdown_of_ok (h : close objects resolved.buses.eventBus = .ok ()) :
    performShutdown objects resolved =
      (.ok (), (if resolved.outboxStore.isSome then [Call.drainRelay] else []) ++
        (closed objects resolved).map Call.close) := by
  simp only [performShutdown, h, closeAll_eq]
  rfl

theorem performShutdown_of_error {error : Err}
    (h : close objects resolved.buses.eventBus = .error error) :
    (performShutdown objects resolved).1 = .error error := by
  simp only [performShutdown, h]

theorem eventBus_mem : resolved.buses.eventBus ∈ resolved.allComponents := by
  simp [Resolved.allComponents]

theorem isCloseable_of_close (h : close objects component = .ok ()) :
    isCloseable objects component = true := by
  by_contra hnot
  unfold close at h
  rw [if_neg hnot] at h
  cases h

theorem mem_closed (h : close objects resolved.buses.eventBus = .ok ()) :
    component ∈ closed objects resolved ↔
      component ∈ resolved.allComponents ∧ isCloseable objects component = true := by
  rw [closed, List.mem_cons, List.mem_reverse, List.mem_filter]
  constructor
  · rintro (rfl | hmem)
    · exact ⟨eventBus_mem, isCloseable_of_close h⟩
    · exact hmem
  · exact .inr

theorem drain_calls (resolved : Resolved κ) :
    ∀ call ∈ (if resolved.outboxStore.isSome then [(Call.drainRelay : Call κ)] else []),
      call = Call.drainRelay := by
  intro call hcall
  split_ifs at hcall
  · exact List.mem_singleton.mp hcall
  · cases hcall

/-- What can be closed is collected exactly if it is wired as something that is. -/
theorem mem_allComponents_iff_wired (h : init definition wiring = .ok resolved)
    (hcloseable : isCloseable objects component = true) :
    component ∈ resolved.allComponents ↔
      ∃ slot, slot.collected = true ∧ component ∈ wiring.components definition slot := by
  rw [mem_allComponents_iff]
  exact exists_congr fun slot => and_congr_right fun _ => agrees_slot h slot component hcloseable

theorem collected_iff (h : init definition wiring = .ok resolved) :
    Collected objects definition wiring ↔
      close objects resolved.buses.eventBus = .ok () ∧
        ∀ slot, ∀ component ∈ wiring.components definition slot,
          isCloseable objects component = true → component ∈ resolved.allComponents := by
  have hbus : wiring.components definition .eventBus = [resolved.buses.eventBus] :=
    (bus_of_resolveBuses (init_ok h).1.2.2).2.1.symm
  rw [Collected, hbus, List.forall_mem_singleton]
  refine and_congr_right fun _ => forall_congr' fun slot => ?_
  constructor
  · intro hcollected component hmem hcloseable
    rw [mem_allComponents_iff_wired h hcloseable]
    cases hslot : slot.collected with
    | true => exact ⟨slot, hslot, hmem⟩
    | false => exact hcollected hslot component hmem hcloseable
  · intro hall _ component hmem hcloseable
    exact (mem_allComponents_iff_wired h hcloseable).mp (hall component hmem hcloseable)

/-- Of every wiring that `init` accepts, whatever rejects: shutdown closes everything
exactly if the event bus closes without an error and everything that has a `close`
method is wired as something that is collected. -/
theorem shutdown_closes_iff (objects : Objects κ) (h : (init definition wiring).isOk) :
    ClosesEverything objects definition wiring ↔ Collected objects definition wiring := by
  obtain ⟨resolved, hresolved⟩ := ExceptMap.isOk_iff.mp h
  rw [collected_iff hresolved]
  have hshutdown : shutdown objects definition wiring = .ok (performShutdown objects resolved) := by
    rw [shutdown, hresolved]
    rfl
  cases hbus : close objects resolved.buses.eventBus with
  | error error =>
      constructor
      · rintro ⟨calls, hok, -⟩
        have hfirst := congrArg Prod.fst (Except.ok.inj (hshutdown.symm.trans hok))
        rw [performShutdown_of_error hbus] at hfirst
        cases hfirst
      · rintro ⟨hok, -⟩
        cases hok
  | ok =>
      rw [performShutdown_of_ok hbus] at hshutdown
      constructor
      · rintro ⟨calls, hok, hall⟩
        obtain rfl := congrArg Prod.snd (Except.ok.inj (hshutdown.symm.trans hok))
        refine ⟨rfl, fun slot component hmem hcloseable => ?_⟩
        have hclosed := hall slot component hmem hcloseable
        have hmem' := mem_of_closedAfterDrain (drain_calls resolved) hclosed
        exact ((mem_closed hbus).mp hmem').1
      · rintro ⟨-, hcollected⟩
        refine ⟨_, hshutdown, fun slot component hmem hcloseable => ?_⟩
        apply closedAfterDrain_of_mem
        exact (mem_closed hbus).mpr ⟨hcollected slot component hmem hcloseable, hcloseable⟩

/-! ## Two wirings -/

/-- The persistence of the aggregates is the object `0`, the locker is `1`. -/
def storeWiring : DomainWiring Nat where
  aggregates := .global
    { persistence := some (.object 0), concurrency := some (.pessimisticWith (some 1)) }

/-- The buses are the objects `2`, `3` and `4`; the object `5` of the custom infrastructure
is also the store of the aggregates. -/
def busWiring : DomainWiring Nat where
  infrastructure := .ok [5]
  buses := some (.ok ⟨2, 3, 4⟩)
  aggregates := .global { persistence := some (.object 5) }

/-- All objects have a `close` method; those of `failing` reject. -/
def closing (failing : List Nat) : Objects Nat where
  closeable _ := true
  closeRejects reference := if reference ∈ failing then some (.error "busy") else none

theorem collected_busWiring :
    Collected (closing [2, 5]) ⟨["Counter"], false⟩ busWiring := by
  have hcustom : ∀ slot, slot.collected = false →
      ∀ component ∈ busWiring.components ⟨["Counter"], false⟩ slot,
        component ∈ busWiring.components ⟨["Counter"], false⟩ .customInfrastructure := by
    intro slot hslot
    cases slot <;> first | exact absurd hslot (by decide) | decide
  exact ⟨by decide, fun slot hslot component hmem _ =>
    ⟨.customInfrastructure, rfl, hcustom slot hslot component hmem⟩⟩

/-- A component of the user rejects and the others are closed. -/
theorem shutdown_closes_iff_buses :
    ClosesEverything (closing [2, 5]) ⟨["Counter"], false⟩ busWiring :=
  (shutdown_closes_iff (closing [2, 5])
    (show (init ⟨["Counter"], false⟩ busWiring).isOk from rfl)).mpr collected_busWiring

/-- A wired persistence and a wired locker are never closed; and when the event bus
rejects, nothing else is closed and `shutdown()` rejects. -/
theorem shutdown_leaks :
    ¬ ClosesEverything (closing []) ⟨["Counter"], false⟩ storeWiring ∧
      ¬ ClosesEverything (closing [3]) ⟨["Counter"], false⟩ busWiring := by
  constructor
  · rintro ⟨calls, hok, hall⟩
    obtain rfl := congrArg Prod.snd (Except.ok.inj hok)
    have hclosed := (hall .aggregatePersistence (.provided 0) (by decide) rfl).mem
    revert hclosed
    decide
  · rintro ⟨calls, hok, -⟩
    cases congrArg Prod.fst (Except.ok.inj hok)

end Noddde.Components
