import Noddde.Async.Machine
import Noddde.Adapters.Sample
import Noddde.Data.ExceptMap
import Noddde.Engine.KeyedStores
import Noddde.Proofs.EventRows
/-!
# The SQL event stores against the in-memory one

The in-memory store compares versions; the others only have their unique index.  As long
as no save expects a version that its stream has not reached, a taken sequence number
tells the same.
-/

namespace Noddde.Adapters

variable {N : Type} [Json.Number N]

abbrev MetadataObject (N : Type) :=
  { metadata : Json N // metadata.Proper ∧ ∃ fields, metadata = .object fields }

variable (metadataJson : EventMetadata → MetadataObject N) (sql : SqlEventStore)

def view (event : Event (Json.Value N)) : ProperEvent N where
  val :=
    { name := event.name
      payload := event.payload.val
      metadata := event.metadata.map fun metadata => (metadataJson metadata).val }
  property := by
    refine ⟨event.payload.property, fun metadata hmem => ?_⟩
    obtain ⟨metadata, -, rfl⟩ := Option.map_eq_some_iff.mp hmem
    exact (metadataJson metadata).property

def views (events : List (Event (Json.Value N))) : List (JsonEvent N) :=
  events.map fun event => (view metadataJson event).val

structure EventStorePair (N : Type) where
  store : EventStore (Json.Value N) := ∅
  table : EventTable N := []

def exec (address : Address) (call : EventStore.Call (Json.Value N)) (table : EventTable N) :
    Except StoreError (List (JsonEvent N)) × EventTable N :=
  let stores : EventStores N := sql.stores
  match call with
  | .load => (stores.load address.1 address.2 table, table)
  | .loadAfterVersion afterVersion =>
      (stores.loadAfterVersion address.1 address.2 afterVersion table, table)
  | .save events expectedVersion =>
      let result := stores.save address.1 address.2 (views metadataJson events) expectedVersion
        table
      (result.1.map fun _ => [], result.2)

def stepPair (s : EventStorePair N) (call : Address × EventStore.Call (Json.Value N)) :
    Option (EventStorePair N) :=
  some
    { store := (EventStore.exec call.1 call.2 s.store).2
      table := (exec metadataJson sql call.1 call.2 s.table).2 }

/-- Both resolve, with the same events, or both reject with a `ConcurrencyError`. -/
def Agree (s : EventStorePair N) (call : Address × EventStore.Call (Json.Value N)) : Prop :=
  match (EventStore.exec call.1 call.2 s.store).1, (exec metadataJson sql call.1 call.2 s.table).1
  with
  | .ok events, .ok events' => events' = views metadataJson events
  | .error error, .error error' => error.isConcurrency = true ∧ error'.isConcurrency = true
  | _, _ => False

/-- A batch whose expected version the stream has reached. -/
def Reached (s : EventStorePair N) (call : Address × EventStore.Call (Json.Value N)) : Prop :=
  match call.2 with
  | .save events expectedVersion =>
      events = [] ∨ expectedVersion ≤ (EventStore.stream s.store call.1.key).length
  | _ => True

/-- Events that the columns of the store give back. -/
def Storable (call : Address × EventStore.Call (Json.Value N)) : Prop :=
  match sql, call.2 with
  | .drizzle _ true, .save events _ => ∀ event ∈ events, event.payload.val.isString = false
  | _, _ => True

/-- A call for an instance in `P`, whose batch is storable. -/
def Admitted (P : Set Address) (call : Address × EventStore.Call (Json.Value N)) : Prop :=
  call.1 ∈ P ∧ Storable sql call

/-! ## The invariant -/

variable {metadataJson sql} {P : Set Address} {s t : EventStorePair N}

/-- Each stream is in the table as the rows of its events, and these can be read. -/
structure Mirrors (metadataJson : EventMetadata → MetadataObject N) (sql : SqlEventStore)
    (P : Set Address) (s : EventStorePair N) : Prop where
  nodup : (s.table.map EventRow.key).Nodup
  stream : ∀ address ∈ P, s.table.stream address.1 address.2 =
    (sql.stores : EventStores N).rows address.1 address.2
      (views metadataJson (EventStore.stream s.store address.key)) 0
  reads : ∀ address ∈ P, ∀ event ∈ views metadataJson (EventStore.stream s.store address.key),
    ∀ row : EventRow N, row.eventName = event.name →
      row.payload = (sql.stores : EventStores N).format.payload event.payload →
      row.metadata = (sql.stores : EventStores N).format.metadata event.metadata →
      (sql.stores : EventStores N).format.deserialize row = .ok event

omit [Json.Number N] in
theorem length_views (events : List (Event (Json.Value N))) :
    (views metadataJson events).length = events.length := List.length_map _

omit [Json.Number N] in
theorem views_append (events events' : List (Event (Json.Value N))) :
    views metadataJson (events ++ events') =
      views metadataJson events ++ views metadataJson events' := List.map_append

namespace Mirrors

variable (h : Mirrors metadataJson sql P s) {address : Address} (haddress : address ∈ P)
  {events : List (Event (Json.Value N))} {expectedVersion : Nat}

include h haddress

theorem orderBySequence :
    EventTable.orderBySequence (s.table.stream address.1 address.2) =
      s.table.stream address.1 address.2 := by
  rw [h.stream address haddress]
  exact (EventStores.pairwise_rows.imp fun hlt => hlt.le).insertionSort_eq

theorem sequenceNumber :
    (s.table.select address.1 address.2).map EventRow.sequenceNumber =
      List.range' 1 (EventStore.stream s.store address.key).length := by
  have hselect : s.table.select address.1 address.2 = s.table.stream address.1 address.2 :=
    h.orderBySequence haddress
  rw [hselect, h.stream address haddress, EventStores.sequenceNumber_rows, length_views]

theorem mapM_rows :
    (s.table.stream address.1 address.2).mapM (sql.stores : EventStores N).format.deserialize =
      .ok (views metadataJson (EventStore.stream s.store address.key)) := by
  rw [h.stream address haddress]
  apply (EventStores.mapM_rows_iff (P := fun _ => True) ?_).mpr fun _ _ => trivial
  intro event hmem row hname hpayload hmetadata
  exact iff_true_intro (h.reads address haddress event hmem row hname hpayload hmetadata)

theorem load :
    (sql.stores : EventStores N).load address.1 address.2 s.table =
      .ok (views metadataJson (EventStore.stream s.store address.key)) := by
  have hselect : s.table.select address.1 address.2 = s.table.stream address.1 address.2 :=
    h.orderBySequence haddress
  unfold EventStores.load
  rw [hselect]
  exact h.mapM_rows haddress

theorem loadAfterVersion (afterVersion : Nat) :
    (sql.stores : EventStores N).loadAfterVersion address.1 address.2 afterVersion s.table =
      .ok (views metadataJson
        ((EventStore.stream s.store address.key).drop afterVersion)) := by
  have hfilter : s.table.filter (fun row => (row.aggregateName = address.1 ∧
      row.aggregateId = address.2) ∧ afterVersion < row.sequenceNumber) =
        (s.table.stream address.1 address.2).drop afterVersion := by
    have hrows : (s.table.stream address.1 address.2).filter
        (fun row => 0 + afterVersion < row.sequenceNumber) =
          (s.table.stream address.1 address.2).drop afterVersion := by
      rw [h.stream address haddress]
      exact EventStores.filter_rows afterVersion
    rw [← hrows, EventTable.stream, List.filter_filter]
    congr 1
    funext row
    rw [Nat.zero_add, ← Bool.decide_and, decide_eq_decide]
    exact and_comm
  have hsorted : ((s.table.stream address.1 address.2).drop afterVersion).Pairwise
      fun row row' => row.sequenceNumber ≤ row'.sequenceNumber := by
    rw [h.stream address haddress]
    exact (EventStores.pairwise_rows.imp fun hlt => hlt.le).sublist (List.drop_sublist _ _)
  have hselect : s.table.selectAfter address.1 address.2 afterVersion =
      (s.table.stream address.1 address.2).drop afterVersion := by
    unfold EventTable.selectAfter
    rw [hfilter]
    exact hsorted.insertionSort_eq
  unfold EventStores.loadAfterVersion
  rw [hselect, ExceptMap.mapM_drop (h.mapM_rows haddress), views, views, List.map_drop]

/-- The index admits a batch exactly if the stream is not beyond its expected version. -/
theorem nodup_append_iff (hevents : events ≠ []) :
    ((s.table ++ (sql.stores : EventStores N).rows address.1 address.2
      (views metadataJson events) expectedVersion).map EventRow.key).Nodup ↔
        (EventStore.stream s.store address.key).length ≤ expectedVersion := by
  rw [List.map_append, List.nodup_append]
  constructor
  · rintro ⟨-, -, hdisjoint⟩
    by_contra hlt
    have hold : expectedVersion + 1 ∈ ((s.table.stream address.1 address.2).map
        EventRow.sequenceNumber) := by
      rw [h.stream address haddress, EventStores.sequenceNumber_rows, length_views,
        List.mem_range'_1]
      omega
    have hnew : expectedVersion + 1 ∈ (((sql.stores : EventStores N).rows address.1 address.2
        (views metadataJson events) expectedVersion).map EventRow.sequenceNumber) := by
      have hpos := List.length_pos_of_ne_nil hevents
      rw [EventStores.sequenceNumber_rows, length_views, List.mem_range'_1]
      omega
    obtain ⟨row, hrow, hnumber⟩ := List.mem_map.mp hold
    obtain ⟨row', hrow', hnumber'⟩ := List.mem_map.mp hnew
    obtain ⟨htable, hname, hid⟩ := mem_stream.mp hrow
    obtain ⟨hname', hid', -⟩ := EventStores.of_mem_rows hrow'
    apply hdisjoint _ (List.mem_map_of_mem htable) _ (List.mem_map_of_mem hrow')
    rw [EventRow.key, EventRow.key, hname, hid, hnumber, hname', hid', hnumber']
  · intro hle
    refine ⟨h.nodup, ?_, ?_⟩
    · rw [List.Nodup, List.pairwise_map]
      apply EventStores.pairwise_rows.imp
      intro row row' hlt hkey
      exact absurd (congrArg (fun key => key.2.2) hkey) hlt.ne
    · intro key hkey key' hkey' heq
      subst heq
      obtain ⟨row, hrow, rfl⟩ := List.mem_map.mp hkey
      obtain ⟨row', hrow', hsame⟩ := List.mem_map.mp hkey'
      obtain ⟨hname', hid', hlt, -⟩ := EventStores.of_mem_rows hrow'
      have hname : row.aggregateName = address.1 :=
        (congrArg Prod.fst hsame).symm.trans hname'
      have hid : row.aggregateId = address.2 :=
        (congrArg (fun key => key.2.1) hsame).symm.trans hid'
      have hnumber : row'.sequenceNumber = row.sequenceNumber :=
        congrArg (fun key => key.2.2) hsame
      have hmem := mem_stream.mpr ⟨hrow, hname, hid⟩
      rw [h.stream address haddress] at hmem
      have hbound := (EventStores.of_mem_rows hmem).2.2.2
      rw [length_views] at hbound
      omega

/-- A save appends the batch, unless it is behind its stream. -/
theorem save :
    (sql.stores : EventStores N).save address.1 address.2 (views metadataJson events)
        expectedVersion s.table =
      if events = [] ∨ (EventStore.stream s.store address.key).length ≤ expectedVersion
      then (.ok (), s.table ++ (sql.stores : EventStores N).rows address.1 address.2
        (views metadataJson events) expectedVersion)
      else (.error (.concurrency address.1 address.2 expectedVersion (-1)), s.table) := by
  rw [EventStores.save_eq]
  by_cases hevents : events = []
  · subst hevents
    have hnil : views metadataJson [] = [] := rfl
    rw [if_pos hnil, if_pos (.inl rfl)]
    exact congrArg _ (List.append_nil s.table).symm
  · have hviews : views metadataJson events ≠ [] := mt List.map_eq_nil_iff.mp hevents
    rw [if_neg hviews, EventTable.insertMany]
    by_cases hle : (EventStore.stream s.store address.key).length ≤ expectedVersion
    · rw [if_pos ((h.nodup_append_iff haddress hevents).mpr hle), if_pos (.inr hle)]
    · rw [if_neg (mt (h.nodup_append_iff haddress hevents).mp hle),
        if_neg (not_or.mpr ⟨hevents, hle⟩)]

end Mirrors

/-! ## Calls -/

/-- The stores agree on a call exactly if its batch is not ahead of its stream. -/
theorem agree_iff (h : Mirrors metadataJson sql P s)
    {call : Address × EventStore.Call (Json.Value N)} (haddress : call.1 ∈ P) :
    Agree metadataJson sql s call ↔ Reached s call := by
  obtain ⟨address, call⟩ := call
  unfold Agree Reached
  rw [(EventStore.exec_eq_act address call s.store).1]
  cases call with
  | load =>
      simp only [EventStore.act, exec, h.load haddress]
  | loadAfterVersion afterVersion =>
      simp only [EventStore.act, exec, h.loadAfterVersion haddress]
  | save events expectedVersion =>
      simp only [EventStore.act, exec, h.save haddress, List.length_eq_zero_iff]
      by_cases hevents : events = []
      · subst hevents
        simp only [true_or, if_true]
        exact iff_of_true rfl trivial
      · by_cases hversion : (EventStore.stream s.store address.key).length = expectedVersion
        · rw [if_neg hevents, if_neg (not_not.mpr hversion), if_pos (.inr hversion.le)]
          exact iff_of_true rfl (.inr hversion.ge)
        · rw [if_neg hevents, if_pos hversion]
          by_cases hle : (EventStore.stream s.store address.key).length ≤ expectedVersion
          · rw [if_pos (.inr hle)]
            refine iff_of_false id ?_
            rintro (hnil | hge)
            · exact hevents hnil
            · exact hversion (Nat.le_antisymm hle hge)
          · rw [if_neg (not_or.mpr ⟨hevents, hle⟩)]
            exact iff_of_true ⟨rfl, rfl⟩ (.inr (Nat.le_of_not_le hle))

theorem reads_of_storable {address : Address} {events : List (Event (Json.Value N))}
    {expectedVersion : Nat} (h : Storable sql (address, .save events expectedVersion)) :
    ∀ event ∈ views metadataJson events, ∀ row : EventRow N, row.eventName = event.name →
      row.payload = (sql.stores : EventStores N).format.payload event.payload →
      row.metadata = (sql.stores : EventStores N).format.metadata event.metadata →
      (sql.stores : EventStores N).format.deserialize row = .ok event := by
  intro event hmem row hname hpayload hmetadata
  obtain ⟨event, hevent, rfl⟩ := List.mem_map.mp hmem
  have hproper := (view metadataJson event).property
  cases sql with
  | drizzle driver nativeJson =>
      apply (drizzle_reads_iff hproper nativeJson hname hpayload hmetadata).mpr
      rintro rfl
      exact h event hevent
  | prisma driver => exact textFormat_reads hproper hname hpayload hmetadata
  | typeORM driver => exact textFormat_reads hproper hname hpayload hmetadata

/-- Nothing of the batch is in another stream. -/
theorem stream_append_of_ne {address address' : Address}
    (hne : address' ≠ address) (table : EventTable N) (events : List (JsonEvent N))
    (expectedVersion : Nat) :
    (table ++ (sql.stores : EventStores N).rows address.1 address.2 events
      expectedVersion).stream address'.1 address'.2 = table.stream address'.1 address'.2 := by
  have hnone : ((sql.stores : EventStores N).rows address.1 address.2 events
      expectedVersion).filter (fun row => row.aggregateName = address'.1 ∧
        row.aggregateId = address'.2) = [] := by
    apply List.filter_eq_nil_iff.mpr
    intro row hrow hsame
    obtain ⟨hname, hid, -⟩ := EventStores.of_mem_rows hrow
    obtain ⟨hname', hid'⟩ := of_decide_eq_true hsame
    exact hne (Prod.ext (hname'.symm.trans hname) (hid'.symm.trans hid))
  unfold EventTable.stream
  rw [List.filter_append, hnone, List.append_nil]

/-- A batch at the end of its stream is appended to both. -/
theorem Mirrors.append (hP : Set.InjOn Address.key P) (h : Mirrors metadataJson sql P s)
    {address : Address} (haddress : address ∈ P) {events : List (Event (Json.Value N))}
    {expectedVersion : Nat} (hstorable : Storable sql (address, .save events expectedVersion))
    (hevents : events ≠ [])
    (hversion : (EventStore.stream s.store address.key).length = expectedVersion)
    (hstore : EventStore.stream t.store = Function.update (EventStore.stream s.store) address.key
      (EventStore.stream s.store address.key ++ events))
    (htable : t.table = s.table ++ (sql.stores : EventStores N).rows address.1 address.2
      (views metadataJson events) expectedVersion) :
    Mirrors metadataJson sql P t where
  nodup := by
    rw [htable]
    exact (h.nodup_append_iff haddress hevents).mpr hversion.le
  stream := by
    intro address' haddress'
    by_cases hsame : address' = address
    · subst hsame
      rw [htable, stream_append, h.stream _ haddress', hstore, Function.update_self,
        views_append, EventStores.rows_append, length_views, hversion, Nat.zero_add]
    · have hkey : address'.key ≠ address.key := fun heq => hsame (hP haddress' haddress heq)
      rw [htable, stream_append_of_ne hsame, h.stream _ haddress', hstore,
        Function.update_of_ne hkey]
  reads := by
    intro address' haddress' event hmem
    rw [hstore] at hmem
    by_cases hsame : address' = address
    · subst hsame
      rw [Function.update_self, views_append] at hmem
      cases List.mem_append.mp hmem with
      | inl hold => exact h.reads _ haddress' event hold
      | inr hnew => exact reads_of_storable hstorable event hnew
    · have hkey : address'.key ≠ address.key := fun heq => hsame (hP haddress' haddress heq)
      rw [Function.update_of_ne hkey] at hmem
      exact h.reads _ haddress' event hmem

theorem Mirrors.congr (h : Mirrors metadataJson sql P s)
    (hstore : EventStore.stream t.store = EventStore.stream s.store)
    (htable : t.table = s.table) : Mirrors metadataJson sql P t where
  nodup := by
    rw [htable]
    exact h.nodup
  stream := by
    rw [hstore, htable]
    exact h.stream
  reads := by
    rw [hstore]
    exact h.reads

theorem Mirrors.step (hP : Set.InjOn Address.key P) (h : Mirrors metadataJson sql P s)
    {call : Address × EventStore.Call (Json.Value N)} (hadmitted : Admitted sql P call)
    (hreached : Reached s call) (hstep : stepPair metadataJson sql s call = some t) :
    Mirrors metadataJson sql P t := by
  obtain ⟨address, call⟩ := call
  obtain ⟨haddress, hstorable⟩ := hadmitted
  obtain rfl := Option.some.inj hstep
  cases call with
  | load => exact h
  | loadAfterVersion afterVersion => exact h
  | save events expectedVersion =>
      have hstore := (EventStore.exec_eq_act address (.save events expectedVersion) s.store).2
      have hself := Function.update_eq_self address.key (EventStore.stream s.store)
      have htable : (exec metadataJson sql address (.save events expectedVersion) s.table).2 =
          ((sql.stores : EventStores N).save address.1 address.2 (views metadataJson events)
            expectedVersion s.table).2 := rfl
      rw [h.save haddress] at htable
      simp only [EventStore.act, List.length_eq_zero_iff] at hstore
      by_cases hevents : events = []
      · subst hevents
        rw [if_pos rfl, hself] at hstore
        rw [if_pos (.inl rfl)] at htable
        exact h.congr hstore (htable.trans (List.append_nil s.table))
      · by_cases hversion : (EventStore.stream s.store address.key).length = expectedVersion
        · rw [if_neg hevents, if_neg (not_not.mpr hversion)] at hstore
          rw [if_pos (.inr hversion.le)] at htable
          exact h.append hP haddress hstorable hevents hversion hstore htable
        · have hbehind : ¬ (EventStore.stream s.store address.key).length ≤ expectedVersion := by
            intro hle
            cases hreached with
            | inl hnil => exact hevents hnil
            | inr hge => exact hversion (Nat.le_antisymm hle hge)
          rw [if_neg hevents, if_pos hversion, hself] at hstore
          rw [if_neg (not_or.mpr ⟨hevents, hbehind⟩)] at htable
          exact h.congr hstore htable

theorem Mirrors.start (metadataJson : EventMetadata → MetadataObject N) (sql : SqlEventStore)
    (P : Set Address) : Mirrors metadataJson sql P {} where
  nodup := List.nodup_nil
  stream := fun _ _ => rfl
  reads := fun _ _ _ hmem => absurd hmem List.not_mem_nil

/-! ## Runs -/

/-- A save of a batch that is not ahead of its stream resolves exactly if it is at its end. -/
theorem save_ok_iff (h : Mirrors metadataJson sql P s) {address : Address}
    (haddress : address ∈ P) {events : List (Event (Json.Value N))} {expectedVersion : Nat}
    (hevents : events ≠ []) (hreached : Reached s (address, .save events expectedVersion)) :
    (∃ answer, (exec metadataJson sql address (.save events expectedVersion) s.table).1 =
      .ok answer) ↔ expectedVersion = (EventStore.stream s.store address.key).length := by
  have hle : expectedVersion ≤ (EventStore.stream s.store address.key).length :=
    hreached.resolve_left hevents
  simp only [exec, h.save haddress]
  by_cases hge : (EventStore.stream s.store address.key).length ≤ expectedVersion
  · rw [if_pos (.inr hge)]
    exact iff_of_true ⟨[], rfl⟩ (Nat.le_antisymm hle hge)
  · rw [if_neg (not_or.mpr ⟨hevents, hge⟩)]
    refine iff_of_false ?_ fun heq => hge heq.ge
    rintro ⟨answer, hanswer⟩
    cases hanswer

/-- As long as no save was ahead of its stream, the stores agree on exactly the calls
that are not, and the sequence numbers of every stream have no gaps. -/
theorem sql_refines_inMemory (metadataJson : EventMetadata → MetadataObject N)
    (sql : SqlEventStore) (P : Set Address) (hP : Set.InjOn Address.key P)
    (s : EventStorePair N)
    (hrun : Machine.Run (stepPair metadataJson sql)
      (fun s call => Admitted sql P call ∧ Reached s call) {} s) :
    (∀ call, Admitted sql P call → (Agree metadataJson sql s call ↔ Reached s call)) ∧
      (∀ address ∈ P, ∀ events expectedVersion, events ≠ [] →
        Reached s (address, .save events expectedVersion) →
        ((∃ answer, (exec metadataJson sql address (.save events expectedVersion) s.table).1 =
          .ok answer) ↔ expectedVersion = (EventStore.stream s.store address.key).length)) ∧
      ∀ address ∈ P, (s.table.select address.1 address.2).map EventRow.sequenceNumber =
        List.range' 1 (EventStore.stream s.store address.key).length := by
  have h : Mirrors metadataJson sql P s :=
    hrun.inv (.start metadataJson sql P) fun t call u ht hC hstep => ht.step hP hC.1 hC.2 hstep
  refine ⟨?_, ?_, ?_⟩
  · exact fun call hadmitted => agree_iff h hadmitted.1
  · exact fun address haddress events expectedVersion => save_ok_iff h haddress
  · exact fun address haddress => h.sequenceNumber haddress

/-! ## A run -/

def noFields (_ : EventMetadata) : MetadataObject (Fin 10) :=
  ⟨.object [], .object List.nodup_nil (fun _ hmem => absurd hmem List.not_mem_nil), [], rfl⟩

abbrev postgresEvents : SqlEventStore := .typeORM (Sample.postgres.driver .typeORMStateStored)

def placed : Event (Json.Value (Fin 10)) where
  name := "Placed"
  payload := ⟨.null, .null⟩
  metadata := none

def place (expectedVersion : Nat) : Address × EventStore.Call (Json.Value (Fin 10)) :=
  (("Order", "1"), .save [placed] expectedVersion)

/-- Once the order is placed, a second save at version 0 conflicts in both stores. -/
theorem sql_refines_inMemory_placed :
    Agree noFields postgresEvents
      { store := (EventStore.exec (place 0).1 (place 0).2 ∅).2
        table := (exec noFields postgresEvents (place 0).1 (place 0).2 []).2 } (place 0) := by
  have hP : Set.InjOn Address.key {("Order", "1")} := Set.injOn_singleton _ _
  have hplace : Admitted postgresEvents {("Order", "1")} (place 0) := ⟨rfl, trivial⟩
  have hreached (s : EventStorePair (Fin 10)) : Reached s (place 0) := .inr (Nat.zero_le _)
  have hagree := (sql_refines_inMemory noFields postgresEvents {("Order", "1")} hP _
    (.tail .refl ⟨hplace, hreached _⟩ rfl)).1
  exact (hagree (place 0) hplace).mpr (hreached _)

/-- A save that is ahead of its stream resolves in the SQL store, and leaves a gap. -/
theorem sql_admits_gap :
    (exec noFields postgresEvents (place 1).1 (place 1).2 []).1.isOk = true ∧
      ((exec noFields postgresEvents (place 1).1 (place 1).2 []).2.map EventRow.sequenceNumber) =
        [2] ∧
      (EventStore.exec (place 1).1 (place 1).2 ∅).1.isOk = false := by
  decide +kernel

end Noddde.Adapters
