import Noddde.Adapters.EventTables
import Noddde.Data.ExceptMap
import Noddde.Data.JsonRoundTrip
/-!
# Rows of the events table

What a batch adds to a stream comes after what the stream had, and a row is read back
as the event it was written for, as far as its columns are.
-/

namespace Noddde.Adapters

variable {N : Type}

/-! ## The rows of a batch -/

namespace EventStores

variable {stores : EventStores N} {aggregateName aggregateId : String}
  {events : List (JsonEvent N)} {expectedVersion : Nat}

theorem length_rows :
    (stores.rows aggregateName aggregateId events expectedVersion).length = events.length :=
  List.length_mapIdx

theorem of_mem_rows {row : EventRow N}
    (h : row ∈ stores.rows aggregateName aggregateId events expectedVersion) :
    row.aggregateName = aggregateName ∧ row.aggregateId = aggregateId ∧
      expectedVersion < row.sequenceNumber ∧
      row.sequenceNumber ≤ expectedVersion + events.length := by
  obtain ⟨index, hindex, rfl⟩ := List.mem_mapIdx.mp h
  refine ⟨rfl, rfl, ?_, ?_⟩
  · dsimp only
    omega
  · dsimp only
    omega

theorem sequenceNumber_rows :
    (stores.rows aggregateName aggregateId events expectedVersion).map EventRow.sequenceNumber =
      List.range' (expectedVersion + 1) events.length := by
  apply List.ext_getElem
  · rw [List.length_map, length_rows, List.length_range']
  · intro index _ _
    simp only [rows, List.getElem_map, List.getElem_mapIdx, List.getElem_range']
    omega

theorem pairwise_rows :
    (stores.rows aggregateName aggregateId events expectedVersion).Pairwise
      fun row row' => row.sequenceNumber < row'.sequenceNumber := by
  have hpairwise : (List.range' (expectedVersion + 1) events.length).Pairwise (· < ·) :=
    List.pairwise_lt_range'
  rw [← sequenceNumber_rows, List.pairwise_map] at hpairwise
  exact hpairwise

theorem rows_cons {event : JsonEvent N} :
    stores.rows aggregateName aggregateId (event :: events) expectedVersion =
      { aggregateName
        aggregateId
        sequenceNumber := expectedVersion + 1
        eventName := event.name
        payload := stores.format.payload event.payload
        metadata := stores.format.metadata event.metadata } ::
        stores.rows aggregateName aggregateId events (expectedVersion + 1) := by
  unfold rows
  rw [List.mapIdx_cons]
  congr 2
  funext index event
  congr 1
  omega

theorem rows_append {events' : List (JsonEvent N)} :
    stores.rows aggregateName aggregateId (events ++ events') expectedVersion =
      stores.rows aggregateName aggregateId events expectedVersion ++
        stores.rows aggregateName aggregateId events' (expectedVersion + events.length) := by
  induction events generalizing expectedVersion with
  | nil => rfl
  | cons event rest ih =>
      have hlength : expectedVersion + 1 + rest.length =
          expectedVersion + (event :: rest).length := by
        rw [List.length_cons]
        omega
      rw [List.cons_append, rows_cons, rows_cons, ih, hlength, List.cons_append]

theorem filter_rows (afterVersion : Nat) :
    (stores.rows aggregateName aggregateId events expectedVersion).filter
        (fun row => expectedVersion + afterVersion < row.sequenceNumber) =
      (stores.rows aggregateName aggregateId events expectedVersion).drop afterVersion := by
  induction events generalizing expectedVersion afterVersion with
  | nil => exact List.drop_nil.symm
  | cons event rest ih =>
      cases afterVersion with
      | zero =>
          apply List.filter_eq_self.mpr
          exact fun row hrow => decide_eq_true (of_mem_rows hrow).2.2.1
      | succ afterVersion =>
          have hshift : expectedVersion + (afterVersion + 1) =
              expectedVersion + 1 + afterVersion := by omega
          have hfirst : ¬ expectedVersion + 1 + afterVersion < expectedVersion + 1 := by omega
          rw [rows_cons, hshift, List.filter_cons, List.drop_succ_cons]
          simp only [hfirst, decide_false, Bool.false_eq_true, if_false]
          exact ih afterVersion

/-- A batch is read back exactly if each of its events is. -/
theorem mapM_rows_iff {P : JsonEvent N → Prop}
    (h : ∀ event ∈ events, ∀ row : EventRow N, row.eventName = event.name →
      row.payload = stores.format.payload event.payload →
      row.metadata = stores.format.metadata event.metadata →
      (stores.format.deserialize row = .ok event ↔ P event)) :
    (stores.rows aggregateName aggregateId events expectedVersion).mapM
        stores.format.deserialize = .ok events ↔ ∀ event ∈ events, P event := by
  induction events generalizing expectedVersion with
  | nil => exact iff_of_true rfl fun _ hmem => absurd hmem List.not_mem_nil
  | cons event rest ih =>
      have hfirst := h event List.mem_cons_self
        { aggregateName
          aggregateId
          sequenceNumber := expectedVersion + 1
          eventName := event.name
          payload := stores.format.payload event.payload
          metadata := stores.format.metadata event.metadata } rfl rfl rfl
      have hrest := @ih (expectedVersion + 1)
        fun event hmem => h event (List.mem_cons_of_mem _ hmem)
      rw [rows_cons, List.mapM_cons, List.forall_mem_cons, ← hfirst, ← hrest]
      constructor
      · intro hread
        obtain ⟨first, hfirst, hread⟩ := ExceptMap.bind_eq_ok hread
        obtain ⟨others, hothers, hread⟩ := ExceptMap.bind_eq_ok hread
        obtain ⟨rfl, rfl⟩ := List.cons.inj (Except.ok.inj hread)
        exact ⟨hfirst, hothers⟩
      · rintro ⟨hfirst, hothers⟩
        rw [hfirst, hothers]
        rfl

/-- A save inserts a batch that the index admits, and it conflicts otherwise. -/
theorem save_eq (table : EventTable N) :
    stores.save aggregateName aggregateId events expectedVersion table =
      if events = [] then (.ok (), table)
      else
        match table.insertMany
          (stores.rows aggregateName aggregateId events expectedVersion) with
        | some table => (.ok (), table)
        | none => (.error (.concurrency aggregateName aggregateId expectedVersion (-1)), table) := by
  unfold save
  cases events with
  | nil => rfl
  | cons event rest =>
      simp only [stores.driver.isUniqueViolation, if_true]
      rfl

theorem save_ok {table : EventTable N}
    (h : (stores.save aggregateName aggregateId events expectedVersion table).1 = .ok ()) :
    (stores.save aggregateName aggregateId events expectedVersion table).2 =
        table ++ stores.rows aggregateName aggregateId events expectedVersion ∧
      (events = [] ∨
        ((table ++ stores.rows aggregateName aggregateId events expectedVersion).map
          EventRow.key).Nodup) := by
  rw [save_eq] at h ⊢
  by_cases hevents : events = []
  · subst hevents
    exact ⟨(List.append_nil table).symm, .inl rfl⟩
  · rw [if_neg hevents] at h ⊢
    unfold EventTable.insertMany at h ⊢
    by_cases hnodup : ((table ++ stores.rows aggregateName aggregateId events
        expectedVersion).map EventRow.key).Nodup
    · rw [if_pos hnodup]
      exact ⟨rfl, .inr hnodup⟩
    · rw [if_neg hnodup] at h
      cases h

end EventStores

/-! ## Sorted by sequence number -/

theorem perm_orderBySequence (rows : List (EventRow N)) :
    (EventTable.orderBySequence rows).Perm rows :=
  List.perm_insertionSort _ rows

theorem pairwise_orderBySequence (rows : List (EventRow N)) :
    (EventTable.orderBySequence rows).Pairwise
      fun row row' => row.sequenceNumber ≤ row'.sequenceNumber := by
  have htotal : Std.Total fun row row' : EventRow N =>
      row.sequenceNumber ≤ row'.sequenceNumber := ⟨fun _ _ => Nat.le_total _ _⟩
  have htrans : IsTrans (EventRow N) fun row row' =>
      row.sequenceNumber ≤ row'.sequenceNumber := ⟨fun _ _ _ => Nat.le_trans⟩
  exact List.pairwise_insertionSort _ rows

theorem orderBySequence_append {old new : List (EventRow N)}
    (hnodup : ((old ++ new).map EventRow.sequenceNumber).Nodup)
    (hnew : new.Pairwise fun row row' => row.sequenceNumber < row'.sequenceNumber)
    (hlt : ∀ row ∈ old, ∀ row' ∈ new, row.sequenceNumber < row'.sequenceNumber) :
    EventTable.orderBySequence (old ++ new) = EventTable.orderBySequence old ++ new := by
  have hperm : (EventTable.orderBySequence (old ++ new)).Perm
      (EventTable.orderBySequence old ++ new) :=
    (perm_orderBySequence _).trans ((perm_orderBySequence old).symm.append_right new)
  refine hperm.eq_of_pairwise ?_ (pairwise_orderBySequence _) ?_
  · intro a b ha hb hab hba
    have ha' : a ∈ old ++ new := (perm_orderBySequence _).mem_iff.mp ha
    have hb' : b ∈ old ++ new := (perm_orderBySequence _).mem_iff.mp (hperm.mem_iff.mpr hb)
    exact List.inj_on_of_nodup_map hnodup ha' hb' (Nat.le_antisymm hab hba)
  · apply List.pairwise_append.mpr
    refine ⟨pairwise_orderBySequence old, hnew.imp fun h => h.le, ?_⟩
    intro row hrow row' hrow'
    have hmem := (perm_orderBySequence old).mem_iff.mp hrow
    exact (hlt row hmem row' hrow').le

def EventTable.stream (aggregateName aggregateId : String) (table : EventTable N) :
    List (EventRow N) :=
  table.filter fun row => row.aggregateName = aggregateName ∧ row.aggregateId = aggregateId

theorem mem_stream {aggregateName aggregateId : String} {table : EventTable N}
    {row : EventRow N} : row ∈ table.stream aggregateName aggregateId ↔
      row ∈ table ∧ row.aggregateName = aggregateName ∧ row.aggregateId = aggregateId := by
  rw [EventTable.stream, List.mem_filter, decide_eq_true_eq]

/-- Within a stream the index tells rows apart by their sequence numbers. -/
theorem nodup_sequenceNumber {aggregateName aggregateId : String} {table : EventTable N}
    (h : (table.map EventRow.key).Nodup) :
    ((table.stream aggregateName aggregateId).map EventRow.sequenceNumber).Nodup := by
  have hstream : ((table.stream aggregateName aggregateId).map EventRow.key).Nodup :=
    h.sublist (List.filter_sublist.map _)
  apply List.Nodup.map_on _ hstream.of_map
  intro row hrow row' hrow' hnumber
  obtain ⟨-, hname, hid⟩ := mem_stream.mp hrow
  obtain ⟨-, hname', hid'⟩ := mem_stream.mp hrow'
  apply List.inj_on_of_nodup_map hstream hrow hrow'
  rw [EventRow.key, EventRow.key, hname, hid, hnumber, hname', hid']

theorem stream_append {stores : EventStores N} {aggregateName aggregateId : String}
    {events : List (JsonEvent N)} {expectedVersion : Nat} {table : EventTable N} :
    (table ++ stores.rows aggregateName aggregateId events expectedVersion).stream
        aggregateName aggregateId =
      table.stream aggregateName aggregateId ++
        stores.rows aggregateName aggregateId events expectedVersion := by
  unfold EventTable.stream
  rw [List.filter_append]
  congr 1
  apply List.filter_eq_self.mpr
  intro row hrow
  obtain ⟨hname, hid, -⟩ := EventStores.of_mem_rows hrow
  exact decide_eq_true ⟨hname, hid⟩

/-- A batch behind the others of its stream is selected after them. -/
theorem select_append {stores : EventStores N} {aggregateName aggregateId : String}
    {events : List (JsonEvent N)} {expectedVersion : Nat} {table : EventTable N}
    (hnodup : ((table ++ stores.rows aggregateName aggregateId events expectedVersion).map
      EventRow.key).Nodup)
    (hbehind : ∀ row ∈ table.stream aggregateName aggregateId,
      row.sequenceNumber ≤ expectedVersion) :
    EventTable.select aggregateName aggregateId
        (table ++ stores.rows aggregateName aggregateId events expectedVersion) =
      table.select aggregateName aggregateId ++
        stores.rows aggregateName aggregateId events expectedVersion := by
  have hnumbers : (((table ++ stores.rows aggregateName aggregateId events
      expectedVersion).stream aggregateName aggregateId).map EventRow.sequenceNumber).Nodup :=
    nodup_sequenceNumber hnodup
  rw [stream_append] at hnumbers
  have hsort := orderBySequence_append hnumbers EventStores.pairwise_rows fun row hrow row' hrow' =>
    Nat.lt_of_le_of_lt (hbehind row hrow) (EventStores.of_mem_rows hrow').2.2.1
  have hselect : EventTable.select aggregateName aggregateId
      (table ++ stores.rows aggregateName aggregateId events expectedVersion) =
        EventTable.orderBySequence
          ((table ++ stores.rows aggregateName aggregateId events expectedVersion).stream
            aggregateName aggregateId) := rfl
  rw [hselect, stream_append, hsort]
  rfl

/-! ## Columns -/

section Columns

variable [Json.Number N]

theorem parseText_serialize {value : Json N} (h : value.Proper) :
    parseText (serialize value) = .ok value := by
  unfold parseText serialize
  dsimp only
  rw [Json.parse_stringify h]

theorem parseColumn_serialize {value : Json N} (h : value.Proper) :
    parseColumn (serialize value) = .ok value :=
  parseText_serialize h

/-- A column that holds a value itself is read back exactly if it is no string. -/
theorem parseColumn_self (value : Json N) :
    parseColumn value = .ok value ↔ value.isString = false := by
  cases value with
  | string text =>
      refine iff_of_false ?_ nofun
      unfold parseColumn parseText
      simp only [Json.isString, if_true]
      split
      · rename_i value hparse
        intro heq
        rw [Except.ok.inj heq] at hparse
        exact Json.parse_ne_self text hparse
      · exact nofun
  | _ => exact iff_of_true rfl rfl

theorem textFormat_reads {event : JsonEvent N} (h : event.Proper) {row : EventRow N}
    (hname : row.eventName = event.name)
    (hpayload : row.payload = (textFormat : EventFormat N).payload event.payload)
    (hmetadata : row.metadata = (textFormat : EventFormat N).metadata event.metadata) :
    (textFormat : EventFormat N).deserialize row = .ok event := by
  obtain ⟨name, payload, metadata⟩ := event
  have hparsed := parseText_serialize h.1
  cases metadata with
  | none =>
      simp only [textFormat] at hpayload hmetadata ⊢
      rw [hpayload, hmetadata, hparsed, hname]
      rfl
  | some metadata =>
      have hobject := parseText_serialize (h.2 metadata rfl).1
      simp only [textFormat, Option.elim, serialize] at hpayload hmetadata hparsed hobject ⊢
      rw [hpayload, hmetadata, hparsed, hname]
      simp only [bind, Except.bind, hobject]

theorem payload_of_deserializeEvent {row : EventRow N} {event : JsonEvent N}
    (h : deserializeEvent row = .ok event) : parseColumn row.payload = .ok event.payload := by
  unfold deserializeEvent at h
  cases hpayload : parseColumn row.payload with
  | error error =>
      rw [hpayload] at h
      cases h
  | ok payload =>
      rw [hpayload] at h
      simp only [bind, Except.bind] at h
      split at h
      · cases h
        rfl
      · split at h
        · cases h
        · split at h
          · cases h
            rfl
          · cases h
            rfl

/-- The metadata column does not matter to what else is read. -/
theorem deserializeEvent_format {event : JsonEvent N} (h : event.Proper) (nativeJson : Bool)
    {row : EventRow N} (hname : row.eventName = event.name)
    (hmetadata : row.metadata =
      (DrizzleEventSourcedAggregatePersistence.format nativeJson).metadata event.metadata)
    (hpayload : parseColumn row.payload = .ok event.payload) :
    deserializeEvent row = .ok event := by
  obtain ⟨name, payload, metadata⟩ := event
  unfold deserializeEvent
  rw [hpayload, hmetadata, hname]
  cases metadata with
  | none =>
      cases nativeJson with
      | true => rfl
      | false =>
          have hnull := parseColumn_serialize (N := N) .null
          simp only [DrizzleEventSourcedAggregatePersistence.format, Option.getD_none, serialize]
            at hnull ⊢
          simp only [bind, Except.bind, Bool.false_eq_true, if_false, hnull]
  | some metadata =>
      obtain ⟨hproper, fields, rfl⟩ := h.2 metadata rfl
      cases nativeJson with
      | true => rfl
      | false =>
          have hobject := parseColumn_serialize hproper
          simp only [DrizzleEventSourcedAggregatePersistence.format, Option.getD_some, serialize]
            at hobject ⊢
          simp only [bind, Except.bind, Bool.false_eq_true, if_false, hobject]

/-- Of Drizzle, text columns are read back, and native ones unless the payload is a
string. -/
theorem drizzle_reads_iff {event : JsonEvent N} (h : event.Proper) (nativeJson : Bool)
    {row : EventRow N} (hname : row.eventName = event.name)
    (hpayload : row.payload =
      (DrizzleEventSourcedAggregatePersistence.format nativeJson).payload event.payload)
    (hmetadata : row.metadata =
      (DrizzleEventSourcedAggregatePersistence.format nativeJson).metadata event.metadata) :
    deserializeEvent row = .ok event ↔
      (nativeJson = true → event.payload.isString = false) := by
  have hiff : deserializeEvent row = .ok event ↔
      parseColumn row.payload = .ok event.payload :=
    ⟨payload_of_deserializeEvent, deserializeEvent_format h nativeJson hname hmetadata⟩
  rw [hiff, hpayload]
  cases nativeJson with
  | true => exact (parseColumn_self event.payload).trans ⟨fun hs _ => hs, fun hs => hs rfl⟩
  | false => exact iff_of_true (parseColumn_serialize h.1) nofun

end Columns

end Noddde.Adapters
