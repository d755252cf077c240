import Noddde.Adapters.Sample
import Noddde.Proofs.EventRows
/-!
# What Drizzle's stores read back

Every store decodes by looking whether a column is a string, so a string that was
written as it is cannot be told from JSON text.
-/

namespace Noddde.Adapters

variable {N : Type} [Json.Number N]

/-! ## Events -/

section Events

variable {stores : EventStores N} {aggregateName aggregateId : String}
  {events : List (JsonEvent N)} {expectedVersion : Nat} {table : EventTable N}

omit [Json.Number N] in
/-- A batch that was saved behind the others of its stream is loaded after them. -/
theorem load_of_save
    (hbehind : ∀ row ∈ table.stream aggregateName aggregateId,
      row.sequenceNumber ≤ expectedVersion)
    (hsave : (stores.save aggregateName aggregateId events expectedVersion table).1 = .ok ())
    {old : List (JsonEvent N)} (hold : stores.load aggregateName aggregateId table = .ok old) :
    stores.load aggregateName aggregateId
        (stores.save aggregateName aggregateId events expectedVersion table).2 = (do
      let new ← (stores.rows aggregateName aggregateId events expectedVersion).mapM
        stores.format.deserialize
      .ok (old ++ new)) := by
  obtain ⟨htable, hevents⟩ := EventStores.save_ok hsave
  unfold EventStores.load at hold ⊢
  rw [htable]
  cases hevents with
  | inl hnil =>
      subst hnil
      have hrows : stores.rows aggregateName aggregateId [] expectedVersion = [] := rfl
      rw [hrows, List.append_nil, hold]
      exact congrArg Except.ok (List.append_nil old).symm
  | inr hnodup =>
      rw [select_append hnodup hbehind, List.mapM_append, hold]
      rfl

omit [Json.Number N] in
/-- The batch is loaded as it was saved exactly if each of its rows is read back. -/
theorem load_eq_iff
    (hbehind : ∀ row ∈ table.stream aggregateName aggregateId,
      row.sequenceNumber ≤ expectedVersion)
    (hsave : (stores.save aggregateName aggregateId events expectedVersion table).1 = .ok ())
    {old : List (JsonEvent N)} (hold : stores.load aggregateName aggregateId table = .ok old) :
    stores.load aggregateName aggregateId
        (stores.save aggregateName aggregateId events expectedVersion table).2 =
          .ok (old ++ events) ↔
      (stores.rows aggregateName aggregateId events expectedVersion).mapM
        stores.format.deserialize = .ok events := by
  rw [load_of_save hbehind hsave hold]
  constructor
  · intro hload
    obtain ⟨new, hnew, heq⟩ := ExceptMap.bind_eq_ok hload
    rw [hnew, List.append_cancel_left (Except.ok.inj heq)]
  · intro hread
    rw [hread]
    rfl

end Events

/-! ## States -/

section States

variable {stores : StateStores} {call : SaveCall N} {table : StateTable N}

omit [Json.Number N] in
theorem row_of_insertOrUpdate {isUniqueViolation : DriverError → Bool}
    {rowsAffected : UpdateResult → Option Nat} {serialized : Json N}
    (hnone : rowsAffected ((stores.driver call.persistence).updateResult 0) = some 0)
    (hsave : (insertOrUpdate stores isUniqueViolation rowsAffected serialized call table).1 =
      .ok ()) :
    (insertOrUpdate stores isUniqueViolation rowsAffected serialized call table).2 call.key =
      some { state := serialized, version := call.expectedVersion + 1 } := by
  unfold insertOrUpdate StateTable.insert StateTable.updateWhere at hsave ⊢
  by_cases hversion : call.expectedVersion = 0
  · simp only [if_pos hversion] at hsave ⊢
    cases hrow : table call.key with
    | none =>
        rw [hversion]
        exact Function.update_self _ _ _
    | some row =>
        simp only [hrow] at hsave
        split_ifs at hsave
  · simp only [if_neg hversion] at hsave ⊢
    by_cases hmatch : (table call.key).map (·.version) = some call.expectedVersion
    · simp only [if_pos hmatch] at hsave ⊢
      split_ifs
      · exact Function.update_self _ _ _
      · exact Function.update_self _ _ _
    · simp only [if_neg hmatch, if_pos hnone] at hsave
      cases hsave

/-- The column of a state is read back unless it is a native one that holds a string. -/
theorem parseColumn_state {state : Json N} (hproper : state.Proper) (nativeJson : Bool) :
    parseColumn (if nativeJson then state else serialize state) = .ok state ↔
      (nativeJson = true → state.isString = false) := by
  cases nativeJson with
  | true => exact (parseColumn_self state).trans ⟨fun h _ => h, fun h => h rfl⟩
  | false => exact iff_of_true (parseColumn_serialize hproper) nofun

theorem readRow_iff {column state : Json N} {version : Nat} :
    (do
      let state ← parseColumn column
      .ok (some { state, version })) =
        (.ok (some { state, version }) : Except StoreError (Option (StateRow N))) ↔
      parseColumn column = .ok state := by
  cases parseColumn column with
  | error error => exact iff_of_false (by exact nofun) (by exact nofun)
  | ok parsed =>
      constructor
      · intro h
        have hrow : ({ state := parsed, version } : StateRow N) = { state, version } :=
          Option.some.inj (Except.ok.inj h)
        rw [(StateRow.mk.inj hrow).1]
      · intro h
        rw [Except.ok.inj h]
        rfl

theorem loadRow_iff {key : RowKey} {column state : Json N} {version : Nat}
    (hrow : table key = some { state := column, version }) :
    loadRow parseColumn key table = .ok (some { state, version }) ↔
      parseColumn column = .ok state := by
  unfold loadRow
  rw [hrow]
  exact readRow_iff

theorem getD_orElse_zero {x y : Option Nat} (hx : x.getD 0 = 0) (hy : y.getD 0 = 0) :
    (x <|> y).getD 0 = 0 := by
  cases x with
  | none => exact hy
  | some n => exact hx

omit [Json.Number N] in
/-- Whichever fields are probed, none reports a row where none has changed. -/
theorem sagaRowsAffected_zero (stores : StateStores) (persistence : StatePersistence) :
    DrizzleSagaPersistence.rowsAffected ((stores.driver persistence).updateResult 0) = 0 := by
  have hcounts := (stores.driver persistence).counts 0
  unfold DrizzleSagaPersistence.rowsAffected
  generalize (stores.driver persistence).updateResult 0 = result at hcounts
  have hfield : ∀ field ∈ [result.rowsAffected, result.changes, result.rowCount, result.count,
      result.affectedRows, result.firstAffectedRows, result.affected], field.getD 0 = 0 := by
    intro field hmem
    cases field with
    | none => rfl
    | some count => exact hcounts count (List.mem_filterMap.mpr ⟨some count, hmem, rfl⟩)
  apply getD_orElse_zero (hfield _ (by simp))
  apply getD_orElse_zero (hfield _ (by simp))
  apply getD_orElse_zero (hfield _ (by simp))
  exact getD_orElse_zero (hfield _ (by simp)) (hfield _ (by simp))

theorem drizzleStateStored_loads_iff (hcall : call.persistence = .drizzleStateStored)
    (hproper : call.state.Proper)
    (hsave : (DrizzleStateStoredAggregatePersistence.save stores call table).1 = .ok ()) :
    DrizzleStateStoredAggregatePersistence.load call.name call.id
        (DrizzleStateStoredAggregatePersistence.save stores call table).2 =
          .ok (some { state := call.state, version := call.expectedVersion + 1 }) ↔
      (stores.nativeJson = true → call.state.isString = false) := by
  have hnone : some (Drizzle.getRowsAffected ((stores.driver call.persistence).updateResult 0)) =
      some 0 := by
    have hrows := (stores.driver call.persistence).rowsAffected 0
    rw [hcall] at hrows ⊢
    exact hrows
  have hrow := row_of_insertOrUpdate hnone hsave
  have hkey : call.key = (.drizzleStateStored, call.name, call.id) := by
    rw [SaveCall.key, hcall]
  rw [hkey] at hrow
  exact (loadRow_iff hrow).trans (parseColumn_state hproper stores.nativeJson)

theorem drizzleSaga_loads_iff (hcall : call.persistence = .drizzleSaga)
    (hproper : call.state.Proper)
    (hsave : (DrizzleSagaPersistence.save stores call table).1 = .ok ()) :
    DrizzleSagaPersistence.load call.name call.id
        (DrizzleSagaPersistence.save stores call table).2 =
          .ok (some { state := call.state, version := call.expectedVersion + 1 }) ↔
      (stores.nativeJson = true → call.state.isString = false) := by
  have hrow := row_of_insertOrUpdate (congrArg some (sagaRowsAffected_zero stores _)) hsave
  have hkey : call.key = (.drizzleSaga, call.name, call.id) := by
    rw [SaveCall.key, hcall]
  rw [hkey] at hrow
  exact (loadRow_iff hrow).trans (parseColumn_state hproper stores.nativeJson)

theorem drizzleSnapshot_loads_iff {state : Json N} (hproper : state.Proper) (nativeJson : Bool)
    (aggregateName aggregateId : String) (version : Nat)
    (rows : String × String → Option (StateRow N)) :
    DrizzleSnapshotStore.load aggregateName aggregateId
        (DrizzleSnapshotStore.save nativeJson aggregateName aggregateId { state, version }
          (some rows)) = .ok (some { state, version }) ↔
      state.isString = false := by
  have hcolumn : parseColumn (if nativeJson then state
      else if state.isString then state else serialize state) = .ok state ↔
        state.isString = false := by
    cases nativeJson with
    | true => exact parseColumn_self state
    | false =>
        cases hstring : state.isString with
        | true => exact (parseColumn_self state).trans (by rw [hstring])
        | false => exact iff_of_true (parseColumn_serialize hproper) rfl
  simp only [DrizzleSnapshotStore.load, DrizzleSnapshotStore.save, Option.map_some,
    Function.update_self]
  exact readRow_iff.trans hcolumn

end States

/-! ## All stores -/

theorem drizzleEvents_load_iff {driver : Driver .drizzle} {nativeJson : Bool}
    {aggregateName aggregateId : String} {events : List (ProperEvent N)} {expectedVersion : Nat}
    {table : EventTable N} {old : List (JsonEvent N)}
    (hbehind : ∀ row ∈ table.stream aggregateName aggregateId,
      row.sequenceNumber ≤ expectedVersion)
    (hold : (DrizzleEventSourcedAggregatePersistence driver nativeJson).load aggregateName
      aggregateId table = .ok old)
    (hsave : ((DrizzleEventSourcedAggregatePersistence driver nativeJson).save aggregateName
      aggregateId (events.map Subtype.val) expectedVersion table).1 = .ok ()) :
    (DrizzleEventSourcedAggregatePersistence driver nativeJson).load aggregateName aggregateId
        ((DrizzleEventSourcedAggregatePersistence driver nativeJson).save aggregateName
          aggregateId (events.map Subtype.val) expectedVersion table).2 =
            .ok (old ++ events.map Subtype.val) ↔
      (nativeJson = true → ∀ event ∈ events, event.val.payload.isString = false) := by
  have hreads : ∀ event ∈ events.map Subtype.val, ∀ row : EventRow N,
      row.eventName = event.name →
      row.payload = (DrizzleEventSourcedAggregatePersistence.format nativeJson).payload
        event.payload →
      row.metadata = (DrizzleEventSourcedAggregatePersistence.format nativeJson).metadata
        event.metadata →
        (deserializeEvent row = .ok event ↔
          (nativeJson = true → event.payload.isString = false)) := by
    intro event hmem row hname hpayload hmetadata
    obtain ⟨proper, -, rfl⟩ := List.mem_map.mp hmem
    exact drizzle_reads_iff proper.property nativeJson hname hpayload hmetadata
  rw [load_eq_iff hbehind hsave hold, EventStores.mapM_rows_iff hreads, List.forall_mem_map]
  exact ⟨fun h hnative event hmem => h event hmem hnative,
    fun h event hmem hnative => h hnative event hmem⟩

/-- What Drizzle's stores give back is what they were given, exactly if no native column
was given a string and no snapshot was one. -/
theorem drizzle_roundTrips_iff :
    (∀ (driver : Driver .drizzle) (nativeJson : Bool) (aggregateName aggregateId : String)
      (events : List (ProperEvent N)) (expectedVersion : Nat) (table : EventTable N)
      (old : List (JsonEvent N)),
      (∀ row ∈ table.stream aggregateName aggregateId, row.sequenceNumber ≤ expectedVersion) →
      (DrizzleEventSourcedAggregatePersistence driver nativeJson).load aggregateName
        aggregateId table = .ok old →
      ((DrizzleEventSourcedAggregatePersistence driver nativeJson).save aggregateName
        aggregateId (events.map Subtype.val) expectedVersion table).1 = .ok () →
      ((DrizzleEventSourcedAggregatePersistence driver nativeJson).load aggregateName aggregateId
          ((DrizzleEventSourcedAggregatePersistence driver nativeJson).save aggregateName
            aggregateId (events.map Subtype.val) expectedVersion table).2 =
              .ok (old ++ events.map Subtype.val) ↔
        (nativeJson = true → ∀ event ∈ events, event.val.payload.isString = false))) ∧
    (∀ (stores : StateStores) (name id : String) (state : Json.Value N) (expectedVersion : Nat)
      (table : StateTable N),
      let call : SaveCall N := ⟨.drizzleStateStored, name, id, state, expectedVersion⟩
      (DrizzleStateStoredAggregatePersistence.save stores call table).1 = .ok () →
      (DrizzleStateStoredAggregatePersistence.load name id
          (DrizzleStateStoredAggregatePersistence.save stores call table).2 =
            .ok (some { state := state.val, version := expectedVersion + 1 }) ↔
        (stores.nativeJson = true → state.val.isString = false))) ∧
    (∀ (stores : StateStores) (name id : String) (state : Json.Value N) (expectedVersion : Nat)
      (table : StateTable N),
      let call : SaveCall N := ⟨.drizzleSaga, name, id, state, expectedVersion⟩
      (DrizzleSagaPersistence.save stores call table).1 = .ok () →
      (DrizzleSagaPersistence.load name id (DrizzleSagaPersistence.save stores call table).2 =
          .ok (some { state := state.val, version := expectedVersion + 1 }) ↔
        (stores.nativeJson = true → state.val.isString = false))) ∧
    ∀ (nativeJson : Bool) (aggregateName aggregateId : String) (state : Json.Value N)
      (version : Nat) (rows : String × String → Option (StateRow N)),
      DrizzleSnapshotStore.load aggregateName aggregateId
          (DrizzleSnapshotStore.save nativeJson aggregateName aggregateId
            { state := state.val, version } (some rows)) =
              .ok (some { state := state.val, version }) ↔
        state.val.isString = false := by
  refine ⟨?_, ?_, ?_, ?_⟩
  · intro driver nativeJson aggregateName aggregateId events expectedVersion table old
    exact drizzleEvents_load_iff
  · intro stores name id state expectedVersion table call hsave
    exact drizzleStateStored_loads_iff rfl state.property hsave
  · intro stores name id state expectedVersion table call hsave
    exact drizzleSaga_loads_iff rfl state.property hsave
  · intro nativeJson aggregateName aggregateId state version rows
    exact drizzleSnapshot_loads_iff state.property nativeJson aggregateName aggregateId version rows

open Noddde.Adapters.Sample (postgres)

abbrev events (nativeJson : Bool) : EventStores (Fin 10) :=
  DrizzleEventSourcedAggregatePersistence (postgres.driver .drizzleStateStored) nativeJson

def greeting : ProperEvent (Fin 10) :=
  ⟨{ name := "Greeted", payload := .string (Json.ascii "a"), metadata := none },
    .string _, nofun⟩

/-- Text columns give the string back. -/
theorem drizzle_roundTrips_greeting :
    (events false).load "Order" "1"
      ((events false).save "Order" "1" [greeting.val] 0 []).2 = .ok [greeting.val] := by
  have hiff := (drizzle_roundTrips_iff.1 (postgres.driver .drizzleStateStored) false "Order" "1"
    [greeting] 0 [] [] (fun _ hmem => by cases hmem) rfl rfl)
  exact hiff.mpr nofun

/-- A native column that holds a string is parsed, and so is a snapshot that is one. -/
theorem drizzle_strings_parsed :
    (events true).load "Order" "1" ((events true).save "Order" "1" [greeting.val] 0 []).2 =
      .error .invalidJson ∧
    DrizzleSnapshotStore.load "Order" "1"
        (DrizzleSnapshotStore.save false "Order" "1"
          { state := .string (Json.ascii "5"), version := 1 } (some fun _ => none)) =
      .ok (some { state := .number (5 : Fin 10), version := 1 }) :=
  ⟨rfl, rfl⟩

end Noddde.Adapters
