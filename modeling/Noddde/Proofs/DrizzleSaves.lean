import Mathlib.Data.List.Infix
import Noddde.Adapters.DriverAnswer
/-!
# Saga and aggregate saves of Drizzle read the driver alike

The saga store probes fewer fields of a result and looks for a violation in the message
alone.  What it does recognize, the store of the aggregates recognizes too.
-/

namespace Noddde.Adapters

/-! ## The agreement -/

/-- The two stores settle a save alike; an update of one row is no conflict, and a taken
key is one. -/
structure SavesAlike (name id : String) (expectedVersion : Nat) (answer : DriverAnswer) :
    Prop where
  same : DrizzleSagaPersistence.settle name id expectedVersion answer =
    DrizzleStateStoredAggregatePersistence.settle name id expectedVersion answer
  oneRow : expectedVersion ≠ 0 → ∀ driver : SqlDriver, answer = .ok (driver.updateResult 1) →
    DrizzleSagaPersistence.settle name id expectedVersion answer = .ok ()
  violation : expectedVersion = 0 → ∀ (driver : SqlDriver) (message : String),
    answer = .error (driver.uniqueViolation message) →
    DrizzleSagaPersistence.settle name id expectedVersion answer =
      .error (.concurrency name id expectedVersion (-1))

/-- An error of an insert that is taken for a violation by its code, or by its message in
any case, has one of the four messages to the letter; a result of an update that reports
`count`, and none of the fields that are read before, reports zero there exactly if the
fields that are read after it do. -/
def Legible (expectedVersion : Nat) : DriverAnswer → Prop
  | .error error => expectedVersion = 0 → Drizzle.isUniqueViolation error = true →
      DrizzleSagaPersistence.isUniqueViolation error = true
  | .ok result => expectedVersion ≠ 0 →
      result.rowsAffected = none → result.changes = none → result.rowCount = none →
        ∀ count ∈ result.count,
          count = 0 ↔ (result.affectedRows <|> result.firstAffectedRows).getD 0 = 0

/-! ## Errors -/

theorem includes_toLower {message part : String} (h : includes message part = true) :
    includes message.toLower part.toLower = true := by
  unfold includes at h ⊢
  obtain ⟨tail, htail, hprefix⟩ := List.any_eq_true.mp h
  have hlower (text : String) : text.toLower.toList = text.toList.map Char.toLower :=
    String.toList_map
  rw [hlower, hlower]
  refine List.any_eq_true.mpr ⟨tail.map Char.toLower, ?_, ?_⟩
  · exact (List.mem_tails _ _).mpr (((List.mem_tails _ _).mp htail).map _)
  · exact List.isPrefixOf_iff_prefix.mpr ((List.isPrefixOf_iff_prefix.mp hprefix).map _)

theorem drizzle_isUniqueViolation_of_saga {error : DriverError}
    (h : DrizzleSagaPersistence.isUniqueViolation error = true) :
    Drizzle.isUniqueViolation error = true := by
  unfold DrizzleSagaPersistence.isUniqueViolation at h
  unfold Drizzle.isUniqueViolation matchesAny
  simp only [Bool.or_eq_true, List.any_eq_true, List.mem_cons, List.not_mem_nil] at h ⊢
  rcases h with ((h | h) | h) | h
  · exact .inr ⟨_, .inl rfl, includes_toLower h⟩
  · exact .inr ⟨_, .inr (.inl rfl), includes_toLower h⟩
  · exact .inr ⟨_, .inr (.inr (.inl rfl)), includes_toLower h⟩
  · exact .inr ⟨_, .inr (.inr (.inr (.inl rfl))), includes_toLower h⟩

theorem drizzle_isUniqueViolation_uniqueViolation (driver : SqlDriver) (message : String) :
    Drizzle.isUniqueViolation (driver.uniqueViolation message) = true := by
  unfold Drizzle.isUniqueViolation
  have hcode : (driver.uniqueViolation message).toErrorCode.isUniqueViolation = true := by
    cases driver <;> rfl
  rw [hcode, Bool.true_or]

/-! ## Results -/

theorem rowsAffected_zero_iff (result : UpdateResult) :
    (DrizzleSagaPersistence.rowsAffected result = 0 ↔ Drizzle.getRowsAffected result = 0) ↔
      (result.rowsAffected = none → result.changes = none → result.rowCount = none →
        ∀ count ∈ result.count,
          count = 0 ↔ (result.affectedRows <|> result.firstAffectedRows).getD 0 = 0) := by
  obtain ⟨rowsAffected, changes, rowCount, count, affectedRows, firstAffectedRows, -⟩ := result
  unfold DrizzleSagaPersistence.rowsAffected Drizzle.getRowsAffected
  cases rowsAffected with
  | some n => simp
  | none =>
      cases changes with
      | some n => simp
      | none =>
          cases rowCount with
          | some n => simp
          | none =>
              cases count with
              | none => simp
              | some n => simp [eq_comm, iff_comm]

theorem getRowsAffected_updateResult (driver : SqlDriver) (n : Nat) :
    Drizzle.getRowsAffected (driver.updateResult n) = n := by
  cases driver <;> rfl

/-! ## Saves -/

variable {name id : String} {expectedVersion : Nat}

theorem settle_error_eq_iff {error : DriverError} :
    DrizzleSagaPersistence.settle name id expectedVersion (.error error) =
        DrizzleStateStoredAggregatePersistence.settle name id expectedVersion (.error error) ↔
      Legible expectedVersion (.error error) := by
  unfold DrizzleSagaPersistence.settle DrizzleStateStoredAggregatePersistence.settle settleSave
    Legible
  by_cases hversion : expectedVersion = 0
  · cases hsaga : DrizzleSagaPersistence.isUniqueViolation error with
    | true => simp [hversion, hsaga, drizzle_isUniqueViolation_of_saga hsaga]
    | false =>
        cases hdrizzle : Drizzle.isUniqueViolation error <;>
          simp [hversion, hsaga, hdrizzle]
  · simp [hversion]

theorem settle_ok_eq_iff {result : UpdateResult} :
    DrizzleSagaPersistence.settle name id expectedVersion (.ok result) =
        DrizzleStateStoredAggregatePersistence.settle name id expectedVersion (.ok result) ↔
      Legible expectedVersion (.ok result) := by
  unfold DrizzleSagaPersistence.settle DrizzleStateStoredAggregatePersistence.settle settleSave
    Legible
  by_cases hversion : expectedVersion = 0
  · simp [hversion]
  · simp only [ne_eq, hversion, not_false_eq_true, forall_const]
    rw [← rowsAffected_zero_iff]
    by_cases hsaga : DrizzleSagaPersistence.rowsAffected result = 0 <;>
      by_cases hstate : Drizzle.getRowsAffected result = 0 <;> simp [hsaga, hstate]

theorem stateStored_oneRow (hversion : expectedVersion ≠ 0) (driver : SqlDriver) :
    DrizzleStateStoredAggregatePersistence.settle name id expectedVersion
      (.ok (driver.updateResult 1)) = .ok () := by
  simp [DrizzleStateStoredAggregatePersistence.settle, settleSave, hversion,
    getRowsAffected_updateResult]

theorem stateStored_violation (driver : SqlDriver) (message : String) :
    DrizzleStateStoredAggregatePersistence.settle name id 0
      (.error (driver.uniqueViolation message)) = .error (.concurrency name id 0 (-1)) := by
  simp [DrizzleStateStoredAggregatePersistence.settle, settleSave,
    drizzle_isUniqueViolation_uniqueViolation]

theorem savesAlike_iff_legible (name id : String) (expectedVersion : Nat)
    (answer : DriverAnswer) :
    SavesAlike name id expectedVersion answer ↔ Legible expectedVersion answer := by
  have hsame : DrizzleSagaPersistence.settle name id expectedVersion answer =
      DrizzleStateStoredAggregatePersistence.settle name id expectedVersion answer ↔
        Legible expectedVersion answer := by
    cases answer with
    | error error => exact settle_error_eq_iff
    | ok result => exact settle_ok_eq_iff
  refine ⟨fun h => hsame.mp h.same, fun h => ⟨hsame.mpr h, ?_, ?_⟩⟩
  · rintro hversion driver rfl
    rw [hsame.mpr h]
    exact stateStored_oneRow hversion driver
  · rintro rfl driver message rfl
    rw [hsame.mpr h]
    exact stateStored_violation driver message

theorem not_savesAlike_postgresJs :
    ¬ ∀ (expectedVersion : Nat) (answer : DriverAnswer),
      SavesAlike "Order" "o1" expectedVersion answer := by
  intro h
  have hsame := (h 1 (.ok (SqlDriver.postgresJs.updateResult 1))).same
  revert hsame
  decide

/-! ## Saves on a table -/

section Table

variable {N : Type} (stores : StateStores)

theorem insertOrUpdate_fst (isUniqueViolation : DriverError → Bool)
    (rowsAffected : UpdateResult → Nat) (serialized : Json N) (call : SaveCall N)
    (table : StateTable N) :
    (insertOrUpdate stores isUniqueViolation (fun result => some (rowsAffected result))
        serialized call table).1 =
      settleSave isUniqueViolation rowsAffected call.name call.id call.expectedVersion
        (call.answer (stores.driver call.persistence) serialized table) := by
  unfold insertOrUpdate settleSave SaveCall.answer
  by_cases hversion : call.expectedVersion = 0
  · simp only [if_pos hversion]
    cases table.insert call.key { state := serialized, version := 1 } with
    | some next => rfl
    | none =>
        dsimp only
        split <;> rfl
  · simp only [if_neg hversion, Option.some_inj]
    split <;> rfl

/-- A save of the saga store reads the answer to its statement. -/
theorem sagaSave_fst [Json.Number N] (call : SaveCall N) (table : StateTable N) :
    (DrizzleSagaPersistence.save stores call table).1 =
      DrizzleSagaPersistence.settle call.name call.id call.expectedVersion
        (call.answer (stores.driver call.persistence)
          (if stores.nativeJson then call.state else serialize call.state) table) :=
  insertOrUpdate_fst stores _ _ _ call table

theorem stateStoredSave_fst [Json.Number N] (call : SaveCall N) (table : StateTable N) :
    (DrizzleStateStoredAggregatePersistence.save stores call table).1 =
      DrizzleStateStoredAggregatePersistence.settle call.name call.id call.expectedVersion
        (call.answer (stores.driver call.persistence)
          (if stores.nativeJson then call.state else serialize call.state) table) :=
  insertOrUpdate_fst stores _ _ _ call table

end Table

end Noddde.Adapters
