import Noddde.Async.Machine
import Noddde.Adapters.Sample
import Noddde.Data.CompareAndSwap
/-!
# The SQL state and saga stores compare and swap

Where a save finds what it looks for, it is a compare-and-swap on the table.  The saga
store of TypeORM is one only if nothing writes between its two statements, and that of
Drizzle only if it recognizes what its driver reports.
-/

namespace Noddde.Adapters

variable {N ι : Type} [Json.Number N] [DecidableEq ι] {stores : StateStores}

def serialized (stores : StateStores) (call : SaveCall N) : Json N :=
  match call.persistence with
  | .drizzleStateStored | .drizzleSaga =>
      if stores.nativeJson then call.state else serialize call.state
  | _ => serialize call.state

def SaveCall.swap (stores : StateStores) (call : SaveCall N) :
    CompareAndSwap.Call RowKey (StateRow N) StateRow.version where
  key := call.key
  expected := call.expectedVersion
  row := { state := serialized stores call, version := call.expectedVersion + 1 }
  next := rfl

def SaveCall.swapped (stores : StateStores) (call : SaveCall N) (table : StateTable N) :
    SaveResult N :=
  match (call.swap stores).apply table with
  | some table => (.ok (), table)
  | none => (.error (.concurrency call.name call.id call.expectedVersion (-1)), table)

/-! ## The statements -/

/-- Rows have versions from 1 on. -/
def Positive (table : StateTable N) : Prop :=
  ∀ key row, table key = some row → 0 < row.version

def matching (call : SaveCall N) (table : StateTable N) : Nat :=
  if (table call.key).map (·.version) = some call.expectedVersion then 1 else 0

theorem apply_swap (call : SaveCall N) (table : StateTable N) :
    (call.swap stores).apply table =
      if (table call.key).elim 0 StateRow.version = call.expectedVersion
      then some (Function.update table call.key
        (some { state := serialized stores call, version := call.expectedVersion + 1 }))
      else none := rfl

theorem insert_eq (stores : StateStores) {call : SaveCall N} {table : StateTable N}
    (hpositive : Positive table) (hversion : call.expectedVersion = 0) :
    table.insert call.key { state := serialized stores call, version := 1 } =
      (call.swap stores).apply table := by
  rw [apply_swap, hversion]
  unfold StateTable.insert
  cases hrow : table call.key with
  | none => rfl
  | some row =>
      have hpos := hpositive call.key row hrow
      exact (if_neg (Nat.ne_of_gt hpos)).symm

theorem updateWhere_eq (stores : StateStores) {call : SaveCall N} (table : StateTable N)
    (hversion : call.expectedVersion ≠ 0) :
    table.updateWhere call.key call.expectedVersion
        { state := serialized stores call, version := call.expectedVersion + 1 } =
      (matching call table, ((call.swap stores).apply table).getD table) := by
  have hiff : (table call.key).map (·.version) = some call.expectedVersion ↔
      (table call.key).elim 0 StateRow.version = call.expectedVersion := by
    cases table call.key with
    | none => exact iff_of_false nofun (Ne.symm hversion)
    | some row => exact Option.some_inj
  rw [apply_swap]
  unfold StateTable.updateWhere matching
  by_cases hmatch : (table call.key).map (·.version) = some call.expectedVersion
  · rw [if_pos hmatch, if_pos hmatch, if_pos (hiff.mp hmatch)]
    rfl
  · rw [if_neg hmatch, if_neg hmatch, if_neg (mt hiff.mpr hmatch)]
    rfl

theorem apply_eq_none_iff (stores : StateStores) {call : SaveCall N} {table : StateTable N}
    (hversion : call.expectedVersion ≠ 0) :
    (call.swap stores).apply table = none ↔ matching call table = 0 := by
  rw [apply_swap]
  unfold matching
  cases table call.key with
  | none => simp [Ne.symm hversion]
  | some row =>
      by_cases hrow : row.version = call.expectedVersion
      · simp [hrow]
      · simp [hrow]

/-- A save that recognizes a taken key and an update that has changed nothing. -/
theorem insertOrUpdate_eq {isUniqueViolation : DriverError → Bool}
    {rowsAffected : UpdateResult → Option Nat} {call : SaveCall N} {table : StateTable N}
    (hpositive : Positive table)
    (hviolation : call.expectedVersion = 0 → (table call.key).isSome →
      isUniqueViolation (stores.driver call.persistence).duplicateKey = true)
    (hrows : call.expectedVersion ≠ 0 →
      (rowsAffected ((stores.driver call.persistence).updateResult (matching call table)) =
        some 0 ↔ matching call table = 0)) :
    insertOrUpdate stores isUniqueViolation rowsAffected (serialized stores call) call table =
      call.swapped stores table := by
  unfold insertOrUpdate SaveCall.swapped
  by_cases hversion : call.expectedVersion = 0
  · have hinsert := insert_eq stores hpositive hversion
    simp only [if_pos hversion]
    rw [hinsert]
    cases happly : (call.swap stores).apply table with
    | some next => rfl
    | none =>
        have htaken : (table call.key).isSome := by
          rw [apply_swap, hversion] at happly
          cases hrow : table call.key with
          | some row => rfl
          | none =>
              rw [hrow] at happly
              cases happly
        exact if_pos (hviolation hversion htaken)
  · have hupdate := updateWhere_eq stores table hversion
    simp only [if_neg hversion]
    rw [hupdate]
    cases happly : (call.swap stores).apply table with
    | some next =>
        have hmatching := mt (apply_eq_none_iff stores hversion).mpr
          (by rw [happly]; exact Option.some_ne_none next)
        exact if_neg (mt (hrows hversion).mp hmatching)
    | none =>
        have hmatching := (apply_eq_none_iff stores hversion).mp happly
        exact if_pos ((hrows hversion).mpr hmatching)

/-! ## The classes -/

/-- The next statement of a call finds the table as the call takes it to be, and the
call recognizes what the driver reports. -/
def Undisturbed (stores : StateStores) (calls : ι → SaveCall N) (s : SaveState ι N) (i : ι) :
    Prop :=
  let call := calls i
  let driver := stores.driver call.persistence
  match s.phases i, call.persistence with
  | .called, .drizzleSaga =>
      if call.expectedVersion = 0 then
        (s.table call.key).isSome →
          DrizzleSagaPersistence.isUniqueViolation driver.duplicateKey = true
      else
        DrizzleSagaPersistence.rowsAffected (driver.updateResult (matching call s.table)) = 0 ↔
          matching call s.table = 0
  | .saving (some existing), _ => (s.table call.key).map (·.version) = some existing.version
  | .saving none, _ =>
      (s.table call.key).isSome → stores.upserts = false ∧
        TypeORMSagaPersistence.isUniqueViolation driver.duplicateKey = true
  | _, _ => True

def Found (call : SaveCall N) (existing : Option (StateRow N)) : Prop :=
  call.persistence = .typeORMSaga ∧ call.expectedVersion = existing.elim 0 StateRow.version

/-- A save that looks where the driver of its ORM reports. -/
theorem insertOrUpdate_orm (stores : StateStores) (call : SaveCall N) {table : StateTable N}
    (hpositive : Positive table) :
    insertOrUpdate stores call.persistence.orm.isUniqueViolation
        call.persistence.orm.rowsAffected (serialized stores call) call table =
      call.swapped stores table := by
  apply insertOrUpdate_eq hpositive
  · exact fun _ _ => (stores.driver call.persistence).isUniqueViolation
  · intro _
    rw [(stores.driver call.persistence).rowsAffected]
    exact Option.some_inj

theorem drizzleSaga_eq {call : SaveCall N} {table : StateTable N}
    (hpositive : Positive table) (hcall : call.persistence = .drizzleSaga)
    (h : if call.expectedVersion = 0 then
        (table call.key).isSome → DrizzleSagaPersistence.isUniqueViolation
          (stores.driver call.persistence).duplicateKey = true
      else
        DrizzleSagaPersistence.rowsAffected ((stores.driver call.persistence).updateResult
          (matching call table)) = 0 ↔ matching call table = 0) :
    DrizzleSagaPersistence.save stores call table = call.swapped stores table := by
  have hserialized : serialized stores call =
      if stores.nativeJson then call.state else serialize call.state := by
    rw [serialized, hcall]
  unfold DrizzleSagaPersistence.save
  rw [← hserialized]
  apply insertOrUpdate_eq hpositive
  · intro hversion
    rwa [if_pos hversion] at h
  · intro hversion
    rw [if_neg hversion] at h
    rw [Option.some_inj]
    exact h

theorem write_eq {call : SaveCall N} {table : StateTable N} {existing : Option (StateRow N)}
    (hpositive : Positive table) (hfound : Found call existing)
    (h : match existing with
      | some existing => (table call.key).map (·.version) = some existing.version
      | none => (table call.key).isSome → stores.upserts = false ∧
          TypeORMSagaPersistence.isUniqueViolation
            (stores.driver call.persistence).duplicateKey = true) :
    TypeORMSagaPersistence.write stores call existing table = call.swapped stores table := by
  obtain ⟨hcall, hversion⟩ := hfound
  have hserialized : serialized stores call = serialize call.state := by
    rw [serialized, hcall]
  unfold TypeORMSagaPersistence.write SaveCall.swapped
  cases existing with
  | some existing =>
      obtain ⟨row, hrow, hequal⟩ := Option.map_eq_some_iff.mp h
      have hcurrent : (table call.key).elim 0 StateRow.version = call.expectedVersion := by
        rw [hrow, hversion]
        exact hequal
      rw [apply_swap, if_pos hcurrent, hserialized]
      simp only [StateTable.updateKey, hrow]
  | none =>
      have hinsert := insert_eq stores hpositive hversion
      rw [hserialized] at hinsert
      simp only [hinsert]
      cases happly : (call.swap stores).apply table with
      | some next => rfl
      | none =>
          have htaken : (table call.key).isSome := by
            rw [apply_swap, hversion] at happly
            cases hrow : table call.key with
            | some row => rfl
            | none =>
                rw [hrow] at happly
                cases happly
          obtain ⟨hupserts, hviolation⟩ := h htaken
          simp only [hupserts, Bool.false_eq_true, if_false, if_pos hviolation]

omit [Json.Number N] in
theorem find_cases (call : SaveCall N) (hcall : call.persistence = .typeORMSaga)
    (table : StateTable N) :
    (∃ actualVersion, TypeORMSagaPersistence.find call table = .settled (.error
      (.concurrency call.name call.id call.expectedVersion actualVersion))) ∨
    ∃ existing, Found call existing ∧
      TypeORMSagaPersistence.find call table = .saving existing := by
  unfold TypeORMSagaPersistence.find
  cases hrow : table call.key with
  | some existing =>
      by_cases hversion : existing.version = call.expectedVersion
      · exact .inr ⟨some existing, ⟨hcall, hversion.symm⟩, if_neg (not_not.mpr hversion)⟩
      · exact .inl ⟨existing.version, if_pos hversion⟩
  | none =>
      by_cases hversion : call.expectedVersion = 0
      · exact .inr ⟨none, ⟨hcall, hversion⟩, if_neg (not_not.mpr hversion)⟩
      · exact .inl ⟨0, if_pos hversion⟩

variable {calls : ι → SaveCall N} {s t : SaveState ι N} {i : ι}

/-- A call whose next statement is undisturbed is settled as a compare-and-swap, or it
has found something, or it is rejected for what it has found. -/
theorem stepSave_cases (hpositive : Positive s.table)
    (hfound : ∀ existing, s.phases i = .saving existing → Found (calls i) existing)
    (hundisturbed : Undisturbed stores calls s i) (h : stepSave stores calls s i = some t) :
    t = s.settle i ((calls i).swapped stores s.table) ∨
    (∃ actualVersion, t = s.enter i (.settled (.error
      (.concurrency (calls i).name (calls i).id (calls i).expectedVersion actualVersion)))) ∨
    ∃ existing, Found (calls i) existing ∧ t = s.enter i (.saving existing) := by
  unfold stepSave at h
  unfold Undisturbed at hundisturbed
  generalize calls i = call at *
  cases hphase : s.phases i with
  | settled outcome =>
      rw [hphase] at h
      cases h
  | saving existing =>
      rw [hphase] at h hundisturbed
      obtain rfl := Option.some.inj h
      left
      rw [write_eq hpositive (hfound existing hphase)]
      cases existing with
      | some existing => exact hundisturbed
      | none => exact hundisturbed
  | called =>
      rw [hphase] at h hundisturbed
      have horm := insertOrUpdate_orm stores call hpositive
      obtain ⟨persistence, name, id, state, expectedVersion⟩ := call
      cases persistence with
      | drizzleSaga =>
          obtain rfl := Option.some.inj h
          left
          rw [drizzleSaga_eq hpositive rfl hundisturbed]
      | typeORMSaga =>
          obtain rfl := Option.some.inj h
          right
          rcases find_cases ⟨.typeORMSaga, name, id, state, expectedVersion⟩ rfl s.table with
            ⟨actualVersion, hfind⟩ | ⟨existing, hexisting, hfind⟩
          · exact .inl ⟨actualVersion, by rw [hfind]⟩
          · exact .inr ⟨existing, hexisting, by rw [hfind]⟩
      | _ =>
          obtain rfl := Option.some.inj h
          left
          rw [← horm]
          rfl

/-! ## Runs -/

def SaveState.resolvedAt (calls : ι → SaveCall N) (key : RowKey) (s : SaveState ι N) : List ι :=
  s.resolved.filter fun i => (calls i).key = key

structure ComparesAndSwaps (stores : StateStores) (calls : ι → SaveCall N)
    (s : SaveState ι N) : Prop where
  resolved : ∀ i, i ∈ s.resolved ↔ s.phases i = .settled (.ok ())
  nodup : s.resolved.Nodup
  /-- At most one save for a key and an expected version resolves. -/
  unique : ∀ i ∈ s.resolved, ∀ j ∈ s.resolved, (calls i).key = (calls j).key →
    (calls i).expectedVersion = (calls j).expectedVersion → i = j
  /-- A row has the state of the last save that has resolved, and counts them. -/
  row : ∀ key, s.table key = (s.resolvedAt calls key).head?.map fun i =>
    { state := serialized stores (calls i), version := (s.resolvedAt calls key).length }
  /-- Every other save rejects with a `ConcurrencyError`. -/
  rejected : ∀ i error, s.phases i = .settled (.error error) → ∃ actualVersion,
    error = .concurrency (calls i).name (calls i).id (calls i).expectedVersion actualVersion

structure SaveInv (stores : StateStores) (calls : ι → SaveCall N) (s : SaveState ι N) :
    Prop where
  accepted : CompareAndSwap.Accepted (fun i => (calls i).swap stores) s.resolved s.table
  resolved : ∀ i, i ∈ s.resolved ↔ s.phases i = .settled (.ok ())
  rejected : ∀ i error, s.phases i = .settled (.error error) → ∃ actualVersion,
    error = .concurrency (calls i).name (calls i).id (calls i).expectedVersion actualVersion
  found : ∀ i existing, s.phases i = .saving existing → Found (calls i) existing

omit [DecidableEq ι] in
theorem SaveInv.row (h : SaveInv stores calls s) (key : RowKey) :
    s.table key = (s.resolvedAt calls key).head?.map fun i =>
      { state := serialized stores (calls i)
        version := (s.resolvedAt calls key).length } := by
  have hrow := h.accepted.row key
  have hcurrent := h.accepted.current_eq key
  have hunder : CompareAndSwap.under (fun i => (calls i).swap stores) key s.resolved =
      s.resolvedAt calls key := rfl
  rw [hunder] at hrow hcurrent
  rw [CompareAndSwap.current, hrow] at hcurrent
  rw [hrow]
  cases hhead : (s.resolvedAt calls key).head? with
  | none => rfl
  | some i =>
      rw [hhead] at hcurrent
      have hversion : (calls i).expectedVersion + 1 = (s.resolvedAt calls key).length := hcurrent
      simp only [Option.map_some, SaveCall.swap, hversion]

omit [DecidableEq ι] in
theorem SaveInv.positive (h : SaveInv stores calls s) : Positive s.table := by
  intro key row hrow
  rw [h.row] at hrow
  obtain ⟨i, hhead, rfl⟩ := Option.map_eq_some_iff.mp hrow
  exact List.length_pos_of_mem (List.mem_of_mem_head? hhead)

omit [DecidableEq ι] in
theorem SaveInv.comparesAndSwaps (h : SaveInv stores calls s) :
    ComparesAndSwaps stores calls s where
  resolved := h.resolved
  nodup := h.accepted.nodup
  unique := h.accepted.unique
  row := h.row
  rejected := h.rejected

omit [DecidableEq ι] in
theorem not_mem_resolved (h : SaveInv stores calls s)
    (hphase : ∀ outcome, s.phases i ≠ .settled outcome) : i ∉ s.resolved :=
  fun hmem => hphase _ ((h.resolved i).mp hmem)

theorem SaveInv.enter (h : SaveInv stores calls s) {phase : SavePhase N}
    (hphase : ∀ outcome, s.phases i ≠ .settled outcome)
    (hresolved : phase ≠ .settled (.ok ()))
    (hrejected : ∀ error, phase = .settled (.error error) → ∃ actualVersion,
      error = .concurrency (calls i).name (calls i).id (calls i).expectedVersion actualVersion)
    (hfound : ∀ existing, phase = .saving existing → Found (calls i) existing) :
    SaveInv stores calls (s.enter i phase) where
  accepted := h.accepted
  resolved := by
    intro j
    by_cases hj : j = i
    · subst hj
      have hnew := not_mem_resolved h hphase
      simp only [SaveState.enter, Function.update_self]
      exact iff_of_false hnew hresolved
    · simp only [SaveState.enter, Function.update_of_ne hj]
      exact h.resolved j
  rejected := by
    intro j error herror
    by_cases hj : j = i
    · subst hj
      simp only [SaveState.enter, Function.update_self] at herror
      exact hrejected error herror
    · simp only [SaveState.enter, Function.update_of_ne hj] at herror
      exact h.rejected j error herror
  found := by
    intro j existing hexisting
    by_cases hj : j = i
    · subst hj
      simp only [SaveState.enter, Function.update_self] at hexisting
      exact hfound existing hexisting
    · simp only [SaveState.enter, Function.update_of_ne hj] at hexisting
      exact h.found j existing hexisting

theorem SaveInv.resolve (h : SaveInv stores calls s)
    (hphase : ∀ outcome, s.phases i ≠ .settled outcome) {next : StateTable N}
    (happly : ((calls i).swap stores).apply s.table = some next) :
    SaveInv stores calls (s.settle i (.ok (), next)) where
  accepted := h.accepted.cons happly
  resolved := by
    intro j
    have hmem : j ∈ i :: s.resolved ↔ j = i ∨ j ∈ s.resolved := List.mem_cons
    by_cases hj : j = i
    · subst hj
      simp only [SaveState.settle, SaveState.enter, Function.update_self, iff_true]
      exact List.mem_cons_self
    · simp only [SaveState.settle, SaveState.enter, Function.update_of_ne hj]
      exact hmem.trans ((or_iff_right hj).trans (h.resolved j))
  rejected := by
    intro j error herror
    by_cases hj : j = i
    · subst hj
      simp [SaveState.settle, SaveState.enter] at herror
    · simp only [SaveState.settle, SaveState.enter, Function.update_of_ne hj] at herror
      exact h.rejected j error herror
  found := by
    intro j existing hexisting
    by_cases hj : j = i
    · subst hj
      simp [SaveState.settle, SaveState.enter] at hexisting
    · simp only [SaveState.settle, SaveState.enter, Function.update_of_ne hj] at hexisting
      exact h.found j existing hexisting

theorem SaveInv.step (h : SaveInv stores calls s) (hundisturbed : Undisturbed stores calls s i)
    (hstep : stepSave stores calls s i = some t) : SaveInv stores calls t := by
  have hphase : ∀ outcome, s.phases i ≠ .settled outcome := by
    intro outcome hsettled
    simp only [stepSave, hsettled] at hstep
    cases hstep
  rcases stepSave_cases h.positive (h.found i) hundisturbed hstep with
    rfl | ⟨actualVersion, rfl⟩ | ⟨existing, hfound, rfl⟩
  · unfold SaveCall.swapped
    cases happly : ((calls i).swap stores).apply s.table with
    | some next => exact h.resolve hphase happly
    | none =>
        apply h.enter hphase
        · exact nofun
        · rintro error ⟨⟩
          exact ⟨-1, rfl⟩
        · exact nofun
  · apply h.enter hphase
    · exact nofun
    · rintro error ⟨⟩
      exact ⟨actualVersion, rfl⟩
    · exact nofun
  · apply h.enter hphase
    · exact nofun
    · exact nofun
    · rintro _ ⟨⟩
      exact hfound

theorem saveInv_of_run (h : Machine.Run (stepSave stores calls) (Undisturbed stores calls) {} s) :
    SaveInv stores calls s := by
  apply h.inv
  · constructor
    · exact .nil
    · exact fun i => iff_of_false List.not_mem_nil nofun
    · exact nofun
    · exact nofun
  · exact fun _ _ _ hinv hundisturbed hstep => hinv.step hundisturbed hstep

/-- In every interleaving of saves whose statements are undisturbed, the stores compare
and swap; a save that does not resolve leaves the table as it is. -/
theorem comparesAndSwaps_of_run
    (h : Machine.Run (stepSave stores calls) (Undisturbed stores calls) {} s) :
    ComparesAndSwaps stores calls s ∧
    ∀ i t, Undisturbed stores calls s i → stepSave stores calls s i = some t →
      i ∉ t.resolved → t.table = s.table := by
  have hinv := saveInv_of_run h
  refine ⟨hinv.comparesAndSwaps, fun i t hundisturbed hstep hunresolved => ?_⟩
  rcases stepSave_cases hinv.positive (hinv.found i) hundisturbed hstep with
    rfl | ⟨actualVersion, rfl⟩ | ⟨existing, -, rfl⟩
  · unfold SaveCall.swapped at hunresolved ⊢
    cases happly : ((calls i).swap stores).apply s.table with
    | some next =>
        rw [happly] at hunresolved
        exact absurd List.mem_cons_self hunresolved
    | none => rfl
  · rfl
  · rfl

/-! ## Calls that race -/

open Noddde.Adapters.Sample (postgres)

/-- Three saves for one instance: the first one creates it, the others expect version 1. -/
def racing (persistence : StatePersistence) (i : Fin 3) : SaveCall (Fin 10) where
  persistence
  name := "Order"
  id := "1"
  state := .number (i.castLE (by decide))
  expectedVersion := if i = 0 then 0 else 1

/-- The second of two racing saves conflicts. -/
theorem comparesAndSwaps_racing : ∃ s : SaveState (Fin 3) (Fin 10),
    Machine.Run (stepSave postgres (racing .drizzleStateStored))
      (Undisturbed postgres (racing .drizzleStateStored)) {} s ∧
    s.resolved = [1, 0] ∧ ComparesAndSwaps postgres (racing .drizzleStateStored) s := by
  have hstart : Machine.Run (stepSave postgres (racing .drizzleStateStored))
      (Undisturbed postgres (racing .drizzleStateStored)) {} {} := .refl
  have hcreated := hstart.tail (a := 0) trivial rfl
  have hupdated := hcreated.tail (a := 1) trivial rfl
  have hrun := hupdated.tail (a := 2) trivial rfl
  exact ⟨_, hrun, rfl, (comparesAndSwaps_of_run hrun).1⟩

def creating (i : Fin 2) : SaveCall (Fin 10) where
  persistence := .typeORMSaga
  name := "Order"
  id := "1"
  state := .number (i.castLE (by decide))
  expectedVersion := 0

/-- A schedule after which two saves for a version have resolved. -/
theorem not_comparesAndSwaps_of_play {schedule : List ι} (i j : ι)
    (h : Machine.play (stepSave stores calls) schedule {} = some s)
    (hresolved : i ∈ s.resolved ∧ j ∈ s.resolved)
    (hsame : (calls i).key = (calls j).key ∧
      (calls i).expectedVersion = (calls j).expectedVersion)
    (hne : i ≠ j) :
    Machine.Reaches (stepSave stores calls) {} s ∧ ¬ ComparesAndSwaps stores calls s :=
  ⟨Machine.run_of_play (fun _ _ _ => trivial) h, fun hswaps =>
    hne (hswaps.unique i hresolved.1 j hresolved.2 hsame.1 hsame.2)⟩

/-- Both of two racing updates of the saga store of TypeORM resolve, and both of two saves
that create an instance; the row forgets one of them.  That of Drizzle rejects an update
that it has made: it does not look where `postgres-js` reports the row. -/
theorem comparesAndSwaps_lost :
    (∃ s : SaveState (Fin 3) (Fin 10),
      Machine.Reaches (stepSave postgres (racing .typeORMSaga)) {} s ∧
      s.resolved = [2, 1, 0] ∧
      (s.table (.typeORMSaga, "Order", "1")).map (·.version) = some 2 ∧
      ¬ ComparesAndSwaps postgres (racing .typeORMSaga) s) ∧
    (∃ s : SaveState (Fin 2) (Fin 10),
      Machine.Reaches (stepSave postgres creating) {} s ∧
      s.resolved = [1, 0] ∧
      (s.table (.typeORMSaga, "Order", "1")).map (·.version) = some 1 ∧
      ¬ ComparesAndSwaps postgres creating s) ∧
    ∃ s : SaveState (Fin 3) (Fin 10),
      Machine.Reaches (stepSave postgres (racing .drizzleSaga)) {} s ∧
      s.resolved = [0] ∧
      (s.table (.drizzleSaga, "Order", "1")).map (·.version) = some 2 ∧
      ¬ ComparesAndSwaps postgres (racing .drizzleSaga) s := by
  refine ⟨?updates, ?creations, ?drizzle⟩
  case updates =>
    have hplay : (Machine.play (stepSave postgres (racing .typeORMSaga))
        [0, 0, 1, 2, 1, 2] {}).any (fun s => s.resolved = [2, 1, 0] ∧
          (s.table (.typeORMSaga, "Order", "1")).map (·.version) = some 2) := by
      decide +kernel
    obtain ⟨s, hs, hstate⟩ := (Option.any_eq_true _ _).mp hplay
    obtain ⟨hresolved, hversion⟩ := of_decide_eq_true hstate
    have hswaps := not_comparesAndSwaps_of_play 1 2 hs (by rw [hresolved]; decide)
      ⟨rfl, rfl⟩ (by decide)
    exact ⟨s, hswaps.1, hresolved, hversion, hswaps.2⟩
  case creations =>
    have hplay : (Machine.play (stepSave postgres creating) [0, 1, 0, 1] {}).any
        (fun s => s.resolved = [1, 0] ∧
          (s.table (.typeORMSaga, "Order", "1")).map (·.version) = some 1) := by
      decide +kernel
    obtain ⟨s, hs, hstate⟩ := (Option.any_eq_true _ _).mp hplay
    obtain ⟨hresolved, hversion⟩ := of_decide_eq_true hstate
    have hswaps := not_comparesAndSwaps_of_play 0 1 hs (by rw [hresolved]; decide)
      ⟨rfl, rfl⟩ (by decide)
    exact ⟨s, hswaps.1, hresolved, hversion, hswaps.2⟩
  case drizzle =>
    have hplay : (Machine.play (stepSave postgres (racing .drizzleSaga)) [0, 1] {}).any
        (fun s => s.resolved = [0] ∧
          (s.table (.drizzleSaga, "Order", "1")).map (·.version) = some 2) := by
      decide +kernel
    obtain ⟨s, hs, hstate⟩ := (Option.any_eq_true _ _).mp hplay
    obtain ⟨hresolved, hversion⟩ := of_decide_eq_true hstate
    refine ⟨s, Machine.run_of_play (fun _ _ _ => trivial) hs, hresolved, hversion, fun h => ?_⟩
    rw [h.row, SaveState.resolvedAt, hresolved] at hversion
    exact absurd hversion (by decide)

end Noddde.Adapters
