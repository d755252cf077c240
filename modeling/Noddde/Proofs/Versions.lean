import Noddde.Proofs.Threads
/-!
# Versions

The version of an instance only grows, whatever was loaded of it was current at some
time, and a save that takes effect puts the version past all that was loaded before.
Hence a unit of work that commits has advanced every instance at most once.
-/

namespace Noddde

variable {J Infra : Type}

/-! ## Advances -/

/-- How a save advances an instance: from which version, and by how many. -/
structure Advance where
  sourced : Bool
  key : String
  base : Nat
  count : Nat
  deriving DecidableEq, Repr

/-- The instance that is advanced, and in which store. -/
def Advance.slot (a : Advance) : Bool × String := (a.sourced, a.key)

/-- The save of an empty batch of events does nothing. -/
def advanceOf (sourced : Bool) (key : String) (base count : Nat) : Option Advance :=
  if sourced then if count = 0 then none else some ⟨true, key, base, count⟩
  else some ⟨false, key, base, 1⟩

def Operation.advance? : Operation J → Option Advance
  | .saveEvents aggregateName aggregateId events expectedVersion =>
      advanceOf true (compositeKey aggregateName aggregateId) expectedVersion events.length
  | .saveState aggregateName aggregateId _ expectedVersion =>
      advanceOf false (compositeKey aggregateName aggregateId) expectedVersion 0
  | _ => none

/-- The advance of what `task` contributes. -/
def Loaded.advance? (task : Task J) (loaded : Loaded J) (newEvents : List (Event J)) :
    Option Advance :=
  advanceOf loaded.isEventSourced task.key loaded.version newEvents.length

/-- The version of an instance in one of the stores. -/
def World.version (w : World J) (slot : Bool × String) : Nat :=
  if slot.1 then (w.eventStore.stream slot.2).length else StateStore.version w.stateStore slot.2

theorem advanceOf_eq_some {sourced : Bool} {key : String} {base count : Nat} {a : Advance}
    (h : advanceOf sourced key base count = some a) :
    a.sourced = sourced ∧ a.key = key ∧ a.base = base ∧ 0 < a.count ∧
      (sourced = true → a.count = count) := by
  cases sourced with
  | false =>
      obtain rfl := Option.some.inj h
      exact ⟨rfl, rfl, rfl, Nat.one_pos, nofun⟩
  | true =>
      by_cases hcount : count = 0
      · rw [advanceOf, if_pos rfl, if_pos hcount] at h
        cases h
      · rw [advanceOf, if_pos rfl, if_neg hcount] at h
        obtain rfl := Option.some.inj h
        exact ⟨rfl, rfl, rfl, Nat.pos_of_ne_zero hcount, fun _ => rfl⟩

section Stores

variable {wiring : Wiring J Infra} {operation : Operation J} {s t : World J}

theorem version_of_saveEvents {aggregateName : String} {aggregateId : ID}
    {events : List (Event J)} {expectedVersion : Nat} {eventStore : EventStore J}
    (h : s.eventStore.save aggregateName aggregateId events expectedVersion = .ok eventStore)
    (slot : Bool × String) :
    World.version { s with eventStore } slot = s.version slot +
      if slot = (true, compositeKey aggregateName aggregateId) then events.length else 0 := by
  obtain ⟨sourced, key⟩ := slot
  cases sourced with
  | false => simp [World.version]
  | true =>
      simp only [World.version, if_true, EventStore.stream_of_save h, Prod.mk.injEq, true_and]
      split
      · rw [List.length_append]
      · rfl

theorem version_of_saveState {aggregateName : String} {aggregateId : ID} {state : J}
    {expectedVersion : Nat} {stateStore : StateStore J}
    (h : StateStore.save s.stateStore aggregateName aggregateId state expectedVersion =
      .ok stateStore) (slot : Bool × String) :
    World.version { s with stateStore } slot =
      if slot = (false, compositeKey aggregateName aggregateId) then expectedVersion + 1
      else s.version slot := by
  obtain ⟨sourced, key⟩ := slot
  cases sourced with
  | true => simp [World.version]
  | false =>
      simp only [World.version, Bool.false_eq_true, if_false, StateStore.version,
        StateStore.get_of_save h, Prod.mk.injEq, true_and]
      split <;> rfl

theorem version_of_save_eq_ok {name : String} {id : ID} {state : J} {expectedVersion : Nat}
    {store store' : StateStore J}
    (h : StateStore.save store name id state expectedVersion = .ok store') :
    StateStore.version store (compositeKey name id) = expectedVersion := by
  simp only [StateStore.save] at h
  split_ifs at h with hversion
  exact not_not.mp hversion

theorem Stores.version_le (h : Stores wiring operation s t) (slot : Bool × String) :
    s.version slot ≤ t.version slot := by
  cases operation with
  | saveEvents =>
      obtain ⟨eventStore, hsave, rfl⟩ := h
      rw [version_of_saveEvents hsave]
      exact Nat.le_add_right _ _
  | saveState aggregateName aggregateId state expectedVersion =>
      obtain ⟨stateStore, hsave, rfl⟩ := h
      rw [version_of_saveState hsave]
      split
      · rename_i hslot
        subst hslot
        have hversion : s.version (false, compositeKey aggregateName aggregateId) =
            expectedVersion := version_of_save_eq_ok hsave
        rw [hversion]
        exact Nat.le_succ _
      · exact le_rfl
  | saveIdempotency => obtain ⟨_, _, rfl⟩ := h; exact le_rfl
  | updateView => obtain ⟨_, rfl⟩ := h; exact le_rfl
  | saveOutbox => obtain rfl : t = _ := h; exact le_rfl
  | saveSaga => obtain ⟨_, _, rfl⟩ := h; exact le_rfl

/-- A save takes effect on the version it expects. -/
theorem Stores.advance (h : Stores wiring operation s t) {a : Advance}
    (ha : operation.advance? = some a) :
    s.version a.slot = a.base ∧ t.version a.slot = a.base + a.count := by
  cases operation with
  | saveEvents aggregateName aggregateId events expectedVersion =>
      obtain ⟨eventStore, hsave, rfl⟩ := h
      obtain ⟨hsourced, hkey, hbase, hpos, hcount⟩ := advanceOf_eq_some ha
      have hslot : a.slot = (true, compositeKey aggregateName aggregateId) := by
        rw [Advance.slot, hsourced, hkey]
      have hevents : events ≠ [] := by
        rintro rfl
        have hzero := hcount rfl
        rw [List.length_nil] at hzero
        omega
      have hversion : s.version a.slot = a.base := by
        rw [hslot, hbase]
        exact EventStore.version_of_save hsave hevents
      rw [version_of_saveEvents hsave, hversion, if_pos hslot, hcount rfl]
      exact ⟨rfl, rfl⟩
  | saveState aggregateName aggregateId state expectedVersion =>
      obtain ⟨stateStore, hsave, rfl⟩ := h
      obtain rfl := Option.some.inj ha
      rw [version_of_saveState hsave]
      exact ⟨version_of_save_eq_ok hsave, if_pos rfl⟩
  | saveIdempotency | updateView | saveOutbox | saveSaga => cases ha

end Stores

/-! ## What a step advances -/

variable {wiring : Wiring J Infra} {x : Subject} {u : UowRef} {s t : World J}

theorem Step.version_le [JsValue J] (h : Step wiring x s t) (slot : Bool × String) :
    s.version slot ≤ t.version slot := by
  cases h with
  | ran running stores => exact stores.version_le slot
  | checked =>
      unfold World.checked
      dsimp only
      split <;> exact le_rfl
  | @refused _ r u operation e rest running refuses =>
      cases operation with
      | saveOutbox entries => exact refuses.elim
      | saveEvents => obtain ⟨_, rfl⟩ := refuses; exact le_rfl
      | saveState => obtain ⟨_, rfl⟩ := refuses; exact le_rfl
      | saveIdempotency => obtain ⟨_, _, rfl⟩ := refuses; exact le_rfl
      | updateView => obtain rfl : r = s := refuses; exact le_rfl
      | saveSaga => obtain ⟨_, rfl⟩ := refuses; exact le_rfl
  | @entered _ task uow =>
      obtain ⟨_, _, h⟩ := Locker.enter_eq ⟨task.dispatch, uow⟩ task.aggregateName
        task.aggregateId s
      rw [h]
      exact le_rfl
  | @released _ task =>
      obtain ⟨_, _, h⟩ := Locker.release_eq ⟨task.dispatch, none⟩ task.aggregateName
        task.aggregateId s
      rw [h]
      exact le_rfl
  | @ranSnapshotHook _ u aggregateName aggregateId snapshot saved =>
      cases saved <;> exact le_rfl
  | @ranReleaseHook _ u ticket aggregateName aggregateId =>
      obtain ⟨_, _, h⟩ := Locker.release_eq ticket aggregateName aggregateId s
      rw [h]
      exact le_rfl
  | _ => exact le_rfl

variable (wiring) in
inductive SnapshotChange (s t : World J) : Prop
  | same (eq : t.snapshotStore = s.snapshotStore)
  | saved {task : Task J} {u : UowRef} {pending : PendingSnapshot J}
      (outcome : (s.uows u).outcome = some true) (asked : Pending wiring task u pending s.history)
      (eq : t.snapshotStore = s.snapshotStore.save pending.aggregateName pending.aggregateId
        pending.snapshot)
  | ranHook {u : UowRef} {aggregateName : String} {aggregateId : ID} {snapshot : Snapshot J}
      (running : (s.frames u).running.head? =
        some (.saveSnapshot aggregateName aggregateId snapshot))
      (eq : t.snapshotStore = s.snapshotStore.save aggregateName aggregateId snapshot)

theorem Step.snapshots [JsValue J] (h : Step wiring x s t) : SnapshotChange wiring s t := by
  cases h with
  | checked =>
      unfold World.checked
      dsimp only
      split <;> exact .same rfl
  | ran running stores => exact .same stores.control.snapshotStore
  | refused running refuses => exact .same refuses.control.snapshotStore
  | savedSnapshot outcome asked => exact .saved outcome asked rfl
  | @entered _ task uow =>
      obtain ⟨_, _, h⟩ := Locker.enter_eq ⟨task.dispatch, uow⟩ task.aggregateName
        task.aggregateId s
      exact .same (by rw [h])
  | @released _ task =>
      obtain ⟨_, _, h⟩ := Locker.release_eq ⟨task.dispatch, none⟩ task.aggregateName
        task.aggregateId s
      exact .same (by rw [h])
  | @ranSnapshotHook _ u aggregateName aggregateId snapshot saved turn =>
      cases saved with
      | false => exact .same rfl
      | true => exact .ranHook turn.head rfl
  | @ranReleaseHook _ u ticket aggregateName aggregateId =>
      obtain ⟨_, _, h⟩ := Locker.release_eq ticket aggregateName aggregateId s
      exact .same (by rw [h]; rfl)
  | _ => exact .same rfl

variable (wiring) in
/-- All that a step can do to the operations of `u`. -/
inductive OperationsChange (u : UowRef) (s t : World J) : Prop
  | same (operations : (t.uows u).operations = (s.uows u).operations)
      (executed : (t.uows u).executed = (s.uows u).executed)
  | contributed {task : Task J} {c : Contribution J} {uuids : Nat}
      (contributes : Contributes wiring task u c uuids s)
      (eq : t = s.contributed wiring task u c uuids)
  | enlisted {operation : Operation J} (noAdvance : operation.advance? = none)
      (isOpen : (s.uows u).completed = false)
      (operations : (t.uows u).operations = (s.uows u).operations ++ [operation])
      (executed : (t.uows u).executed = (s.uows u).executed)
  | ran {r : World J} {operation : Operation J} {rest : List (Operation J)}
      (running : Running u (operation :: rest) s) (stores : Stores wiring operation s r)
      (eq : t = r.ran u operation)
  | discarded (outcome : (t.uows u).outcome = some false)
      (operations : (t.uows u).operations = [])
      (executed : (t.uows u).executed = (s.uows u).executed)

theorem UowChange.operations (h : UowChange wiring u s t) : OperationsChange wiring u s t := by
  cases h with
  | same uow => exact .same (by rw [uow]) (by rw [uow])
  | created _ uow => exact .same (by rw [uow]) (by rw [uow])
  | contributed contributes eq => exact .contributed contributes eq
  | @enlistedSaga n sagaName sagaId state expectedVersion _ isOpen eq =>
      subst eq
      have hoperations : ((s.enlistAll u none
          [.saveSaga sagaName sagaId state expectedVersion]).uows u).operations =
          (s.uows u).operations ++ [.saveSaga sagaName sagaId state expectedVersion] := by
        simp [World.enlistAll]
      refine .enlisted ?_ isOpen hoperations ?_
      · rfl
      · simp [World.enlistAll]
  | committing _ _ _ eq =>
      subst eq
      have huow := World.uow_committing u s
      exact .same (by rw [huow]) (by rw [huow])
  | ran running stores eq => exact .ran running stores eq
  | refused _ refuses eq =>
      subst eq
      have huow := refuses.uow_refused u
      exact .same (by rw [huow]) (by rw [huow])
  | committed _ eq =>
      subst eq
      have huow := World.uow_committed u s
      exact .same (by rw [huow]) (by rw [huow])
  | @commitRejected e _ _ eq =>
      subst eq
      have huow := World.uow_commitRejected u e s
      exact .same (by rw [huow]) (by rw [huow])
  | rolledBack _ _ eq =>
      subst eq
      have huow := World.uow_rolledBack u s
      exact .discarded (by rw [huow]) (by rw [huow]) (by rw [huow])

/-! ## Snapshot hooks -/

variable (wiring) in
/-- The snapshot hooks of `u` were asked for, and only run once `u` has committed. -/
structure HooksAsked (u : UowRef) (w : World J) : Prop where
  registered : ∀ aggregateName aggregateId snapshot,
    .saveSnapshot aggregateName aggregateId snapshot ∈ (getOrCreate u w).onCommitted →
      ∃ task, Pending wiring task u ⟨aggregateName, aggregateId, snapshot⟩ w.history
  released : ∀ aggregateName aggregateId snapshot,
    .saveSnapshot aggregateName aggregateId snapshot ∉ (getOrCreate u w).onSettled
  running : ∀ aggregateName aggregateId snapshot,
    .saveSnapshot aggregateName aggregateId snapshot ∈ (w.frames u).running →
      (w.uows u).outcome = some true ∧
        ∃ task, Pending wiring task u ⟨aggregateName, aggregateId, snapshot⟩ w.history

theorem hooksAsked_empty : HooksAsked wiring u ({} : World J) where
  registered := by simp [getOrCreate]
  released := by simp [getOrCreate]
  running := by simp

theorem HooksAsked.step [JsValue J] (hs : HooksAsked wiring u s) (hinv : Inv wiring s)
    (h : Step wiring x s t) : HooksAsked wiring u t := by
  have hsub : s.history ⊆ t.history := h.adds.grows.subset
  have hasked : ∀ {pending}, (∃ task, Pending wiring task u pending s.history) →
      ∃ task, Pending wiring task u pending t.history := Exists.imp fun _ h => h.mono hsub
  have houtcome : (s.uows u).outcome = some true → (t.uows u).outcome = some true :=
    (h.uow u).outcome (hinv.units u)
  -- the hooks and the running ones as before, or fewer of the latter
  have hkept : t.hooks u = s.hooks u → (t.frames u).running ⊆ (s.frames u).running →
      HooksAsked wiring u t := by
    intro hhooks hrunning
    have hget : getOrCreate u t = getOrCreate u s := by rw [getOrCreate, getOrCreate, hhooks]
    constructor
    · intro aggregateName aggregateId snapshot hmem
      rw [hget] at hmem
      exact hasked (hs.registered _ _ _ hmem)
    · rw [hget]
      exact hs.released
    · intro aggregateName aggregateId snapshot hmem
      obtain ⟨hcommitted, hpending⟩ := hs.running _ _ _ (hrunning hmem)
      exact ⟨houtcome hcommitted, hasked hpending⟩
  cases h.hooks u with
  | same hooks running => exact hkept hooks fun hook hmem => running ▸ hmem
  | @registeredSnapshot task pending explicit begun asked eq =>
      have hget : getOrCreate u t = { getOrCreate u s with
          onCommitted := (getOrCreate u s).onCommitted ++
            [.saveSnapshot pending.aggregateName pending.aggregateId pending.snapshot] } := by
        subst eq
        simp [getOrCreate, onUowCommitted, bind, Segment.modify, World.setHooks, note, World.note]
      constructor
      · intro aggregateName aggregateId snapshot hmem
        rw [hget] at hmem
        rcases List.mem_append.mp hmem with hmem | hmem
        · exact hasked (hs.registered _ _ _ hmem)
        · obtain ⟨rfl, rfl, rfl⟩ := Hook.saveSnapshot.inj (List.mem_singleton.mp hmem)
          exact ⟨task, asked.mono hsub⟩
      · rw [hget]
        exact hs.released
      · intro aggregateName aggregateId snapshot hmem
        subst eq
        obtain ⟨hcommitted, hpending⟩ := hs.running _ _ _ hmem
        exact ⟨houtcome hcommitted, hasked hpending⟩
  | @registeredRelease task begun granted first eq =>
      have hget : getOrCreate u t = { getOrCreate u s with
          onSettled := (getOrCreate u s).onSettled ++
            [.release ⟨task.dispatch, some u⟩ task.aggregateName task.aggregateId] } := by
        subst eq
        simp [getOrCreate, onUowSettled, bind, Segment.modify, World.setHooks, note, World.note]
      constructor
      · intro aggregateName aggregateId snapshot hmem
        rw [hget] at hmem
        exact hasked (hs.registered _ _ _ hmem)
      · intro aggregateName aggregateId snapshot hmem
        rw [hget] at hmem
        rcases List.mem_append.mp hmem with hmem | hmem
        · exact hs.released _ _ _ hmem
        · cases List.mem_singleton.mp hmem
      · intro aggregateName aggregateId snapshot hmem
        subst eq
        obtain ⟨hcommitted, hpending⟩ := hs.running _ _ _ hmem
        exact ⟨houtcome hcommitted, hasked hpending⟩
  | claimed _ _ eq =>
      subst eq
      exact hkept rfl (by simp [World.setFrame])
  | @took ambient committed _ _ outcome _ eq =>
      have hget : getOrCreate u t = {} := by
        subst eq
        simp [getOrCreate, takeHooks, World.setFrame, World.setHooks, World.note]
      have hrunning : (t.frames u).running = (if committed
          then (getOrCreate u s).onCommitted else []) ++ (getOrCreate u s).onSettled := by
        subst eq
        simp [takeHooks, World.setFrame, World.setHooks, World.note]
      constructor
      · intro aggregateName aggregateId snapshot hmem
        rw [hget] at hmem
        cases hmem
      · intro aggregateName aggregateId snapshot hmem
        rw [hget] at hmem
        cases hmem
      · intro aggregateName aggregateId snapshot hmem
        rw [hrunning] at hmem
        rcases List.mem_append.mp hmem with hmem | hmem
        · cases committed with
          | false => cases hmem
          | true => exact ⟨houtcome outcome, hasked (hs.registered _ _ _ hmem)⟩
        · exact absurd hmem (hs.released _ _ _)
  | @ranSnapshotHook aggregateName aggregateId snapshot saved running eq =>
      have htail : (t.frames u).running = (s.frames u).running.tail := by
        subst eq
        cases saved <;> simp [World.hookEnded, World.savedSnapshot, World.note, World.setFrame]
      refine hkept ?_ fun hook hmem => List.mem_of_mem_tail (htail ▸ hmem)
      subst eq
      cases saved <;> rfl
  | @ranReleaseHook ticket aggregateName aggregateId joined running eq =>
      obtain ⟨_, _, hrelease⟩ := Locker.release_eq ticket aggregateName aggregateId s
      have htail : (t.frames u).running = (s.frames u).running.tail := by
        subst eq
        rw [hrelease]
        simp [World.hookEnded, World.note, World.setFrame]
      refine hkept ?_ fun hook hmem => List.mem_of_mem_tail (htail ▸ hmem)
      subst eq
      rw [hrelease]
      rfl

/-! ## What was loaded was current -/

def Wiring.sourced (wiring : Wiring J Infra) (aggregateName : String) : Bool :=
  match wiring.persistence aggregateName with
  | some .stateStored => false
  | _ => true

theorem LoadedBy.mono {task : Task J} {loaded : Loaded J} {h h' : List (Obs J)}
    (hloaded : LoadedBy task u loaded h) (hsub : h ⊆ h') : LoadedBy task u loaded h' :=
  hloaded.imp (Exists.imp fun _ hmem => hsub hmem) fun hmem => hsub hmem

theorem Justified.loadedEvents_version [JsValue J] {task : Task J} {loaded : Loaded J}
    {stream : List (Event J)} (h : Justified wiring s (.loadedEvents task u (.ok loaded) stream))
    (hnoted : ∀ snapshot, .loadedSnapshot task u (some snapshot) ∈ s.history →
      snapshot.version ≤ s.version (true, task.key)) :
    loaded.isEventSourced = wiring.sourced task.aggregateName ∧
      loaded.version = s.version (loaded.isEventSourced, task.key) := by
  obtain ⟨-, ⟨partialLoad, hpersistence⟩, rfl, start, base, hstart, hloaded⟩ := h
  have hbase : base ≤ (s.eventStore.load task.aggregateName task.aggregateId).length := by
    rcases hstart with ⟨-, rfl⟩ | hsnapshot
    · exact Nat.zero_le _
    · exact hnoted _ hsnapshot
  cases hreplay : (task.aggregate wiring).replayFrom start
      ((s.eventStore.load task.aggregateName task.aggregateId).drop base) with
  | error e =>
      rw [hreplay] at hloaded
      cases hloaded
  | ok currentState =>
      rw [hreplay] at hloaded
      obtain rfl := Except.ok.inj hloaded
      refine ⟨by rw [Wiring.sourced, hpersistence], ?_⟩
      show base + _ = (s.eventStore.load task.aggregateName task.aggregateId).length
      rw [List.length_drop]
      omega

theorem Justified.loadedState_version [JsValue J] {task : Task J} {loaded : Loaded J}
    (h : Justified wiring s (.loadedState task u loaded)) :
    loaded.isEventSourced = wiring.sourced task.aggregateName ∧
      loaded.version = s.version (loaded.isEventSourced, task.key) := by
  obtain ⟨-, hpersistence, stateResult, rfl, rfl⟩ := h
  exact ⟨by rw [Wiring.sourced, hpersistence], rfl⟩

/-! ## Contributions -/

/-- What the observation says that is to be advanced by `u`. -/
def Obs.advance? (u : UowRef) : Obs J → Option Advance
  | .contributed task v loaded newEvents _ =>
      if v = u then loaded.advance? task newEvents else none
  | _ => none

/-- No instance is advanced twice. -/
def OnceEach (operations : List (Operation J)) : Prop :=
  operations.Pairwise fun op op' =>
    ∀ a ∈ op.advance?, ∀ a' ∈ op'.advance?, a.slot ≠ a'.slot

theorem Contribution.advance_save {task : Task J} {c : Contribution J} {k k' : Nat}
    (h : c.Computed wiring task k k') :
    (c.save task).advance? = c.loaded.advance? task c.newEvents := by
  obtain ⟨_, -, henriched, -⟩ := h.batch
  have hlength := henriched.length_eq
  rw [Contribution.save, Loaded.advance?]
  cases c.loaded.isEventSourced with
  | true => rw [if_pos rfl, Operation.advance?, hlength]
  | false => rfl

theorem Contribution.mem_operations {task : Task J} {c : Contribution J} {k k' : Nat}
    (h : c.Computed wiring task k k') {operation : Operation J}
    (hop : operation ∈ c.operations wiring task) :
    operation = c.save task ∨ operation.advance? = none := by
  obtain ⟨_, -, -, heffects⟩ := h.batch
  rcases List.mem_append.mp hop with hop | hop
  · unfold claimsOf at hop
    split at hop
    · rcases List.mem_cons.mp hop with hop | hop
      · exact .inl hop
      · rw [List.mem_singleton.mp hop]
        exact .inr rfl
    · exact .inl (List.mem_singleton.mp hop)
  · have heffect := heffects.isEffect operation hop
    cases operation with
    | updateView | saveOutbox => exact .inr rfl
    | saveEvents | saveState | saveIdempotency | saveSaga => cases heffect

theorem Contribution.save_mem (task : Task J) (c : Contribution J) :
    c.save task ∈ c.operations wiring task := by
  apply List.mem_append_left
  unfold claimsOf
  split
  · exact List.mem_cons_self
  · exact List.mem_cons_self

theorem Step.advance_noted [JsValue J] (h : Step wiring x s t) {o : Obs J} {a : Advance}
    (ho : o ∈ t.history) (ha : a ∈ o.advance? u) :
    o ∈ s.history ∨ ∃ task c uuids, Contributes wiring task u c uuids s ∧
      t = s.contributed wiring task u c uuids ∧
      o = .contributed task u c.loaded c.newEvents c.events := by
  rcases h.explained ho with hold | hexplained
  · exact .inl hold
  · cases o with
    | contributed task v loaded newEvents events =>
        obtain ⟨c, uuids, hcontributes, rfl, rfl, rfl, heq⟩ := hexplained
        by_cases hv : v = u
        · subst hv
          exact .inr ⟨task, c, uuids, hcontributes, heq, rfl⟩
        · rw [Obs.advance?, if_neg hv] at ha
          cases ha
    | _ => cases ha

/-! ## The invariant -/

variable (wiring) in
structure Versioned (w : World J) : Prop where
  snapshots : ∀ key snapshot, w.snapshotStore.get key = some snapshot →
    snapshot.version ≤ w.version (true, key)
  noted : ∀ task u snapshot, .loadedSnapshot task u (some snapshot) ∈ w.history →
    snapshot.version ≤ w.version (true, task.key)
  loaded : ∀ task u loaded, LoadedBy task u loaded w.history →
    loaded.isEventSourced = wiring.sourced task.aggregateName ∧
      loaded.version ≤ w.version (loaded.isEventSourced, task.key)
  contributed : ∀ task u loaded newEvents events,
    .contributed task u loaded newEvents events ∈ w.history → LoadedBy task u loaded w.history
  operations : ∀ u, ∀ op ∈ (w.uows u).operations, ∀ a ∈ op.advance?,
    a.base ≤ w.version a.slot
  executed : ∀ u, ∀ op ∈ (w.uows u).executed, ∀ a ∈ op.advance?,
    a.base + a.count ≤ w.version a.slot ∧
      ∀ op' ∈ (w.uows u).operations, ∀ a' ∈ op'.advance?, a'.slot = a.slot → a'.base ≤ a.base
  once : ∀ u, OnceEach (w.uows u).executed
  kept : ∀ u, (w.uows u).outcome ≠ some false → ∀ o ∈ w.history, ∀ a ∈ o.advance? u,
    ∃ op ∈ (w.uows u).operations, a ∈ op.advance?
  apart : ∀ u, (w.uows u).outcome ≠ some false → OnceEach (w.uows u).operations →
    ∀ o ∈ w.history, ∀ o' ∈ w.history, ∀ a ∈ o.advance? u, ∀ a' ∈ o'.advance? u,
      a.slot = a'.slot → o = o'

theorem versioned_empty : Versioned wiring ({} : World J) where
  snapshots key snapshot h := by simp [InsertionMap.get_empty] at h
  noted := by simp
  loaded task u loaded h := by simp [LoadedBy] at h
  contributed := by simp
  operations := by simp
  executed := by simp
  once u := List.Pairwise.nil
  kept := by simp
  apart := by simp

namespace Versioned

/-- A snapshot that a committed unit of work asks for is not ahead of the store. -/
theorem pending_le (hs : Versioned wiring s) (hinv : Inv wiring s) {task : Task J}
    {pending : PendingSnapshot J} (houtcome : (s.uows u).outcome = some true)
    (hpending : Pending wiring task u pending s.history) :
    pending.snapshot.version ≤
      s.version (true, compositeKey pending.aggregateName pending.aggregateId) := by
  obtain ⟨loaded, newEvents, events, hsourced, hmem, hname, hid, hversion, -⟩ := hpending
  have hloaded := (hs.loaded task u loaded (hs.contributed _ _ _ _ _ hmem)).2
  rw [hsourced] at hloaded
  rw [hname, hid, hversion]
  by_cases hempty : newEvents.length = 0
  · rw [hempty]
    exact hloaded
  · have hadvance : loaded.advance? task newEvents =
        some ⟨true, task.key, loaded.version, newEvents.length⟩ := by
      rw [Loaded.advance?, hsourced, advanceOf, if_pos rfl, if_neg hempty]
    have hnote : (⟨true, task.key, loaded.version, newEvents.length⟩ : Advance) ∈
        (Obs.contributed task u loaded newEvents events).advance? u := by
      rw [Obs.advance?, if_pos rfl, hadvance]
      rfl
    obtain ⟨op, hop, ha⟩ := hs.kept u (by rw [houtcome]; decide) _ hmem _ hnote
    rw [← (hinv.units u).all houtcome] at hop
    exact (hs.executed u op hop _ ha).1

variable [JsValue J]

theorem step_snapshots (hs : Versioned wiring s) (hhooks : ∀ u, HooksAsked wiring u s)
    (hinv : Inv wiring s) (h : Step wiring x s t) {key : String} {snapshot : Snapshot J}
    (hget : t.snapshotStore.get key = some snapshot) :
    snapshot.version ≤ t.version (true, key) := by
  refine le_trans ?_ (h.version_le (true, key))
  have hset : ∀ {aggregateName : String} {aggregateId : ID} {saved : Snapshot J},
      t.snapshotStore = s.snapshotStore.save aggregateName aggregateId saved →
      saved.version ≤ s.version (true, compositeKey aggregateName aggregateId) →
      snapshot.version ≤ s.version (true, key) := by
    intro aggregateName aggregateId saved heq hle
    rw [heq, SnapshotStore.save, InsertionMap.get_set] at hget
    split at hget
    · rename_i hkey
      rw [hkey, ← Option.some.inj hget]
      exact hle
    · exact hs.snapshots key snapshot hget
  cases h.snapshots with
  | same heq =>
      rw [heq] at hget
      exact hs.snapshots key snapshot hget
  | saved outcome asked heq => exact hset heq (hs.pending_le hinv outcome asked)
  | @ranHook u aggregateName aggregateId hooked running heq =>
      obtain ⟨houtcome, task, hpending⟩ :=
        (hhooks u).running _ _ _ (List.mem_of_mem_head? running)
      exact hset heq (hs.pending_le hinv houtcome hpending)

theorem step_noted (hs : Versioned wiring s) (h : Step wiring x s t) {task : Task J}
    {snapshot : Snapshot J} (hmem : .loadedSnapshot task u (some snapshot) ∈ t.history) :
    snapshot.version ≤ t.version (true, task.key) := by
  refine le_trans ?_ (h.version_le _)
  rcases h.explained hmem with hold | ⟨⟨-, hsnapshot, -⟩, -⟩
  · exact hs.noted task u snapshot hold
  · exact hs.snapshots _ _ hsnapshot.symm

theorem step_loaded (hs : Versioned wiring s) (h : Step wiring x s t) {task : Task J}
    {loaded : Loaded J} (hloaded : LoadedBy task u loaded t.history) :
    loaded.isEventSourced = wiring.sourced task.aggregateName ∧
      loaded.version ≤ t.version (loaded.isEventSourced, task.key) := by
  have hle := h.version_le (loaded.isEventSourced, task.key)
  have hold : LoadedBy task u loaded s.history →
      loaded.isEventSourced = wiring.sourced task.aggregateName ∧
        loaded.version ≤ t.version (loaded.isEventSourced, task.key) := fun hloaded =>
    ⟨(hs.loaded task u loaded hloaded).1, (hs.loaded task u loaded hloaded).2.trans hle⟩
  rcases hloaded with ⟨stream, hmem⟩ | hmem
  · rcases h.explained hmem with hmem | ⟨hjustified, -⟩
    · exact hold (.inl ⟨stream, hmem⟩)
    · obtain ⟨hsourced, hversion⟩ :=
        hjustified.loadedEvents_version fun snapshot => hs.noted task u snapshot
      exact ⟨hsourced, hversion.le.trans hle⟩
  · rcases h.explained hmem with hmem | ⟨hjustified, -⟩
    · exact hold (.inr hmem)
    · obtain ⟨hsourced, hversion⟩ := hjustified.loadedState_version
      exact ⟨hsourced, hversion.le.trans hle⟩

theorem step_contributed (hs : Versioned wiring s) (h : Step wiring x s t) {task : Task J}
    {loaded : Loaded J} {newEvents events : List (Event J)}
    (hmem : .contributed task u loaded newEvents events ∈ t.history) :
    LoadedBy task u loaded t.history := by
  have hsub := h.adds.grows.subset
  rcases h.explained hmem with hold | ⟨c, uuids, hcontributes, rfl, -⟩
  · exact (hs.contributed _ _ _ _ _ hold).mono hsub
  · exact hcontributes.loaded.mono hsub

omit [JsValue J] in
theorem contributed_base (hs : Versioned wiring s) {task : Task J} {c : Contribution J}
    {uuids : Nat} (hcontributes : Contributes wiring task u c uuids s) {operation : Operation J}
    (hop : operation ∈ c.operations wiring task) {a : Advance} (ha : a ∈ operation.advance?) :
    a.base ≤ s.version a.slot := by
  rcases Contribution.mem_operations hcontributes.computed hop with rfl | hnone
  · rw [Contribution.advance_save hcontributes.computed] at ha
    obtain ⟨hsourced, hkey, hbase, -⟩ := advanceOf_eq_some ha
    rw [Advance.slot, hsourced, hkey, hbase]
    exact (hs.loaded task u c.loaded hcontributes.loaded).2
  · rw [hnone] at ha
    cases ha

theorem step_operations (hs : Versioned wiring s) (h : Step wiring x s t)
    {op : Operation J} (hop : op ∈ (t.uows u).operations) {a : Advance} (ha : a ∈ op.advance?) :
    a.base ≤ t.version a.slot := by
  refine le_trans ?_ (h.version_le a.slot)
  cases (h.uow u).operations with
  | same operations => exact hs.operations u op (operations ▸ hop) a ha
  | contributed contributes heq =>
      rw [heq, World.uows_contributed, Function.update_self] at hop
      rcases List.mem_append.mp hop with hop | hop
      · exact hs.operations u op hop a ha
      · exact hs.contributed_base contributes hop ha
  | enlisted noAdvance _ operations =>
      rw [operations] at hop
      rcases List.mem_append.mp hop with hop | hop
      · exact hs.operations u op hop a ha
      · rw [List.mem_singleton.mp hop, noAdvance] at ha
        cases ha
  | @ran r operation rest running stores heq =>
      have hsame : (t.uows u).operations = (s.uows u).operations := by
        rw [heq]
        simp [World.ran, World.note, World.setUow, stores.control.uows]
      exact hs.operations u op (hsame ▸ hop) a ha
  | discarded _ operations =>
      rw [operations] at hop
      cases hop

omit [JsValue J] in
theorem uow_ran {r : World J} {operation : Operation J} (stores : Stores wiring operation s r) :
    ((r.ran u operation).uows u).operations = (s.uows u).operations ∧
      ((r.ran u operation).uows u).executed = (s.uows u).executed ++ [operation] := by
  simp [World.ran, World.note, World.setUow, stores.control.uows]

theorem step_executed (hs : Versioned wiring s) (hinv : Inv wiring s) (h : Step wiring x s t)
    {op : Operation J} (hop : op ∈ (t.uows u).executed) {a : Advance} (ha : a ∈ op.advance?) :
    a.base + a.count ≤ t.version a.slot ∧
      ∀ op' ∈ (t.uows u).operations, ∀ a' ∈ op'.advance?, a'.slot = a.slot →
        a'.base ≤ a.base := by
  have hle := h.version_le a.slot
  have hopen : (s.uows u).completed = false → op ∉ (s.uows u).executed := fun hopen => by
    rw [((hinv.units u).fresh hopen).1]
    exact List.not_mem_nil
  cases (h.uow u).operations with
  | same operations executed =>
      obtain ⟨hlanded, hbase⟩ := hs.executed u op (executed ▸ hop) a ha
      rw [operations]
      exact ⟨hlanded.trans hle, hbase⟩
  | contributed contributes heq =>
      rw [heq, World.uows_contributed, Function.update_self] at hop
      exact absurd hop (hopen contributes.isOpen)
  | enlisted _ isOpen _ executed => exact absurd (executed ▸ hop) (hopen isOpen)
  | @ran r operation rest running stores heq =>
      subst heq
      rw [(uow_ran stores).2] at hop
      rw [(uow_ran stores).1]
      rcases List.mem_append.mp hop with hop | hop
      · obtain ⟨hlanded, hbase⟩ := hs.executed u op hop a ha
        exact ⟨hlanded.trans hle, hbase⟩
      · rw [List.mem_singleton.mp hop] at ha
        obtain ⟨hversion, hversion'⟩ := stores.advance ha
        refine ⟨hversion'.ge, fun op' hop' a' ha' hslot => ?_⟩
        calc a'.base ≤ s.version a'.slot := hs.operations u op' hop' a' ha'
          _ = a.base := by rw [hslot, hversion]
  | discarded _ operations executed =>
      obtain ⟨hlanded, -⟩ := hs.executed u op (executed ▸ hop) a ha
      rw [operations]
      exact ⟨hlanded.trans hle, fun op' hop' => absurd hop' List.not_mem_nil⟩

theorem step_once (hs : Versioned wiring s) (h : Step wiring x s t)
    (u : UowRef) : OnceEach (t.uows u).executed := by
  cases (h.uow u).operations with
  | same _ executed => exact executed ▸ hs.once u
  | contributed _ heq =>
      rw [heq, World.uows_contributed, Function.update_self]
      exact hs.once u
  | enlisted _ _ _ executed => exact executed ▸ hs.once u
  | @ran r operation rest running stores heq =>
      subst heq
      rw [(uow_ran stores).2]
      apply List.pairwise_append.mpr
      refine ⟨hs.once u, List.pairwise_singleton _ _, fun op hop op' hop' a ha a' ha' hslot => ?_⟩
      rw [List.mem_singleton.mp hop'] at ha'
      -- the earlier save has put the version past all that was loaded
      have hmem : operation ∈ (s.uows u).operations := by
        rw [running.operations]
        exact List.mem_append_right _ List.mem_cons_self
      obtain ⟨hlanded, hbase⟩ := hs.executed u op hop a ha
      have hle : a'.base ≤ a.base := hbase operation hmem a' ha' hslot.symm
      have hversion := (stores.advance ha').1
      have hpos : 0 < a.count := by
        cases op with
        | saveEvents | saveState => exact (advanceOf_eq_some ha).2.2.2.1
        | saveIdempotency | updateView | saveOutbox | saveSaga => cases ha
      rw [hslot] at hlanded
      omega
  | discarded _ _ executed => exact executed ▸ hs.once u

theorem step_kept (hs : Versioned wiring s) (hinv : Inv wiring s) (h : Step wiring x s t)
    (houtcome : (t.uows u).outcome ≠ some false) {o : Obs J} (ho : o ∈ t.history)
    {a : Advance} (ha : a ∈ o.advance? u) : ∃ op ∈ (t.uows u).operations, a ∈ op.advance? := by
  have hnot : (s.uows u).outcome ≠ some false := fun hfailed =>
    houtcome ((h.uow u).outcome (hinv.units u) hfailed)
  rcases h.advance_noted ho ha with hold | ⟨task, c, uuids, hcontributes, rfl, rfl⟩
  · obtain ⟨op, hop, hadvance⟩ := hs.kept u hnot o hold a ha
    refine ⟨op, ?_, hadvance⟩
    cases (h.uow u).operations with
    | same operations => exact operations ▸ hop
    | contributed _ heq =>
        rw [heq, World.uows_contributed, Function.update_self]
        exact List.mem_append_left _ hop
    | enlisted _ _ operations =>
        rw [operations]
        exact List.mem_append_left _ hop
    | ran _ stores heq =>
        rw [heq, (uow_ran stores).1]
        exact hop
    | discarded outcome => exact absurd outcome houtcome
  · rw [World.uows_contributed, Function.update_self]
    refine ⟨c.save task, List.mem_append_right _ (c.save_mem task), ?_⟩
    rw [Contribution.advance_save hcontributes.computed]
    rw [Obs.advance?, if_pos rfl] at ha
    exact ha

theorem step_apart (hs : Versioned wiring s) (hinv : Inv wiring s) (h : Step wiring x s t)
    (houtcome : (t.uows u).outcome ≠ some false) (honce : OnceEach (t.uows u).operations)
    {o o' : Obs J} (ho : o ∈ t.history) (ho' : o' ∈ t.history) {a a' : Advance}
    (ha : a ∈ o.advance? u) (ha' : a' ∈ o'.advance? u) (hslot : a.slot = a'.slot) : o = o' := by
  have hnot : (s.uows u).outcome ≠ some false := fun hfailed =>
    houtcome ((h.uow u).outcome (hinv.units u) hfailed)
  -- an old contribution and the new one, on one instance
  have hclash : ∀ {task : Task J} {c : Contribution J} {uuids : Nat} {o : Obs J} {a a' : Advance},
      Contributes wiring task u c uuids s → t = s.contributed wiring task u c uuids →
      o ∈ s.history → a ∈ o.advance? u →
      a' ∈ (Obs.contributed task u c.loaded c.newEvents c.events).advance? u →
      a.slot ≠ a'.slot := by
    intro task c uuids o a a' hcontributes heq hold ha ha'
    obtain ⟨op, hop, hadvance⟩ := hs.kept u hnot o hold a ha
    rw [heq, World.uows_contributed, Function.update_self] at honce
    refine (List.pairwise_append.mp honce).2.2 op hop _ (c.save_mem task) a hadvance a' ?_
    rw [Contribution.advance_save hcontributes.computed]
    rw [Obs.advance?, if_pos rfl] at ha'
    exact ha'
  rcases h.advance_noted ho ha with hold | ⟨task, c, uuids, hcontributes, heq, rfl⟩
  · rcases h.advance_noted ho' ha' with hold' | ⟨task, c, uuids, hcontributes, heq, rfl⟩
    · refine hs.apart u hnot ?_ o hold o' hold' a ha a' ha' hslot
      cases (h.uow u).operations with
      | same operations => exact operations ▸ honce
      | contributed _ heq =>
          rw [heq, World.uows_contributed, Function.update_self] at honce
          exact (List.pairwise_append.mp honce).1
      | enlisted _ _ operations =>
          rw [operations] at honce
          exact (List.pairwise_append.mp honce).1
      | ran _ stores heq =>
          rw [heq, (uow_ran stores).1] at honce
          exact honce
      | discarded outcome => exact absurd outcome houtcome
    · exact absurd hslot (hclash hcontributes heq hold ha ha')
  · rcases h.advance_noted ho' ha' with hold' | ⟨task', c', uuids', hcontributes', heq', rfl⟩
    · exact absurd hslot.symm (hclash hcontributes heq hold' ha' ha)
    · have hnotes : contributionNotes wiring task u c = contributionNotes wiring task' u c' := by
        apply List.append_cancel_right
        rw [← World.history_contributed wiring task u c uuids,
          ← World.history_contributed wiring task' u c' uuids', ← heq, ← heq']
      have hmem : .contributed task u c.loaded c.newEvents c.events ∈
          contributionNotes wiring task' u c' := by
        rw [← hnotes, contributionNotes]
        exact List.mem_append_right _ List.mem_cons_self
      simp only [contributionNotes, List.mem_append, List.mem_reverse, List.mem_map,
        List.mem_cons] at hmem
      rcases hmem with ⟨_, _, hnote⟩ | hnote | ⟨_, _, hnote⟩
      · cases hnote
      · exact hnote
      · cases hnote

theorem step (hs : Versioned wiring s) (hhooks : ∀ u, HooksAsked wiring u s)
    (hinv : Inv wiring s) (h : Step wiring x s t) : Versioned wiring t where
  snapshots _ _ hget := hs.step_snapshots hhooks hinv h hget
  noted _ _ _ hmem := hs.step_noted h hmem
  loaded _ _ _ hloaded := hs.step_loaded h hloaded
  contributed _ _ _ _ _ hmem := hs.step_contributed h hmem
  operations _ _ hop _ ha := hs.step_operations h hop ha
  executed _ _ hop _ ha := hs.step_executed hinv h hop ha
  once := hs.step_once h
  kept _ houtcome _ ho _ ha := hs.step_kept hinv h houtcome ho ha
  apart _ houtcome honce _ ho _ ho' _ ha _ ha' hslot :=
    hs.step_apart hinv h houtcome honce ho ho' ha ha' hslot

end Versioned

variable [JsValue J] {C : World J → World J → Prop} {workload : Workload J} {q : Process J Infra}

theorem versioned_of_run (hrun : Pool.Run C (boot wiring workload) q) :
    Versioned wiring q.state := by
  have hboth : (∀ u, HooksAsked wiring u q.state) ∧ Versioned wiring q.state := by
    apply steps_induction wiring (I := fun w => (∀ u, HooksAsked wiring u w) ∧ Versioned wiring w)
      hrun
    · exact ⟨fun _ => hooksAsked_empty, versioned_empty⟩
    · intro s t x hinv _ h hs
      exact ⟨fun u => (hs.1 u).step hinv h, hs.2.step hs.1 hinv h⟩
  exact hboth.2

/-- A unit of work that has committed holds at most one contribution that advances an
instance. -/
theorem contributed_once (hrun : Pool.Run C (boot wiring workload) q)
    (houtcome : (q.state.uows u).outcome = some true) {o o' : Obs J}
    (ho : o ∈ q.state.history) (ho' : o' ∈ q.state.history) {a a' : Advance}
    (ha : a ∈ o.advance? u) (ha' : a' ∈ o'.advance? u) (hslot : a.slot = a'.slot) : o = o' := by
  have hs := versioned_of_run hrun
  have hall := ((inv_of_run wiring hrun).units u).all houtcome
  refine hs.apart u (by rw [houtcome]; decide) ?_ o ho o' ho' a ha a' ha' hslot
  rw [← hall]
  exact hs.once u

end Noddde
