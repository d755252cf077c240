import Noddde.Async.Machine
import Noddde.Engine.DeliverySample
/-!
# Saga instances are serializable

What an execution has loaded is the stored state as long as the stored version is the
one that it has loaded; so a commit that passes the version check folds one more event
into the state.
-/

namespace Noddde.Delivery.SagaExecutor

variable {ι J Infra : Type} [DecidableEq ι]

/-! ## What is observed -/

/-- `handle` folded from the initial state over events, whatever it reads from the
infrastructure. -/
inductive Folded (saga : Saga J Infra) : List (Event J) → J → Prop where
  | nil : Folded saga [] saga.initialState
  | snoc {events : List (Event J)} {event : Event J} {state : J}
      {onEntry : SagaHandler J Infra} {infra : Infra} {reaction : Reaction J}
      (hevents : Folded saga events state) (hon : saga.on event.name = some onEntry)
      (hreaction : onEntry.handle event state infra = .ok reaction) :
      Folded saga (events ++ [event]) reaction.state

namespace State

variable (s : State ι J Infra)

def commitsBy (i : ι) : List (Commit ι J) :=
  s.commits.filter fun commit => commit.execution = i

def Committed (i : ι) : Prop := ∃ commit ∈ s.commitsBy i, commit.saga.isSome

def changesBy (i : ι) : List (Contribution J) := (s.commitsBy i).flatMap Commit.contributions

def committedFor (sagaId : ID) : List ι :=
  (s.commits.reverse.filter fun commit =>
    commit.saga.any fun uow => decide (uow.sagaId.render = sagaId.render)).map Commit.execution

/-- The persisted changes of an aggregate instance, in the order of their commits. -/
def changesOf (key : String) : List (Event J) :=
  ((s.commits.reverse.flatMap Commit.contributions).filter fun contribution =>
    decide (compositeKey contribution.aggregateName contribution.aggregateId = key)).flatMap
      Contribution.events

end State

/-! ## What an execution knows -/

section Knowledge

variable (domain : Domain J Infra) (sagaName : String) (events : ι → Event J)
  (s : State ι J Infra) (i : ι)

/-- `currentState` and `expectedVersion` are what an execution has loaded, or has begun
with: the version may have moved on since, but then it never comes back. -/
def Basis (sagaId : ID) (currentState : J) (expectedVersion : Nat) : Prop :=
  let key := compositeKey sagaName sagaId
  expectedVersion ≤ StateStore.version s.sagaStore key ∧
    (StateStore.version s.sagaStore key = expectedVersion →
      match s.sagaStore.get key with
      | some stored => currentState = stored.state
      | none => currentState = (domain.sagas sagaName).initialState ∧
          (events i).name ∈ (domain.sagas sagaName).startedBy)

/-- The unit of work saves what `handle` answered to the state that was loaded. -/
def Reacts (uow : SagaUow J) : Prop :=
  ∃ onEntry currentState infra reaction,
    (domain.sagas sagaName).on (events i).name = some onEntry ∧
    onEntry.id (events i) = .ok uow.sagaId ∧ uow.sagaName = sagaName ∧
    onEntry.handle (events i) currentState infra = .ok reaction ∧
    uow.state = reaction.state ∧
    Basis domain sagaName events s i uow.sagaId currentState uow.expectedVersion

/-- Nothing of the execution is to be seen. -/
def Untouched : Prop := s.commitsBy i = [] ∧ s.published i = []

/-- The execution has committed its saga state once, in atomic mode with all changes
that were enlisted. -/
def Done : Prop :=
  ((s.commitsBy i).filter fun commit => commit.saga.isSome).length = 1 ∧
    ((domain.sagas sagaName).atomicity.getD .atomic = .atomic →
      s.changesBy i = s.enlisted i)

def PhaseOk : Phase J Infra → Prop
  | .called => Untouched s i ∧ s.enlisted i = []
  | .loaded onEntry sagaId currentState expectedVersion =>
      Untouched s i ∧ s.enlisted i = [] ∧
      (domain.sagas sagaName).on (events i).name = some onEntry ∧
      onEntry.id (events i) = .ok sagaId ∧
      Basis domain sagaName events s i sagaId currentState expectedVersion
  | .working uow _ andThen =>
      Untouched s i ∧ s.enlisted i = uow.contributions ∧
      Reacts domain sagaName events s i uow ∧
      ((domain.sagas sagaName).atomicity.getD .atomic = .atomic →
        andThen = .settle (.ok ()))
  | .publishing _ andThen =>
      Done domain sagaName s i ∧
      ((domain.sagas sagaName).atomicity.getD .atomic = .atomic →
        andThen = .settle (.ok ()))
  | .settled _ => Untouched s i ∨ Done domain sagaName s i

end Knowledge

/-! ## What the others leave alone -/

/-- Versions only grow, and what keeps its version keeps its state. -/
def Advances (store store' : StateStore J) : Prop :=
  ∀ key, store'.get key = store.get key ∨
    StateStore.version store key < StateStore.version store' key

theorem Advances.refl (store : StateStore J) : Advances store store := fun _ => .inl rfl

theorem advances_of_save {store store' : StateStore J} {name : String} {id : ID} {state : J}
    {expectedVersion : Nat}
    (h : StateStore.save store name id state expectedVersion = .ok store') :
    Advances store store' := by
  intro key
  have hget := StateStore.get_of_save h key
  by_cases hkey : key = compositeKey name id
  · right
    have hversion : StateStore.version store key = expectedVersion := by
      simp only [StateStore.save, ← hkey] at h
      split_ifs at h with hne
      exact not_not.mp hne
    rw [if_pos hkey] at hget
    rw [hversion, StateStore.version, hget]
    exact Nat.lt_succ_self _
  · left
    rw [hget, if_neg hkey]

/-- What a step of another execution does to the execution `i`. -/
structure Kept (i : ι) (s t : State ι J Infra) : Prop where
  commits : t.commitsBy i = s.commitsBy i
  enlisted : t.enlisted i = s.enlisted i
  published : t.published i = s.published i
  sagas : Advances s.sagaStore t.sagaStore

section Frame

variable {domain : Domain J Infra} {sagaName : String} {events : ι → Event J}
  {s t : State ι J Infra} {i : ι}

omit [DecidableEq ι] in
theorem Basis.advance {sagaId : ID} {currentState : J} {expectedVersion : Nat}
    (h : Basis domain sagaName events s i sagaId currentState expectedVersion)
    (hsagas : Advances s.sagaStore t.sagaStore) :
    Basis domain sagaName events t i sagaId currentState expectedVersion := by
  obtain ⟨hle, hstate⟩ := h
  rcases hsagas (compositeKey sagaName sagaId) with hsame | hlt
  · have hversion : StateStore.version t.sagaStore (compositeKey sagaName sagaId) =
        StateStore.version s.sagaStore (compositeKey sagaName sagaId) := by
      simp only [StateStore.version, hsame]
    simp only [Basis, hversion, hsame]
    exact ⟨hle, hstate⟩
  · exact ⟨hle.trans hlt.le, fun heq => absurd (heq ▸ hlt) (not_lt.mpr hle)⟩

theorem Kept.untouched (hkept : Kept i s t) (h : Untouched s i) : Untouched t i := by
  rw [Untouched, hkept.commits, hkept.published]
  exact h

theorem Kept.done (hkept : Kept i s t) (h : Done domain sagaName s i) :
    Done domain sagaName t i := by
  rw [Done, State.changesBy, hkept.commits, hkept.enlisted]
  exact h

theorem Kept.phaseOk (hkept : Kept i s t) {phase : Phase J Infra}
    (h : PhaseOk domain sagaName events s i phase) :
    PhaseOk domain sagaName events t i phase := by
  cases phase with
  | called =>
      obtain ⟨huntouched, henlisted⟩ := h
      exact ⟨hkept.untouched huntouched, hkept.enlisted.trans henlisted⟩
  | loaded onEntry sagaId currentState expectedVersion =>
      obtain ⟨huntouched, henlisted, hon, hid, hbasis⟩ := h
      exact ⟨hkept.untouched huntouched, hkept.enlisted.trans henlisted, hon, hid,
        hbasis.advance hkept.sagas⟩
  | working uow script andThen =>
      obtain ⟨huntouched, henlisted, hreacts, hatomic⟩ := h
      obtain ⟨onEntry, currentState, infra, reaction, hon, hid, hname, hhandle, hstate, hbasis⟩ :=
        hreacts
      exact ⟨hkept.untouched huntouched, hkept.enlisted.trans henlisted,
        ⟨onEntry, currentState, infra, reaction, hon, hid, hname, hhandle, hstate,
          hbasis.advance hkept.sagas⟩, hatomic⟩
  | publishing _ andThen =>
      obtain ⟨hdone, hatomic⟩ := h
      exact ⟨hkept.done hdone, hatomic⟩
  | settled outcome =>
      cases h with
      | inl huntouched => exact .inl (hkept.untouched huntouched)
      | inr hdone => exact .inr (hkept.done hdone)

end Frame

/-! ## The invariant -/

def Concerns (domain : Domain J Infra) (sagaName : String) (event : Event J) (sagaId : ID) :
    Prop :=
  ∃ onEntry id, (domain.sagas sagaName).on event.name = some onEntry ∧
    onEntry.id event = .ok id ∧ id.render = sagaId.render

/-- The saga instance is the fold over the executions that have committed it. -/
def Serialized (domain : Domain J Infra) (sagaName : String) (events : ι → Event J)
    (s : State ι J Infra) (sagaId : ID) : Prop :=
  match s.sagaStore.load sagaName sagaId with
  | none => s.committedFor sagaId = []
  | some stored =>
      stored.version = (s.committedFor sagaId).length ∧
      Folded (domain.sagas sagaName) ((s.committedFor sagaId).map events) stored.state ∧
      ∃ first ∈ (s.committedFor sagaId).head?,
        (events first).name ∈ (domain.sagas sagaName).startedBy

structure Invariant (domain : Domain J Infra) (sagaName : String) (events : ι → Event J)
    (start : EventStore J) (s : State ι J Infra) : Prop where
  phases : ∀ i, PhaseOk domain sagaName events s i (s.executions i)
  sagas : ∀ sagaId, Serialized domain sagaName events s sagaId
  streams : ∀ key, EventStore.stream s.eventStore key =
    EventStore.stream start key ++ s.changesOf key
  /-- A commit saves the instance to which the event of its execution belongs. -/
  targets : ∀ commit ∈ s.commits, ∀ uow ∈ commit.saga,
    Concerns domain sagaName (events commit.execution) uow.sagaId

omit [DecidableEq ι] in
theorem Reacts.concerns {domain : Domain J Infra} {sagaName : String} {events : ι → Event J}
    {s : State ι J Infra} {i : ι} {uow : SagaUow J}
    (h : Reacts domain sagaName events s i uow) :
    Concerns domain sagaName (events i) uow.sagaId := by
  obtain ⟨onEntry, _, _, _, hon, hid, -⟩ := h
  exact ⟨onEntry, uow.sagaId, hon, hid, rfl⟩

section Preservation

variable {domain : Domain J Infra} {sagaName : String} {events : ι → Event J}
  {start : EventStore J} {s t : State ι J Infra} {i : ι} {phase : Phase J Infra}

theorem invariant_start :
    Invariant domain sagaName events start ({ eventStore := start } : State ι J Infra) where
  phases _ := ⟨⟨rfl, rfl⟩, rfl⟩
  sagas _ := rfl
  streams _ := (List.append_nil _).symm
  targets _ h := absurd h List.not_mem_nil

/-- A step of `i` that leaves the others alone. -/
theorem Invariant.move (h : Invariant domain sagaName events start s)
    (hexecutions : t.executions = s.executions)
    (hkept : ∀ j, j ≠ i → Kept j s t) (hphase : PhaseOk domain sagaName events t i phase)
    (hsagas : ∀ sagaId, Serialized domain sagaName events t sagaId)
    (hstreams : ∀ key, EventStore.stream t.eventStore key =
      EventStore.stream start key ++ t.changesOf key)
    (htargets : ∀ commit ∈ t.commits, ∀ uow ∈ commit.saga,
      Concerns domain sagaName (events commit.execution) uow.sagaId) :
    Invariant domain sagaName events start (t.enter i phase) where
  phases j := by
    change PhaseOk domain sagaName events t j (Function.update t.executions i phase j)
    by_cases hj : j = i
    · subst hj
      rw [Function.update_self]
      exact hphase
    · rw [Function.update_of_ne hj, hexecutions]
      exact (hkept j hj).phaseOk (h.phases j)
  sagas := hsagas
  streams := hstreams
  targets := htargets

/-- A step of `i` that changes nothing but its phase. -/
theorem Invariant.enter (h : Invariant domain sagaName events start s)
    (hphase : PhaseOk domain sagaName events s i phase) :
    Invariant domain sagaName events start (s.enter i phase) :=
  h.move rfl (fun _ _ => ⟨rfl, rfl, rfl, Advances.refl _⟩) hphase h.sagas h.streams h.targets

theorem invariant_load (h : Invariant domain sagaName events start s)
    (hcalled : s.executions i = .called) :
    Invariant domain sagaName events start (load domain sagaName events i s) := by
  have hphase := h.phases i
  rw [hcalled] at hphase
  obtain ⟨huntouched, henlisted⟩ := hphase
  unfold load
  dsimp only
  split
  · exact h.enter (.inl huntouched)
  · rename_i onEntry hon
    split
    · exact h.enter (.inl huntouched)
    · rename_i sagaId hid
      split
      · exact h.enter (.inl huntouched)
      · rename_i currentState expectedVersion hbootstrap
        apply h.enter
        refine ⟨huntouched, henlisted, hon, hid, ?_⟩
        unfold bootstrap StateStore.load at hbootstrap
        cases hget : s.sagaStore.get (compositeKey sagaName sagaId) with
        | some stored =>
            simp only [hget, Option.some.injEq, Prod.mk.injEq] at hbootstrap
            obtain ⟨rfl, rfl⟩ := hbootstrap
            simp only [Basis, StateStore.version, hget]
            exact ⟨le_rfl, fun _ => trivial⟩
        | none =>
            simp only [hget] at hbootstrap
            split_ifs at hbootstrap with hstarted
            obtain ⟨rfl, rfl⟩ := Prod.mk.inj (Option.some.inj hbootstrap)
            simp only [Basis, StateStore.version, hget]
            exact ⟨le_rfl, fun _ => ⟨trivial, hstarted⟩⟩

theorem invariant_handle (h : Invariant domain sagaName events start s) {c : Choice J Infra}
    {onEntry : SagaHandler J Infra} {sagaId : ID} {currentState : J} {expectedVersion : Nat}
    (hloaded : s.executions i = .loaded onEntry sagaId currentState expectedVersion) :
    Invariant domain sagaName events start
      (handle domain sagaName events c i onEntry sagaId currentState expectedVersion s) := by
  have hphase := h.phases i
  rw [hloaded] at hphase
  obtain ⟨huntouched, henlisted, hon, hid, hbasis⟩ := hphase
  unfold handle
  split
  · exact h.enter (.inl huntouched)
  · rename_i reaction hreaction
    dsimp only
    split
    · rename_i hmode
      apply h.enter
      refine ⟨huntouched, henlisted, ?_, fun hatomic => ?_⟩
      · exact ⟨onEntry, currentState, c.infra, reaction, hon, hid, rfl, hreaction, rfl, hbasis⟩
      · rw [hmode] at hatomic
        cases hatomic
    · apply h.enter
      refine ⟨huntouched, henlisted, ?_, fun _ => rfl⟩
      exact ⟨onEntry, currentState, c.infra, reaction, hon, hid, rfl, hreaction, rfl, hbasis⟩

theorem invariant_enlistCommand (h : Invariant domain sagaName events start s)
    {c : Choice J Infra} {uow : SagaUow J} {command : Command J}
    {next : Except Err Unit → Infra → Script J Infra} {script andThen : Script J Infra}
    (hworking : s.executions i = .working uow script andThen) :
    Invariant domain sagaName events start
      (enlistCommand domain c i uow command next andThen s) := by
  have hphase := h.phases i
  rw [hworking] at hphase
  obtain ⟨huntouched, henlisted, hreacts, hatomic⟩ := hphase
  unfold enlistCommand
  split
  · exact h.enter ⟨huntouched, henlisted, hreacts, hatomic⟩
  · exact h.enter ⟨huntouched, henlisted, hreacts, hatomic⟩
  · split
    · exact h.enter ⟨huntouched, henlisted, hreacts, hatomic⟩
    · refine h.move rfl ?_ ?_ h.sagas h.streams h.targets
      · intro j hj
        exact ⟨rfl, Function.update_of_ne hj _ _, rfl, Advances.refl _⟩
      · exact ⟨huntouched, Function.update_self .., hreacts, hatomic⟩

/-! ## Commits -/

omit [DecidableEq ι] in
theorem stream_of_commit {contributions : List (Contribution J)} {store store' : EventStore J}
    {published : List (Event J)}
    (h : Delivery.commit contributions store = (.ok published, store')) (key : String) :
    EventStore.stream store' key = EventStore.stream store key ++
      (contributions.filter fun contribution =>
        decide (compositeKey contribution.aggregateName contribution.aggregateId = key)).flatMap
          Contribution.events := by
  induction contributions generalizing store published with
  | nil =>
      obtain ⟨-, rfl⟩ : published = [] ∧ store = store' := by
        simpa [Delivery.commit, eq_comm] using h
      exact (List.append_nil _).symm
  | cons contribution rest ih =>
      unfold Delivery.commit at h
      cases hsave : store.save contribution.aggregateName contribution.aggregateId
          contribution.events contribution.expectedVersion with
      | error error => simp [hsave] at h
      | ok saved =>
          cases hrejects : contribution.rejects with
          | some error => simp [hsave, hrejects] at h
          | none =>
              simp only [hsave, hrejects] at h
              cases hrest : Delivery.commit rest saved with
              | mk outcome store'' =>
                  cases outcome with
                  | error error =>
                      simp only [hrest, Except.map, Prod.mk.injEq] at h
                      cases h.1
                  | ok others =>
                      simp only [hrest, Prod.mk.injEq] at h
                      obtain ⟨-, rfl⟩ := h
                      rw [ih hrest, EventStore.stream_of_save hsave, List.filter_cons]
                      by_cases hkey :
                          compositeKey contribution.aggregateName contribution.aggregateId = key
                      · simp [hkey]
                      · simp [hkey, Ne.symm hkey]

omit [DecidableEq ι] in
theorem commitUow_eq_ok {uow : SagaUow J} {published : List (Event J)}
    {eventStore : EventStore J} {sagaStore : StateStore J}
    (h : commitUow uow s = .ok (published, eventStore, sagaStore)) :
    s.sagaStore.save uow.sagaName uow.sagaId uow.state uow.expectedVersion = .ok sagaStore ∧
      Delivery.commit uow.contributions s.eventStore = (.ok published, eventStore) := by
  unfold commitUow at h
  split at h
  · cases h
  · rename_i hsave
    split at h
    · cases h
    · rename_i hcommit
      cases h
      exact ⟨hsave, hcommit⟩

/-- The streams after a commit that is put on record. -/
theorem streams_of_commit {commit : Commit ι J} {eventStore : EventStore J}
    {published : List (Event J)} (h : Invariant domain sagaName events start s)
    (hcommit : Delivery.commit commit.contributions s.eventStore = (.ok published, eventStore))
    (hcommits : t.commits = commit :: s.commits) (key : String) :
    EventStore.stream eventStore key = EventStore.stream start key ++ t.changesOf key := by
  have hchanges : t.changesOf key = s.changesOf key ++
      (commit.contributions.filter fun contribution =>
        decide (compositeKey contribution.aggregateName contribution.aggregateId = key)).flatMap
          Contribution.events := by
    rw [State.changesOf, hcommits, List.reverse_cons, List.flatMap_append, List.filter_append,
      List.flatMap_append, List.flatMap_singleton]
    rfl
  rw [stream_of_commit hcommit key, h.streams key, hchanges, List.append_assoc]

theorem commitsBy_cons {commit : Commit ι J} (hcommits : t.commits = commit :: s.commits)
    (j : ι) :
    t.commitsBy j = if commit.execution = j then commit :: s.commitsBy j else s.commitsBy j := by
  rw [State.commitsBy, hcommits, List.filter_cons]
  simp only [decide_eq_true_eq]
  rfl

omit [DecidableEq ι] in
theorem committedFor_cons {commit : Commit ι J} (hcommits : t.commits = commit :: s.commits)
    (sagaId : ID) :
    t.committedFor sagaId =
      if commit.saga.any fun uow => decide (uow.sagaId.render = sagaId.render)
      then s.committedFor sagaId ++ [commit.execution] else s.committedFor sagaId := by
  rw [State.committedFor, hcommits, List.reverse_cons, List.filter_append, List.map_append,
    List.filter_cons, List.filter_nil]
  split_ifs
  · rfl
  · exact List.append_nil _

/-- A saga state that has passed the version check is one more step of the fold. -/
theorem serialized_of_save {uow : SagaUow J} {sagaStore : StateStore J}
    (h : Invariant domain sagaName events start s)
    (hreacts : Reacts domain sagaName events s i uow)
    (hsave : s.sagaStore.save uow.sagaName uow.sagaId uow.state uow.expectedVersion =
      .ok sagaStore)
    (hstore : t.sagaStore = sagaStore)
    (hcommits : t.commits = ⟨i, some uow, uow.contributions⟩ :: s.commits) (sagaId : ID) :
    Serialized domain sagaName events t sagaId := by
  obtain ⟨onEntry, currentState, infra, reaction, hon, -, rfl, hhandle, hstate, -, hbasis⟩ :=
    hreacts
  have hversion : StateStore.version s.sagaStore (compositeKey uow.sagaName uow.sagaId) =
      uow.expectedVersion := by
    simp only [StateStore.save] at hsave
    split_ifs at hsave with hne
    exact not_not.mp hne
  have hbefore := h.sagas sagaId
  have hget := StateStore.get_of_save hsave (compositeKey uow.sagaName sagaId)
  unfold Serialized StateStore.load at hbefore ⊢
  rw [hstore, hget, committedFor_cons hcommits]
  by_cases hid : uow.sagaId.render = sagaId.render
  · have hkey : compositeKey uow.sagaName uow.sagaId = compositeKey uow.sagaName sagaId :=
      compositeKey_inj.mpr hid
    have hloaded := hbasis hversion
    unfold StateStore.version at hversion
    rw [hkey] at hversion hloaded
    rw [if_pos hkey.symm, if_pos (by simpa using hid)]
    cases hstored : s.sagaStore.get (compositeKey uow.sagaName sagaId) with
    | none =>
        simp only [hstored] at hversion hloaded hbefore
        obtain ⟨rfl, hstarted⟩ := hloaded
        rw [hbefore, ← hversion, hstate]
        exact ⟨rfl, Folded.snoc .nil hon hhandle, i, rfl, hstarted⟩
    | some stored =>
        simp only [hstored] at hversion hloaded hbefore
        obtain ⟨hlength, hfolded, first, hfirst, hstarted⟩ := hbefore
        subst hloaded
        have hversion' : stored.version = uow.expectedVersion := hversion
        refine ⟨?_, ?_, first, ?_, hstarted⟩
        · rw [List.length_append, ← hlength, hversion']
          rfl
        · rw [List.map_append, hstate]
          exact hfolded.snoc hon hhandle
        · exact List.mem_head?_append_of_mem_head? hfirst
  · have hkey : compositeKey uow.sagaName sagaId ≠ compositeKey uow.sagaName uow.sagaId :=
      fun heq => hid (compositeKey_inj.mp heq).symm
    rw [if_neg hkey, if_neg (by simpa using hid)]
    exact hbefore

theorem invariant_commit (h : Invariant domain sagaName events start s)
    {rejects : Option Err} {uow : SagaUow J} {script andThen : Script J Infra}
    (hworking : s.executions i = .working uow script andThen) :
    Invariant domain sagaName events start (commit rejects i uow andThen s) := by
  have hphase := h.phases i
  rw [hworking] at hphase
  obtain ⟨huntouched, henlisted, hreacts, hatomic⟩ := hphase
  unfold commit
  cases rejects with
  | some error => exact h.enter (.inl huntouched)
  | none =>
      dsimp only
      rcases huow : commitUow uow s with error | ⟨published, eventStore, sagaStore⟩
      · exact h.enter (.inl huntouched)
      · obtain ⟨hsave, hcommit⟩ := commitUow_eq_ok huow
        let recorded : Commit ι J := ⟨i, some uow, uow.contributions⟩
        have hcommits : ({ s with
            eventStore, sagaStore
            commits := recorded :: s.commits } : State ι J Infra).commits =
              recorded :: s.commits := rfl
        refine h.move rfl ?_ ?_ ?_ ?_ ?_
        · intro j hj
          have hothers := commitsBy_cons hcommits j
          rw [if_neg (Ne.symm hj)] at hothers
          exact ⟨hothers, rfl, rfl, advances_of_save hsave⟩
        · have hown := commitsBy_cons hcommits i
          rw [if_pos rfl, huntouched.1] at hown
          refine ⟨⟨?_, fun _ => ?_⟩, hatomic⟩
          · rw [hown]
            rfl
          · rw [State.changesBy, hown, henlisted]
            exact List.append_nil _
        · exact serialized_of_save h hreacts hsave rfl hcommits
        · exact streams_of_commit h hcommit hcommits
        · intro commit hmem uow' huow'
          obtain rfl | hmem := List.mem_cons.mp hmem
          · obtain rfl := Option.some.inj huow'
            exact hreacts.concerns
          · exact h.targets commit hmem uow' huow'

theorem invariant_executeCommand (h : Invariant domain sagaName events start s)
    {c : Choice J Infra} {rejects : Option Err} {command : Command J}
    {next next' : Except Err Unit → Infra → Script J Infra}
    (hpublishing : s.executions i = .publishing [] (.dispatchCommand command next')) :
    Invariant domain sagaName events start (executeCommand domain c rejects i command next s) := by
  have hphase := h.phases i
  rw [hpublishing] at hphase
  obtain ⟨hdone, hatomic⟩ := hphase
  -- an atomic saga has no command of its own after the commit
  have hbestEffort : (domain.sagas sagaName).atomicity.getD .atomic ≠ .atomic :=
    fun hmode => nomatch hatomic hmode
  have hgoOn (published : List (Event J)) (script : Script J Infra) :
      PhaseOk domain sagaName events s i (.publishing published script) :=
    ⟨hdone, fun hmode => absurd hmode hbestEffort⟩
  unfold executeCommand
  dsimp only
  split
  · exact h.enter (hgoOn _ _)
  · exact h.enter (hgoOn _ _)
  · split
    · exact h.enter (hgoOn _ _)
    · exact h.enter (hgoOn _ _)
    · rename_i contribution _
      split
      · exact h.enter (hgoOn _ _)
      · rename_i published eventStore hcommit
        let recorded : Commit ι J := ⟨i, none, contribution.toList⟩
        have hcommits : ({ s with eventStore, commits := recorded :: s.commits } :
            State ι J Infra).commits = recorded :: s.commits := rfl
        refine h.move rfl ?_ ?_ ?_ ?_ ?_
        · intro j hj
          have hothers := commitsBy_cons hcommits j
          rw [if_neg (Ne.symm hj)] at hothers
          exact ⟨hothers, rfl, rfl, Advances.refl _⟩
        · have hown := commitsBy_cons hcommits i
          rw [if_pos rfl] at hown
          refine ⟨⟨?_, fun hmode => absurd hmode hbestEffort⟩,
            fun hmode => absurd hmode hbestEffort⟩
          rw [hown, List.filter_cons_of_neg (by simp [recorded])]
          exact hdone.1
        · intro sagaId
          have hbefore := h.sagas sagaId
          unfold Serialized at hbefore ⊢
          rw [committedFor_cons hcommits, if_neg (by simp [recorded])]
          exact hbefore
        · exact streams_of_commit h hcommit hcommits
        · intro commit hmem uow huow
          obtain rfl | hmem := List.mem_cons.mp hmem
          · cases huow
          · exact h.targets commit hmem uow huow

theorem invariant_step {action : Action ι J Infra} (h : Invariant domain sagaName events start s)
    (hstep : step domain sagaName events s action = some t) :
    Invariant domain sagaName events start t := by
  have hphase := h.phases action.execution
  unfold step at hstep
  dsimp only at hstep
  split at hstep
  case h_1 hcalled =>
      obtain rfl := Option.some.inj hstep
      exact invariant_load h hcalled
  case h_2 hloaded =>
      obtain rfl := Option.some.inj hstep
      exact invariant_handle h hloaded
  case h_3 hworking =>
      obtain rfl := Option.some.inj hstep
      exact invariant_enlistCommand h hworking
  case h_4 hworking =>
      obtain rfl := Option.some.inj hstep
      exact invariant_commit h hworking
  case h_5 hworking =>
      obtain rfl := Option.some.inj hstep
      rw [hworking] at hphase
      exact h.enter (.inl hphase.1)
  case h_6 event rest andThen hpublishing =>
      obtain rfl := Option.some.inj hstep
      rw [hpublishing] at hphase
      refine h.move rfl ?_ ?_ ?_ ?_ ?_
      · intro j hj
        exact ⟨rfl, rfl, Function.update_of_ne hj _ _, Advances.refl _⟩
      · exact hphase
      · exact h.sagas
      · exact h.streams
      · exact h.targets
  case h_7 hpublishing =>
      obtain rfl := Option.some.inj hstep
      exact invariant_executeCommand h hpublishing
  case h_8 hpublishing =>
      obtain rfl := Option.some.inj hstep
      rw [hpublishing] at hphase
      exact h.enter (.inr hphase.1)
  case h_9 => cases hstep

theorem invariant_of_run
    (h : Machine.Reaches (step domain sagaName events) { eventStore := start } s) :
    Invariant domain sagaName events start s :=
  h.inv invariant_start fun _ _ _ hbefore _ hstep => invariant_step hbefore hstep

/-! ## Serializability -/

theorem untouched_or_done_of_phaseOk (h : PhaseOk domain sagaName events s i phase) :
    Untouched s i ∨ Done domain sagaName s i := by
  cases phase with
  | called => exact .inl h.1
  | loaded => exact .inl h.1
  | working => exact .inl h.1
  | publishing => exact .inr h.1
  | settled => exact h

/-- What is to be seen of an execution in a reachable state. -/
theorem Invariant.untouched_or_done (h : Invariant domain sagaName events start s) (i : ι) :
    Untouched s i ∨ Done domain sagaName s i :=
  untouched_or_done_of_phaseOk (h.phases i)

theorem Done.committed (h : Done domain sagaName s i) : s.Committed i := by
  have hlength := h.1
  have hne : (s.commitsBy i).filter (fun commit => commit.saga.isSome) ≠ [] := by
    intro hnil
    simp [hnil] at hlength
  obtain ⟨commit, hcommit⟩ := List.exists_mem_of_ne_nil _ hne
  obtain ⟨hmem, hsome⟩ := List.mem_filter.mp hcommit
  exact ⟨commit, hmem, hsome⟩

theorem Untouched.not_committed (h : Untouched s i) : ¬ s.Committed i := by
  rintro ⟨commit, hmem, -⟩
  rw [h.1] at hmem
  exact absurd hmem List.not_mem_nil

theorem mem_commitsBy {commit : Commit ι J} :
    commit ∈ s.commitsBy i ↔ commit ∈ s.commits ∧ commit.execution = i := by
  rw [State.commitsBy, List.mem_filter, decide_eq_true_eq]

/-- An execution is in the history of an instance at most once. -/
theorem Invariant.nodup_committedFor (h : Invariant domain sagaName events start s)
    (sagaId : ID) : (s.committedFor sagaId).Nodup := by
  rw [List.nodup_iff_count_le_one]
  intro i
  have hcount : (s.committedFor sagaId).count i ≤
      ((s.commitsBy i).filter fun commit => commit.saga.isSome).length := by
    rw [State.committedFor, State.commitsBy, List.count_eq_countP, List.countP_map,
      List.countP_filter, List.countP_reverse, ← List.countP_eq_length_filter,
      List.countP_filter]
    apply List.countP_mono_left
    intro commit _ hcommit
    simp only [Function.comp_apply, Bool.and_eq_true, beq_iff_eq] at hcommit
    obtain ⟨hexecution, hsaga⟩ := hcommit
    cases hsome : commit.saga with
    | none => simp [hsome] at hsaga
    | some uow => simp [hexecution]
  cases h.untouched_or_done i with
  | inl huntouched =>
      rw [huntouched.1] at hcount
      exact hcount.trans (Nat.zero_le 1)
  | inr hdone => exact hcount.trans hdone.1.le

/-- The history of an instance is made of the executions that have committed and whose
event belongs to it. -/
theorem Invariant.mem_committedFor (h : Invariant domain sagaName events start s)
    (sagaId : ID) (i : ι) :
    i ∈ s.committedFor sagaId ↔
      s.Committed i ∧ Concerns domain sagaName (events i) sagaId := by
  have hmem : i ∈ s.committedFor sagaId ↔ ∃ commit ∈ s.commitsBy i,
      ∃ uow ∈ commit.saga, uow.sagaId.render = sagaId.render := by
    simp only [State.committedFor, List.mem_map, List.mem_filter, List.mem_reverse,
      mem_commitsBy]
    constructor
    · rintro ⟨commit, ⟨hmem, hany⟩, rfl⟩
      obtain ⟨uow, huow, hid⟩ := (Option.any_eq_true _ _).mp hany
      exact ⟨commit, ⟨hmem, rfl⟩, uow, huow, of_decide_eq_true hid⟩
    · rintro ⟨commit, ⟨hmem, rfl⟩, uow, huow, hid⟩
      exact ⟨commit, ⟨hmem, (Option.any_eq_true _ _).mpr ⟨uow, huow, decide_eq_true hid⟩⟩, rfl⟩
  rw [hmem]
  constructor
  · rintro ⟨commit, hcommit, uow, huow, hid⟩
    obtain ⟨hstored, rfl⟩ := mem_commitsBy.mp hcommit
    obtain ⟨onEntry, id, hon, hentry, hrender⟩ := h.targets commit hstored uow huow
    have hsome : commit.saga.isSome := by
      rw [Option.mem_def.mp huow]
      rfl
    exact ⟨⟨commit, hcommit, hsome⟩, onEntry, id, hon, hentry, hrender.trans hid⟩
  · rintro ⟨⟨commit, hcommit, hsome⟩, onEntry, id, hon, hentry, hrender⟩
    obtain ⟨uow, huow⟩ := Option.isSome_iff_exists.mp hsome
    obtain ⟨hstored, rfl⟩ := mem_commitsBy.mp hcommit
    obtain ⟨onEntry', id', hon', hentry', hrender'⟩ := h.targets commit hstored uow huow
    obtain rfl := Option.some.inj (hon.symm.trans hon')
    obtain rfl := Except.ok.inj (hentry.symm.trans hentry')
    exact ⟨commit, hcommit, uow, huow, hrender'.symm.trans hrender⟩

/-- In every reachable state a saga instance has the version and the state of the
executions that have committed it, in the order of their commits; an atomic execution
persists the changes of its commands exactly if it commits; and one that has not
committed has published nothing. -/
theorem sagas_serializable (domain : Domain J Infra) (sagaName : String)
    (events : ι → Event J) (start : EventStore J) (s : State ι J Infra)
    (h : Machine.Reaches (step domain sagaName events) { eventStore := start } s) :
    (∀ sagaId,
      Serialized domain sagaName events s sagaId ∧
      (s.committedFor sagaId).Nodup ∧
      ∀ i, i ∈ s.committedFor sagaId ↔
        s.Committed i ∧ Concerns domain sagaName (events i) sagaId) ∧
    (∀ key, EventStore.stream s.eventStore key =
      EventStore.stream start key ++ s.changesOf key) ∧
    ((domain.sagas sagaName).atomicity.getD .atomic = .atomic → ∀ i,
      (s.Committed i → s.changesBy i = s.enlisted i) ∧
      (¬ s.Committed i → s.changesBy i = [])) ∧
    ∀ i, ¬ s.Committed i → s.published i = [] ∧ s.changesBy i = [] := by
  have hinv := invariant_of_run h
  have hnothing (i : ι) (hi : ¬ s.Committed i) : s.published i = [] ∧ s.changesBy i = [] := by
    cases hinv.untouched_or_done i with
    | inl huntouched =>
        refine ⟨huntouched.2, ?_⟩
        rw [State.changesBy, huntouched.1]
        rfl
    | inr hdone => exact absurd hdone.committed hi
  refine ⟨fun sagaId => ?_, hinv.streams, fun hatomic i => ⟨fun hi => ?_, fun hi => ?_⟩,
    hnothing⟩
  · exact ⟨hinv.sagas sagaId, hinv.nodup_committedFor sagaId, hinv.mem_committedFor sagaId⟩
  · cases hinv.untouched_or_done i with
    | inl huntouched => exact absurd hi huntouched.not_committed
    | inr hdone => exact hdone.2 hatomic
  · exact (hnothing i hi).2

end Preservation

/-- Two executions load the same state; the one that commits first is the history. -/
theorem sagas_serializable_race :
    ∃ s : State Bool Noddde.Sample.Value Unit,
      Machine.Reaches (step Sample.domain "Echo" fun _ => Noddde.Sample.event "Added" (some 1))
        { eventStore := ∅ } s ∧
      s.committedFor (.string "1") = [true] ∧ ¬ s.Committed false ∧ s.published false = [] := by
  have hplay : (Machine.play
      (step Sample.domain "Echo" fun _ => Noddde.Sample.event "Added" (some 1))
      Sample.race ({ eventStore := ∅ } : State Bool Noddde.Sample.Value Unit)).any (fun s =>
        s.committedFor (.string "1") = [true]) := by
    decide +kernel
  obtain ⟨s, hs, hcommitted⟩ := (Option.any_eq_true _ _).mp hplay
  have hreaches := Machine.run_of_play (C := fun _ _ => True) (fun _ _ _ => trivial) hs
  have hserial := sagas_serializable _ _ _ _ s hreaches
  have hfalse : ¬ s.Committed false := fun hcommit => by
    have hmem := ((hserial.1 (.string "1")).2.2 false).mpr
      ⟨hcommit, _, _, rfl, rfl, rfl⟩
    rw [of_decide_eq_true hcommitted] at hmem
    cases List.mem_singleton.mp hmem
  exact ⟨s, hreaches, of_decide_eq_true hcommitted, hfalse, (hserial.2.2.2 false hfalse).1⟩

end Noddde.Delivery.SagaExecutor
