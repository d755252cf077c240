import Noddde.Proofs.Commit
/-!
# The engine as a transition system

`Step` says once what a segment of the engine can do to the world, with what is
known when it runs: what the world and the history say of whoever it serves.  The
threads of a process only make such steps (`Walk`), and every safety property
is an invariant of the steps.
-/

namespace Noddde

variable {J Infra : Type}

/-! ## Subjects -/

/-- What a step serves: the caller of a dispatch, the lifecycle of the dispatch, the lock
that it asks for, a unit of work, or a poll of the relay. -/
inductive Subject where
  | call (d : Origin)
  | dispatch (d : Origin)
  | lock (d : Origin)
  | unit (u : UowRef)
  | poll (n : Nat)
  deriving DecidableEq, Repr

def Subject.tid : Subject → Tid
  | .call d => d.tid
  | .dispatch d => d.tid
  | .lock d => d.tid
  | .unit u => u.owner
  | .poll n => .relay n

/-- The unit of work that a dispatch has joined, if its lifecycle runs on `u`. -/
def UowRef.joined (u : UowRef) : Option UowRef := if u.implicit then none else some u

def Subject.lifecycle (d : Origin) (u : UowRef) : Subject :=
  if u.implicit then .unit u else .dispatch d

def Obs.subject : Obs J → Option Subject
  | .started task _ => some (.call task.dispatch)
  | .settled d _ => some (.call d)
  | .skipped d | .registered _ d (.saveSnapshot ..) => some (.dispatch d)
  | .loadedSnapshot task u _ | .loadedEvents task u _ _ | .loadedState task u _
  | .decided task u _ _ | .contributed task u _ _ _ => some (.lifecycle task.dispatch u)
  | .enlisted u (some d) _ => some (.lifecycle d u)
  | .enlisted u none _ | .executed u _ | .refused u _ _ | .committed u _
  | .commitRejected u _ | .rolledBack u | .hooksTaken u _ _ _ | .hookRan u _ _
  | .fnSettled u _ | .followUpSettled u _ | .dispatchCalled (some u) _
  | .dispatchResolved (some u) _ | .dispatchRejected (some u) _ _ => some (.unit u)
  | .acquireCalled ticket _ | .lockGranted ticket _ | .lockTimedOut ticket _ =>
      some (.lock ticket.dispatch)
  | .registered _ d (.release ..) => some (.lock d)
  | .released ticket _ => match ticket.uow with
      | some u => some (.unit u)
      | none => some (.lock ticket.dispatch)
  | .acquired .. | .batchLoaded _ | .dispatchCalled none _ | .dispatchResolved none _
  | .dispatchRejected none _ _ => none

/-- What the history says of one subject. -/
def about (x : Subject) (h : List (Obs J)) : List (Obs J) :=
  h.filter fun o => o.subject = some x

/-! ## Reading the history -/

section History

variable (u : UowRef)

def ranIn : List (Obs J) → List (Operation J)
  | [] => []
  | .executed v operation :: rest => if v = u then ranIn rest ++ [operation] else ranIn rest
  | _ :: rest => ranIn rest

def calledIn : List (Obs J) → List (Event J)
  | [] => []
  | .dispatchCalled (some v) event :: rest =>
      if v = u then calledIn rest ++ [event] else calledIn rest
  | _ :: rest => calledIn rest

def resolvedIn : List (Obs J) → List (Event J)
  | [] => []
  | .dispatchResolved (some v) event :: rest =>
      if v = u then resolvedIn rest ++ [event] else resolvedIn rest
  | _ :: rest => resolvedIn rest

end History

def Begun (task : Task J) (u : UowRef) (h : List (Obs J)) : Prop :=
  .started task u.joined ∈ h ∧ (u.implicit = true → ∃ k, u = .attempt task.dispatch k)

def LoadedBy (task : Task J) (u : UowRef) (loaded : Loaded J) (h : List (Obs J)) : Prop :=
  (∃ stream, .loadedEvents task u (.ok loaded) stream ∈ h) ∨ .loadedState task u loaded ∈ h

/-- The call of `acquire` with this ticket has resolved. -/
def Granted (ticket : Ticket) (key : String) (h : List (Obs J)) : Prop :=
  .acquired ticket key ∈ h ∨ .lockGranted ticket key ∈ h

/-- The release of a lock is left to the completion hooks of the unit of work. -/
def ReleaseRegistered (task : Task J) (uow : UowRef) (h : List (Obs J)) : Prop :=
  .registered uow task.dispatch
    (.release ⟨task.dispatch, some uow⟩ task.aggregateName task.aggregateId) ∈ h

variable (wiring : Wiring J Infra)

/-- A pessimistic lifecycle of `task` on `u` runs under its lock, before its dispatch
settles. -/
def Guarded (task : Task J) (u : UowRef) (h : List (Obs J)) : Prop :=
  ∀ timeoutMs, wiring.concurrency.resolve task.aggregateName = .pessimistic timeoutMs →
    Granted ⟨task.dispatch, u.joined⟩ task.key h ∧ (∀ e, .settled task.dispatch e ∉ h) ∧
      match u.joined with
      | none => .released ⟨task.dispatch, none⟩ task.key ∉ h
      | some uow => ReleaseRegistered task uow h

/-- The lock that a dispatch asked for is on its way back. -/
def LockDone (task : Task J) (uow : Option UowRef) (h : List (Obs J)) : Prop :=
  ∀ key, .acquireCalled ⟨task.dispatch, uow⟩ key ∈ h →
    key = task.key ∧ (.lockTimedOut ⟨task.dispatch, uow⟩ key ∈ h ∨
      Granted ⟨task.dispatch, uow⟩ key h ∧
        match uow with
        | none => .released ⟨task.dispatch, none⟩ key ∈ h ∨ wiring.releaseMayReject = true
        | some u => ReleaseRegistered task u h)

/-- Nothing throws after the contribution: neither a view id extractor nor the
snapshot strategy. -/
def Completes (task : Task J) (loaded : Loaded J) (newEvents events : List (Event J)) :
    Prop :=
  Extractable wiring events ∧
    (loaded.isEventSourced = true → ∀ strategy,
      wiring.snapshots task.aggregateName = some strategy →
        (strategy (loaded.version + newEvents.length) loaded.lastSnapshotVersion
          (loaded.version + newEvents.length - loaded.lastSnapshotVersion)).isOk = true)

/-- The contributions of one subject, newest first, each with whether it completes. -/
def contributionsIn : List (Obs J) → List Prop
  | [] => []
  | .contributed task _ loaded newEvents events :: rest =>
      Completes wiring task loaded newEvents events :: contributionsIn rest
  | _ :: rest => contributionsIn rest

/-- How a dispatch that joined a unit of work settles: it resolves as a duplicate,
or when its last contribution, and no earlier one, is complete. -/
def Fate (d : Origin) (error : Option Err) (h : List (Obs J)) : Prop :=
  match error with
  | some _ => ∀ complete ∈ contributionsIn wiring (about (.dispatch d) h), ¬ complete
  | none =>
      (.skipped d ∈ h ∧ contributionsIn wiring (about (.dispatch d) h) = []) ∨
      ∃ complete earlier, contributionsIn wiring (about (.dispatch d) h) = complete :: earlier ∧
        complete ∧ ∀ incomplete ∈ earlier, ¬ incomplete

def Pending (task : Task J) (u : UowRef) (pending : PendingSnapshot J)
    (h : List (Obs J)) : Prop :=
  ∃ loaded newEvents events, loaded.isEventSourced = true ∧
    .contributed task u loaded newEvents events ∈ h ∧
    pending.aggregateName = task.aggregateName ∧ pending.aggregateId = task.aggregateId ∧
    pending.snapshot.version = loaded.version + newEvents.length ∧
    (task.aggregate wiring).applyEvents loaded.currentState newEvents =
      .ok pending.snapshot.state

/-! ## Assertions about units of work -/

/-- The attempts of `d` before the `k`-th have failed, the others are still to come. -/
structure Ready (d : Origin) (k : Nat) (w : World J) : Prop where
  failed : ∀ j < k, (w.uows (.attempt d j)).outcome = some false
  unused : ∀ j, k ≤ j → w.uows (.attempt d j) = {}
  unsettled : ∀ e, .settled d e ∉ w.history

/-- Nothing is known of `d` yet. -/
structure Fresh (d : Origin) (w : World J) : Prop where
  uncalled : about (.call d) w.history = []
  noted : about (.dispatch d) w.history = []
  unlocked : about (.lock d) w.history = []
  unused : ∀ k, w.uows (.attempt d k) = {}

/-- No attempt of `d` is under way. -/
def Over (d : Origin) (w : World J) : Prop :=
  ∀ k, (w.uows (.attempt d k)).created = true → (w.uows (.attempt d k)).outcome ≠ none

/-- The commit of `u` is under way, with `rest` still to run. -/
structure Running (u : UowRef) (rest : List (Operation J)) (w : World J) : Prop where
  completed : (w.uows u).completed = true
  outcome : (w.uows u).outcome = none
  operations : (w.uows u).operations = (w.uows u).executed ++ rest

/-- The events that `u` has committed are being published, one after another. -/
structure Publishing (u : UowRef) (rest : List (Event J)) (w : World J) : Prop where
  committed : .committed u (calledIn u w.history ++ rest) ∈ w.history
  accepted : ∀ event e, .dispatchRejected (some u) event e ∉ w.history
  hooks : u.implicit = false → ∃ within hooks, .hooksTaken u true within hooks ∈ w.history

def Hook.isRelease : Hook J → Bool
  | .release .. => true
  | .saveSnapshot .. => false

/-- The observation is about the publishing of the events of `u`. -/
def Obs.publishes (u : UowRef) : Obs J → Bool
  | .dispatchCalled (some v) _ | .dispatchResolved (some v) _
  | .dispatchRejected (some v) _ _ => v = u
  | _ => false

/-- The events of `u` have not been handed to the bus. -/
def Quiet (u : UowRef) (w : World J) : Prop :=
  ∀ o ∈ about (.unit u) w.history, o.publishes u = false

/-- It is the turn of `hook`: no hook has rejected, and nothing has been published. -/
structure HookTurn (u : UowRef) (hook : Hook J) (w : World J) : Prop where
  head : (w.frames u).running.head? = some hook
  accepted : ∀ hook e, .hookRan u hook (some e) ∉ w.history
  quiet : Quiet u w

/-! ## The store part and the control part of the world -/

/-- The control part of the world is as it was: only a store has changed. -/
structure SameControl (s t : World J) : Prop where
  uows : t.uows = s.uows
  hooks : t.hooks = s.hooks
  frames : t.frames = s.frames
  locks : t.locks = s.locks
  snapshotStore : t.snapshotStore = s.snapshotStore
  uuids : t.uuids = s.uuids
  history : t.history = s.history

theorem Stores.control {wiring : Wiring J Infra} {s t : World J} {operation : Operation J}
    (h : Stores wiring operation s t) : SameControl s t := by
  cases operation <;> simp only [Stores] at h
  case saveEvents => obtain ⟨_, _, rfl⟩ := h; exact ⟨rfl, rfl, rfl, rfl, rfl, rfl, rfl⟩
  case saveState => obtain ⟨_, _, rfl⟩ := h; exact ⟨rfl, rfl, rfl, rfl, rfl, rfl, rfl⟩
  case saveIdempotency => obtain ⟨_, _, rfl⟩ := h; exact ⟨rfl, rfl, rfl, rfl, rfl, rfl, rfl⟩
  case updateView => obtain ⟨_, rfl⟩ := h; exact ⟨rfl, rfl, rfl, rfl, rfl, rfl, rfl⟩
  case saveOutbox => subst h; exact ⟨rfl, rfl, rfl, rfl, rfl, rfl, rfl⟩
  case saveSaga => obtain ⟨_, _, rfl⟩ := h; exact ⟨rfl, rfl, rfl, rfl, rfl, rfl, rfl⟩

theorem Refuses.control {wiring : Wiring J Infra} {s t : World J} {operation : Operation J} {e : Err}
    (h : Refuses wiring operation e s t) : SameControl s t := by
  cases operation <;> simp only [Refuses] at h
  case saveEvents => obtain ⟨_, rfl⟩ := h; exact ⟨rfl, rfl, rfl, rfl, rfl, rfl, rfl⟩
  case saveState => obtain ⟨_, rfl⟩ := h; exact ⟨rfl, rfl, rfl, rfl, rfl, rfl, rfl⟩
  case saveIdempotency => obtain ⟨_, _, rfl⟩ := h; exact ⟨rfl, rfl, rfl, rfl, rfl, rfl, rfl⟩
  case updateView => subst h; exact ⟨rfl, rfl, rfl, rfl, rfl, rfl, rfl⟩
  case saveSaga => obtain ⟨_, rfl⟩ := h; exact ⟨rfl, rfl, rfl, rfl, rfl, rfl, rfl⟩

theorem World.uows_setUow_ne {u v : UowRef} (f : UnitOfWork J → UnitOfWork J) (s : World J)
    (h : v ≠ u) : (s.setUow u f).uows v = s.uows v := by
  simp [World.setUow, Function.update_of_ne h]

theorem World.uows_setUow_self {u : UowRef} (f : UnitOfWork J → UnitOfWork J) (s : World J) :
    (s.setUow u f).uows u = f (s.uows u) := by
  simp [World.setUow]

/-! The unit of work `u` after each step of its commit. -/

theorem World.uow_committing (u : UowRef) (s : World J) :
    (s.committing u).uows u = { s.uows u with completed := true } :=
  Function.update_self ..

theorem Stores.uow_ran {wiring : Wiring J Infra} {s t : World J} {operation : Operation J}
    (h : Stores wiring operation s t) (u : UowRef) :
    (t.ran u operation).uows u =
      { s.uows u with executed := (s.uows u).executed ++ [operation] } := by
  rw [← h.control.uows]
  exact Function.update_self ..

theorem Refuses.uow_refused {wiring : Wiring J Infra} {s t : World J} {operation : Operation J}
    {e : Err} (h : Refuses wiring operation e s t) (u : UowRef) :
    (t.refused u operation e).uows u = { s.uows u with outcome := some false } := by
  rw [← h.control.uows]
  exact Function.update_self ..

theorem World.uow_committed (u : UowRef) (s : World J) :
    (s.committed u).uows u = { s.uows u with outcome := some true } :=
  Function.update_self ..

theorem World.uow_commitRejected (u : UowRef) (e : Err) (s : World J) :
    (s.commitRejected u e).uows u = { s.uows u with outcome := some false } :=
  Function.update_self ..

theorem World.uow_rolledBack (u : UowRef) (s : World J) :
    (s.rolledBack u).uows u =
      { s.uows u with
        completed := true, operations := [], pendingEvents := [], outcome := some false } :=
  Function.update_self ..

namespace Locker

variable (ticket : Ticket) (aggregateName : String) (aggregateId : ID) (s : World J)

/-- The lock has been asked for: other fields than the locks and the history stay. -/
theorem enter_eq : ∃ locks history,
    (enter ticket aggregateName aggregateId s).2 = { s with locks, history } := by
  unfold enter
  dsimp only
  split <;> exact ⟨_, _, rfl⟩

theorem release_eq : ∃ locks history,
    (release ticket aggregateName aggregateId s).2 = { s with locks, history } := by
  unfold release
  dsimp only
  split
  · exact ⟨_, _, rfl⟩
  · split <;> exact ⟨_, _, rfl⟩

theorem enter_uows : (enter ticket aggregateName aggregateId s).2.uows = s.uows := by
  obtain ⟨_, _, h⟩ := enter_eq ticket aggregateName aggregateId s
  rw [h]

theorem enter_frames : (enter ticket aggregateName aggregateId s).2.frames = s.frames := by
  obtain ⟨_, _, h⟩ := enter_eq ticket aggregateName aggregateId s
  rw [h]

theorem release_uows : (release ticket aggregateName aggregateId s).2.uows = s.uows := by
  obtain ⟨_, _, h⟩ := release_eq ticket aggregateName aggregateId s
  rw [h]

theorem release_frames : (release ticket aggregateName aggregateId s).2.frames = s.frames := by
  obtain ⟨_, _, h⟩ := release_eq ticket aggregateName aggregateId s
  rw [h]

end Locker

/-! ## Steps that only make an observation -/

structure Loads (task : Task J) (u : UowRef) (w : World J) : Prop where
  begun : Begun task u w.history
  guarded : Guarded wiring task u w.history
  created : u.implicit = true → (w.uows u).created = true
  isOpen : u.implicit = true → (w.uows u).completed = false

def Justified [JsValue J] (s : World J) : Obs J → Prop
  | .started task uow =>
      Fresh task.dispatch s ∧ ∀ u ∈ uow, u.implicit = false ∧ (s.uows u).created = true
  | .settled d error =>
      Over d s ∧ (∀ e, .settled d e ∉ s.history) ∧
        ∃ task uow, task.dispatch = d ∧ .started task uow ∈ s.history ∧
          LockDone wiring task uow s.history ∧
          match uow with
          | some _ => Fate wiring d error s.history
          | none => error = none →
              .skipped d ∈ s.history ∨ ∃ k, (s.uows (.attempt d k)).outcome = some true
  | .loadedSnapshot task u snapshot =>
      Loads wiring task u s ∧
        snapshot = s.snapshotStore.load task.aggregateName task.aggregateId ∧
        ∃ strategy, wiring.snapshots task.aggregateName = some strategy
  | .loadedEvents task u loaded stream =>
      Loads wiring task u s ∧
        (∃ partialLoad, wiring.persistence task.aggregateName =
          some (.eventSourced partialLoad)) ∧
        stream = s.eventStore.load task.aggregateName task.aggregateId ∧
        ∃ start base,
          (start = (task.aggregate wiring).initialState ∧ base = 0 ∨
            .loadedSnapshot task u (some ⟨start, base⟩) ∈ s.history) ∧
          loaded = ((task.aggregate wiring).replayFrom start (stream.drop base)).map
            fun currentState =>
              ⟨currentState, base + (stream.drop base).length, true, base⟩
  | .loadedState task u loaded =>
      Loads wiring task u s ∧
        wiring.persistence task.aggregateName = some .stateStored ∧
        ∃ stateResult, stateResult =
            StateStore.load s.stateStore task.aggregateName task.aggregateId ∧
          loaded = ⟨nullishCoalesce (stateResult.map (·.state))
            (task.aggregate wiring).initialState, (stateResult.map (·.version)).getD 0,
            false, 0⟩
  | .decided task u state newEvents =>
      Begun task u s.history ∧ (∃ loaded, LoadedBy task u loaded s.history ∧
        loaded.currentState = state) ∧
        ∃ handler infra, (task.aggregate wiring).decide task.command.name = some handler ∧
          newEvents = (handler task.command state infra).map OneOrMany.toArray
  | .lockGranted ticket key =>
      .acquireCalled ticket key ∈ s.history ∧ ticket ∉ (s.locks key).queue ∧
        .lockTimedOut ticket key ∉ s.history
  | .dispatchCalled (some u) event =>
      (∃ rest, Publishing u (event :: rest) s) ∧
        resolvedIn u s.history = calledIn u s.history
  | .dispatchResolved (some u) event | .dispatchRejected (some u) event _ =>
      (∃ rest, Publishing u rest s) ∧
        calledIn u s.history = resolvedIn u s.history ++ [event]
  | .dispatchCalled none event =>
      ∃ entries, .batchLoaded entries ∈ s.history ∧ ∃ entry ∈ entries, entry.event = event
  | .dispatchResolved none event | .dispatchRejected none event _ =>
      .dispatchCalled none event ∈ s.history
  | .batchLoaded entries => ∃ batchSize, entries = s.outboxStore.loadUnpublished batchSize
  | .hookRan u hook error =>
      error ≠ none ∧ wiring.releaseMayReject = true ∧ hook.isRelease = true ∧ HookTurn u hook s
  | .fnSettled u _ =>
      u.implicit = false ∧ (s.uows u).outcome = none ∧ ∀ e, .fnSettled u e ∉ s.history
  | .followUpSettled u _ =>
      u.implicit = false ∧ Publishing u [] s ∧
        resolvedIn u s.history = calledIn u s.history
  | _ => False

/-! ## Steps -/

/-- A unit of work may be created now. -/
def Creates (u : UowRef) (w : World J) : Prop :=
  match u with
  | .attempt d k => Ready d k w ∧ ∃ task, task.dispatch = d ∧
      .started task none ∈ w.history ∧ Guarded wiring task (.attempt d k) w.history
  | u => (w.uows u).created = false ∧ about (.unit u) w.history = []

structure Contributes (task : Task J) (u : UowRef) (c : Contribution J) (uuids : Nat)
    (w : World J) : Prop where
  begun : Begun task u w.history
  guarded : Guarded wiring task u w.history
  unsettled : ∀ e, .settled task.dispatch e ∉ w.history
  isOpen : (w.uows u).completed = false
  first : u.implicit = true → (w.uows u).operations = [] ∧ (w.uows u).pendingEvents = []
  created : u.implicit = true → (w.uows u).created = true
  tries : u.implicit = false → ∀ complete ∈ contributionsIn wiring
    (about (.dispatch task.dispatch) w.history), ¬ complete
  once : u.implicit = false → ∀ timeoutMs,
    wiring.concurrency.resolve task.aggregateName = .pessimistic timeoutMs →
      contributionsIn wiring (about (.dispatch task.dispatch) w.history) = []
  loaded : LoadedBy task u c.loaded w.history
  decided : .decided task u c.loaded.currentState (.ok c.newEvents) ∈ w.history
  computed : c.Computed wiring task w.uuids uuids

def World.checked (ttlMs : Option Nat) (now : Nat) (commandId : ID) (task : Task J)
    (w : World J) : World J :=
  let found := w.idempotencyStore.exists' ttlMs now commandId
  let w := { w with idempotencyStore := found.2 }
  if found.1 then w.note (.skipped task.dispatch) else w

def World.hookEnded (u : UowRef) (hook : Hook J) (w : World J) : World J :=
  (w.setFrame u fun frame => { frame with running := frame.running.tail }).note
    (.hookRan u hook none)

def World.savedSnapshot (aggregateName : String) (aggregateId : ID) (snapshot : Snapshot J)
    (w : World J) : World J :=
  { w with snapshotStore := w.snapshotStore.save aggregateName aggregateId snapshot }

inductive Step [JsValue J] : Subject → World J → World J → Prop
  | idle {x : Subject} {s : World J} : Step x s s
  | noted {x : Subject} {s : World J} {o : Obs J}
      (subject : o.subject = some x ∨ o.subject = none) (justified : Justified wiring s o) :
      Step x s (s.note o)
  | checked {s : World J} {task : Task J} {ttlMs : Option Nat} {now : Nat} {commandId : ID}
      (command : task.command.commandId = some commandId)
      (store : wiring.idempotency = some ttlMs)
      (started : ∃ uow, .started task uow ∈ s.history) :
      Step (.dispatch task.dispatch) s (s.checked ttlMs now commandId task)
  | drawn {x : Subject} {s : World J} {uuids : Nat} (grows : s.uuids ≤ uuids) :
      Step x s { s with uuids }
  | created {s : World J} {u : UowRef} (creates : Creates wiring u s) :
      Step (.unit u) s (s.setUow u fun uow => { uow with created := true })
  | contributed {s : World J} {task : Task J} {u : UowRef} {c : Contribution J} {uuids : Nat}
      (contributes : Contributes wiring task u c uuids s) :
      Step (.lifecycle task.dispatch u) s (s.contributed wiring task u c uuids)
  | enlistedSaga {s : World J} {n : Nat} {sagaName : String} {sagaId : ID} {state : J}
      {expectedVersion : Nat} (isOpen : (s.uows (.saga n)).completed = false) :
      Step (.unit (.saga n)) s
        (s.enlistAll (.saga n) none [.saveSaga sagaName sagaId state expectedVersion])
  | committing {s : World J} {u : UowRef} (isOpen : (s.uows u).completed = false)
      (implicit : u.implicit = true → (s.uows u).operations ≠ [])
      (explicit : u.implicit = false → .fnSettled u none ∈ s.history) :
      Step (.unit u) s (s.committing u)
  | ran {s t : World J} {u : UowRef} {operation : Operation J} {rest : List (Operation J)}
      (running : Running u (operation :: rest) s) (stores : Stores wiring operation s t) :
      Step (.unit u) s (t.ran u operation)
  | refused {s t : World J} {u : UowRef} {operation : Operation J} {e : Err}
      {rest : List (Operation J)}
      (running : Running u (operation :: rest) s) (refuses : Refuses wiring operation e s t) :
      Step (.unit u) s (t.refused u operation e)
  | committed {s : World J} {u : UowRef} (running : Running u [] s) :
      Step (.unit u) s (s.committed u)
  | commitRejected {s : World J} {u : UowRef} {e : Err} (running : Running u [] s)
      (mayReject : wiring.transactionMayReject = true) :
      Step (.unit u) s (s.commitRejected u e)
  | rolledBack {s : World J} {u : UowRef} (isOpen : (s.uows u).completed = false)
      (explicit : u.implicit = false → ∃ e, .fnSettled u (some e) ∈ s.history) :
      Step (.unit u) s (s.rolledBack u)
  | savedSnapshot {s : World J} {task : Task J} {u : UowRef} {pending : PendingSnapshot J}
      (outcome : (s.uows u).outcome = some true)
      (asked : Pending wiring task u pending s.history) :
      Step (.unit u) s
        (s.savedSnapshot pending.aggregateName pending.aggregateId pending.snapshot)
  | registeredSnapshot {s : World J} {task : Task J} {u : UowRef}
      {pending : PendingSnapshot J} (explicit : u.implicit = false)
      (begun : Begun task u s.history) (asked : Pending wiring task u pending s.history) :
      Step (.dispatch task.dispatch) s (onUowCommitted u task.dispatch (.saveSnapshot
        pending.aggregateName pending.aggregateId pending.snapshot) s).2
  | registeredRelease {s : World J} {task : Task J} {u : UowRef}
      (begun : .started task (some u) ∈ s.history)
      (granted : Granted ⟨task.dispatch, some u⟩ task.key s.history)
      (first : ¬ ReleaseRegistered task u s.history) :
      Step (.lock task.dispatch) s (onUowSettled u task.dispatch (.release
        ⟨task.dispatch, some u⟩ task.aggregateName task.aggregateId) s).2
  | entered {s : World J} {task : Task J} {uow : Option UowRef} {timeoutMs : Option Nat}
      (begun : .started task uow ∈ s.history)
      (pessimistic : wiring.concurrency.resolve task.aggregateName = .pessimistic timeoutMs)
      (first : ∀ key, .acquireCalled ⟨task.dispatch, uow⟩ key ∉ s.history)
      (unsettled : ∀ e, .settled task.dispatch e ∉ s.history) :
      Step (.lock task.dispatch) s
        (Locker.enter ⟨task.dispatch, uow⟩ task.aggregateName task.aggregateId s).2
  | timedOut {s : World J} {ticket : Ticket} {key : String}
      (queued : ticket ∈ (s.locks key).queue) (waits : .acquireCalled ticket key ∈ s.history) :
      Step (.lock ticket.dispatch) s ((s.setLock key fun entry =>
        { entry with queue := entry.queue.erase ticket }).note (.lockTimedOut ticket key))
  | released {s : World J} {task : Task J} (begun : .started task none ∈ s.history)
      (granted : Granted ⟨task.dispatch, none⟩ task.key s.history)
      (first : .released ⟨task.dispatch, none⟩ task.key ∉ s.history)
      (ended : Over task.dispatch s) :
      Step (.lock task.dispatch) s
        (Locker.release ⟨task.dispatch, none⟩ task.aggregateName task.aggregateId s).2
  | claimedHooks {s : World J} {u : UowRef} (first : (s.frames u).hooksRan = false)
      (outcome : (s.uows u).outcome ≠ none) :
      Step (.unit u) s (s.setFrame u fun frame => { frame with hooksRan := true })
  | tookHooks {s : World J} {u : UowRef} {ambient : Ambient} {committed : Bool}
      (outside : ambient.uow ≠ some u) (claimed : (s.frames u).hooksRan = true)
      (outcome : (s.uows u).outcome = some committed)
      (first : ∀ committed within hooks, .hooksTaken u committed within hooks ∉ s.history) :
      Step (.unit u) s (takeHooks ambient u committed s).2
  | ranSnapshotHook {s : World J} {u : UowRef} {aggregateName : String} {aggregateId : ID}
      {snapshot : Snapshot J} (saved : Bool)
      (turn : HookTurn u (.saveSnapshot aggregateName aggregateId snapshot) s) :
      Step (.unit u) s ((if saved then s.savedSnapshot aggregateName aggregateId snapshot
        else s).hookEnded u (.saveSnapshot aggregateName aggregateId snapshot))
  | ranReleaseHook {s : World J} {u : UowRef} {ticket : Ticket} {aggregateName : String}
      {aggregateId : ID} (joined : ticket.uow = some u)
      (turn : HookTurn u (.release ticket aggregateName aggregateId) s) :
      Step (.unit u) s ((Locker.release ticket aggregateName aggregateId s).2.hookEnded u
        (.release ticket aggregateName aggregateId))
  | setCommitted {s : World J} {u : UowRef} (outcome : (s.uows u).outcome = some true) :
      Step (.unit u) s (s.setFrame u fun frame => { frame with committed := true })
  | markedBatch {s : World J} {u : UowRef} {now : Nat} (published : Publishing u [] s)
      (resolved : resolvedIn u s.history = calledIn u s.history) :
      Step (.unit u) s { s with
        outboxStore := s.outboxStore.markPublishedByEventIds now
          ((calledIn u s.history).filterMap Event.eventId?) }
  | markedEntry {s : World J} {n now : Nat} {entries : List (OutboxEntry J)}
      {entry : OutboxEntry J} (batch : .batchLoaded entries ∈ s.history)
      (mem : entry ∈ entries) (resolved : .dispatchResolved none entry.event ∈ s.history) :
      Step (.poll n) s
        { s with outboxStore := s.outboxStore.markPublished now [entry.id] }
  | polling {s : World J} {n : Nat} {processing : Bool} :
      Step (.poll n) s { s with processing }

/-! ## What a step leaves alone -/

/-- What happens to a unit of work at the hands of others than its owner: while it is
open and explicit, it may be contributed to. -/
structure Stays (u : UowRef) (s t : World J) : Prop where
  created : (t.uows u).created = (s.uows u).created
  completed : (t.uows u).completed = (s.uows u).completed
  executed : (t.uows u).executed = (s.uows u).executed
  outcome : (t.uows u).outcome = (s.uows u).outcome
  frame : t.frames u = s.frames u
  frozen : (s.uows u).completed = true → t.uows u = s.uows u
  implicit : u.implicit = true → t.uows u = s.uows u

namespace Stays

variable {u : UowRef} {s t v : World J}

theorem refl (u : UowRef) (s : World J) : Stays u s s :=
  ⟨rfl, rfl, rfl, rfl, rfl, fun _ => rfl, fun _ => rfl⟩

theorem of_eq (huow : t.uows u = s.uows u) (hframe : t.frames u = s.frames u) :
    Stays u s t :=
  ⟨by rw [huow], by rw [huow], by rw [huow], by rw [huow], hframe, fun _ => huow,
    fun _ => huow⟩

theorem trans (hst : Stays u s t) (htv : Stays u t v) : Stays u s v where
  created := htv.created.trans hst.created
  completed := htv.completed.trans hst.completed
  executed := htv.executed.trans hst.executed
  outcome := htv.outcome.trans hst.outcome
  frame := htv.frame.trans hst.frame
  frozen h := (htv.frozen (by rw [hst.completed, h])).trans (hst.frozen h)
  implicit h := (htv.implicit h).trans (hst.implicit h)

end Stays

/-- The history grows, by observations of one subject. -/
def Adds (x : Subject) (s t : World J) : Prop :=
  ∃ new, t.history = new ++ s.history ∧ ∀ o ∈ new, o.subject = some x ∨ o.subject = none

section Frame

variable {wiring} {x y : Subject} {u : UowRef} {s t v : World J}

theorem Adds.refl : Adds x s s := ⟨[], rfl, by simp⟩

theorem Adds.of_note {o : Obs J} (h : o.subject = some x ∨ o.subject = none) :
    Adds x s (s.note o) :=
  ⟨[o], rfl, by simpa using h⟩

theorem Adds.trans (hst : Adds x s t) (htv : Adds x t v) : Adds x s v := by
  obtain ⟨new, hnew, hsubject⟩ := hst
  obtain ⟨new', hnew', hsubject'⟩ := htv
  refine ⟨new' ++ new, by rw [hnew', hnew, List.append_assoc], fun o ho => ?_⟩
  exact (List.mem_append.mp ho).elim (hsubject' o) (hsubject o)

theorem Adds.grows (h : Adds x s t) : s.history <:+ t.history := by
  obtain ⟨new, hnew, -⟩ := h
  exact ⟨new, hnew.symm⟩

theorem Adds.about (h : Adds x s t) (hy : y ≠ x) : about y t.history = about y s.history := by
  obtain ⟨new, hnew, hsubject⟩ := h
  rw [hnew, Noddde.about, List.filter_append, List.filter_eq_nil_iff.mpr, List.nil_append]
  · rfl
  · intro o ho
    rcases hsubject o ho with h | h
    · simpa [h] using fun h => hy h.symm
    · simp [h]

theorem mem_about {o : Obs J} {h : List (Obs J)} (ho : o.subject = some x) :
    o ∈ about x h ↔ o ∈ h := by
  simp [Noddde.about, ho]

theorem Locker.enter_adds (ticket : Ticket) (aggregateName : String) (aggregateId : ID) :
    Adds (.lock ticket.dispatch) s (enter ticket aggregateName aggregateId s).2 := by
  unfold enter
  dsimp only
  split
  · exact ⟨[_, _], rfl, by simp [Obs.subject]⟩
  · exact ⟨[_], rfl, by simp [Obs.subject]⟩

theorem Locker.release_adds (ticket : Ticket) (aggregateName : String) (aggregateId : ID)
    (h : ∀ key, (Obs.released ticket key : Obs J).subject = some x) :
    Adds x s (release ticket aggregateName aggregateId s).2 := by
  unfold release
  dsimp only
  split
  · exact ⟨[_], rfl, by simpa using .inl (h _)⟩
  · split
    · exact ⟨[_, _], rfl, by simpa [h] using .inr rfl⟩
    · exact ⟨[_], rfl, by simpa using .inl (h _)⟩

/-- A step adds to the history of its own subject only. -/
theorem Step.adds [JsValue J] (h : Step wiring x s t) : Adds x s t := by
  cases h with
  | idle => exact .refl
  | noted subject => exact .of_note subject
  | checked =>
      unfold World.checked
      dsimp only
      split
      · exact ⟨[_], rfl, by simp [Obs.subject]⟩
      · exact .refl
  | drawn => exact .refl
  | created => exact .refl
  | contributed =>
      refine ⟨_, World.history_contributed wiring .., fun o ho => .inl ?_⟩
      simp only [contributionNotes, List.mem_append, List.mem_reverse, List.mem_map,
        List.mem_cons] at ho
      rcases ho with ⟨_, _, rfl⟩ | rfl | ⟨_, _, rfl⟩ <;> rfl
  | enlistedSaga => exact ⟨[_], rfl, by simp [Obs.subject]⟩
  | committing => exact .refl
  | ran running stores =>
      exact ⟨[_], by rw [← stores.control.history]; rfl, by simp [Obs.subject]⟩
  | refused running refuses =>
      exact ⟨[_], by rw [← refuses.control.history]; rfl, by simp [Obs.subject]⟩
  | committed => exact ⟨[_], rfl, by simp [Obs.subject]⟩
  | commitRejected => exact ⟨[_], rfl, by simp [Obs.subject]⟩
  | rolledBack => exact ⟨[_], rfl, by simp [Obs.subject]⟩
  | savedSnapshot => exact .refl
  | registeredSnapshot => exact ⟨[_], rfl, by simp [Obs.subject]⟩
  | registeredRelease => exact ⟨[_], rfl, by simp [Obs.subject]⟩
  | entered => exact Locker.enter_adds _ _ _
  | timedOut => exact ⟨[_], rfl, by simp [Obs.subject]⟩
  | released => exact Locker.release_adds _ _ _ fun _ => rfl
  | claimedHooks => exact .refl
  | tookHooks => exact ⟨[_], rfl, by simp [Obs.subject]⟩
  | @ranSnapshotHook _ _ _ _ _ saved =>
      cases saved
      · exact ⟨[_], rfl, by simp [Obs.subject]⟩
      · exact ⟨[_], rfl, by simp [Obs.subject]⟩
  | ranReleaseHook joined =>
      refine (Locker.release_adds _ _ _ fun key => ?_).trans ⟨[_], rfl, by simp [Obs.subject]⟩
      simp [Obs.subject, joined]
  | setCommitted => exact .refl
  | markedBatch => exact .refl
  | markedEntry => exact .refl
  | polling => exact .refl

/-- A step leaves the units of work of others alone, but for contributions. -/
theorem Step.elsewhere [JsValue J] (h : Step wiring x s t) (hu : x ≠ .unit u) :
    t.frames u = s.frames u ∧ (t.uows u = s.uows u ∨ u.implicit = false ∧
      ∃ task c uuids, Contributes wiring task u c uuids s ∧
        t = s.contributed wiring task u c uuids) := by
  have hne : ∀ {v}, x = .unit v → u ≠ v := by
    rintro v rfl rfl
    exact hu rfl
  cases h with
  | idle => exact ⟨rfl, .inl rfl⟩
  | noted => exact ⟨rfl, .inl rfl⟩
  | checked =>
      unfold World.checked
      dsimp only
      split <;> exact ⟨rfl, .inl rfl⟩
  | drawn => exact ⟨rfl, .inl rfl⟩
  | created => exact ⟨rfl, .inl (World.uows_setUow_ne _ _ (hne rfl))⟩
  | @contributed _ task v c uuids contributes =>
      refine ⟨rfl, ?_⟩
      by_cases huv : u = v
      · subst huv
        refine .inr ⟨?_, task, c, uuids, contributes, rfl⟩
        by_contra himplicit
        exact hu (by simp [Subject.lifecycle, himplicit])
      · rw [World.uows_contributed, Function.update_of_ne huv]
        exact .inl rfl
  | enlistedSaga => exact ⟨rfl, .inl (by simp [World.enlistAll, hne rfl])⟩
  | committing => exact ⟨rfl, .inl (World.uows_setUow_ne _ _ (hne rfl))⟩
  | ran running stores =>
      have hcontrol := stores.control
      refine ⟨congrFun hcontrol.frames u, .inl ?_⟩
      simp [World.ran, World.note, World.setUow, hne rfl, hcontrol.uows]
  | refused running refuses =>
      have hcontrol := refuses.control
      refine ⟨congrFun hcontrol.frames u, .inl ?_⟩
      simp [World.refused, World.note, World.setUow, hne rfl, hcontrol.uows]
  | committed =>
      exact ⟨rfl, .inl (by simp [World.committed, World.note, World.setUow, hne rfl])⟩
  | commitRejected =>
      exact ⟨rfl, .inl (by simp [World.commitRejected, World.note, World.setUow, hne rfl])⟩
  | rolledBack =>
      exact ⟨rfl, .inl (by simp [World.rolledBack, World.note, World.setUow, hne rfl])⟩
  | savedSnapshot => exact ⟨rfl, .inl rfl⟩
  | registeredSnapshot => exact ⟨rfl, .inl rfl⟩
  | registeredRelease => exact ⟨rfl, .inl rfl⟩
  | entered => exact ⟨by rw [Locker.enter_frames], .inl (by rw [Locker.enter_uows])⟩
  | timedOut => exact ⟨rfl, .inl rfl⟩
  | released => exact ⟨by rw [Locker.release_frames], .inl (by rw [Locker.release_uows])⟩
  | claimedHooks => exact ⟨by simp [World.setFrame, hne rfl], .inl rfl⟩
  | tookHooks =>
      exact ⟨by simp [takeHooks, World.note, World.setFrame, World.setHooks, hne rfl], .inl rfl⟩
  | @ranSnapshotHook _ _ _ _ _ saved =>
      cases saved <;> exact ⟨by
        simp [World.hookEnded, World.savedSnapshot, World.note, World.setFrame, hne rfl],
        .inl rfl⟩
  | @ranReleaseHook _ _ ticket aggregateName aggregateId =>
      obtain ⟨_, _, h⟩ := Locker.release_eq ticket aggregateName aggregateId s
      rw [h]
      exact ⟨by simp [World.hookEnded, World.note, World.setFrame, hne rfl], .inl rfl⟩
  | setCommitted => exact ⟨by simp [World.setFrame, hne rfl], .inl rfl⟩
  | markedBatch => exact ⟨rfl, .inl rfl⟩
  | markedEntry => exact ⟨rfl, .inl rfl⟩
  | polling => exact ⟨rfl, .inl rfl⟩

theorem Step.stays [JsValue J] (h : Step wiring x s t) (hu : x ≠ .unit u) : Stays u s t := by
  obtain ⟨hframe, huow | ⟨hexplicit, task, c, uuids, hcontributes, rfl⟩⟩ :=
    h.elsewhere hu
  · exact .of_eq huow hframe
  · have huow := congrFun (World.uows_contributed wiring task u c uuids s) u
    rw [Function.update_self] at huow
    refine ⟨?_, ?_, ?_, ?_, hframe, fun h => ?_, fun h => ?_⟩
    · rw [huow]
    · rw [huow]
    · rw [huow]
    · rw [huow]
    · simp [hcontributes.isOpen] at h
    · simp [hexplicit] at h

end Frame

end Noddde
