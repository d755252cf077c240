import Noddde.Proofs.Contribution
/-!
# What a dispatch stamps its events with

The metadata context travels with the code that runs inside its scope, past commits,
publishing and nested dispatches.  Whatever a thread contributes is enriched in the
context in which its command was dispatched.
-/

namespace Noddde

open Async

variable {J Infra : Type}

/-! ## Segments that contribute nothing else -/

def Obs.isContributed : Obs J → Bool
  | .contributed .. => true
  | _ => false

def Contributing (R : Task J → List (Event J) → Prop) (s t : World J) : Prop :=
  ∀ task u loaded newEvents events, .contributed task u loaded newEvents events ∈ t.history →
    .contributed task u loaded newEvents events ∈ s.history ∨ R task events

variable {R : Task J → List (Event J) → Prop} {s t : World J}

instance : Std.Refl (Contributing R) := ⟨fun _ _ _ _ _ _ h => .inl h⟩

instance : IsTrans (World J) (Contributing R) where
  trans _ _ _ hst htv task u loaded newEvents events h :=
    (htv task u loaded newEvents events h).elim (hst task u loaded newEvents events) .inr

namespace Contributing

theorem of_history (h : t.history = s.history) : Contributing R s t := by
  intro task u loaded newEvents events hmem
  rw [h] at hmem
  exact .inl hmem

theorem of_note {o : Obs J} (h : t.history = o :: s.history)
    (ho : o.isContributed = false) : Contributing R s t := by
  intro task u loaded newEvents events hmem
  rw [h] at hmem
  cases List.mem_cons.mp hmem with
  | inl heq =>
      rw [← heq] at ho
      cases ho
  | inr hold => exact .inl hold

theorem of_contributed {task : Task J} {u : UowRef} {loaded : Loaded J}
    {newEvents events : List (Event J)}
    (h : t.history = .contributed task u loaded newEvents events :: s.history)
    (hR : R task events) : Contributing R s t := by
  intro task' u' loaded' newEvents' events' hmem
  rw [h] at hmem
  cases List.mem_cons.mp hmem with
  | inl heq =>
      obtain ⟨rfl, -, -, -, rfl⟩ := Obs.contributed.inj heq
      exact .inr hR
  | inr hold => exact .inl hold

end Contributing

section Segments

variable (wiring : Wiring J Infra)

theorem note_every {o : Obs J} (ho : o.isContributed = false) :
    (note o).Every (Contributing R) :=
  fun _ => .of_note rfl ho

theorem modify_every {f : World J → World J} (h : ∀ w, (f w).history = w.history) :
    (Segment.modify f : Sync J Unit).Every (Contributing R) :=
  .modify fun w => .of_history (h w)

theorem assertNotCompleted_every (u : UowRef) :
    (assertNotCompleted u : Sync J Unit).Every (Contributing R) := by
  intro w
  unfold assertNotCompleted
  split
  · exact .of_history rfl
  · exact .of_history rfl

theorem enlist_every (u : UowRef) (dispatch : Option Origin) (operation : Operation J) :
    (enlist u dispatch operation).Every (Contributing R) :=
  (assertNotCompleted_every u).bind fun _ =>
    (modify_every fun _ => rfl).bind fun _ => note_every rfl

theorem deferPublish_every (u : UowRef) (events : List (Event J)) :
    (deferPublish u events).Every (Contributing R) :=
  (assertNotCompleted_every u).bind fun _ => modify_every fun _ => rfl

theorem uuidv7_every : (uuidv7 wiring : Sync J String).Every (Contributing R) :=
  fun _ => .of_history rfl

theorem orUuid_every (value : Option String) :
    (orUuid wiring value : Sync J String).Every (Contributing R) := by
  cases value with
  | some value => exact .pure value
  | none => exact uuidv7_every wiring

/-! ## Enriching -/

/-- A batch that is enriched in the metadata context `override`. -/
def Stamped (override : Option MetadataContext) (causationFallback : String)
    (events : List (Event J)) : Prop :=
  ∃ c providerCtx correlationId, providerContext wiring c = .ok providerCtx ∧
    (∀ id, (providerCtx.merge (override.getD {})).correlationId.getD none = some id →
      correlationId = id) ∧
    ∀ event ∈ events, ∃ metadata, event.metadata = some metadata ∧
      metadata.correlationId = correlationId ∧
      metadata.causationId =
        ((providerCtx.merge (override.getD {})).causationId.getD none).getD causationFallback ∧
      metadata.userId = (providerCtx.merge (override.getD {})).userId.getD none

theorem metadata_of_mem_enrichedFrom {metadata : String → Nat → Event J → EventMetadata}
    {events : List (Event J)} {uuids index : Nat} {event : Event J}
    (h : event ∈ enrichedFrom wiring metadata uuids index events) :
    ∃ id index' event', event.metadata = some (metadata id index' event') := by
  induction events generalizing uuids index with
  | nil => cases h
  | cons first rest ih =>
      rw [enrichedFrom] at h
      cases List.mem_cons.mp h with
      | inl heq =>
          subst heq
          exact ⟨_, _, _, rfl⟩
      | inr hrest => exact ih hrest

section Enrich

variable {ambient : Ambient} {c : Choice Infra} {newEvents : List (Event J)}
  {aggregateName : String} {aggregateId : ID} {version : Nat} {fallback : String}
  {eventVersion : String → Option SchemaVersion}

theorem enrich_every :
    (enrich wiring ambient c newEvents aggregateName aggregateId version fallback
      eventVersion).Every (Contributing R) := by
  refine Segment.Every.bind (.ofExcept _) fun providerCtx => ?_
  refine Segment.Every.bind (orUuid_every wiring _) fun correlationId w => ?_
  rw [enrichFrom_eq]
  exact .of_history rfl

theorem orUuid_eq {value : Option String} {w t : World J} {id : String}
    (h : orUuid wiring value w = (.ok id, t)) : ∀ id', value = some id' → id = id' := by
  rintro id' rfl
  exact (Except.ok.inj (Prod.mk.inj h).1).symm

theorem enrich_stamped {w t : World J} {events : List (Event J)}
    (h : enrich wiring ambient c newEvents aggregateName aggregateId version fallback
      eventVersion w = (.ok events, t)) : Stamped wiring ambient.metadata fallback events := by
  have hwp : (enrich wiring ambient c newEvents aggregateName aggregateId version fallback
      eventVersion).wp (fun r _ => ∀ events, r = .ok events →
        Stamped wiring ambient.metadata fallback events) w := by
    simp only [enrich, Segment.wp_bind, Segment.wp_ofExcept]
    cases hprovider : providerContext wiring c with
    | error e =>
        intro events heq
        cases heq
    | ok providerCtx =>
        dsimp only
        rcases hid : orUuid wiring
          ((providerCtx.merge (ambient.metadata.getD {})).correlationId.getD none) w
          with ⟨e | correlationId, v⟩
        · rw [Segment.wp, hid]
          intro events heq
          cases heq
        · rw [Segment.wp, hid]
          simp only [enrichFrom_wp]
          intro events heq
          obtain rfl := Except.ok.inj heq
          refine ⟨c, providerCtx, correlationId, hprovider, orUuid_eq wiring hid, ?_⟩
          intro event hmem
          obtain ⟨id, index, event', hmetadata⟩ := metadata_of_mem_enrichedFrom wiring hmem
          exact ⟨_, hmetadata, rfl, rfl, rfl⟩
  rw [Segment.wp, h] at hwp
  exact hwp events rfl

end Enrich

/-! ## Contributing -/

theorem outboxEntries_every (now : Nat) (events : List (Event J)) :
    (outboxEntries wiring now events).Every (Contributing R) := by
  induction events with
  | nil => exact .pure []
  | cons event rest ih =>
      exact (uuidv7_every wiring).bind fun id => ih.bind fun others => .pure _

variable (task : Task J) (u : UowRef)

theorem enlistViews_every (projection : Projection J Infra) (events : List (Event J)) :
    (enlistViews task u projection events).Every (Contributing R) := by
  induction events with
  | nil => exact .pure ()
  | cons event rest ih =>
      rw [enlistViews]
      split
      · exact ih
      · exact .bind (.ofExcept _) fun viewId => (enlist_every u _ _).bind fun _ => ih

theorem enlistProjections_every (events : List (Event J))
    (projections : List (Projection J Infra)) :
    (enlistProjections task u events projections).Every (Contributing R) := by
  induction projections with
  | nil => exact .pure ()
  | cons projection rest ih =>
      exact (enlistViews_every task u projection events).bind fun _ => ih

theorem onEventsProduced_every (events : List (Event J)) (c : Choice Infra) :
    (onEventsProduced wiring task u events c).Every (Contributing R) := by
  refine (enlistProjections_every task u events _).bind fun _ => ?_
  split
  · exact (outboxEntries_every wiring c.now events).bind fun entries => enlist_every u _ _
  · exact .pure ()

theorem contribute_every [JsValue J] {ambient : Ambient} (loaded : Loaded J)
    (newEvents : List (Event J)) (c : Choice Infra)
    (h : ∀ events, Stamped wiring ambient.metadata task.command.name events → R task events) :
    (contribute wiring task u ambient loaded newEvents c).Every (Contributing R) := by
  refine Segment.Every.bind (.ofExcept _) fun newState => ?_
  refine (enrich_every wiring).bind_of (fun _ _ _ heq => enrich_stamped wiring heq)
    fun events hstamped => ?_
  refine (enlist_every u _ _).bind fun _ => ?_
  have hrest : (do
      deferPublish u events
      note (.contributed task u loaded newEvents events)
      onEventsProduced wiring task u events c
      pure newState : Sync J J).Every (Contributing R) := by
    refine (deferPublish_every u events).bind fun _ => ?_
    refine Segment.Every.bind (fun _ => .of_contributed rfl (h events hstamped)) fun _ => ?_
    exact (onEventsProduced_every wiring task u events c).bind fun _ => .pure newState
  split
  · exact (enlist_every u _ _).bind fun _ => hrest
  · exact hrest

/-! ## Commit, rollback and hooks -/

theorem updating_every {update : World J → Except Err (World J)}
    (h : ∀ w w', update w = .ok w' → w'.history = w.history) :
    (updating update).Every (Contributing R) := by
  intro w
  unfold updating
  cases hupdate : update w with
  | ok w' => exact .of_history (h w w' hupdate)
  | error e => exact .of_history rfl

theorem saving_every {α : Type} {save : World J → Except Err α}
    {put : World J → α → World J}
    (h : ∀ w store, (put w store).history = w.history) :
    (updating fun w => (save w).map (put w)).Every (Contributing R) := by
  apply updating_every
  intro w w' heq
  cases hsave : save w with
  | error e =>
      rw [hsave] at heq
      cases heq
  | ok store =>
      rw [hsave] at heq
      rw [← Except.ok.inj heq]
      exact h w store

theorem finishing_every {operation : Operation J} {m : Sync J Unit}
    (h : m.Every (Contributing R)) : (finishing u operation m).Every (Contributing R) := by
  intro w
  have hw := h w
  unfold finishing
  rcases hresult : m w with ⟨e | value, t⟩
  · rw [hresult] at hw
    exact IsTrans.trans _ _ _ hw (.of_note (o := .refused u operation e) rfl rfl)
  · rw [hresult] at hw
    exact IsTrans.trans _ _ _ hw (.of_note (o := .executed u operation) rfl rfl)

variable [JsValue J]

omit [JsValue J] in
theorem beginCommit_every : (beginCommit u : Sync J _).Every (Contributing R) :=
  (assertNotCompleted_every u).bind fun _ =>
    Segment.Every.bind (modify_every fun _ => rfl) fun _ => .read _

omit [JsValue J] in
theorem endCommit_every (c : Choice Infra) :
    (endCommit wiring u c).Every (Contributing R) := by
  intro w
  unfold endCommit
  split
  · exact .of_note rfl rfl
  · exact .of_note rfl rfl

theorem reduceView_every (projection : Projection J Infra) (handler : ProjectionHandler J Infra)
    (operation : Operation J) (viewId : ID) (event : Event J) :
    (reduceView projection handler u operation viewId event).Every (Contributing R) := by
  unfold reduceView
  refine Every.bind (.segment fun _ => .read _) fun view => .segment fun c w => ?_
  cases handler.reduce event view c.infra with
  | ok newView => exact .of_history rfl
  | error e => exact .of_note rfl rfl

theorem executeOperation_every (operation : Operation J) :
    (executeOperation wiring u operation).Every (Contributing R) := by
  cases operation with
  | saveEvents aggregateName aggregateId events expectedVersion =>
      exact .segment fun _ => finishing_every u (saving_every fun _ _ => rfl)
  | saveState aggregateName aggregateId state expectedVersion =>
      exact .segment fun _ => finishing_every u (saving_every fun _ _ => rfl)
  | saveIdempotency commandId aggregateName aggregateId =>
      exact .segment fun c => finishing_every u fun _ => .of_history rfl
  | saveOutbox entries =>
      exact .segment fun _ => finishing_every u (modify_every fun _ => rfl)
  | saveSaga sagaName sagaId state expectedVersion =>
      exact .segment fun _ => finishing_every u (saving_every fun _ _ => rfl)
  | updateView projectionName viewId event =>
      rw [executeOperation]
      split
      · exact .segment fun _ => finishing_every u (.pure ())
      · exact (reduceView_every u _ _ _ viewId event).bind fun newView =>
          .segment fun _ => finishing_every u (modify_every fun _ => rfl)

theorem commit_every : (commit wiring u).Every (Contributing R) := by
  apply Every.bind (.segment fun _ => beginCommit_every u)
  intro operations
  apply Every.bind (.forEach fun operation _ => executeOperation_every wiring u operation)
  exact fun _ => .segment fun c => endCommit_every wiring u c

omit [JsValue J] in
theorem tryRollback_every : (tryRollback wiring u).Every (Contributing R) := by
  refine Every.tryCatch (.segment fun c => ?_) fun _ => trivial
  refine (assertNotCompleted_every u).bind fun _ => Segment.Every.bind ?_ fun _ => ?_
  · exact .modify fun w => .of_note (o := .rolledBack u) rfl rfl
  · split
    · exact .raise _
    · exact .pure ()

section Locks

variable (ticket : Ticket) (aggregateName : String) (aggregateId : ID)

omit [JsValue J] in
theorem release_every :
    (Locker.release ticket aggregateName aggregateId : Sync J Unit).Every (Contributing R) := by
  intro w
  have hnote : Contributing R w
      (w.note (.released ticket (compositeKey aggregateName aggregateId))) :=
    .of_note rfl rfl
  unfold Locker.release
  dsimp only
  split
  · exact hnote
  · split
    · rename_i next _ _
      refine IsTrans.trans _ _ _ hnote (.of_note (o := .acquired next _) rfl rfl)
    · exact IsTrans.trans _ _ _ hnote (.of_history rfl)

omit [JsValue J] in
theorem acquire_every (timeoutMs : Option Nat) :
    (Locker.acquire ticket aggregateName aggregateId timeoutMs : Eff J Infra Unit).Every
      (Contributing R) := by
  refine Every.bind (.segment fun _ w => ?_) fun entered => ?_
  · unfold Locker.enter
    dsimp only
    have hnote : Contributing R w
        (w.note (.acquireCalled ticket (compositeKey aggregateName aggregateId))) :=
      .of_note rfl rfl
    split
    · exact IsTrans.trans _ _ _ hnote (.of_note (o := .acquired ticket _) rfl rfl)
    · exact IsTrans.trans _ _ _ hnote (.of_history rfl)
  · split
    · trivial
    · refine Every.await fun c w r t hact => ?_
      unfold Locker.waiting at hact
      dsimp only at hact
      split at hact
      · split at hact
        · cases hact
        · split at hact
          · obtain ⟨-, rfl⟩ := Prod.mk.inj (Option.some.inj hact)
            exact .of_note rfl rfl
          · cases hact
      · obtain ⟨-, rfl⟩ := Prod.mk.inj (Option.some.inj hact)
        exact .of_note rfl rfl

variable {α : Type}

omit [JsValue J] in
theorem retryOnConflict_every {attempt : Nat → Eff J Infra α}
    (h : ∀ i, (attempt i).Every (Contributing R)) (retries i : Nat) :
    (retryOnConflict attempt retries i).Every (Contributing R) := by
  induction retries generalizing i with
  | zero => exact h i
  | succ retries ih =>
      refine Every.tryCatch (h i) fun error => ?_
      split
      · exact ih (i + 1)
      · trivial

omit [JsValue J] in
theorem strategy_every (strategy : ConcurrencyStrategy) {attempt : Nat → Eff J Infra α}
    (h : ∀ i, (attempt i).Every (Contributing R)) :
    (strategy.execute wiring ticket aggregateName aggregateId attempt).Every
      (Contributing R) := by
  unfold ConcurrencyStrategy.execute
  split
  · exact retryOnConflict_every h _ 0
  · refine (acquire_every ticket aggregateName aggregateId _).bind fun _ => ?_
    refine Every.tryFinally (h 0) (.segment fun c => ?_)
    split
    · exact .raise _
    · exact release_every ticket aggregateName aggregateId

omit [JsValue J] in
theorem onUowSettled_every (dispatch : Origin) (hook : Hook J) :
    (onUowSettled u dispatch hook).Every (Contributing R) :=
  (modify_every fun _ => rfl).bind fun _ => note_every rfl

omit [JsValue J] in
theorem onUowCommitted_every (dispatch : Origin) (hook : Hook J) :
    (onUowCommitted u dispatch hook).Every (Contributing R) :=
  (modify_every fun _ => rfl).bind fun _ => note_every rfl

omit [JsValue J] in
theorem acquireForUow_every (strategy : ConcurrencyStrategy) (dispatch : Origin)
    {acquire : Eff J Infra Unit}
    (h : strategy.acquireForUow? dispatch aggregateName aggregateId u = some acquire) :
    acquire.Every (Contributing R) := by
  have hlock : ∀ timeoutMs, (acquireLockForUow dispatch aggregateName aggregateId timeoutMs u :
      Eff J Infra Unit).Every (Contributing R) := fun timeoutMs =>
    (acquire_every _ aggregateName aggregateId timeoutMs).bind fun _ =>
      .segment fun _ => onUowSettled_every u dispatch _
  unfold ConcurrencyStrategy.acquireForUow? at h
  split at h
  · cases h
  · exact Option.some.inj h ▸ hlock _
  · split at h
    · exact Option.some.inj h ▸ trivial
    · exact Option.some.inj h ▸ hlock _

end Locks

section Hooks

omit [JsValue J] in
theorem hookEnded_every (hook : Hook J) : (hookEnded u hook).Every (Contributing R) :=
  (modify_every fun _ => rfl).bind fun _ => note_every rfl

omit [JsValue J] in
theorem runHook_every (hook : Hook J) : (runHook wiring u hook).Every (Contributing R) := by
  cases hook with
  | saveSnapshot aggregateName aggregateId snapshot =>
      refine .segment fun c => ?_
      split
      · exact hookEnded_every u _
      · exact (modify_every fun _ => rfl).bind fun _ => hookEnded_every u _
  | release ticket aggregateName aggregateId =>
      refine .segment fun c => ?_
      split
      · exact (note_every rfl).bind fun _ => .raise _
      · exact (release_every ticket aggregateName aggregateId).bind fun _ => hookEnded_every u _

omit [JsValue J] in
theorem runHooksOnce_every (ambient : Ambient) :
    (runHooksOnce wiring ambient u).Every (Contributing R) := by
  refine Every.bind (.segment fun _ w => ?_) fun claimed => ?_
  · unfold claimHooks
    split
    · exact .of_history rfl
    · exact .of_history rfl
  · split
    · trivial
    · refine Every.tryCatch ?_ fun _ => trivial
      apply Every.bind (.segment fun _ w => ?_)
      · exact fun hooks => .forEach fun hook _ => runHook_every wiring u hook
      · exact .of_note rfl rfl

end Hooks

/-! ## The lifecycle of a command -/

section Lifecycle

omit [JsValue J] in
theorem rebuildState_every (start : J) (base : Nat) (events : List (Event J)) :
    (rebuildState wiring task u start base events).Every (Contributing R) :=
  Segment.Every.bind (.read _) fun _ => (note_every rfl).bind fun _ => .ofExcept _

theorem loadFully_every (persistence : PersistenceKind) :
    (loadFully wiring task u persistence).Every (Contributing R) := by
  cases persistence with
  | eventSourced partialLoad =>
      exact Segment.Every.bind (.read _) fun _ => rebuildState_every wiring task u _ _ _
  | stateStored =>
      exact Segment.Every.bind (.read _) fun _ => (note_every rfl).bind fun _ => .pure _

omit [JsValue J] in
theorem loadAfterSnapshot_every (persistence : PersistenceKind) (snapshot : Snapshot J) :
    (loadAfterSnapshot wiring task u persistence snapshot).Every (Contributing R) := by
  cases persistence with
  | eventSourced partialLoad =>
      cases partialLoad <;>
        exact Segment.Every.bind (.read _) fun _ => rebuildState_every wiring task u _ _ _
  | stateStored =>
      refine Segment.Every.bind (.read _) fun stateResult => ?_
      cases stateResult <;> exact .raise _

theorem load_every (persistence : PersistenceKind) :
    (load wiring task u persistence).Every (Contributing R) := by
  refine Every.bind ?_ fun snapshot => .segment fun _ => ?_
  · unfold loadSnapshot
    split
    · trivial
    · exact .segment fun _ =>
        Segment.Every.bind (.read _) fun _ => (note_every rfl).bind fun _ => .pure _
  · split
    · exact loadAfterSnapshot_every wiring task u persistence _
    · exact loadFully_every wiring task u persistence

omit [JsValue J] in
theorem executeCommandHandler_every (loaded : Loaded J) :
    (executeCommandHandler wiring task u loaded).Every (Contributing R) := by
  unfold executeCommandHandler
  split
  · trivial
  · exact .segment fun c => (note_every rfl).bind fun _ => .ofExcept _

omit [JsValue J] in
theorem busDispatch_every (publisher : Option UowRef) (event : Event J) :
    (busDispatch publisher event : Eff J Infra Unit).Every (Contributing R) := by
  refine Every.bind (.segment fun _ => note_every rfl) fun _ => .segment fun c => ?_
  split
  · exact note_every rfl
  · exact (note_every rfl).bind fun _ => .raise _

omit [JsValue J] in
theorem publish_every (events : List (Event J)) :
    (publish wiring u events).Every (Contributing R) := by
  refine Every.bind (.forEach fun event _ => busDispatch_every _ event) fun _ => ?_
  unfold onEventsDispatched
  dsimp only
  split
  · refine Every.tryCatch (.segment fun c => ?_) fun _ => trivial
    split
    · exact .raise _
    · exact modify_every fun _ => rfl
  · trivial

omit [JsValue J] in
theorem createUow_every : (createUow u : Sync J Unit).Every (Contributing R) :=
  modify_every fun _ => rfl

variable {ambient : Ambient}
  (h : ∀ events, Stamped wiring ambient.metadata task.command.name events → R task events)

include h in
theorem executeLifecycle_every (persistence : PersistenceKind) :
    (executeLifecycle wiring task u ambient persistence).Every (Contributing R) :=
  (load_every wiring task u persistence).bind fun loaded =>
    (executeCommandHandler_every wiring task u loaded).bind fun newEvents =>
      Every.bind (.segment fun c => contribute_every wiring task u loaded newEvents c h)
        fun _ => .ofExcept _

include h in
theorem attempt_every (persistence : PersistenceKind) (i : Nat) :
    (attempt wiring task ambient persistence i).Every (Contributing R) := by
  refine Every.bind (.segment fun _ => createUow_every _) fun _ => ?_
  refine Every.tryCatch ?_ fun error => (tryRollback_every wiring _).bind fun _ => trivial
  exact (executeLifecycle_every wiring task _ h persistence).bind fun _ =>
    (commit_every wiring _).bind fun _ => trivial

include h in
theorem executeOwned_every (persistence : PersistenceKind) :
    (executeOwned wiring task ambient persistence).Every (Contributing R) := by
  refine Every.bind (strategy_every wiring _ _ _ _ (attempt_every wiring task h persistence)) ?_
  rintro ⟨uow, events, snapshotResult⟩
  refine Every.bind ?_ fun _ => publish_every wiring uow events
  cases snapshotResult with
  | none => trivial
  | some pending =>
      refine .segment fun c => ?_
      split
      · exact .pure ()
      · exact modify_every fun _ => rfl

include h in
theorem executeJoined_every (persistence : PersistenceKind) (existingUow : UowRef) :
    (executeJoined wiring task ambient persistence existingUow).Every (Contributing R) := by
  have hlifecycle := executeLifecycle_every wiring task existingUow h persistence
  refine Every.bind ?_ fun snapshotResult => ?_
  · unfold runLifecycleOn
    dsimp only
    split
    · rename_i acquire hacquire
      exact (acquireForUow_every existingUow _ _ _ _ hacquire).bind fun _ => hlifecycle
    · exact strategy_every wiring _ _ _ _ fun _ => hlifecycle
  · cases snapshotResult with
    | none => trivial
    | some pending => exact .segment fun _ => onUowCommitted_every existingUow _ _

include h in
theorem execute_every : (execute wiring task ambient).Every (Contributing R) := by
  refine Every.bind ?_ fun duplicate => ?_
  · unfold alreadyProcessed
    split
    · refine .segment fun c w => ?_
      dsimp only
      split
      · exact .of_note (o := .skipped task.dispatch) rfl rfl
      · exact .of_history rfl
    · trivial
  · split
    · trivial
    · split
      · trivial
      · split
        · exact executeOwned_every wiring task h _
        · exact executeJoined_every wiring task h _ _

include h in
/-- A dispatch contributes for its own command only, in its own metadata context. -/
theorem dispatch_every : (dispatch wiring task ambient).Every (Contributing R) := by
  refine Every.bind (.await fun c w r t hact => ?_) fun _ => ?_
  · split at hact
    · obtain ⟨-, rfl⟩ := Prod.mk.inj (Option.some.inj hact)
      exact .of_note rfl rfl
    · cases hact
  · refine Every.bind (execute_every wiring task h).attempt fun outcome => ?_
    exact .segment fun _ => (note_every rfl).bind fun _ => .ofExcept _

end Lifecycle

/-! ## Scopes, sagas and the relay -/

section Scopes

variable {ambient : Ambient} {n : Nat}

theorem script_every (script : Script J) {index : Nat}
    (h : ∀ index aggregateName command events,
      Stamped wiring ambient.metadata command.name events →
        R ⟨.scoped n index, aggregateName, command⟩ events) :
    (script.run wiring n ambient index).Every (Contributing R) := by
  induction script generalizing index with
  | settle => trivial
  | reject error => trivial
  | dispatchCommand aggregateName command next ih =>
      refine Every.bind (dispatch_every wiring _ ?_).attempt fun outcome => ih outcome
      exact fun events => h index aggregateName command events

omit [JsValue J] in
theorem observed_every {settled : Option Err → Obs J} {p : Eff J Infra Unit}
    (hsettled : ∀ error, (note (settled error)).Every (Contributing R))
    (hp : p.Every (Contributing R)) : (observed settled p).Every (Contributing R) :=
  hp.attempt.bind fun _ => .segment fun _ => (hsettled _).bind fun _ => .ofExcept _

theorem settleAndPublish_every {fn andThen : Eff J Infra Unit}
    (hfn : fn.Every (Contributing R)) (handThen : andThen.Every (Contributing R)) :
    (settleAndPublish wiring ambient u fn andThen).Every (Contributing R) := by
  refine Every.tryFinally ?_ (runHooksOnce_every wiring u ambient)
  refine Every.bind (Every.tryCatch ?_ fun error => ?_) fun events => ?_
  · have hfn := observed_every (fun error => note_every (o := .fnSettled u error) rfl) hfn
    exact hfn.bind fun _ => (commit_every wiring u).bind fun _ =>
      Every.bind (.segment fun _ => modify_every fun _ => rfl) fun _ => trivial
  · exact (tryRollback_every wiring u).bind fun _ => trivial
  · exact (runHooksOnce_every wiring u ambient).bind fun _ =>
      (publish_every wiring u events).bind fun _ =>
        observed_every (fun _ => note_every rfl) handThen

theorem withUnitOfWork_every {fn : Ambient → Eff J Infra Unit}
    (h : (fn (ambient.withinScope n)).Every (Contributing R)) :
    (withUnitOfWork wiring ambient n fn).Every (Contributing R) := by
  unfold withUnitOfWork
  split
  · trivial
  · exact Every.bind (.segment fun _ => createUow_every _) fun _ =>
      settleAndPublish_every wiring _ h trivial

def SagaContext (event : Event J) (ctx : MetadataContext) : Prop :=
  ∃ correlationId, (∀ metadata, event.metadata = some metadata →
      correlationId = metadata.correlationId) ∧
    ctx = { correlationId := some (some correlationId)
            causationId := some (some (event.eventId?.getD event.name))
            userId := some (event.metadata.bind (·.userId)) }

omit [JsValue J] in
theorem sagaContext_every (event : Event J) :
    (sagaContext wiring event).Every (Contributing R) :=
  (orUuid_every wiring _).bind fun _ => .pure _

omit [JsValue J] in
theorem sagaContext_eq {event : Event J} {ctx : MetadataContext} {w t : World J}
    (h : sagaContext wiring event w = (.ok ctx, t)) : SagaContext event ctx := by
  have hwp : (sagaContext wiring event).wp
      (fun r _ => ∀ ctx, r = .ok ctx → SagaContext event ctx) w := by
    rw [sagaContext, Segment.wp_bind]
    rcases hid : orUuid wiring (event.metadata.map (·.correlationId)) w with ⟨e | id, v⟩
    · rw [Segment.wp, hid]
      intro ctx heq
      cases heq
    · rw [Segment.wp, hid]
      intro ctx hctx
      refine ⟨id, fun metadata hmetadata => ?_, (Except.ok.inj hctx).symm⟩
      exact orUuid_eq wiring hid _ (by rw [hmetadata]; rfl)
  rw [Segment.wp, h] at hwp
  exact hwp ctx rfl

theorem dispatchCommands_every (commands : List (Command J))
    (h : ∀ index aggregateName command events,
      Stamped wiring ambient.metadata command.name events →
        R ⟨.reaction n index, aggregateName, command⟩ events) :
    (dispatchCommands wiring n ambient commands).Every (Contributing R) := by
  refine .forEach fun command _ => ?_
  unfold dispatchReaction
  split
  · trivial
  · exact dispatch_every wiring _ fun events => h _ _ _ events
  · refine .segment fun c => ?_
    split
    · exact .pure ()
    · exact .raise _

theorem executeSaga_every {sagaName : String} {event : Event J}
    (h : ∀ ctx, SagaContext event ctx → ∀ index aggregateName command events,
      Stamped wiring (some ctx) command.name events →
        R ⟨.reaction n index, aggregateName, command⟩ events) :
    (executeSaga wiring ambient n sagaName event).Every (Contributing R) := by
  unfold executeSaga
  dsimp only
  split
  · trivial
  · refine Every.bind (.ofExcept _) fun sagaId => ?_
    refine Every.bind (.segment fun _ => .read _) fun loaded => ?_
    split
    · trivial
    · refine Every.bind (.segment fun c => .ofExcept _) fun reaction => ?_
      refine Every.segment_bind (fun _ => sagaContext_every wiring event)
        (fun _ _ _ _ => sagaContext_eq wiring) fun ctx hctx => ?_
      refine Every.bind (.segment fun _ => createUow_every _) fun _ => ?_
      have hsave : ∀ operation, (Async.call fun _ => enlist (.saga n) none operation :
          Eff J Infra Unit).Every (Contributing R) := fun operation =>
        .segment fun _ => enlist_every _ none operation
      unfold settleReaction
      dsimp only
      split
      · exact settleAndPublish_every wiring _ (hsave _)
          (dispatchCommands_every wiring _ (h ctx hctx))
      · refine settleAndPublish_every wiring _ ((hsave _).bind fun _ => ?_) trivial
        exact dispatchCommands_every wiring _ (h ctx hctx)

omit [JsValue J] in
theorem poll_every (batchSize : Nat) : (poll batchSize : Eff J Infra Unit).Every
    (Contributing R) := by
  have hentries : ∀ (entries : List (OutboxEntry J)) (dispatched : Nat),
      (processEntries dispatched entries : Eff J Infra Nat).Every (Contributing R) := by
    intro entries
    induction entries with
    | nil => exact fun _ => trivial
    | cons entry rest ih =>
        refine fun dispatched => Every.bind (Every.tryCatch ?_ fun _ => trivial) fun _ => ih _
        refine (busDispatch_every none entry.event).bind fun _ =>
          Every.bind (.segment fun c => ?_) fun _ => trivial
        split
        · exact .raise _
        · exact modify_every fun _ => rfl
  refine Every.bind ?_ fun _ => trivial
  refine Every.bind (.segment fun _ w => ?_) fun entered => ?_
  · unfold enterRelay
    split <;> exact .of_history rfl
  · split
    · refine Every.tryFinally (Every.tryCatch ?_ fun _ => trivial)
        (.segment fun _ => modify_every fun _ => rfl)
      refine Every.bind (.segment fun c => ?_) fun entries => hentries entries 0
      unfold loadBatch
      split
      · exact .raise _
      · exact Segment.Every.bind (.read _) fun _ => (note_every rfl).bind fun _ => .pure _
    · trivial

end Scopes

/-! ## The process -/

/-- The events are stamped by whoever dispatched the command of `task`. -/
def Caused (workload : Workload J) (task : Task J) (events : List (Event J)) : Prop :=
  match task.dispatch with
  | .command n => ∃ call, workload.commands n = some call ∧ task = call.task n ∧
      Stamped wiring call.ambient.metadata task.command.name events
  | .scoped n _ => ∃ call, workload.scopes n = some call ∧
      Stamped wiring call.ambient.metadata task.command.name events
  | .reaction n _ => ∃ call ctx, workload.sagas n = some call ∧ SagaContext call.event ctx ∧
      Stamped wiring (some ctx) task.command.name events

variable (workload : Workload J)

omit [JsValue J] in
theorem orIdle_every {α : Type} {run : α → Eff J Infra Unit} {call : Option α}
    (h : ∀ x, call = some x → (run x).Every (Contributing R)) :
    (orIdle run call).Every (Contributing R) := by
  cases call with
  | none => trivial
  | some x => exact h x rfl

theorem thread_every (i : Tid) :
    (thread wiring workload i).Every (Contributing (Caused wiring workload)) := by
  cases i with
  | command n =>
      refine orIdle_every fun call hcall => dispatch_every wiring _ fun events h => ?_
      exact ⟨call, hcall, rfl, h⟩
  | scope n =>
      refine orIdle_every fun call hcall => withUnitOfWork_every wiring ?_
      exact script_every wiring _ fun index aggregateName command events h => ⟨call, hcall, h⟩
  | saga n =>
      refine orIdle_every fun call hcall => Every.bind (.await fun c w r t hact => ?_) fun _ => ?_
      · split at hact
        · obtain ⟨-, rfl⟩ := Prod.mk.inj (Option.some.inj hact)
          exact .of_history rfl
        · cases hact
      · refine executeSaga_every wiring fun ctx hctx index aggregateName command events h => ?_
        exact ⟨call, ctx, hcall, hctx, h⟩
  | relay n => exact orIdle_every fun batchSize _ => poll_every batchSize

/-- The protocol under which all that is contributed is stamped by its cause. -/
def provenance : Protocol Tid (World J) where
  fact _ _ := True
  inv w := ∀ task u loaded newEvents events,
    .contributed task u loaded newEvents events ∈ w.history → Caused wiring workload task events
  rely _ _ _ := True
  guar _ _ _ := True
  rely_refl _ _ := trivial
  rely_trans _ _ _ _ _ _ := trivial
  guar_rely _ _ := trivial

/-- In every state of a process, whatever was contributed is stamped in the metadata
context of the code that dispatched the command. -/
theorem caused_of_reaches {q : Process J Infra} (hrun : Pool.Reaches (boot wiring workload) q)
    {task : Task J} {u : UowRef} {loaded : Loaded J} {newEvents events : List (Event J)}
    (h : .contributed task u loaded newEvents events ∈ q.state.history) :
    Caused wiring workload task events := by
  have hsafe : ∀ i, Safe (provenance wiring workload) i (fun _ _ => True) (fun _ _ => True)
      (thread wiring workload i) ({} : World J) := fun i => by
    apply Every.safe
    refine (thread_every wiring workload i).mono fun s t hst _ hs => ⟨?_, trivial⟩
    intro task u loaded newEvents events hmem
    exact (hst task u loaded newEvents events hmem).elim (hs task u loaded newEvents events) id
  exact Protocol.inv_of_run (P := provenance wiring workload) (p := boot wiring workload)
    (fun _ _ _ _ _ hmem => absurd hmem List.not_mem_nil) hsafe hrun task u loaded newEvents
    events h

end Segments

end Noddde
