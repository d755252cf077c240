import Noddde.Async.Bisimulation
import Noddde.Engine.Sample
import Noddde.Proofs.Units
/-!
# Routing through PerAggregateConcurrencyStrategy

The composite strategy against the strategy that it gives for the aggregate.  Outside of
any unit of work they are one program.  On a unit of work that the dispatch joins, the
composite runs the lifecycle once, whereas an optimistic strategy by itself runs it again
after a conflict.
-/

namespace Noddde

variable {J Infra : Type} [JsValue J]

/-! ## The two wirings -/

def Wiring.withStrategy (wiring : Wiring J Infra) (strategy : ConcurrencyStrategy) :
    Wiring J Infra :=
  { wiring with concurrency := strategy }

def BaseStrategy.maxRetries : BaseStrategy → Nat
  | .optimistic maxRetries => maxRetries
  | .pessimistic _ => 0

def World.saves (u : UowRef) (w : World J) : Nat :=
  (w.uows u).operations.countP Operation.isSave

def savesEnlisted (u : UowRef) (s t : World J) : Nat := t.saves u - s.saves u

/-- Whether a segment defers events on `u`. -/
def deferrals (u : UowRef) (s t : World J) : Nat :=
  if (t.uows u).pendingEvents.length = (s.uows u).pendingEvents.length then 0 else 1

variable (wiring : Wiring J Infra) (strategies : String → Option BaseStrategy)
  (defaultStrategy : BaseStrategy) (task : Task J) (ambient : Ambient)

/-- The composite strategy changes nothing for the command, and on a unit of work that
the dispatch joins neither strategy enlists a second save or defers a second time. -/
structure RoutesAlike : Prop where
  agrees :
    (execute (wiring.withStrategy (.perAggregate strategies defaultStrategy)) task ambient).Agree
      (execute (wiring.withStrategy
        (.base ((strategies task.aggregateName).getD defaultStrategy))) task ambient)
  once : ∀ u ∈ ambient.uow, ∀ strategy ∈ [.perAggregate strategies defaultStrategy,
      .base ((strategies task.aggregateName).getD defaultStrategy)],
    (execute (wiring.withStrategy strategy) task ambient).Spends (savesEnlisted u) 1 ∧
      (execute (wiring.withStrategy strategy) task ambient).Spends (deferrals u) 1

/-- In no run does the lifecycle reject with a `ConcurrencyError`. -/
def ConflictFree (u : UowRef) (persistence : PersistenceKind) : Prop :=
  ¬ (executeLifecycle wiring task u ambient persistence).MayEnd fun r =>
    ∃ e : Err, r = .error e ∧ e.isConcurrency = true

/-! ## One lifecycle on a unit of work -/

def SameUows (s t : World J) : Prop := t.uows = s.uows

instance : Std.Refl (SameUows (J := J)) := ⟨fun _ => rfl⟩

instance : IsTrans (World J) SameUows := ⟨fun _ _ _ hst htu => Eq.trans htu hst⟩

section SameUows

omit [JsValue J]

theorem note_sameUows (o : Obs J) : (note o).Every SameUows := fun _ => rfl

theorem rebuildState_sameUows (u : UowRef) (start : J) (base : Nat) (events : List (Event J)) :
    (rebuildState wiring task u start base events).Every SameUows :=
  Segment.Every.bind (.read _) fun _ => (note_sameUows _).bind fun _ => .ofExcept _

theorem loadAfterSnapshot_sameUows (u : UowRef) (persistence : PersistenceKind)
    (snapshot : Snapshot J) :
    (loadAfterSnapshot wiring task u persistence snapshot).Every SameUows := by
  cases persistence with
  | eventSourced partialLoad =>
      cases partialLoad <;>
        exact Segment.Every.bind (.read _) fun _ => rebuildState_sameUows wiring task u _ _ _
  | stateStored =>
      refine Segment.Every.bind (.read _) fun stateResult => ?_
      cases stateResult <;> exact .raise _

theorem loadFully_sameUows [JsValue J] (u : UowRef) (persistence : PersistenceKind) :
    (loadFully wiring task u persistence).Every SameUows := by
  cases persistence with
  | eventSourced partialLoad =>
      exact Segment.Every.bind (.read _) fun _ => rebuildState_sameUows wiring task u _ _ _
  | stateStored =>
      exact Segment.Every.bind (.read _) fun _ => (note_sameUows _).bind fun _ => .pure _

theorem load_sameUows [JsValue J] (u : UowRef) (persistence : PersistenceKind) :
    (load wiring task u persistence).Every SameUows := by
  refine Async.Every.bind ?_ fun snapshot => .segment fun _ => ?_
  · unfold loadSnapshot
    split
    · trivial
    · exact .segment fun _ =>
        Segment.Every.bind (.read _) fun _ => (note_sameUows _).bind fun _ => .pure _
  · split
    · exact loadAfterSnapshot_sameUows wiring task u persistence _
    · exact loadFully_sameUows wiring task u persistence

theorem executeCommandHandler_sameUows (u : UowRef) (loaded : Loaded J) :
    (executeCommandHandler wiring task u loaded).Every SameUows := by
  unfold executeCommandHandler
  split
  · trivial
  · exact .segment fun c => (note_sameUows _).bind fun _ => .ofExcept _

theorem acquire_sameUows (ticket : Ticket) (aggregateName : String) (aggregateId : ID)
    (timeoutMs : Option Nat) :
    (Locker.acquire ticket aggregateName aggregateId timeoutMs : Eff J Infra Unit).Every
      SameUows := by
  refine Async.Every.bind (.segment fun _ w => ?_) fun entered => ?_
  · unfold Locker.enter
    dsimp only
    split <;> rfl
  · split
    · trivial
    · refine .await fun c w r t hact => ?_
      unfold Locker.waiting at hact
      dsimp only at hact
      split_ifs at hact
      · split at hact
        · cases hact
        · split_ifs at hact
          obtain ⟨-, rfl⟩ := Prod.mk.inj (Option.some.inj hact)
          rfl
      · obtain ⟨-, rfl⟩ := Prod.mk.inj (Option.some.inj hact)
        rfl

theorem acquireLockForUow_sameUows (dispatch : Origin) (aggregateName : String)
    (aggregateId : ID) (timeoutMs : Option Nat) (u : UowRef) :
    (acquireLockForUow dispatch aggregateName aggregateId timeoutMs u : Eff J Infra Unit).Every
      SameUows :=
  (acquire_sameUows _ aggregateName aggregateId timeoutMs).bind fun _ => .segment fun _ =>
    Segment.Every.bind (.modify fun _ => rfl) fun _ => note_sameUows _

theorem deferSnapshot_sameUows (u : UowRef) (snapshotResult : Option (PendingSnapshot J)) :
    (deferSnapshot task u snapshotResult : Eff J Infra Unit).Every SameUows := by
  cases snapshotResult with
  | none => trivial
  | some pending =>
      exact .segment fun _ =>
        Segment.Every.bind (.modify fun _ => rfl) fun _ => note_sameUows _

theorem alreadyProcessed_sameUows : (alreadyProcessed wiring task).Every SameUows := by
  unfold alreadyProcessed
  split
  · refine .segment fun c w => ?_
    dsimp only
    split <;> rfl
  · trivial

end SameUows

/-- What is counted on the unit of work `u`, once in a contribution and never elsewhere. -/
structure CountedOnce (u : UowRef) (cost : World J → World J → Nat) : Prop where
  uows : ∀ s t, SameUows s t → cost s t = 0
  contributed : ∀ s c uuids, (∀ op ∈ c.effects, op.isEffect = true) →
    cost s (s.contributed wiring task u c uuids) ≤ 1

section Counting

variable {u : UowRef} {cost : World J → World J → Nat}

omit [JsValue J] in
theorem CountedOnce.spends_of_sameUows {α : Type} (h : CountedOnce wiring task u cost)
    {p : Eff J Infra α} (hp : p.Every SameUows) : p.Spends cost 0 :=
  .of_every (hp.mono h.uows)

theorem CountedOnce.executeLifecycle (h : CountedOnce wiring task u cost)
    (persistence : PersistenceKind) :
    (executeLifecycle wiring task u ambient persistence).Spends cost 1 := by
  have hcontribute (loaded : Loaded J) (newEvents : List (Event J)) :
      (Async.call (contribute wiring task u ambient loaded newEvents)).Spends cost 1 := by
    refine .call fun c w => ?_
    refine contribute_wp wiring task (u := u) (Q := fun _ t => cost w t ≤ 1) ?_ ?_
    · intro e uuids _
      exact (h.uows w { w with uuids } rfl).le.trans (Nat.zero_le 1)
    · intro r c uuids _ _ _ hcomputed _ _
      obtain ⟨k, -, -, heffects⟩ := hcomputed.batch
      exact h.contributed w c uuids heffects.isEffect
  have hrest (loaded : Loaded J) := Async.Spends.bind
    (h.spends_of_sameUows _ _ (executeCommandHandler_sameUows wiring task u loaded))
    fun newEvents => (hcontribute loaded newEvents).bind (n := 0) fun newState =>
      .ofExcept (evaluateSnapshot wiring task loaded newEvents newState)
  exact Async.Spends.bind (h.spends_of_sameUows _ _ (load_sameUows wiring task u persistence))
    hrest

omit [JsValue J] in
/-- The idempotency claim and what follows it are no saves of an aggregate. -/
theorem countP_isSave_operations {c : Contribution J}
    (heffects : ∀ op ∈ c.effects, op.isEffect = true) :
    (c.operations wiring task).countP Operation.isSave ≤ 1 := by
  have hnone : c.effects.countP Operation.isSave = 0 := by
    refine List.countP_eq_zero.mpr fun op hop => ?_
    have := heffects op hop
    cases op <;> simp_all [Operation.isEffect, Operation.isSave]
  have hclaims : (claimsOf wiring task (c.save task)).countP Operation.isSave ≤ 1 := by
    unfold claimsOf
    split
    · have hclaim : Operation.isSave (J := J)
          (.saveIdempotency ‹ID› task.aggregateName task.aggregateId) = false := rfl
      simp only [List.countP_cons, List.countP_nil, hclaim]
      cases (c.save task).isSave <;> simp
    · exact List.countP_le_length
  rw [Contribution.operations, List.countP_append, hnone]
  exact hclaims

omit [JsValue J] in
theorem saves_countedOnce : CountedOnce wiring task u (savesEnlisted u) where
  uows s t h := by
    simp [savesEnlisted, World.saves, show t.uows = s.uows from h]
  contributed s c uuids heffects := by
    have hone := countP_isSave_operations wiring task heffects
    simp only [savesEnlisted, World.saves, World.uows_contributed, Function.update_self,
      List.countP_append]
    omega

omit [JsValue J] in
theorem deferrals_countedOnce : CountedOnce wiring task u (deferrals u) where
  uows s t h := by
    simp [deferrals, show t.uows = s.uows from h]
  contributed s c uuids _ := by
    unfold deferrals
    split <;> omega

end Counting

/-! ## What does not depend on the strategy -/

section Strategy

variable (strategy : ConcurrencyStrategy)

omit [JsValue J] in
theorem enrichFrom_withStrategy (metadata : String → Nat → Event J → EventMetadata)
    (index : Nat) (events : List (Event J)) :
    enrichFrom (wiring.withStrategy strategy) metadata index events =
      enrichFrom wiring metadata index events := by
  induction events generalizing index with
  | nil => rfl
  | cons event rest ih =>
      simp only [enrichFrom, ih]
      rfl

omit [JsValue J] in
theorem outboxEntries_withStrategy (now : Nat) (events : List (Event J)) :
    outboxEntries (wiring.withStrategy strategy) now events =
      outboxEntries wiring now events := by
  induction events with
  | nil => rfl
  | cons event rest ih =>
      simp only [outboxEntries, ih]
      rfl

theorem executeLifecycle_withStrategy (u : UowRef) (persistence : PersistenceKind) :
    executeLifecycle (wiring.withStrategy strategy) task u ambient persistence =
      executeLifecycle wiring task u ambient persistence := by
  have hproduced (events : List (Event J)) :
      onEventsProduced (wiring.withStrategy strategy) task u events =
        onEventsProduced wiring task u events := by
    funext c
    simp only [onEventsProduced, outboxEntries_withStrategy]
    rfl
  have hcontribute (loaded : Loaded J) (newEvents : List (Event J)) :
      contribute (wiring.withStrategy strategy) task u ambient loaded newEvents =
        contribute wiring task u ambient loaded newEvents := by
    funext c
    simp only [contribute, enrich, enrichFrom_withStrategy, hproduced]
    rfl
  simp only [executeLifecycle, hcontribute]
  rfl

theorem attempt_withStrategy (persistence : PersistenceKind) :
    attempt (wiring.withStrategy strategy) task ambient persistence =
      attempt wiring task ambient persistence := by
  funext i
  simp only [attempt, executeLifecycle_withStrategy]
  rfl

end Strategy

theorem executeOwned_perAggregate (persistence : PersistenceKind) :
    executeOwned (wiring.withStrategy (.perAggregate strategies defaultStrategy)) task ambient
        persistence =
      executeOwned (wiring.withStrategy
        (.base ((strategies task.aggregateName).getD defaultStrategy))) task ambient
        persistence := by
  simp only [executeOwned, attempt_withStrategy]
  rfl

/-! ## The lifecycle on the unit of work that a dispatch joins -/

section Joined

variable (u : UowRef) (persistence : PersistenceKind)

omit [JsValue J] in
theorem retryOnConflict_settled {α : Type} {attempt : Nat → Eff J Infra α}
    (h : ∀ i, (attempt i).settled = false) (retries i : Nat) :
    (retryOnConflict attempt retries i).settled = false := by
  cases retries with
  | zero => exact h i
  | succ retries => exact Async.settled_tryCatch (h i)

theorem executeLifecycle_settled :
    (executeLifecycle wiring task u ambient persistence).settled = false := by
  unfold executeLifecycle load loadSnapshot
  split <;> rfl

/-- The program of a strategy on the unit of work: its lock, and one lifecycle. -/
def runLifecycleUnder (strategy : BaseStrategy) : Eff J Infra (Option (PendingSnapshot J)) :=
  match strategy with
  | .optimistic _ => executeLifecycle wiring task u ambient persistence
  | .pessimistic timeoutMs =>
      (acquireLockForUow task.dispatch task.aggregateName task.aggregateId timeoutMs u).bind
        fun _ => executeLifecycle wiring task u ambient persistence

theorem runLifecycleOn_perAggregate :
    runLifecycleOn (wiring.withStrategy (.perAggregate strategies defaultStrategy)) task ambient
        persistence u =
      runLifecycleUnder wiring task ambient u persistence
        ((strategies task.aggregateName).getD defaultStrategy) := by
  simp only [runLifecycleOn, executeLifecycle_withStrategy]
  simp only [Wiring.withStrategy, ConcurrencyStrategy.acquireForUow?]
  cases (strategies task.aggregateName).getD defaultStrategy <;> rfl

theorem runLifecycleOn_base (strategy : BaseStrategy) :
    runLifecycleOn (wiring.withStrategy (.base strategy)) task ambient persistence u =
      match strategy with
      | .optimistic maxRetries =>
          retryOnConflict (fun _ => executeLifecycle wiring task u ambient persistence)
            maxRetries 0
      | .pessimistic _ => runLifecycleUnder wiring task ambient u persistence strategy := by
  simp only [runLifecycleOn, executeLifecycle_withStrategy]
  cases strategy <;> rfl

/-- Where no conflict comes up or none is retried, a strategy by itself runs the
lifecycle once as well. -/
theorem agree_runLifecycleOn {strategy : BaseStrategy}
    (h : 0 < strategy.maxRetries → ConflictFree wiring task ambient u persistence) :
    (runLifecycleUnder wiring task ambient u persistence strategy).Agree
      (runLifecycleOn (wiring.withStrategy (.base strategy)) task ambient persistence u) := by
  rw [runLifecycleOn_base]
  cases strategy with
  | pessimistic timeoutMs => exact .refl _
  | optimistic maxRetries =>
      cases maxRetries with
      | zero => exact .refl _
      | succ retries =>
          refine Async.Agree.tryCatch (h (Nat.succ_pos retries)) fun e he => ?_
          rw [if_neg he]
          rfl

theorem conflictFree_of_agree {strategy : BaseStrategy}
    (h : ((runLifecycleUnder wiring task ambient u persistence strategy).bind
      (deferSnapshot task u)).Agree
        ((runLifecycleOn (wiring.withStrategy (.base strategy)) task ambient persistence u).bind
          (deferSnapshot task u))) (hretries : 0 < strategy.maxRetries) :
    ConflictFree wiring task ambient u persistence := by
  rw [runLifecycleOn_base] at h
  cases strategy with
  | pessimistic timeoutMs => exact absurd hretries (lt_irrefl 0)
  | optimistic maxRetries =>
      obtain ⟨retries, rfl⟩ := Nat.exists_eq_succ_of_ne_zero hretries.ne'
      refine Async.Agree.not_mayEnd h fun e he => ?_
      rw [if_pos he]
      exact Async.settled_bind (retryOnConflict_settled
        (fun _ => executeLifecycle_settled wiring task ambient u persistence) retries 1)

variable {u} {cost : World J → World J → Nat}

theorem CountedOnce.runLifecycleUnder (h : CountedOnce wiring task u cost)
    (strategy : BaseStrategy) :
    (runLifecycleUnder wiring task ambient u persistence strategy).Spends cost 1 := by
  have hlifecycle := h.executeLifecycle wiring task ambient persistence
  cases strategy with
  | optimistic maxRetries => exact hlifecycle
  | pessimistic timeoutMs =>
      exact (h.spends_of_sameUows _ _
        (acquireLockForUow_sameUows _ _ _ timeoutMs u)).bind fun _ => hlifecycle

end Joined

/-! ## The command as a whole -/

omit [JsValue J] in
/-- The command skips the check for duplicates, or finds none. -/
theorem alreadyProcessed_mayEnd (infra : Infra) :
    (alreadyProcessed wiring task).MayEnd fun r => r = .ok false := by
  unfold alreadyProcessed
  split
  · exact .call (c := ⟨0, infra, none, false⟩) (s := ({} : World J)) rfl
  · rfl

/-- What `execute` goes on with once the command is known to be no duplicate. -/
def executeFresh : Eff J Infra Unit :=
  match wiring.persistence task.aggregateName with
  | none => throw (.error
      s!"No persistence configured for aggregate \"{task.aggregateName}\"")
  | some persistence =>
      match ambient.uow with
      | none => executeOwned wiring task ambient persistence
      | some existingUow => executeJoined wiring task ambient persistence existingUow

theorem execute_eq : execute wiring task ambient =
    (alreadyProcessed wiring task).bind fun duplicate =>
      if duplicate then pure () else executeFresh wiring task ambient := rfl

variable {wiring task ambient}

section

variable (strategy : ConcurrencyStrategy)

theorem executeFresh_none (hpersistence : wiring.persistence task.aggregateName = none) :
    executeFresh (wiring.withStrategy strategy) task ambient = .throw (.error
      s!"No persistence configured for aggregate \"{task.aggregateName}\"") := by
  unfold executeFresh
  rw [show (wiring.withStrategy strategy).persistence task.aggregateName = none from hpersistence]
  rfl

theorem executeFresh_owned {persistence : PersistenceKind}
    (hpersistence : wiring.persistence task.aggregateName = some persistence)
    (hu : ambient.uow = none) :
    executeFresh (wiring.withStrategy strategy) task ambient =
      executeOwned (wiring.withStrategy strategy) task ambient persistence := by
  unfold executeFresh
  rw [show (wiring.withStrategy strategy).persistence task.aggregateName = some persistence from
    hpersistence]
  dsimp only
  split
  · rfl
  · simp_all

theorem executeFresh_joined {persistence : PersistenceKind} {u : UowRef}
    (hpersistence : wiring.persistence task.aggregateName = some persistence)
    (hu : u ∈ ambient.uow) :
    executeFresh (wiring.withStrategy strategy) task ambient =
      (runLifecycleOn (wiring.withStrategy strategy) task ambient persistence u).bind
        (deferSnapshot task u) := by
  unfold executeFresh
  rw [show (wiring.withStrategy strategy).persistence task.aggregateName = some persistence from
    hpersistence]
  dsimp only
  split
  · simp_all
  · obtain rfl := Option.some.inj (hu.symm.trans ‹_›)
    rfl

end

theorem agree_execute {direct : Wiring J Infra}
    (hduplicate : alreadyProcessed wiring task = alreadyProcessed direct task)
    (h : (executeFresh wiring task ambient).Agree (executeFresh direct task ambient)) :
    (execute wiring task ambient).Agree (execute direct task ambient) := by
  rw [execute_eq, execute_eq, hduplicate]
  refine .bind_right fun duplicate => ?_
  cases duplicate with
  | true => exact .refl _
  | false => exact h

theorem agree_executeFresh (infra : Infra) {direct : Wiring J Infra}
    (hduplicate : alreadyProcessed wiring task = alreadyProcessed direct task)
    (h : (execute wiring task ambient).Agree (execute direct task ambient)) :
    (executeFresh wiring task ambient).Agree (executeFresh direct task ambient) := by
  rw [execute_eq, execute_eq, hduplicate] at h
  exact h.of_bind_right (alreadyProcessed_mayEnd direct task infra)

/-- A joining command with the composite strategy counts once. -/
theorem CountedOnce.execute {u : UowRef} {cost : World J → World J → Nat}
    (hcount : ∀ strategy, CountedOnce (wiring.withStrategy strategy) task u cost)
    (hu : u ∈ ambient.uow) :
    (execute (wiring.withStrategy (.perAggregate strategies defaultStrategy)) task
      ambient).Spends cost 1 := by
  have hone := hcount (.perAggregate strategies defaultStrategy)
  have hbase := hcount wiring.concurrency
  rw [execute_eq, ← Nat.zero_add 1]
  refine Async.Spends.bind
    (hone.spends_of_sameUows _ _ (alreadyProcessed_sameUows _ task)) fun duplicate => ?_
  cases duplicate with
  | true => trivial
  | false =>
      change (executeFresh _ task ambient).Spends cost 1
      cases hpersistence : wiring.persistence task.aggregateName with
      | none =>
          rw [executeFresh_none _ hpersistence]
          trivial
      | some persistence =>
          rw [executeFresh_joined _ hpersistence hu, runLifecycleOn_perAggregate]
          exact (hbase.runLifecycleUnder wiring task ambient persistence _).bind fun snapshot =>
            hone.spends_of_sameUows _ _ (deferSnapshot_sameUows task u snapshot)

theorem agree_of_conflictFree
    (h : 0 < ((strategies task.aggregateName).getD defaultStrategy).maxRetries →
      ∀ u ∈ ambient.uow, ∀ persistence, wiring.persistence task.aggregateName =
        some persistence → ConflictFree wiring task ambient u persistence) :
    (execute (wiring.withStrategy (.perAggregate strategies defaultStrategy)) task ambient).Agree
      (execute (wiring.withStrategy
        (.base ((strategies task.aggregateName).getD defaultStrategy))) task ambient) := by
  refine agree_execute rfl ?_
  cases hpersistence : wiring.persistence task.aggregateName with
  | none =>
      rw [executeFresh_none _ hpersistence, executeFresh_none _ hpersistence]
      exact .refl _
  | some persistence =>
      cases hu : ambient.uow with
      | none =>
          rw [executeFresh_owned _ hpersistence hu, executeFresh_owned _ hpersistence hu,
            executeOwned_perAggregate]
          exact .refl _
      | some u =>
          rw [executeFresh_joined _ hpersistence hu, executeFresh_joined _ hpersistence hu,
            runLifecycleOn_perAggregate]
          refine Async.Agree.bind_left ?_
          exact agree_runLifecycleOn wiring task ambient u persistence fun hretries =>
            h hretries u hu persistence hpersistence

theorem conflictFree_of_routesAlike
    (h : RoutesAlike wiring strategies defaultStrategy task ambient)
    (hretries : 0 < ((strategies task.aggregateName).getD defaultStrategy).maxRetries)
    {u : UowRef} (hu : u ∈ ambient.uow) {persistence : PersistenceKind}
    (hpersistence : wiring.persistence task.aggregateName = some persistence) :
    ConflictFree wiring task ambient u persistence := by
  intro hend
  obtain ⟨c⟩ := hend.nonempty (executeLifecycle_settled wiring task ambient u persistence)
  have hfresh := agree_executeFresh c.infra (by rfl) h.agrees
  rw [executeFresh_joined _ hpersistence hu, executeFresh_joined _ hpersistence hu,
    runLifecycleOn_perAggregate] at hfresh
  exact conflictFree_of_agree wiring task ambient u persistence hfresh hretries hend

theorem routesAlike_iff_conflictFree :
    RoutesAlike wiring strategies defaultStrategy task ambient ↔
      (0 < ((strategies task.aggregateName).getD defaultStrategy).maxRetries →
        ∀ u ∈ ambient.uow, ∀ persistence, wiring.persistence task.aggregateName =
          some persistence → ConflictFree wiring task ambient u persistence) := by
  constructor
  · intro h hretries u hu persistence hpersistence
    exact conflictFree_of_routesAlike strategies defaultStrategy h hretries hu hpersistence
  · intro h
    have hagree := agree_of_conflictFree strategies defaultStrategy h
    refine ⟨hagree, fun u hu strategy hstrategy => ?_⟩
    have hsaves := CountedOnce.execute strategies defaultStrategy
      (fun strategy => saves_countedOnce (wiring.withStrategy strategy) task (u := u)) hu
    have hdefers := CountedOnce.execute strategies defaultStrategy
      (fun strategy => deferrals_countedOnce (wiring.withStrategy strategy) task (u := u)) hu
    rcases List.mem_pair.mp hstrategy with rfl | rfl
    · exact ⟨hsaves, hdefers⟩
    · exact ⟨hagree.spends hsaves, hagree.spends hdefers⟩

namespace Sample

/-- The counter of another process always wins. -/
def contended : Wiring Value Unit :=
  { Sample.wiring with
    aggregates := fun _ =>
      { counter with
        decide := fun _ => some fun command _ _ =>
          .error (.concurrency "Counter" command.targetAggregateId 0 1) } }

/-- On a shared unit of work a conflict is passed on by the composite, and retried without
it. -/
theorem not_routesAlike_contended :
    ¬ ∀ ambient, RoutesAlike contended (fun _ => none) (.optimistic 1)
      ⟨.scoped 0 0, "Counter", add "a" (some 1)⟩ ambient := by
  intro h
  have hpersistence : contended.persistence "Counter" = some (.eventSourced true) := rfl
  refine conflictFree_of_routesAlike _ _ (h (Ambient.withinScope {} 0)) Nat.one_pos
    (u := .scope 0) rfl hpersistence ?_
  exact ⟨tick, {}, _, _, rfl, tick, {}, _, _, rfl, _, rfl, rfl⟩

end Sample

end Noddde
