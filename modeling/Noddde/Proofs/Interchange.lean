import Noddde.Engine.Sample
import Noddde.Proofs.TwinLifecycles
/-!
# State-stored and event-sourced persistences are interchangeable

Commands that are executed one after another have the same outcomes over either
persistence: the same decisions, the same published events up to their numbers in the
stream, the same rejections.
-/

namespace Noddde

open Async

variable {J Infra : Type} [JsValue J] {wiring : Wiring J Infra} {name : String}
  {G : World J → World J → Prop} {P : UowRef → Prop} {u : UowRef} {s s' : World J} {task : Task J}

/-! ## Contributing -/

/-- The save of either side, enlisted on a fresh unit of work. -/
theorem FreshBoth.prepared (hu : ¬ P u) (hs : FreshBoth wiring name P u s s')
    (dispatch : Option Origin) {id : ID} {events : List (Event J)} {version version' : Nat}
    {newState : J} (hsave : SaveBoth wiring name id events version newState version' s s') :
    Prepared wiring name P u
      (s.enlistAll u dispatch [.saveEvents name id events version])
      (s'.enlistAll u dispatch [.saveState name id newState version']) where
  twins := hs.twins.enlisted hu dispatch _ _
  opened := by
    rw [World.completed_enlistAll, hs.unit]
  operations := by
    refine ⟨id, events, version, newState, version', [], [], ?_, ?_, .nil, { hsave with }⟩
    · simp [World.enlistAll, hs.unit]
    · simp [World.enlistAll, hs.unit']

theorem contribute_both (hinter : Comparable wiring name) (hu : ¬ P u)
    (hname : task.aggregateName = name) {loaded loaded' : Loaded J}
    (hloaded : LoadedBoth wiring name task.aggregateId loaded loaded' s s')
    (hcurrent : loaded'.currentState = loaded.currentState)
    (hs : FreshBoth wiring name P u s s') (ambient : Ambient) (newEvents : List (Event J))
    (c : Choice Infra) :
    Segment.Both (fun _ _ => Prepared wiring name P u) (fun _ => Twins wiring name P)
      (contribute wiring task u ambient loaded newEvents c)
      (contribute (wiring.storingStates name) task u ambient loaded' newEvents c) s s' := by
  subst hname
  have hevolve : (task.aggregate (wiring.storingStates task.aggregateName)).applyEvents
      loaded'.currentState newEvents =
        (task.aggregate wiring).applyEvents loaded.currentState newEvents := by
    rw [hcurrent]
    rfl
  unfold contribute
  rw [hevolve, hloaded.sourced, hloaded.stored]
  refine Segment.Both.bind (Q := fun newState newState' t t' => newState' = newState ∧
    (task.aggregate wiring).applyEvents loaded.currentState newEvents = .ok newState ∧
      t = s ∧ t' = s')
    (Segment.Both.ofExcept (fun _ h => ⟨rfl, h, rfl, rfl⟩) fun _ _ => hs.twins) ?_
  rintro _ newState t t' ⟨rfl, happly, rfl, rfl⟩
  refine Segment.Both.bind ((both_enrich hs.twins.uuids ambient c newEvents _ _).imp_error ?_) ?_
  · rintro _ _ _ ⟨rfl, rfl⟩
    exact hs.twins
  rintro events events' _ _ ⟨hevents, hfacts, hversion, uuids, rfl, rfl⟩
  have hfresh := hs.setUuids uuids
  have hsave : SaveBoth wiring task.aggregateName task.aggregateId events loaded.version newState
      loaded'.version { t with uuids } { t' with uuids } :=
    { version := hloaded.version
      version' := hloaded.version'
      replay := by
        rw [← happly]
        exact Aggregate.replay_append_current _ hloaded.replay hversion hfacts }
  have hopened' := (hfresh.prepared hu (some task.dispatch) hsave)
  refine Segment.Both.bind (Q := fun _ _ => Prepared wiring task.aggregateName P u)
    (Segment.both_of_eq (enlist_eq ?_ _ _) (enlist_eq ?_ _ _) hopened') ?_
  · rw [hfresh.unit]
  · rw [hfresh.unit']
  -- what follows the claim is the same whether there is one or not
  have hrest : ∀ t t', Prepared wiring task.aggregateName P u t t' →
      Segment.Both (fun _ _ => Prepared wiring task.aggregateName P u)
        (fun _ => Twins wiring task.aggregateName P)
        (do
          deferPublish u events
          note (.contributed task u loaded newEvents events)
          onEventsProduced wiring task u events c
          pure newState)
        (do
          deferPublish u events'
          note (.contributed task u loaded' newEvents events')
          onEventsProduced (wiring.storingStates task.aggregateName) task u events' c
          pure newState) t t' := by
    intro t t' ht
    refine Segment.Both.bind (Q := fun _ _ => Prepared wiring task.aggregateName P u)
      (Segment.both_of_eq (deferPublish_eq ht.opened _) (deferPublish_eq ht.opened' _)
        (ht.deferred hu hevents)) ?_
    intro _ _ t t' ht
    refine Segment.Both.bind (Q := fun _ _ => Prepared wiring task.aggregateName P u)
      (ht.note rfl rfl) ?_
    intro _ _ t t' ht
    exact Segment.Both.bind (both_onEventsProduced hinter hu hevents c ht) fun _ _ _ _ ht => ht
  intro _ _ t t' ht
  have hstore : (wiring.storingStates task.aggregateName).idempotency = wiring.idempotency := rfl
  simp only [hstore]
  split
  · exact Segment.Both.bind (ht.both_enlist hu _ (.claim _ _ _)) fun _ _ _ _ ht => hrest _ _ ht
  · exact hrest t t' ht

/-! ## The lifecycle -/

theorem executeLifecycle_lockstep (hinter : Comparable wiring name)
    (hG : Vouches wiring name G) (hu : ¬ P u)
    (hname : task.aggregateName = name) (hs : FreshBoth wiring name P u s s') (ambient : Ambient)
    (partialLoad : Bool) :
    Lockstep G (Matching wiring name) (fun snapshot snapshot' t t' => snapshot = none ∧ snapshot' = none ∧
        Prepared wiring name P u t t')
      (fun _ => Twins wiring name P)
      (executeLifecycle wiring task u ambient (.eventSourced partialLoad))
      (executeLifecycle (wiring.storingStates name) task u ambient .stateStored) s s' := by
  refine Lockstep.bind (load_lockstep hinter hname hs partialLoad) ?_
  rintro loaded loaded' t t' ⟨hloaded, ht⟩
  refine Lockstep.bind (executeCommandHandler_lockstep hG hloaded ht) ?_
  rintro _ newEvents t t' ⟨rfl, hloaded, hcurrent, ht⟩
  refine Lockstep.bind (Lockstep.call (fun _ _ _ _ ht => ht.twins.toMatching)
    (fun _ _ _ ht => ht.toMatching) fun c _ =>
      contribute_both hinter hu hname hloaded hcurrent ht ambient newEvents c) ?_
  intro newState newState' t t' ht
  have hnone : evaluateSnapshot wiring task loaded newEvents newState = .ok none := by
    simp only [evaluateSnapshot, hloaded.sourced, if_true, hname, hinter.unsnapped]
  have hnone' : evaluateSnapshot (wiring.storingStates name) task loaded' newEvents newState' =
      .ok none := by
    simp [evaluateSnapshot, hloaded.stored]
  rw [hnone, hnone']
  exact ⟨rfl, rfl, ht⟩

/-- Attempts from the `i`-th on of the `n`-th command, and all later commands. -/
def Unused (n i : Nat) (u : UowRef) : Prop :=
  ∃ m j, u = .attempt (.command m) j ∧ (n < m ∨ n = m ∧ i ≤ j)

theorem Unused.later {n i : Nat} (h : Unused (n + 1) 0 u) : Unused n i u := by
  obtain ⟨m, j, rfl, hm⟩ := h
  exact ⟨m, j, rfl, .inl (by omega)⟩

theorem Unused.next {n i : Nat} (h : Unused n (i + 1) u) : Unused n i u := by
  obtain ⟨m, j, rfl, hm⟩ := h
  exact ⟨m, j, rfl, hm.imp_right fun h => ⟨h.1, by omega⟩⟩

theorem unused_self (n i : Nat) : Unused n i (.attempt (.command n) i) :=
  ⟨n, i, rfl, .inr ⟨rfl, le_rfl⟩⟩

theorem not_unused_next (n i : Nat) : ¬ Unused n (i + 1) (.attempt (.command n) i) := by
  rintro ⟨m, j, heq, hm⟩
  obtain ⟨hn, rfl⟩ := UowRef.attempt.inj heq
  obtain rfl := Origin.command.inj hn
  omega

/-- An attempt of the `n`-th command that has committed. -/
def Attempted (wiring : Wiring J Infra) (name : String) (n : Nat)
    (a a' : UowRef × List (Event J) × Option (PendingSnapshot J)) (s s' : World J) : Prop :=
  a'.1 = a.1 ∧ List.Forall₂ SameEvent a.2.1 a'.2.1 ∧ a.2.2 = none ∧ a'.2.2 = none ∧
    Twins wiring name (Unused (n + 1) 0) s s'

theorem createUow_both {n i : Nat} (hs : Twins wiring name (Unused n i) s s') :
    Segment.Both
      (fun _ _ => FreshBoth wiring name (Unused n (i + 1)) (.attempt (.command n) i))
      (fun _ => Twins wiring name (Unused n (i + 1)))
      (createUow (.attempt (.command n) i)) (createUow (.attempt (.command n) i)) s s' := by
  obtain ⟨hunit, hunit'⟩ := hs.unused _ (unused_self n i)
  have hsame := hs.units (.attempt (.command n) i)
  unfold createUow
  rw [Segment.both_modify]
  refine ⟨(hs.weaken fun _ => Unused.next).setUow (not_unused_next n i)
    ⟨hsame.completed, hsame.pendingEvents⟩, ?_, ?_⟩
  · simp [World.setUow, hunit]
  · simp [World.setUow, hunit']

theorem attempt_lockstep (hinter : Comparable wiring name) (hG : Vouches wiring name G)
    (hname : task.aggregateName = name) {n i : Nat} (hn : task.dispatch = .command n)
    (hs : Twins wiring name (Unused n i) s s') (ambient : Ambient) (partialLoad : Bool) :
    Lockstep G (Matching wiring name) (Attempted wiring name n)
      (fun _ => Twins wiring name (Unused n (i + 1)))
      (attempt wiring task ambient (.eventSourced partialLoad) i)
      (attempt (wiring.storingStates name) task ambient .stateStored i) s s' := by
  unfold attempt
  rw [hn]
  have hu := not_unused_next n i
  refine Lockstep.bind (Lockstep.call (fun _ _ _ _ ht => ht.twins.toMatching)
    (fun _ _ _ ht => ht.toMatching) fun _ _ => createUow_both hs) ?_
  intro _ _ t t' ht
  refine Lockstep.tryCatch (F := fun _ => Twins wiring name (Unused n (i + 1))) ?_ ?_
  · refine Lockstep.bind (executeLifecycle_lockstep hinter hG hu hname ht ambient partialLoad) ?_
    rintro _ _ t t' ⟨rfl, rfl, ht⟩
    refine Lockstep.bind (commit_lockstep hinter hu ht) ?_
    rintro events events' t t' ⟨hevents, ht⟩
    exact ⟨rfl, hevents, rfl, rfl, ht.weaken fun _ => Unused.later⟩
  · intro e t t' ht
    refine Lockstep.bind (tryRollback_lockstep hu ht) ?_
    exact fun _ _ _ _ ht => ⟨rfl, ht⟩

/-! ## Strategies -/

omit [JsValue J] in
theorem retryOnConflict_lockstep {α : Type} {R : α → α → World J → World J → Prop}
    {E : Err → World J → World J → Prop} {H : World J → World J → Prop}
    {I : Nat → World J → World J → Prop}
    {attempt attempt' : Nat → Eff J Infra α}
    (hattempt : ∀ i t t', I i t t' →
      Lockstep G H R (fun _ => I (i + 1)) (attempt i) (attempt' i) t t')
    (hE : ∀ i e t t', I (i + 1) t t' → E e t t') (retries i : Nat) (hs : I i s s') :
    Lockstep G H R E (retryOnConflict attempt retries i) (retryOnConflict attempt' retries i)
      s s' := by
  induction retries generalizing i s s' with
  | zero => exact (hattempt i s s' hs).mono (fun _ _ _ _ h => h) (hE i)
  | succ retries ih =>
      refine Lockstep.tryCatch (hattempt i s s' hs) ?_
      intro error t t' ht
      split
      · exact ih (i + 1) ht
      · exact ⟨rfl, hE i error t t' ht⟩

theorem holdingLock_lockstep {n : Nat} {ticket : Ticket} {aggregateName : String}
    {aggregateId : ID} {timeoutMs : Option Nat}
    {attempt attempt' : Eff J Infra (UowRef × List (Event J) × Option (PendingSnapshot J))}
    (hattempt : ∀ t t', Twins wiring name (Unused n 0) t t' →
      Lockstep G (Matching wiring name) (Attempted wiring name n) (fun _ => Twins wiring name (Unused n 1))
        attempt attempt' t t')
    (hs : Twins wiring name (Unused n 0) s s') :
    Lockstep G (Matching wiring name) (Attempted wiring name n) (fun _ => Twins wiring name (Unused (n + 1) 0))
      (holdingLock wiring ticket aggregateName aggregateId timeoutMs attempt)
      (holdingLock (wiring.storingStates name) ticket aggregateName aggregateId timeoutMs attempt')
      s s' := by
  have hlater : ∀ i t t', Twins wiring name (Unused n i) t t' →
      Twins wiring name (Unused (n + 1) 0) t t' := fun _ _ _ ht => ht.weaken fun _ => Unused.later
  have hrejects : ∀ c, Locker.releaseRejects (wiring.storingStates name) c =
      Locker.releaseRejects wiring c := fun _ => rfl
  refine Lockstep.bind ((acquire_lockstep hs ticket aggregateName aggregateId timeoutMs).mono
    (fun _ _ _ _ h => h) fun _ t t' => hlater 0 t t') ?_
  intro _ _ t t' ht
  -- the lock is given back whatever the attempt has come to
  refine Lockstep.tryFinally ((hattempt t t' ht).mono (fun _ _ _ _ h => h)
    fun _ t t' => hlater 1 t t') ?_ ?_
  · rintro a a' t t' ⟨huow, hevents, hnone, hnone', ht⟩
    refine Lockstep.call (fun _ _ _ _ h => h.2.2.2.2.toMatching) (fun _ _ _ ht => ht.toMatching)
      fun c _ => ?_
    rw [hrejects c]
    cases Locker.releaseRejects wiring c with
    | some error => exact ⟨rfl, ht⟩
    | none =>
        exact (both_release ht ticket aggregateName aggregateId).mono
          fun _ _ _ _ ht => ⟨huow, hevents, hnone, hnone', ht⟩
  · intro e t t' ht
    refine Lockstep.call (fun _ _ _ _ ht => ht.toMatching) (fun _ _ _ ht => ht.toMatching)
      fun c _ => ?_
    rw [hrejects c]
    cases Locker.releaseRejects wiring c with
    | some error => exact ⟨rfl, ht⟩
    | none => exact both_release ht ticket aggregateName aggregateId

/-! ## Publishing -/

theorem busDispatch_lockstep (hs : Twins wiring name P s s') (publisher : Option UowRef)
    {event event' : Event J} (h : SameEvent event event') :
    Lockstep G (Matching wiring name) (fun _ _ => Twins wiring name P) (fun _ => Twins wiring name P)
      (busDispatch publisher event : Eff J Infra Unit) (busDispatch publisher event') s s' := by
  have hsame : event'.unnumbered = event.unnumbered := h
  have hcalled : (Obs.dispatchCalled publisher event').shown =
      (Obs.dispatchCalled publisher event).shown := by simp only [Obs.shown, hsame]
  refine Lockstep.bind (Q := fun _ _ => Twins wiring name P)
    (Lockstep.call (fun _ _ _ _ ht => ht.toMatching) (fun _ _ _ ht => ht.toMatching)
      fun _ _ => hs.note hcalled rfl) ?_
  intro _ _ t t' ht
  refine Lockstep.call (fun _ _ _ _ ht => ht.toMatching) (fun _ _ _ ht => ht.toMatching)
    fun c _ => ?_
  cases c.rejects with
  | none => exact ht.note (by simp only [Obs.shown, hsame]) rfl
  | some error =>
      refine Segment.Both.bind (Q := fun _ _ => Twins wiring name P) ?_ fun _ _ _ _ ht => ⟨rfl, ht⟩
      exact ht.note (by simp only [Obs.shown, hsame]) rfl

theorem publish_lockstep (hs : Twins wiring name P s s') (publisher : UowRef)
    {events events' : List (Event J)} (hevents : List.Forall₂ SameEvent events events') :
    Lockstep G (Matching wiring name) (fun _ _ => Twins wiring name P) (fun _ => Twins wiring name P)
      (publish wiring publisher events) (publish (wiring.storingStates name) publisher events')
      s s' := by
  refine Lockstep.bind (Lockstep.forEach hevents hs fun event event' t t' h ht =>
    busDispatch_lockstep ht (some publisher) h) ?_
  intro _ _ t t' ht
  have houtbox : (wiring.storingStates name).outbox = wiring.outbox := rfl
  unfold onEventsDispatched
  rw [eventIds_of_sameEvents hevents, houtbox]
  dsimp only
  split
  · refine Lockstep.tryCatch (F := fun _ => Twins wiring name P)
      (Lockstep.call (fun _ _ _ _ ht => ht.toMatching) (fun _ _ _ ht => ht.toMatching) fun c _ => ?_)
      fun _ _ _ ht => ht
    cases c.rejects with
    | none => exact ht.setOutbox _ _
    | some error => exact ⟨rfl, ht⟩
  · exact ht

/-! ## Execution -/

theorem executeOwned_lockstep (hinter : Comparable wiring name) (hG : Vouches wiring name G)
    (hname : task.aggregateName = name) {n : Nat} (hn : task.dispatch = .command n)
    (hs : Twins wiring name (Unused n 0) s s') (ambient : Ambient) (partialLoad : Bool) :
    Lockstep G (Matching wiring name) (fun _ _ => Twins wiring name (Unused (n + 1) 0))
      (fun _ => Twins wiring name (Unused (n + 1) 0))
      (executeOwned wiring task ambient (.eventSourced partialLoad))
      (executeOwned (wiring.storingStates name) task ambient .stateStored) s s' := by
  have hconcurrency : (wiring.storingStates name).concurrency = wiring.concurrency := rfl
  refine Lockstep.bind (Q := Attempted wiring name n) ?_ ?_
  · unfold ConcurrencyStrategy.execute
    rw [hconcurrency]
    cases wiring.concurrency.resolve task.aggregateName with
    | optimistic maxRetries =>
        refine retryOnConflict_lockstep (I := fun i => Twins wiring name (Unused n i))
          (fun i t t' ht => attempt_lockstep hinter hG hname hn ht ambient partialLoad)
          (fun i _ t t' ht => ht.weaken fun _ => Unused.later) maxRetries 0 hs
    | pessimistic timeoutMs =>
        exact holdingLock_lockstep
          (fun t t' ht => attempt_lockstep hinter hG hname hn ht ambient partialLoad) hs
  · rintro ⟨uow, events, snapshot⟩ ⟨uow', events', snapshot'⟩ t t'
      ⟨huow, hevents, hnone, hnone', ht⟩
    obtain rfl : uow' = uow := huow
    obtain rfl : snapshot = none := hnone
    obtain rfl : snapshot' = none := hnone'
    exact publish_lockstep ht uow' hevents

theorem alreadyProcessed_lockstep (hs : Twins wiring name P s s') :
    Lockstep G (Matching wiring name) (fun duplicate duplicate' t t' => duplicate' = duplicate ∧ Twins wiring name P t t')
      (fun _ => Twins wiring name P) (alreadyProcessed wiring task)
      (alreadyProcessed (wiring.storingStates name) task) s s' := by
  have hstore : (wiring.storingStates name).idempotency = wiring.idempotency := rfl
  unfold alreadyProcessed
  rw [hstore]
  split
  · refine Lockstep.call (fun _ _ _ _ ht => ht.2.toMatching) (fun _ _ _ ht => ht.toMatching)
      fun c _ => ?_
    refine Segment.both_of_eq rfl rfl ?_
    rw [hs.idempotencyStore]
    refine ⟨rfl, ?_⟩
    split
    · exact (hs.setIdempotency _).note rfl rfl
    · exact hs.setIdempotency _
  · exact ⟨rfl, hs⟩

theorem execute_lockstep (hinter : Comparable wiring name) (hG : Vouches wiring name G)
    (hname : task.aggregateName = name) {n : Nat} (hn : task.dispatch = .command n)
    (hs : Twins wiring name (Unused n 0) s s') {ambient : Ambient} (huow : ambient.uow = none) :
    Lockstep G (Matching wiring name) (fun _ _ => Twins wiring name (Unused (n + 1) 0))
      (fun _ => Twins wiring name (Unused (n + 1) 0)) (execute wiring task ambient)
      (execute (wiring.storingStates name) task ambient) s s' := by
  obtain ⟨partialLoad, hsourced⟩ := hinter.sourced
  subst hname
  have hstored : (wiring.storingStates task.aggregateName).persistence task.aggregateName =
      some .stateStored := if_pos rfl
  unfold execute
  rw [hsourced, hstored, huow]
  refine Lockstep.bind ((alreadyProcessed_lockstep hs).mono (fun _ _ _ _ h => h)
    fun _ _ _ ht => ht.weaken fun _ => Unused.later) ?_
  rintro _ duplicate t t' ⟨rfl, ht⟩
  cases duplicate with
  | true => exact ht.weaken fun _ => Unused.later
  | false => exact executeOwned_lockstep hinter hG rfl hn ht ambient partialLoad

theorem dispatch_lockstep (hinter : Comparable wiring name) (hG : Vouches wiring name G)
    (hname : task.aggregateName = name) {n : Nat} (hn : task.dispatch = .command n)
    (hs : Twins wiring name (Unused n 0) s s') {ambient : Ambient} (huow : ambient.uow = none) :
    Lockstep G (Matching wiring name) (fun _ _ => Twins wiring name (Unused (n + 1) 0))
      (fun _ => Twins wiring name (Unused (n + 1) 0)) (dispatch wiring task ambient)
      (dispatch (wiring.storingStates name) task ambient) s s' := by
  have hjoins : ∀ w : World J, ∀ uow ∈ ambient.uow, (w.uows uow).created = true := by
    rw [huow]
    exact fun _ _ h => nomatch h
  refine Lockstep.bind (Q := fun _ _ => Twins wiring name (Unused n 0))
    (Lockstep.await (fun _ _ _ _ ht => ht.toMatching) (fun _ _ _ ht => ht.toMatching)
      fun _ => ?_) ?_
  · rw [if_pos (hjoins s), if_pos (hjoins s')]
    exact .some (hs.note rfl rfl)
  intro _ _ t t' ht
  refine Lockstep.bind (execute_lockstep hinter hG hname hn ht huow).attempt ?_
  rintro (e | _) (e' | _) t t' houtcome
  · obtain ⟨rfl, ht⟩ := houtcome
    exact Lockstep.call (fun _ _ _ _ ht => ht.toMatching) (fun _ _ _ ht => ht.toMatching)
      fun _ _ => Segment.Both.bind (Q := fun _ _ => Twins wiring name (Unused (n + 1) 0))
        (ht.note rfl rfl) fun _ _ _ _ ht => ⟨rfl, ht⟩
  · exact houtcome.elim
  · exact houtcome.elim
  · have ht : Twins wiring name (Unused (n + 1) 0) t t' := houtcome
    exact Lockstep.call (fun _ _ _ _ ht => ht.toMatching) (fun _ _ _ ht => ht.toMatching)
      fun _ _ => Segment.Both.bind (Q := fun _ _ => Twins wiring name (Unused (n + 1) 0))
        (ht.note rfl rfl) fun _ _ _ _ ht => ht

/-! ## Commands one after another -/

/-- The calls are made in turn, from the `n`-th on; their callers handle the rejections. -/
def inTurn (wiring : Wiring J Infra) : (n : Nat) → List (CommandCall J) → Eff J Infra Unit
  | _, [] => .pure ()
  | n, call :: rest => do
      (call.run wiring n).tryCatch fun _ => .pure ()
      inTurn wiring (n + 1) rest

theorem inTurn_lockstep (hinter : Comparable wiring name) (hG : Vouches wiring name G)
    {calls : List (CommandCall J)}
    (hcalls : ∀ call ∈ calls, call.aggregateName = name ∧ call.ambient.uow = none) (n : Nat)
    (hs : Twins wiring name (Unused n 0) s s') :
    Lockstep G (Matching wiring name) (fun _ _ => Twins wiring name fun _ => False) (fun _ _ _ => False)
      (inTurn wiring n calls) (inTurn (wiring.storingStates name) n calls) s s' := by
  induction calls generalizing n s s' with
  | nil => exact hs.weaken fun _ => False.elim
  | cons call rest ih =>
      rw [List.forall_mem_cons] at hcalls
      obtain ⟨⟨hname, huow⟩, hrest⟩ := hcalls
      have hn : (call.task n).dispatch = .command n := rfl
      refine Lockstep.bind (Q := fun _ _ => Twins wiring name (Unused (n + 1) 0)) ?_
        fun _ _ t t' ht => ih hrest (n + 1) ht
      exact Lockstep.tryCatch (dispatch_lockstep hinter hG hname hn hs huow)
        fun _ _ _ ht => ht

/-- What the two persistences leave behind. -/
structure Alike (wiring : Wiring J Infra) (name : String) (s s' : World J) : Prop where
  shown : s'.history.filterMap Obs.shown = s.history.filterMap Obs.shown
  states : ∀ id, Mirrors wiring name id s s'
  viewStores : s'.viewStores = s.viewStores
  idempotencyStore : s'.idempotencyStore = s.idempotencyStore

theorem Twins.alike (hs : Twins wiring name P s s') : Alike wiring name s s' :=
  ⟨hs.shown, hs.states, hs.viewStores, hs.idempotencyStore⟩

/-! ## Aggregates without nullish states -/

/-- The evolve handlers do not answer a nullish state, but for the initial one. -/
structure Interchangeable (wiring : Wiring J Infra) (name : String) : Prop extends
    Comparable wiring name where
  coalesces : ∀ event handler payload state state',
    (wiring.aggregates name).evolve event = some handler → handler payload state = .ok state' →
      nullishCoalesce (some state') (wiring.aggregates name).initialState = state'

namespace Interchangeable

theorem coalesces_applyEvents (hinter : Interchangeable wiring name) {state newState : J}
    {events : List (Event J)} (hstate : coalesced wiring name state = state)
    (happly : (wiring.aggregates name).applyEvents state events = .ok newState) :
    coalesced wiring name newState = newState := by
  induction events generalizing state with
  | nil =>
      obtain rfl := Except.ok.inj happly
      exact hstate
  | cons event rest ih =>
      rw [Aggregate.applyEvents, List.foldlM_cons] at happly
      cases hstep : (wiring.aggregates name).applyEvent state event with
      | error e =>
          rw [hstep] at happly
          cases happly
      | ok next =>
          rw [hstep] at happly
          refine ih ?_ happly
          unfold Aggregate.applyEvent at hstep
          cases hon : (wiring.aggregates name).evolve event.name with
          | none =>
              rw [hon] at hstep
              obtain rfl := Except.ok.inj hstep
              exact hstate
          | some handler =>
              rw [hon] at hstep
              exact hinter.coalesces _ _ _ _ _ hon hstep

theorem vouches (hinter : Interchangeable wiring name) :
    Vouches wiring name fun _ _ => True := by
  intro _ _ _ _ state events _ _ _ hreplay _
  rw [Aggregate.replay, Aggregate.replayFrom] at hreplay
  cases hupcast : (wiring.aggregates name).upcast events with
  | error e =>
      rw [hupcast] at hreplay
      cases hreplay
  | ok upcasted =>
      rw [hupcast] at hreplay
      exact hinter.coalesces_applyEvents (nullishCoalesce_self _) hreplay

end Interchangeable

/-- Under the same choices of their environment, the commands end over both persistences or
over neither, with the same observations, the stored states being the replays of the streams. -/
theorem persistences_interchangeable (hinter : Interchangeable wiring name)
    {calls : List (CommandCall J)}
    (hcalls : ∀ call ∈ calls, call.aggregateName = name ∧ call.ambient.uow = none)
    (choices : List (Choice Infra)) :
    BothEnd (fun _ _ => Alike wiring name) (fun _ _ _ => False)
      ((inTurn wiring 0 calls).alone choices {})
      ((inTurn (wiring.storingStates name) 0 calls).alone choices {}) :=
  (((inTurn_lockstep hinter.toComparable hinter.vouches hcalls 0 Twins.empty).mono
    (fun _ _ _ _ ht => ht.alike) fun _ _ _ h => h).run choices fun _ _ => trivial).2

namespace Sample

/-- The counter, with a command that emits nothing. -/
def touchable : Wiring Value Unit :=
  { Sample.wiring with
    aggregates := fun _ =>
      { counter with
        decide := fun name =>
          if name = "Touch" then some fun _ _ _ => .ok (.many []) else counter.decide name } }

theorem touchable_interchangeable : Interchangeable touchable "Counter" where
  sourced := ⟨true, rfl⟩
  unsnapped := rfl
  coalesces event handler payload state state' hon happly := by
    change (if event = "Added" then _ else none) = some handler at hon
    split at hon
    · obtain rfl := Option.some.inj hon
      obtain rfl := Except.ok.inj happly
      rfl
    · cases hon
  numberless := List.forall_mem_nil _

/-- Two additions, and between them a command that emits nothing and one that fails. -/
def touched : List (CommandCall Value) :=
  [call (add "a" (some 1)), call ⟨"Touch", none, none, .string "a"⟩,
    call ⟨"Drop", none, none, .string "a"⟩, call (add "a" (some 2))]

end Sample

/-- The stream has two events where the stored state is at its third version. -/
theorem persistences_interchangeable_touched :
    (((inTurn Sample.touchable 0 Sample.touched).alone (List.replicate 40 Sample.tick) {}).any
      fun ended => (ended.2.eventStore.load "Counter" (.string "a")).length = 2) = true ∧
    (((inTurn (Sample.touchable.storingStates "Counter") 0 Sample.touched).alone
      (List.replicate 40 Sample.tick) {}).any
        fun ended => StateStore.version ended.2.stateStore "Counter:a" = 3) = true ∧
    BothEnd (fun _ _ => Alike Sample.touchable "Counter") (fun _ _ _ => False)
      ((inTurn Sample.touchable 0 Sample.touched).alone (List.replicate 40 Sample.tick) {})
      ((inTurn (Sample.touchable.storingStates "Counter") 0 Sample.touched).alone
        (List.replicate 40 Sample.tick) {}) :=
  ⟨by decide +kernel, by decide +kernel,
    persistences_interchangeable Sample.touchable_interchangeable (by decide) _⟩

end Noddde
