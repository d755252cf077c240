import Noddde.Proofs.TwinWorlds
/-!
# Commits of twin units of work

The same operations, but for the save at their head, run to the same end.
-/

namespace Noddde

open Async

variable {J Infra : Type} [JsValue J] {wiring : Wiring J Infra} {name : String}
  {G : World J → World J → Prop} {P : UowRef → Prop} {u : UowRef} {s s' : World J}

/-! ## Operations -/

/-- Two operations, neither of them a save of the aggregate. -/
inductive TwinOperation : Operation J → Operation J → Prop where
  | claim (commandId : ID) (aggregateName : String) (aggregateId : ID) :
      TwinOperation (.saveIdempotency commandId aggregateName aggregateId)
        (.saveIdempotency commandId aggregateName aggregateId)
  | view (projection : String) (viewId : ID) {e e' : Event J} (h : SameEvent e e') :
      TwinOperation (.updateView projection viewId e) (.updateView projection viewId e')
  | outbox (entries entries' : List (OutboxEntry J)) :
      TwinOperation (.saveOutbox entries) (.saveOutbox entries')

theorem both_finishing (hu : ¬ P u) (operation operation' : Operation J) {m m' : Sync J Unit}
    (h : Segment.Both (fun _ _ => Twins wiring name P) (fun _ => Twins wiring name P) m m' s s') :
    Segment.Both (fun _ _ => Twins wiring name P) (fun _ => Twins wiring name P)
      (finishing u operation m) (finishing u operation' m') s s' := by
  unfold Segment.Both at h ⊢
  unfold finishing
  rcases hm : m s with ⟨e | a, t⟩ <;> rcases hm' : m' s' with ⟨e' | a', t'⟩ <;> rw [hm, hm'] at h
  · obtain ⟨rfl, ht⟩ := h
    exact ⟨rfl, ht.refused hu operation operation' e⟩
  · exact h.elim
  · exact h.elim
  · have ht : Twins wiring name P t t' := h
    exact ht.ran hu operation operation'

theorem both_saveIdempotency (hs : Twins wiring name P s s') (commandId : ID)
    (aggregateName : String) (aggregateId : ID) (now : Nat) :
    Segment.Both (fun _ _ => Twins wiring name P) (fun _ => Twins wiring name P)
      (saveIdempotency wiring commandId aggregateName aggregateId now)
      (saveIdempotency wiring commandId aggregateName aggregateId now) s s' := by
  unfold Segment.Both saveIdempotency
  rw [hs.idempotencyStore]
  cases IdempotencyStore.save s.idempotencyStore (wiring.idempotency.getD none) now
    { commandId, aggregateName, aggregateId, processedAt := now } with
  | mk saved store =>
      cases saved with
      | ok _ => exact hs.setIdempotency store
      | error e => exact ⟨rfl, hs.setIdempotency store⟩

theorem both_saveView (hs : Twins wiring name P s s') (projection : String) (viewId : ID)
    (newView : Option J) :
    Segment.Both (fun _ _ => Twins wiring name P) (fun _ => Twins wiring name P)
      (saveView projection viewId newView) (saveView projection viewId newView) s s' := by
  unfold saveView
  rw [Segment.both_modify, hs.viewStores]
  exact hs.setViews _

theorem reduceView_lockstep (hs : Twins wiring name P s s') (hu : ¬ P u)
    {projection : Projection J Infra} {handler : ProjectionHandler J Infra}
    (operation operation' : Operation J) (viewId : ID) {e e' : Event J}
    (hreduce : handler.reduce e' = handler.reduce e) :
    Lockstep G (Matching wiring name) (fun newView newView' t t' => newView' = newView ∧ Twins wiring name P t t')
      (fun _ => Twins wiring name P) (reduceView projection handler u operation viewId e)
      (reduceView projection handler u operation' viewId e') s s' := by
  refine Lockstep.bind (Q := fun view view' t t' => view' = view ∧ Twins wiring name P t t')
    (Lockstep.call (fun _ _ _ _ ht => ht.2.toMatching) (fun _ _ _ ht => ht.toMatching)
      fun _ _ => ?_) ?_
  · rw [Segment.both_read, hs.viewStores]
    exact ⟨rfl, hs⟩
  · rintro _ view t t' ⟨rfl, ht⟩
    refine Lockstep.call (fun _ _ _ _ ht => ht.2.toMatching) (fun _ _ _ ht => ht.toMatching)
      fun c _ => ?_
    rw [hreduce]
    cases handler.reduce e view c.infra with
    | ok newView =>
        have hdone : newView = newView ∧ Twins wiring name P t t' := ⟨rfl, ht⟩
        exact hdone
    | error error =>
        have hrefused := ht.refused hu operation operation' error
        exact Segment.both_of_eq rfl rfl (And.intro rfl hrefused)

omit [JsValue J] in
/-- A view update closes over one projection and handler on both sides, and these do not
look at the number of the event. -/
theorem Comparable.reduce_eq (hinter : Comparable wiring name) {e e' : Event J}
    (h : SameEvent e e') {projectionName : String} {projection : Projection J Infra}
    {handler : ProjectionHandler J Infra}
    (hhandler : projectionHandler wiring projectionName e = some (projection, handler)) :
    handler.reduce e' = handler.reduce e := by
  simp only [projectionHandler, Option.bind_eq_bind, Option.bind_eq_some_iff] at hhandler
  obtain ⟨found, hfound, handler', hon, heq⟩ := hhandler
  obtain ⟨rfl, rfl⟩ := Prod.mk.inj (Option.some.inj heq)
  have hmem := List.mem_of_find?_eq_some hfound
  obtain ⟨-, hreduce⟩ := hinter.numberless _ hmem _ _ hon
  funext view infra
  rw [hreduce e', hreduce e, h]

theorem executeOperation_lockstep (hinter : Comparable wiring name) (hu : ¬ P u)
    (hs : Twins wiring name P s s') {operation operation' : Operation J}
    (hop : TwinOperation operation operation') :
    Lockstep G (Matching wiring name) (fun _ _ => Twins wiring name P) (fun _ => Twins wiring name P)
      (executeOperation wiring u operation)
      (executeOperation (wiring.storingStates name) u operation') s s' := by
  cases hop with
  | claim commandId aggregateName aggregateId =>
      exact Lockstep.call (fun _ _ _ _ ht => ht.toMatching) (fun _ _ _ ht => ht.toMatching)
        fun c _ => both_finishing hu _ _
        (both_saveIdempotency hs commandId aggregateName aggregateId c.now)
  | view projectionName viewId h =>
      rename_i e e'
      have hsame : projectionHandler (wiring.storingStates name) projectionName e' =
          projectionHandler wiring projectionName e := by
        unfold projectionHandler
        rw [h.name_eq]
        rfl
      simp only [executeOperation, hsame]
      cases hhandler : projectionHandler wiring projectionName e with
      | none =>
          exact Lockstep.call (fun _ _ _ _ ht => ht.toMatching) (fun _ _ _ ht => ht.toMatching)
            fun _ _ => both_finishing hu _ _ hs
      | some found =>
          obtain ⟨projection, handler⟩ := found
          refine Lockstep.bind
            (reduceView_lockstep hs hu _ _ viewId (hinter.reduce_eq h hhandler)) ?_
          rintro _ newView t t' ⟨rfl, ht⟩
          exact Lockstep.call (fun _ _ _ _ ht => ht.toMatching) (fun _ _ _ ht => ht.toMatching)
            fun _ _ => both_finishing hu _ _ (both_saveView ht projectionName viewId newView)
  | outbox entries entries' =>
      exact Lockstep.call (fun _ _ _ _ ht => ht.toMatching) (fun _ _ _ ht => ht.toMatching)
        fun _ _ => both_finishing hu _ _ (hs.setOutbox _ _)

/-! ## Commit and rollback -/

/-- The two units of work are ready to commit: one decision, and what follows it. -/
structure Prepared (wiring : Wiring J Infra) (name : String) (P : UowRef → Prop) (u : UowRef)
    (s s' : World J) : Prop where
  twins : Twins wiring name P s s'
  opened : (s.uows u).completed = false
  operations : ∃ id events version newState version' rest rest',
    (s.uows u).operations = .saveEvents name id events version :: rest ∧
    (s'.uows u).operations = .saveState name id newState version' :: rest' ∧
    List.Forall₂ TwinOperation rest rest' ∧
    SaveBoth wiring name id events version newState version' s s'

omit [JsValue J] in
theorem assertNotCompleted_eq {w : World J} (h : (w.uows u).completed = false) :
    assertNotCompleted u w = (.ok (), w) := by
  simp [assertNotCompleted, h]

omit [JsValue J] in
theorem beginCommit_eq {w : World J} (h : (w.uows u).completed = false) :
    beginCommit u w = (.ok (w.uows u).operations, w.committing u) := by
  have hread : beginCommit u w =
      (.ok ((w.committing u).uows u).operations, w.committing u) := by
    simp [beginCommit, bind, assertNotCompleted_eq h, Segment.modify, Segment.read]
  rw [hread]
  simp [World.committing, World.setUow]

theorem commit_lockstep (hinter : Comparable wiring name) (hu : ¬ P u)
    (hs : Prepared wiring name P u s s') :
    Lockstep G (Matching wiring name) (fun events events' t t' =>
        List.Forall₂ SameEvent events events' ∧ Twins wiring name P t t')
      (fun _ => Twins wiring name P) (commit wiring u) (commit (wiring.storingStates name) u)
      s s' := by
  obtain ⟨htwins, hopened, id, events, version, newState, version', rest, rest', hops, hops',
    hrest, hsave⟩ := hs
  have hopened' : (s'.uows u).completed = false := (htwins.units u).completed.trans hopened
  refine Lockstep.bind (Q := fun operations operations' t t' =>
    operations = .saveEvents name id events version :: rest ∧
    operations' = .saveState name id newState version' :: rest' ∧
    Twins wiring name P t t' ∧
    SaveBoth wiring name id events version newState version' t t')
    (Lockstep.call (fun _ _ _ _ h => h.2.2.1.toMatching) (fun _ _ _ ht => ht.toMatching)
      fun _ _ => ?_) ?_
  · have hbegun : Twins wiring name P (s.committing u) (s'.committing u) :=
      htwins.setUow hu ⟨rfl, (htwins.units u).pendingEvents⟩
    have hkept : SaveBoth wiring name id events version newState version' (s.committing u)
        (s'.committing u) := { hsave with }
    exact Segment.both_of_eq (beginCommit_eq hopened) (beginCommit_eq hopened')
      ⟨hops, hops', hbegun, hkept⟩
  rintro _ _ t t' ⟨rfl, rfl, ht, hsave⟩
  refine Lockstep.bind (Q := fun _ _ => Twins wiring name P) (Lockstep.bind
    (Q := fun _ _ => Twins wiring name P)
    (Lockstep.call (fun _ _ _ _ ht => ht.toMatching) (fun _ _ _ ht => ht.toMatching)
      fun _ _ => both_finishing hu _ _ ?_) ?_) ?_
  · obtain ⟨eventStore, stateStore, hevents, hstates, hsaved⟩ := ht.save hsave
    unfold Segment.Both saveEvents saveState updating
    simp only [hevents, hstates]
    exact hsaved
  · intro _ _ t t' ht
    exact Lockstep.forEach hrest ht fun op op' t t' hop ht =>
      executeOperation_lockstep hinter hu ht hop
  · intro _ _ t t' ht
    refine Lockstep.call (fun _ _ _ _ ht => ht.2.toMatching) (fun _ _ _ ht => ht.toMatching)
      fun c _ => ?_
    unfold endCommit
    have hrejects : transactionRejects (wiring.storingStates name) c =
        transactionRejects wiring c := rfl
    rw [hrejects]
    cases transactionRejects wiring c with
    | none => exact ⟨(ht.units u).pendingEvents, ht.committed hu⟩
    | some e => exact ⟨rfl, ht.commitRejected hu e⟩

theorem tryRollback_lockstep (hu : ¬ P u) (hs : Twins wiring name P s s')
    {E : Err → World J → World J → Prop} :
    Lockstep G (Matching wiring name) (fun _ _ => Twins wiring name P) E (tryRollback wiring u)
      (tryRollback (wiring.storingStates name) u) s s' := by
  refine Lockstep.tryCatch (F := fun _ => Twins wiring name P)
    (Lockstep.call (fun _ _ _ _ ht => ht.toMatching) (fun _ _ _ ht => ht.toMatching) fun c _ => ?_)
    fun _ _ _ ht => ht
  have hcompleted := (hs.units u).completed
  unfold Segment.Both
  cases hopened : (s.uows u).completed with
  | true =>
      rw [hopened] at hcompleted
      simpa [bind, assertNotCompleted, hopened, hcompleted] using ⟨rfl, hs⟩
  | false =>
      rw [hopened] at hcompleted
      have hrejects : transactionRejects (wiring.storingStates name) c =
          transactionRejects wiring c := rfl
      simp only [bind, assertNotCompleted_eq hopened, assertNotCompleted_eq hcompleted,
        Segment.modify, hrejects]
      cases transactionRejects wiring c with
      | none => exact hs.rolledBack hu
      | some e => exact ⟨rfl, hs.rolledBack hu⟩

/-! ## Locks -/

omit [JsValue J] in
theorem Locker.enter_of_free {w : World J} {ticket : Ticket} {aggregateName : String}
    {aggregateId : ID} (h : (w.locks (compositeKey aggregateName aggregateId)).locked = false) :
    Locker.enter ticket aggregateName aggregateId w =
      (.ok true, (((w.note (.acquireCalled ticket (compositeKey aggregateName aggregateId))).setLock
        (compositeKey aggregateName aggregateId) fun entry =>
          { entry with locked := true, holder := some ticket }).note
            (.acquired ticket (compositeKey aggregateName aggregateId)))) :=
  if_pos h

omit [JsValue J] in
theorem Locker.enter_of_locked {w : World J} {ticket : Ticket} {aggregateName : String}
    {aggregateId : ID} (h : (w.locks (compositeKey aggregateName aggregateId)).locked = true) :
    Locker.enter ticket aggregateName aggregateId w =
      (.ok false, (w.note (.acquireCalled ticket (compositeKey aggregateName aggregateId))).setLock
        (compositeKey aggregateName aggregateId) fun entry =>
          { entry with queue := entry.queue ++ [ticket] }) :=
  if_neg (ne_false_of_eq_true h)

theorem both_enter (hs : Twins wiring name P s s') (ticket : Ticket) (aggregateName : String)
    (aggregateId : ID) :
    Segment.Both (fun entered entered' t t' => entered = entered' ∧ Twins wiring name P t t')
      (fun _ => Twins wiring name P) (Locker.enter ticket aggregateName aggregateId)
      (Locker.enter ticket aggregateName aggregateId) s s' := by
  have hcalled := hs.note (o := .acquireCalled ticket (compositeKey aggregateName aggregateId)) rfl rfl
  have hlocks := congrFun hs.locks (compositeKey aggregateName aggregateId)
  cases hlocked : (s.locks (compositeKey aggregateName aggregateId)).locked with
  | false =>
      exact Segment.both_of_eq (Locker.enter_of_free hlocked)
        (Locker.enter_of_free (hlocks ▸ hlocked)) ⟨rfl, (hcalled.setLock _ _).note rfl rfl⟩
  | true =>
      exact Segment.both_of_eq (Locker.enter_of_locked hlocked)
        (Locker.enter_of_locked (hlocks ▸ hlocked)) ⟨rfl, hcalled.setLock _ _⟩

theorem acquire_lockstep (hs : Twins wiring name P s s') (ticket : Ticket)
    (aggregateName : String) (aggregateId : ID) (timeoutMs : Option Nat) :
    Lockstep G (Matching wiring name) (fun _ _ => Twins wiring name P) (fun _ => Twins wiring name P)
      (Locker.acquire ticket aggregateName aggregateId timeoutMs : Eff J Infra Unit)
      (Locker.acquire ticket aggregateName aggregateId timeoutMs) s s' := by
  refine Lockstep.bind (Lockstep.call (fun _ _ _ _ ht => ht.2.toMatching) (fun _ _ _ ht => ht.toMatching)
    fun _ _ => both_enter hs ticket aggregateName aggregateId) ?_
  rintro entered _ t t' ⟨rfl, ht⟩
  cases entered with
  | true => exact ht
  | false =>
      refine Lockstep.await (fun _ _ _ _ ht => ht.toMatching) (fun _ _ _ ht => ht.toMatching)
        fun c => ?_
      have hlocks := congrFun ht.locks (compositeKey aggregateName aggregateId)
      unfold Locker.waiting
      simp only [hlocks]
      split
      · cases timeoutMs with
        | none => exact .none
        | some timeoutMs =>
            dsimp only
            split
            · exact .some ⟨rfl, (ht.setLock _ _).note rfl rfl⟩
            · exact .none
      · exact .some (ht.note rfl rfl)

theorem both_release (hs : Twins wiring name P s s') (ticket : Ticket) (aggregateName : String)
    (aggregateId : ID) :
    Segment.Both (fun _ _ => Twins wiring name P) (fun _ => Twins wiring name P)
      (Locker.release ticket aggregateName aggregateId)
      (Locker.release ticket aggregateName aggregateId) s s' := by
  have hreleased := hs.note (o := .released ticket (compositeKey aggregateName aggregateId)) rfl rfl
  have hlocks := congrFun hs.locks (compositeKey aggregateName aggregateId)
  unfold Locker.release
  dsimp only [World.note, Segment.Both]
  rw [hlocks]
  split
  · exact hreleased
  · split
    · exact (hreleased.setLock _ _).note rfl rfl
    · have hfreed := hreleased.setLock (compositeKey aggregateName aggregateId) fun entry =>
        { entry with locked := false, holder := none }
      exact hfreed

end Noddde
