import Noddde.Proofs.Contribution
/-!
# Proof rules for commit and rollback

The commit loop and the rollback of a unit of work, for any protocol: what has
to be shown of each thing that they can do.
-/

namespace Noddde

open Async

variable {J Infra : Type} (wiring : Wiring J Infra)

/-! ## Running one operation -/

def Stores (operation : Operation J) (s t : World J) : Prop :=
  match operation with
  | .saveEvents aggregateName aggregateId events expectedVersion =>
      ∃ eventStore,
        s.eventStore.save aggregateName aggregateId events expectedVersion = .ok eventStore ∧
        t = { s with eventStore }
  | .saveState aggregateName aggregateId state expectedVersion =>
      ∃ stateStore,
        StateStore.save s.stateStore aggregateName aggregateId state expectedVersion =
          .ok stateStore ∧
        t = { s with stateStore }
  | .saveIdempotency commandId aggregateName aggregateId =>
      ∃ now, (s.idempotencyStore.save (wiring.idempotency.getD none) now
          { commandId, aggregateName, aggregateId, processedAt := now }).1 = .ok () ∧
        t = { s with
          idempotencyStore := (s.idempotencyStore.save (wiring.idempotency.getD none) now
            { commandId, aggregateName, aggregateId, processedAt := now }).2 }
  | .updateView .. => ∃ viewStores, t = { s with viewStores }
  | .saveOutbox entries => t = { s with outboxStore := s.outboxStore.save entries }
  | .saveSaga sagaName sagaId state expectedVersion =>
      ∃ sagaStore,
        StateStore.save s.sagaStore sagaName sagaId state expectedVersion = .ok sagaStore ∧
        t = { s with sagaStore }

def Refuses (operation : Operation J) (e : Err) (s t : World J) : Prop :=
  match operation with
  | .saveEvents aggregateName aggregateId events expectedVersion =>
      s.eventStore.save aggregateName aggregateId events expectedVersion = .error e ∧ t = s
  | .saveState aggregateName aggregateId state expectedVersion =>
      StateStore.save s.stateStore aggregateName aggregateId state expectedVersion =
        .error e ∧ t = s
  | .saveIdempotency commandId aggregateName aggregateId =>
      ∃ now, (s.idempotencyStore.save (wiring.idempotency.getD none) now
          { commandId, aggregateName, aggregateId, processedAt := now }).1 = .error e ∧
        t = { s with
          idempotencyStore := (s.idempotencyStore.save (wiring.idempotency.getD none) now
            { commandId, aggregateName, aggregateId, processedAt := now }).2 }
  | .updateView .. => t = s
  | .saveOutbox _ => False
  | .saveSaga sagaName sagaId state expectedVersion =>
      StateStore.save s.sagaStore sagaName sagaId state expectedVersion = .error e ∧ t = s

theorem finishing_wp {u : UowRef} {operation : Operation J} {m : Sync J Unit}
    {Q : Except Err Unit → World J → Prop} {w : World J} :
    (finishing u operation m).wp Q w ↔ m.wp (fun r t => match r with
      | .ok () => Q (.ok ()) (t.ran u operation)
      | .error e => Q (.error e) (t.refused u operation e)) w := by
  unfold Segment.wp finishing
  rcases m w with ⟨_ | _, t⟩ <;> rfl

theorem updating_wp {update : World J → Except Err (World J)}
    {Q : Except Err Unit → World J → Prop} {w : World J} :
    (updating update).wp Q w ↔ match update w with
      | .ok w' => Q (.ok ()) w'
      | .error e => Q (.error e) w := by
  unfold Segment.wp updating
  cases update w <;> rfl

section Rules

variable {ι : Type} {P : Protocol ι (World J)} {i : ι} {s : World J} {u : UowRef}

structure RunsOperation (P : Protocol ι (World J)) (i : ι) (u : UowRef)
    (operation : Operation J) (Q : World J → Prop) (E : Err → World J → Prop) (s : World J) :
    Prop where
  ran : ∀ t t', P.inv t → P.rely i s t → Stores wiring operation t t' →
    P.Allows i Q t (t'.ran u operation)
  refused : ∀ t t' e, P.inv t → P.rely i s t → Refuses wiring operation e t t' →
    P.Allows i (E e) t (t'.refused u operation e)

theorem RunsOperation.of_rely {operation : Operation J} {Q : World J → Prop}
    {E : Err → World J → Prop} {t : World J}
    (h : RunsOperation wiring P i u operation Q E s) (hst : P.rely i s t) :
    RunsOperation wiring P i u operation Q E t where
  ran v v' hv htv := h.ran v v' hv (P.rely_trans i hst htv)
  refused v v' e hv htv := h.refused v v' e hv (P.rely_trans i hst htv)

theorem finishing_safe {operation : Operation J} {m : Choice Infra → Sync J Unit}
    {Q : World J → Prop} {E : Err → World J → Prop}
    (hm : ∀ c t, (m c).wp (fun r t' => match r with
      | .ok () => Stores wiring operation t t'
      | .error e => Refuses wiring operation e t t') t)
    (h : RunsOperation wiring P i u operation Q E s) :
    Safe P i (fun _ => Q) E (call fun c => finishing u operation (m c)) s := by
  refine Safe.call fun t ht hst c => ?_
  rw [finishing_wp]
  refine Segment.wp_mono (hm c t) fun r t' hr => ?_
  cases r with
  | ok _ => exact h.ran t t' ht hst hr
  | error e => exact h.refused t t' e ht hst hr

variable [JsValue J]

theorem executeOperation_safe {operation : Operation J} {Q : World J → Prop}
    {E : Err → World J → Prop} (hs : P.inv s) (hidle : ∀ t, P.guar i t t)
    (h : RunsOperation wiring P i u operation Q E s) :
    Safe P i (fun _ => Q) E (executeOperation wiring u operation) s := by
  cases operation with
  | saveEvents aggregateName aggregateId events expectedVersion =>
      refine finishing_safe wiring (fun c t => ?_) h
      rw [saveEvents, updating_wp]
      cases hsave : t.eventStore.save aggregateName aggregateId events expectedVersion with
      | ok store => simpa only [hsave] using ⟨store, hsave, rfl⟩
      | error e => simpa only [hsave] using ⟨hsave, rfl⟩
  | saveState aggregateName aggregateId state expectedVersion =>
      refine finishing_safe wiring (fun c t => ?_) h
      rw [saveState, updating_wp]
      cases hsave : StateStore.save t.stateStore aggregateName aggregateId state
          expectedVersion with
      | ok store => simpa only [hsave] using ⟨store, hsave, rfl⟩
      | error e => simpa only [hsave] using ⟨hsave, rfl⟩
  | saveIdempotency commandId aggregateName aggregateId =>
      refine finishing_safe wiring (fun c t => ?_) h
      simp only [Segment.wp, saveIdempotency]
      split
      · exact ⟨c.now, ‹_›, rfl⟩
      · exact ⟨c.now, ‹_›, rfl⟩
  | updateView projectionName viewId event =>
      unfold executeOperation
      dsimp only
      split
      · exact finishing_safe wiring (fun c t => ⟨t.viewStores, rfl⟩) h
      · rename_i projection handler hhandler
        -- the view is loaded, then reduced, then written
        refine Safe.bind hs (Safe.bind hs (Safe.call fun t ht hst _ => ?_))
        simp only [Segment.wp_read]
        refine fun _ => ⟨ht, hidle t, fun v hv htv => ?_⟩
        have hv' := h.of_rely wiring (P.rely_trans i hst htv)
        refine Safe.call fun x hx hvx c => ?_
        unfold Segment.wp
        cases handler.reduce event _ c.infra with
        | error e =>
            exact hv'.refused x x e hx hvx rfl
        | ok newView =>
            refine fun _ => ⟨hx, hidle x, fun y hy hxy => ?_⟩
            exact finishing_safe wiring (fun c t => ⟨_, rfl⟩)
              (hv'.of_rely wiring (P.rely_trans i hvx hxy))
  | saveOutbox entries => exact finishing_safe wiring (fun c t => rfl) h
  | saveSaga sagaName sagaId state expectedVersion =>
      refine finishing_safe wiring (fun c t => ?_) h
      rw [saveSaga, updating_wp]
      cases hsave : StateStore.save t.sagaStore sagaName sagaId state expectedVersion with
      | ok store => simpa only [hsave] using ⟨store, hsave, rfl⟩
      | error e => simpa only [hsave] using ⟨hsave, rfl⟩

/-! ## Commit -/

omit [JsValue J] in
theorem beginCommit_wp {Q : Except Err (List (Operation J)) → World J → Prop}
    {w : World J} :
    (beginCommit u).wp Q w ↔
      if (w.uows u).completed then Q (.error (.error "UnitOfWork already completed")) w
      else Q (.ok (w.uows u).operations) (w.committing u) := by
  simp only [beginCommit, Segment.wp_bind, Segment.wp_modify, Segment.wp_read,
    assertNotCompleted_wp]
  have hops : ((w.committing u).uows u).operations = (w.uows u).operations := by
    simp [World.committing, World.setUow]
  rw [hops]

omit [JsValue J] in
theorem endCommit_wp {c : Choice Infra} {Q : Except Err (List (Event J)) → World J → Prop}
    {w : World J}
    (hreject : ∀ e, wiring.transactionMayReject = true → Q (.error e) (w.commitRejected u e))
    (hresolve : Q (.ok (w.uows u).pendingEvents) (w.committed u)) :
    (endCommit wiring u c).wp Q w := by
  unfold Segment.wp endCommit transactionRejects
  cases hmay : wiring.transactionMayReject with
  | false => simpa using hresolve
  | true =>
      cases c.rejects with
      | none => simpa using hresolve
      | some e => simpa using hreject e hmay

/-- What a protocol has to allow for a commit of `u`; `L rest` holds while `rest`
is still to run. -/
structure Commits (P : Protocol ι (World J)) (i : ι) (u : UowRef)
    (L : List (Operation J) → World J → Prop) (Q : List (Event J) → World J → Prop)
    (E : Err → World J → Prop) (s : World J) : Prop where
  idle : ∀ t, P.guar i t t
  closed : ∀ t, P.inv t → P.rely i s t → (t.uows u).completed = true →
    P.Allows i (E (.error "UnitOfWork already completed")) t t
  begin : ∀ t, P.inv t → P.rely i s t → (t.uows u).completed = false →
    P.Allows i (L (t.uows u).operations) t (t.committing u)
  loop : ∀ operation rest t, P.inv t → L (operation :: rest) t →
    RunsOperation wiring P i u operation (L rest) E t
  stable : ∀ rest t v, P.inv v → P.rely i t v → L rest t → L rest v
  resolve : ∀ t, P.inv t → L [] t →
    P.Allows i (Q (t.uows u).pendingEvents) t (t.committed u)
  reject : ∀ t e, P.inv t → L [] t → wiring.transactionMayReject = true →
    P.Allows i (E e) t (t.commitRejected u e)

theorem commit_safe {L : List (Operation J) → World J → Prop}
    {Q : List (Event J) → World J → Prop} {E : Err → World J → Prop} (hs : P.inv s)
    (h : Commits wiring P i u L Q E s) : Safe P i Q E (commit wiring u) s := by
  refine Safe.bind hs (Safe.call fun t ht hst _ => ?_)
  rw [beginCommit_wp]
  split
  · exact h.closed t ht hst ‹_›
  · rename_i hopen
    refine (h.begin t ht hst (by simpa using hopen)).mono fun v hv hL => ?_
    refine Safe.bind hv ((Safe.forEach hv hL (fun operation rest x hx hLx =>
      executeOperation_safe wiring hx h.idle (h.loop operation rest x hx hLx))
      h.stable).mono ?_ fun _ _ _ he => he)
    intro _ x hx hLx
    refine Safe.call fun y hy hxy c => ?_
    have hLy := h.stable [] x y hy hxy hLx
    exact endCommit_wp wiring (fun e hmay => h.reject y e hy hLy hmay)
      (h.resolve y hy hLy)

/-! ## Rollback -/

/-- What a protocol has to allow for a rollback of `u`. -/
structure RollsBack (P : Protocol ι (World J)) (i : ι) (u : UowRef) (Q : World J → Prop)
    (s : World J) : Prop where
  closed : ∀ t, P.inv t → P.rely i s t → (t.uows u).completed = true → P.Allows i Q t t
  discard : ∀ t, P.inv t → P.rely i s t → (t.uows u).completed = false →
    P.Allows i Q t (t.rolledBack u)

omit [JsValue J] in
/-- `try { await uow.rollback() } catch {}` -/
theorem tryRollback_safe {Q : World J → Prop} {E : Err → World J → Prop} (hs : P.inv s)
    (hQ : ∀ t v, P.inv v → P.rely i t v → Q t → Q v) (h : RollsBack P i u Q s) :
    Safe P i (fun _ => Q) E (tryRollback wiring u) s := by
  refine Safe.tryCatch hs (Safe.call fun t ht hst c => ?_)
  have herror : ∀ t, Q t →
      Safe P i (fun _ => Q) E (.pure () : Eff J Infra Unit) t :=
    fun t ht v hv htv => hQ t v hv htv ht
  simp only [Segment.wp_bind, assertNotCompleted_wp, Segment.wp_modify]
  split
  · exact (h.closed t ht hst ‹_›).mono fun v _ hv => herror v hv
  · rename_i hopen
    have hdiscard := h.discard t ht hst (by simpa using hopen)
    cases transactionRejects wiring c with
    | none => exact hdiscard
    | some e => exact hdiscard.mono fun v _ hv => herror v hv

end Rules

end Noddde
